import Golusoris.Oidc.Flow
import Golusoris.Sessions.Fixation
import Mathlib.Data.List.Count

/-!
# A flow state is used once

Source: `SessionFlow.Login` and `Callback` of `auth/oidc/handler.go`. In every
run a callback completes only what a login stored in its session, and reports
success only after `Complete` and `Renew` have succeeded. That a stored flow is
completed at most once holds in the runs in which no callback loads a flow that
another callback is about to delete.
-/

namespace Golusoris.Oidc

open List
open Function (update update_of_ne update_self)
open Lib (Machine)
open Sessions (Context Data Manager MemoryStore Session)

variable {Value : Type} {manager : Manager Value} {values : Values Value} {maxAge : Int}
  {before after : State Value} {event : Nat × Action Value} {history : List (Nat × Action Value)}

/-- The store gives back a copy of what was saved. -/
def Copies (manager : Manager Value) (values : Values Value) : Prop :=
  ∀ data out, manager.copy data = .ok out → readFlow values out = readFlow values data

variable {store next : MemoryStore Value} {context : Context} {id other : String} {now : Int}

theorem memory_load_ok {data : Data Value}
    (loaded : store.load manager context id now = (next, .ok data)) :
    ∃ entry, next id = some entry ∧ manager.copy entry.data = .ok data := by
  unfold MemoryStore.load at loaded
  split at loaded
  · cases loaded
  · split at loaded
    · cases loaded
    · rename_i entry found
      split at loaded
      · cases loaded
      · split at loaded
        · cases loaded
        · rename_i out copied
          split at loaded
          · cases loaded
          · cases loaded
            exact ⟨entry, found, copied⟩

theorem memory_load_notFound
    (loaded : store.load manager context id now = (next, .error .notFound)) : next id = none := by
  unfold MemoryStore.load at loaded
  split at loaded
  · cases loaded
  · split at loaded
    · cases loaded
      assumption
    · split at loaded
      · cases loaded
        exact update_self ..
      · split at loaded
        · cases loaded
        · split at loaded <;> cases loaded

variable {entry : Sessions.MemEntry Value}

/-- What a load leaves of the store was there before. -/
theorem memory_load_subset {result : Except Sessions.Error (Data Value)}
    (loaded : store.load manager context id now = (next, result)) (left : next other = some entry) :
    store other = some entry := by
  unfold MemoryStore.load at loaded
  split at loaded
  · cases loaded
    exact left
  · split at loaded
    · cases loaded
      exact left
    · split at loaded
      · cases loaded
        by_cases same : other = id
        · rw [same, update_self] at left
          cases left
        · rwa [update_of_ne same] at left
      · split at loaded
        · cases loaded
          exact left
        · cases loaded
          exact left

variable {cookie generated : Option String} {session : Session Value}

/-- A loaded session is that of the cookie, or a new one. -/
theorem load_ok (loaded : manager.load store context cookie now generated = (next, .ok session)) :
    (cookie = some session.id ∧ ∃ entry, next session.id = some entry ∧
      manager.copy entry.data = .ok session.data) ∨
    (session.data = fun _ => none) ∧ ∀ id, cookie = some id → next id = none := by
  unfold Manager.load at loaded
  cases cookie with
  | none =>
    cases generated with
    | none => cases loaded
    | some fresh =>
      cases loaded
      exact .inr ⟨rfl, fun id same => by cases same⟩
  | some id =>
    simp only at loaded
    split at loaded
    · rename_i missing
      cases generated with
      | none => cases loaded
      | some fresh =>
        cases loaded
        refine .inr ⟨rfl, fun other same => ?_⟩
        cases same
        exact memory_load_notFound missing
    · cases loaded
    · rename_i found
      cases loaded
      exact .inl ⟨rfl, memory_load_ok found⟩

theorem load_subset {result : Except Sessions.Error (Session Value)}
    (loaded : manager.load store context cookie now generated = (next, result))
    (left : next other = some entry) : store other = some entry := by
  unfold Manager.load at loaded
  cases cookie with
  | none =>
    cases loaded
    exact left
  | some id =>
    cases found : store.load manager context id now with
    | mk rest outcome =>
      simp only [found] at loaded
      split at loaded <;> cases loaded <;> rename_i same <;> cases same <;>
        exact memory_load_subset found left

/-- A save that succeeds puts a copy under the ID. -/
theorem save_ok {data : Data Value}
    (saved : store.save manager context id data now = (next, .ok ())) :
    ∃ entry, next = update store id (some entry) ∧ manager.copy data = .ok entry.data := by
  unfold MemoryStore.save at saved
  split at saved
  · cases saved
  · split at saved
    · cases saved
    · rename_i copy copied
      split at saved
      · cases saved
      · cases saved
        exact ⟨_, rfl, copied⟩

/-- The login stored this flow under this ID. -/
def StoredBy (history : List (Nat × Action Value)) (login : Nat) (id : String) (flow : FlowState) :
    Prop :=
  ∃ now, (login, .stored id flow now) ∈ history ∧ flow.issued = some (now / second)

/-- A flow in a callback's hands: a login's, or no flow. -/
def Sourced (history : List (Nat × Action Value)) (id : String) (flow : FlowState) :
    Option Nat → Prop
  | some login => StoredBy history login id flow
  | none => flow.state = ""

/-- The flow that a callback has read and not yet been judged by, with its session. -/
inductive Task.Holds : Task Value → Session Value → FlowState → Option Nat → Prop where
  | consuming (query : Query) (session : Session Value) (stored : FlowState) (origin : Option Nat) :
      Holds (.consuming query session stored origin) session stored origin
  | validating (query : Query) (session : Session Value) (stored : FlowState) (origin : Option Nat) :
      Holds (.validating query session stored origin) session stored origin

/-- A session that a request is going to save without a flow. -/
inductive Task.Clears : Task Value → Session Value → Prop where
  | consuming (query : Query) (session : Session Value) (stored : FlowState) (origin : Option Nat) :
      Clears (.consuming query session stored origin) session
  | validating (query : Query) (session : Session Value) (stored : FlowState) (origin : Option Nat) :
      Clears (.validating query session stored origin) session
  | renewing (session : Session Value) : Clears (.renewing session) session

structure Linked (values : Values Value) (history : List (Nat × Action Value)) (state : State Value) :
    Prop where
  stored : ∀ id entry, state.store id = some entry →
    Sourced history id (readFlow values entry.data) (state.writer id)
  absent : ∀ id, state.store id = none → state.writer id = none
  hands : ∀ caller session flow origin, (state.tasks caller).Holds session flow origin →
    Sourced history session.id flow origin
  cleared : ∀ caller session, (state.tasks caller).Clears session →
    (readFlow values session.data).state = ""

variable {login caller : Nat} {flow stored : FlowState}

theorem StoredBy.later (stored : StoredBy history login id flow) (event : Nat × Action Value) :
    StoredBy (history ++ [event]) login id flow := by
  obtain ⟨now, found, issued⟩ := stored
  exact ⟨now, mem_append_left _ found, issued⟩

variable {origin : Option Nat}

theorem Sourced.later (sourced : Sourced history id flow origin) (event : Nat × Action Value) :
    Sourced (history ++ [event]) id flow origin := by
  cases origin with
  | none => exact sourced
  | some login => exact StoredBy.later sourced event

variable (linked : Linked values history before)

include linked in
/-- A request goes on to a task whose flow and session are accounted for. -/
theorem Linked.task (caller : Nat) {task : Task Value}
    (hands : ∀ session flow origin, task.Holds session flow origin →
      Sourced history session.id flow origin)
    (cleared : ∀ session, task.Clears session → (readFlow values session.data).state = "") :
    Linked values history (before.task caller task) := by
  constructor
  · exact linked.stored
  · exact linked.absent
  · intro other session flow origin holds
    rw [State.task] at holds
    by_cases same : other = caller
    · subst same
      simp only [update_self] at holds
      exact hands session flow origin holds
    · simp only [update_of_ne same] at holds
      exact linked.hands other session flow origin holds
  · intro other session clears
    rw [State.task] at clears
    by_cases same : other = caller
    · subst same
      simp only [update_self] at clears
      exact cleared session clears
    · simp only [update_of_ne same] at clears
      exact linked.cleared other session clears

include linked in
/-- A load leaves of the store what it does not drop. -/
theorem Linked.read (subset : ∀ id entry, store id = some entry → before.store id = some entry) :
    Linked values history (before.read store) := by
  constructor
  · intro id entry found
    simp only [State.read] at found ⊢
    rw [if_pos (by rw [found]; rfl)]
    exact linked.stored id entry (subset id entry found)
  · intro id missing
    simp only [State.read] at missing ⊢
    rw [missing]
    rfl
  · exact linked.hands
  · exact linked.cleared

include linked in
/-- Data is put under an ID, by a login with its flow or by a callback without one. -/
theorem Linked.wrote {writer : Option Nat}
    (sourced : Sourced history id (readFlow values entry.data) writer) :
    Linked values history (before.wrote (update before.store id (some entry)) id writer) := by
  constructor
  · intro other found stored
    simp only [State.wrote] at stored ⊢
    by_cases same : other = id
    · subst same
      rw [update_self] at stored ⊢
      cases stored
      exact sourced
    · rw [update_of_ne same] at stored ⊢
      exact linked.stored other found stored
  · intro other missing
    simp only [State.wrote] at missing ⊢
    by_cases same : other = id
    · subst same
      rw [update_self] at missing
      cases missing
    · rw [update_of_ne same] at missing ⊢
      exact linked.absent other missing
  · exact linked.hands
  · exact linked.cleared

include linked in
theorem Linked.deleted (id : String) :
    Linked values history (before.wrote (update before.store id none) id none) := by
  constructor
  · intro other found stored
    simp only [State.wrote] at stored ⊢
    by_cases same : other = id
    · subst same
      rw [update_self] at stored
      cases stored
    · rw [update_of_ne same] at stored ⊢
      exact linked.stored other found stored
  · intro other missing
    simp only [State.wrote] at missing ⊢
    by_cases same : other = id
    · rw [same, update_self]
    · rw [update_of_ne same] at missing ⊢
      exact linked.absent other missing
  · exact linked.hands
  · exact linked.cleared

include linked in
theorem Linked.later (event : Nat × Action Value) : Linked values (history ++ [event]) before := by
  constructor
  · exact fun id entry found => (linked.stored id entry found).later event
  · exact linked.absent
  · exact fun caller session flow origin holds =>
      (linked.hands caller session flow origin holds).later event
  · exact linked.cleared

variable (copies : Copies manager values)

include linked copies in
/-- What a callback has loaded comes from a login, or is no flow. -/
theorem Linked.loaded
    (result : manager.load before.store context cookie now generated = (store, .ok session)) :
    Sourced history session.id (readFlow values session.data)
      ((before.read store).origin cookie session) := by
  have kept : Linked values history (before.read store) :=
    linked.read fun id entry => load_subset result
  rw [State.origin]
  rcases load_ok result with ⟨named, entry, found, copied⟩ | ⟨blank, missing⟩
  · rw [if_pos named, copies entry.data session.data copied]
    exact kept.stored session.id entry found
  · have unwritten : (if cookie = some session.id then (before.read store).writer session.id
        else none) = none := by
      split
      · rename_i named
        exact kept.absent session.id (missing session.id named)
      · rfl
    rw [unwritten, Sourced, blank]
    rfl

include linked copies in
theorem Linked.step (step : (machine manager values maxAge).Step before event after) :
    Linked values (history ++ [event]) after := by
  have later := linked.later event
  cases step with
  | login _ | callback _ | saveFails _ | refuse _ _ | success _ =>
    exact later.task _ (nofun) (nofun)
  | loginLoad _ result | loadFails _ result =>
    refine (later.read fun id entry => load_subset result).task _ ?_ ?_
    · exact nofun
    · exact nofun
  | @callbackLoad caller query context cookie generated now store session here result =>
    refine (later.read fun id entry => load_subset result).task _ ?_ ?_
    · intro other flow origin holds
      cases holds
      exact later.loaded copies result
    · intro other clears
      cases clears
      exact state_deleteFlow values session
  | @store caller state nonce verifier session context now savedAt store here result =>
    obtain ⟨entry, rfl, copied⟩ := save_ok result
    refine (later.wrote ?_).task _ (nofun) (nofun)
    rw [copies _ _ copied, readFlow_setFlow]
    exact ⟨now, mem_append_right _ mem_cons_self, rfl⟩
  | @consume caller query session stored origin context savedAt store here result =>
    have clears : (before.tasks caller).Clears session := by
      rw [here]
      exact .consuming ..
    obtain ⟨entry, rfl, copied⟩ := save_ok result
    refine (later.wrote ?_).task _ ?_ ?_
    · rw [Sourced, copies _ _ copied]
      exact linked.cleared caller session clears
    · intro other flow origin holds
      cases holds
      apply later.hands caller
      rw [here]
      exact .consuming ..
    · intro other same
      cases same
      exact linked.cleared caller session clears
  | @complete caller query session stored origin now code succeeded here valid =>
    apply later.task
    · intro other flow origin holds
      cases succeeded <;> cases holds
    · intro other clears
      cases succeeded with
      | false => cases clears
      | true =>
        cases clears
        apply linked.cleared caller
        rw [here]
        exact .validating ..
  | @renewSave caller session context id savedAt store here result =>
    have clears : (before.tasks caller).Clears session := by
      rw [here]
      exact .renewing ..
    obtain ⟨entry, rfl, copied⟩ := save_ok result
    refine (later.wrote ?_).task _ (nofun) (nofun)
    rw [Sourced, copies _ _ copied]
    exact linked.cleared caller session clears
  | @renew caller session old context store here result =>
    rcases Sessions.MemoryStore.delete_store before.store context old with same | same
    · rw [result] at same
      cases same
    · obtain ⟨rfl, -⟩ := Prod.mk.inj (result.symm.trans same)
      exact (later.deleted old).task _ (nofun) (nofun)

variable {events : List (Nat × Action Value)} {state : State Value}

variable (run : (machine manager values maxAge).Run events state)

include copies run in
theorem linked_of_run : Linked values events state := by
  apply run.history_invariant (Linked values)
  · rintro state ⟨blank, unwritten, idle⟩
    constructor
    · intro id entry found
      rw [unwritten]
      exact blank id entry found
    · exact fun id _ => congrFun unwritten id
    · intro caller session flow origin holds
      rw [idle] at holds
      cases holds
    · intro caller session clears
      rw [idle] at clears
      cases clears
  · exact fun history before event after linked step => linked.step copies step

/-- What a request has behind it at a task. -/
def Task.Since (history : List (Nat × Action Value)) (caller : Nat) : Task Value → Prop
  | .renewing _ => ∃ id query code flow origin now,
      (caller, .complete id query code flow origin now true) ∈ history
  | .retiring _ _ => (∃ id query code flow origin now,
      (caller, .complete id query code flow origin now true) ∈ history) ∧
        ∃ id, (caller, .renewSaved id) ∈ history
  | .succeeding _ => (∃ id query code flow origin now,
      (caller, .complete id query code flow origin now true) ∈ history) ∧
        (∃ id, (caller, .renewSaved id) ∈ history) ∧ ∃ old, (caller, .renewed old) ∈ history
  | _ => True

theorem Task.Since.later {task : Task Value} (since : task.Since history caller)
    (event : Nat × Action Value) : task.Since (history ++ [event]) caller := by
  cases task with
  | renewing session =>
    obtain ⟨id, query, code, flow, origin, now, found⟩ := since
    exact ⟨id, query, code, flow, origin, now, mem_append_left _ found⟩
  | retiring session old =>
    obtain ⟨⟨id, query, code, flow, origin, now, found⟩, fresh, saved⟩ := since
    exact ⟨⟨id, query, code, flow, origin, now, mem_append_left _ found⟩, fresh,
      mem_append_left _ saved⟩
  | succeeding session =>
    obtain ⟨⟨id, query, code, flow, origin, now, found⟩, ⟨fresh, saved⟩, old, renewed⟩ := since
    exact ⟨⟨id, query, code, flow, origin, now, mem_append_left _ found⟩,
      ⟨fresh, mem_append_left _ saved⟩, old, mem_append_left _ renewed⟩
  | _ => trivial

variable {tasks : Nat → Task Value}

theorem since_update (since : ∀ caller, (tasks caller).Since history caller) {task : Task Value}
    (own : task.Since (history ++ [event]) caller) (other : Nat) :
    (update tasks caller task other).Since (history ++ [event]) other := by
  by_cases same : other = caller
  · subst same
    rw [update_self]
    exact own
  · rw [update_of_ne same]
    exact (since other).later event

theorem since_step (since : ∀ caller, (before.tasks caller).Since history caller)
    (step : (machine manager values maxAge).Step before event after) :
    ∀ caller, (after.tasks caller).Since (history ++ [event]) caller := by
  cases step with
  | login _ | callback _ | loginLoad _ _ | callbackLoad _ _ | loadFails _ _ | store _ _
  | consume _ _ | saveFails _ | refuse _ _ | success _ => exact since_update since trivial
  | @complete caller query session stored origin now code succeeded here valid =>
    apply since_update since
    cases succeeded with
    | false => trivial
    | true => exact ⟨session.id, query, code, stored, origin, now,
        mem_append_right _ mem_cons_self⟩
  | @renewSave caller session context id savedAt store here result =>
    have behind := since caller
    rw [here] at behind
    have later := behind.later (caller, .renewSaved id)
    exact since_update since ⟨later, id, mem_append_right _ mem_cons_self⟩
  | @renew caller session old context store here result =>
    have behind := since caller
    rw [here] at behind
    have later := behind.later (caller, .renewed old)
    exact since_update since ⟨later.1, later.2, old, mem_append_right _ mem_cons_self⟩

include run in
theorem since_of_run : ∀ caller, (state.tasks caller).Since events caller := by
  apply run.history_invariant (fun history state => ∀ caller, (state.tasks caller).Since history caller)
  · rintro state ⟨blank, unwritten, idle⟩ caller
    rw [idle]
    trivial
  · exact fun history before event after since step => since_step since step

/-- The login whose flow a request has in hand. -/
def Task.taken : Task Value → Option Nat
  | .consuming _ _ _ origin => origin
  | .validating _ _ _ origin => origin
  | _ => none

/-- A call of `Complete` with what a login stored. -/
def completes (login : Nat) (event : Nat × Action Value) : Bool :=
  match event.2 with
  | .complete _ _ _ _ origin _ _ => origin = some login
  | _ => false

/-- A login's flow is in one place: under one ID, in the hands of one callback, or completed. -/
structure Single (history : List (Nat × Action Value)) (state : State Value) : Prop where
  written : ∀ id login, state.writer id = some login → state.tasks login = .done
  held : ∀ caller login, (state.tasks caller).taken = some login → state.tasks login = .done
  finished : ∀ login, 0 < history.countP (completes login) → state.tasks login = .done
  once : ∀ id other login, state.writer id = some login → state.writer other = some login → id = other
  alone : ∀ caller other login, (state.tasks caller).taken = some login →
    (state.tasks other).taken = some login → caller = other
  place : ∀ caller query session stored login id,
    state.tasks caller = .consuming query session stored (some login) →
      state.writer id = some login → id = session.id
  deleted : ∀ caller query session stored login id,
    state.tasks caller = .validating query session stored (some login) → state.writer id ≠ some login
  used : ∀ login, 0 < history.countP (completes login) →
    (∀ id, state.writer id ≠ some login) ∧ ∀ caller, (state.tasks caller).taken ≠ some login
  few : ∀ login, history.countP (completes login) ≤ 1

theorem countP_quiet (quiet : completes login event = false) :
    (history ++ [event]).countP (completes login) = history.countP (completes login) := by
  rw [countP_append, countP_singleton, quiet]
  rfl

/-- The sessions that may hold a login's flow while a request has it in hand. -/
def Task.Allows (login : Nat) (id : String) : Task Value → Prop
  | .consuming _ session _ origin => origin = some login → id = session.id
  | .validating _ _ _ origin => origin ≠ some login
  | _ => True

theorem allows_of_free {task : Task Value} (free : task.taken ≠ some login) :
    task.Allows login id := by
  cases task with
  | consuming query session stored origin => exact fun same => absurd same free
  | validating query session stored origin => exact free
  | _ => trivial

/-- What `Single` says of one login. -/
structure Placed (history : List (Nat × Action Value)) (state : State Value) (login : Nat) :
    Prop where
  done : ((∃ id, state.writer id = some login) ∨
    (∃ caller, (state.tasks caller).taken = some login) ∨
    0 < history.countP (completes login)) → state.tasks login = .done
  once : ∀ id other, state.writer id = some login → state.writer other = some login → id = other
  alone : ∀ caller other, (state.tasks caller).taken = some login →
    (state.tasks other).taken = some login → caller = other
  allowed : ∀ caller id, state.writer id = some login → (state.tasks caller).Allows login id
  used : 0 < history.countP (completes login) →
    (∀ id, state.writer id ≠ some login) ∧ ∀ caller, (state.tasks caller).taken ≠ some login
  few : history.countP (completes login) ≤ 1

theorem single_of_placed (placed : ∀ login, Placed history before login) :
    Single history before where
  written id login wrote := (placed login).done (.inl ⟨id, wrote⟩)
  held caller login taken := (placed login).done (.inr (.inl ⟨caller, taken⟩))
  finished login counted := (placed login).done (.inr (.inr counted))
  once id other login := (placed login).once id other
  alone caller other login := (placed login).alone caller other
  place caller query session stored login id here wrote := by
    have allowed := (placed login).allowed caller id wrote
    rw [here] at allowed
    exact allowed rfl
  deleted caller query session stored login id here wrote := by
    have allowed := (placed login).allowed caller id wrote
    rw [here] at allowed
    exact allowed rfl
  used login := (placed login).used
  few login := (placed login).few

/-- A login of which nothing is left but what was completed. -/
theorem Placed.spent (unwritten : ∀ id, after.writer id ≠ some login)
    (untaken : ∀ other, (after.tasks other).taken ≠ some login)
    (done : 0 < history.countP (completes login) → after.tasks login = .done)
    (few : history.countP (completes login) ≤ 1) : Placed history after login where
  done := fun somewhere => by
    rcases somewhere with ⟨id, wrote⟩ | ⟨other, taken⟩ | counted
    · exact absurd wrote (unwritten id)
    · exact absurd taken (untaken other)
    · exact done counted
  once id other wrote := absurd wrote (unwritten id)
  alone other _ taken := absurd taken (untaken other)
  allowed other id wrote := absurd wrote (unwritten id)
  used _ := ⟨unwritten, untaken⟩
  few := few

variable (placed : Placed history before login)

include placed in
/-- A login's flow that a step of another request leaves where it is, or that the step
takes when nobody else has it in hand. -/
theorem Placed.kept {task : Task Value}
    (shrunk : ∀ id, after.writer id = some login → before.writer id = some login)
    (tasks : after.tasks = update before.tasks caller task)
    (unfinished : before.tasks caller ≠ .done) (quiet : completes login event = false)
    (hand : task.taken = some login → before.tasks login = .done ∧
      history.countP (completes login) = 0 ∧
      ∀ other, (before.tasks other).taken = some login → other = caller)
    (allowed : ∀ id, after.writer id = some login → task.Allows login id) :
    Placed (history ++ [event]) after login := by
  have still (done : before.tasks login = .done) : after.tasks login = .done := by
    have other : login ≠ caller := by
      rintro rfl
      exact unfinished done
    rw [tasks, update_of_ne other]
    exact done
  have taker {other : Nat} (taken : (after.tasks other).taken = some login) :
      other = caller ∧ task.taken = some login ∨
        other ≠ caller ∧ (before.tasks other).taken = some login := by
    rw [tasks] at taken
    by_cases same : other = caller
    · rw [same, update_self] at taken
      exact .inl ⟨same, taken⟩
    · rw [update_of_ne same] at taken
      exact .inr ⟨same, taken⟩
  have counts : (history ++ [event]).countP (completes login) =
      history.countP (completes login) := countP_quiet quiet
  constructor
  · rintro (⟨id, wrote⟩ | ⟨other, taken⟩ | counted)
    · exact still (placed.done (.inl ⟨id, shrunk id wrote⟩))
    · rcases taker taken with ⟨-, own⟩ | ⟨-, others⟩
      · exact still (hand own).1
      · exact still (placed.done (.inr (.inl ⟨other, others⟩)))
    · exact still (placed.done (.inr (.inr (counts ▸ counted))))
  · exact fun id other wrote also => placed.once id other (shrunk id wrote) (shrunk other also)
  · intro first second one two
    rcases taker one with ⟨own, mine⟩ | ⟨differs, others⟩
    · rcases taker two with ⟨also, -⟩ | ⟨-, others⟩
      · rw [own, also]
      · rw [own, (hand mine).2.2 second others]
    · rcases taker two with ⟨-, mine⟩ | ⟨-, more⟩
      · exact absurd ((hand mine).2.2 first others) differs
      · exact placed.alone first second others more
  · intro other id wrote
    rw [tasks]
    by_cases same : other = caller
    · rw [same, update_self]
      exact allowed id wrote
    · rw [update_of_ne same]
      exact placed.allowed other id (shrunk id wrote)
  · intro counted
    rw [counts] at counted
    obtain ⟨unwritten, untaken⟩ := placed.used counted
    refine ⟨fun id wrote => unwritten id (shrunk id wrote), fun other taken => ?_⟩
    rcases taker taken with ⟨-, own⟩ | ⟨-, others⟩
    · exact absurd (hand own).2.1 (Nat.pos_iff_ne_zero.mp counted)
    · exact untaken other others
  · rw [counts]
    exact placed.few

include placed in
/-- A step that takes no flow, completes none and stores none. -/
theorem Placed.quiet {task : Task Value}
    (shrunk : ∀ id, after.writer id = some login → before.writer id = some login)
    (tasks : after.tasks = update before.tasks caller task)
    (free : task.taken ≠ some login) (unfinished : before.tasks caller ≠ .done)
    (quiet : completes login event = false) : Placed (history ++ [event]) after login :=
  placed.kept shrunk tasks unfinished quiet (fun taken => absurd taken free) fun _ _ =>
    allows_of_free free

theorem writer_read (wrote : (before.read store).writer id = some login) :
    before.writer id = some login := by
  simp only [State.read] at wrote
  split at wrote
  · exact wrote
  · cases wrote

theorem writer_wrote {writer : String → Option Nat} {writing : Option Nat}
    (wrote : update writer id writing other = some login) :
    writing = some login ∧ other = id ∨ other ≠ id ∧ writer other = some login := by
  by_cases same : other = id
  · rw [same, update_self] at wrote
    exact .inl ⟨wrote, same⟩
  · rw [update_of_ne same] at wrote
    exact .inr ⟨same, wrote⟩

theorem writer_wrote_none {writer : String → Option Nat}
    (wrote : update writer id none other = some login) :
    other ≠ id ∧ writer other = some login :=
  (writer_wrote wrote).resolve_left fun own => nomatch own.1

theorem unfinished_of {task : Task Value} (here : before.tasks caller = task)
    (going : task ≠ .done) : before.tasks caller ≠ .done := by
  rw [here]
  exact going

include placed in
/-- Nobody has in hand what a finished request left nowhere. -/
theorem Placed.untaken (unfinished : before.tasks login ≠ .done) :
    (∀ id, before.writer id ≠ some login) ∧
      (∀ other, (before.tasks other).taken ≠ some login) ∧ history.countP (completes login) = 0 :=
  ⟨fun id wrote => unfinished (placed.done (.inl ⟨id, wrote⟩)),
    fun other taken => unfinished (placed.done (.inr (.inl ⟨other, taken⟩))),
    Nat.eq_zero_of_not_pos fun counted => unfinished (placed.done (.inr (.inr counted)))⟩

variable {query : Query}

include placed in
/-- A callback takes the flow it loads. -/
theorem Placed.taking (here : before.tasks caller = .callback query)
    (untaken : (before.read store).origin cookie session = some login →
      ∀ other query cleared stored, before.tasks other ≠ .consuming query cleared stored
      (some login)) :
    Placed (history ++ [(caller, .loaded session)])
      ((before.read store).task caller (.consuming query (deleteFlow session) stored
        ((before.read store).origin cookie session))) login := by
  have source (loaded : (before.read store).origin cookie session = some login) :
      before.writer session.id = some login := by
    rw [State.origin] at loaded
    split at loaded
    · exact writer_read loaded
    · cases loaded
  refine placed.kept (fun _ => writer_read) rfl (unfinished_of here nofun) rfl ?_ ?_
  · intro loaded
    have wrote := source loaded
    refine ⟨placed.done (.inl ⟨_, wrote⟩), Nat.eq_zero_of_not_pos fun counted =>
      (placed.used counted).1 _ wrote, fun other taken => ?_⟩
    -- A flow that stands in the store is in nobody's hands.
    have allowed := placed.allowed other _ wrote
    cases held : before.tasks other with
    | consuming query cleared flow origin =>
      rw [held] at taken
      obtain rfl : origin = some login := taken
      exact absurd held (untaken loaded other query cleared flow)
    | validating query cleared flow origin =>
      rw [held] at taken allowed
      exact absurd taken allowed
    | _ =>
      rw [held] at taken
      cases taken
  · exact fun id wrote loaded => placed.once id session.id (writer_read wrote) (source loaded)

include placed in
/-- A login stores its flow, of which nothing is left elsewhere. -/
theorem Placed.storing {state nonce verifier : String}
    (here : before.tasks caller = .storing state nonce verifier session) :
    Placed (history ++ [(caller, .stored session.id flow now)])
      ((before.wrote store session.id (some caller)).task caller .done) login := by
  have unfinished : before.tasks caller ≠ .done := unfinished_of here nofun
  by_cases own : caller = login
  · subst own
    obtain ⟨unwritten, unheld, unused⟩ := placed.untaken unfinished
    have free (other : Nat) : (update before.tasks caller Task.done other).taken ≠ some caller := by
      by_cases same : other = caller
      · rw [same, update_self]
        exact nofun
      · rw [update_of_ne same]
        exact unheld other
    have writer {id : String}
        (wrote : (before.wrote store session.id (some caller)).writer id = some caller) :
        id = session.id :=
      (writer_wrote wrote).elim And.right fun others => absurd others.2 (unwritten id)
    have counted : (history ++ [(caller, Action.stored session.id flow now)]).countP
        (completes caller) = history.countP (completes caller) := countP_quiet rfl
    exact ⟨fun _ => update_self .., fun id other wrote also =>
      (writer wrote).trans (writer also).symm, fun other _ taken => absurd taken (free other),
      fun other id _ => allows_of_free (free other), fun some => by omega, by omega⟩
  · refine placed.quiet (fun id wrote => ?_) rfl nofun unfinished rfl
    rcases writer_wrote wrote with ⟨same, -⟩ | ⟨-, others⟩
    · exact absurd (Option.some.inj same) own
    · exact others

include placed in
/-- A callback saves the session without the flow it holds. -/
theorem Placed.consuming (here : before.tasks caller = .consuming query session stored origin) :
    Placed (history ++ [(caller, .consumed session.id)])
      ((before.wrote store session.id none).task caller (.validating query session stored origin))
      login := by
  have own (same : origin = some login) : (before.tasks caller).taken = some login := by
    rw [here]
    exact same
  refine placed.kept (fun _ wrote => (writer_wrote_none wrote).2) rfl
    (unfinished_of here nofun) rfl (fun same => ?_) fun id wrote same => ?_
  · exact ⟨placed.done (.inr (.inl ⟨caller, own same⟩)), Nat.eq_zero_of_not_pos fun counted =>
      (placed.used counted).2 caller (own same), fun other taken =>
      placed.alone other caller taken (own same)⟩
  · obtain ⟨elsewhere, wrote⟩ := writer_wrote_none wrote
    have allowed := placed.allowed caller id wrote
    rw [here] at allowed
    exact elsewhere (allowed same)

include placed in
/-- `Complete` is called with what the callback holds, which nobody else does. -/
theorem Placed.completing {code : String} {succeeded : Bool} {task : Task Value}
    (free : task.taken = none)
    (here : before.tasks caller = .validating query session stored origin) :
    Placed (history ++ [(caller, .complete session.id query code stored origin now succeeded)])
      (before.task caller task) login := by
  have unfinished : before.tasks caller ≠ .done := unfinished_of here nofun
  by_cases mine : origin = some login
  · have own : (before.tasks caller).taken = some login := by
      rw [here]
      exact mine
    have done := placed.done (.inr (.inl ⟨caller, own⟩))
    have other : login ≠ caller := by
      rintro rfl
      exact unfinished done
    have unused : history.countP (completes login) = 0 :=
      Nat.eq_zero_of_not_pos fun counted => (placed.used counted).2 caller own
    refine .spent (fun id wrote => ?_) (fun other taken => ?_) (fun _ => ?_) ?_
    · have allowed := placed.allowed caller id wrote
      rw [here] at allowed
      exact allowed mine
    · simp only [State.task] at taken
      by_cases same : other = caller
      · rw [same, update_self, free] at taken
        cases taken
      · rw [update_of_ne same] at taken
        exact same (placed.alone other caller taken own)
    · exact (update_of_ne other ..).trans done
    · rw [countP_append, unused, Nat.zero_add]
      exact countP_le_length
  · exact placed.quiet (fun _ wrote => wrote) rfl (by rw [free]; exact nofun) unfinished
      (decide_eq_false mine)

include placed in
theorem Placed.step (step : (untakenMachine manager values maxAge).Step before event after) :
    Placed (history ++ [event]) after login := by
  obtain ⟨moved, untaken⟩ := step
  cases moved with
  | login free | callback free =>
    exact placed.quiet (fun _ wrote => wrote) rfl nofun (unfinished_of free nofun) rfl
  | loginLoad here result =>
    exact placed.quiet (fun _ => writer_read) rfl nofun (unfinished_of here nofun) rfl
  | @callbackLoad caller query context cookie generated now store session here result =>
    apply placed.taking here
    intro loaded
    refine untaken session query (deleteFlow session) (readFlow values session.data) login rfl ?_
    rw [← loaded]
    exact update_self ..
  | loadFails here result =>
    refine placed.quiet (fun _ => writer_read) rfl nofun ?_ rfl
    rcases here with ⟨state, nonce, verifier, here⟩ | ⟨query, here⟩
    · exact unfinished_of here nofun
    · exact unfinished_of here nofun
  | store here result => exact placed.storing here
  | consume here result => exact placed.consuming here
  | saveFails here =>
    refine placed.quiet (fun _ wrote => wrote) rfl nofun ?_ rfl
    rcases here with ⟨state, nonce, verifier, session, here⟩ |
      ⟨query, session, stored, origin, here⟩ | ⟨session, here⟩ | ⟨session, old, here⟩
    · exact unfinished_of here nofun
    · exact unfinished_of here nofun
    · exact unfinished_of here nofun
    · exact unfinished_of here nofun
  | refuse here _ | success here =>
    exact placed.quiet (fun _ wrote => wrote) rfl nofun (unfinished_of here nofun) rfl
  | @complete caller query session stored origin now code succeeded here valid =>
    apply placed.completing _ here
    cases succeeded <;> rfl
  | renewSave here _ | renew here _ =>
    exact placed.quiet (fun _ wrote => (writer_wrote_none wrote).2) rfl nofun
      (unfinished_of here nofun) rfl

theorem single_of_run (run : (untakenMachine manager values maxAge).Run events state) :
    Single events state := by
  refine single_of_placed (run.history_invariant (fun history state => ∀ login,
    Placed history state login) ?_ fun history before event after placed step login =>
      (placed login).step step)
  rintro state ⟨blank, unwritten, idle⟩ login
  refine .spent (fun id wrote => ?_) (fun other taken => ?_) nofun (Nat.zero_le 1)
  · rw [unwritten] at wrote
    cases wrote
  · rw [idle] at taken
    cases taken

theorem run_of_untaken (run : (untakenMachine manager values maxAge).Run events state) :
    (machine manager values maxAge).Run events state := by
  obtain ⟨start, initial, trace⟩ := run
  refine ⟨start, initial, ?_⟩
  clear initial
  induction trace with
  | nil state => exact .nil state
  | cons head _ ih => exact .cons head.1 ih

/-- Below the largest duration, `Sub` bounds the true difference. -/
theorem le_of_sub {later earlier bound : Int} (small : bound < maxDuration)
    (young : sub later earlier ≤ bound) : later - earlier ≤ bound := by
  rw [sub] at young
  omega

include copies run in
/-- What a call of `Complete` is made with: what a login stored in the session that the
callback loaded, when the state matches and the flow is young enough. -/
theorem complete_stored
    {first last : List (Nat × Action Value)} {code : String} {succeeded : Bool}
    (split : events = first ++ (caller, .complete id query code flow origin now succeeded) :: last) :
    ∃ login storedAt, origin = some login ∧ (login, .stored id flow storedAt) ∈ first ∧
      query.state = flow.state ∧ flow.issued = some (storedAt / second) ∧
      sub (now / second * second) (storedAt / second * second) ≤ maxAge := by
  subst split
  obtain ⟨before, after, prior, step, -⟩ := run.cut
  have linked := linked_of_run copies prior
  cases step with
  | @complete _ _ session _ _ _ _ _ here valid =>
    have accepted := accepted_of_validate valid
    have sourced : Sourced first session.id flow origin := by
      apply linked.hands caller
      rw [here]
      exact .validating ..
    cases origin with
    | none => exact absurd sourced accepted.present
    | some login =>
      obtain ⟨storedAt, stored, issued⟩ := sourced
      obtain ⟨seconds, given, young⟩ := accepted.young
      obtain rfl : storedAt / second = seconds := Option.some.inj (issued.symm.trans given)
      exact ⟨login, storedAt, rfl, stored, accepted.same, issued, young⟩

/-- In every run in which no callback loads a flow that another has loaded and not yet saved
the session without, each stored flow is completed at most once; in every run `Complete` is
called with what a login stored and success follows `Complete` and `Renew`. -/
theorem flow_used_once (manager : Manager Value) (values : Values Value) (maxAge : Int)
    (copies : Copies manager values) (events : List (Nat × Action Value)) (state : State Value)
    (run : (untakenMachine manager values maxAge).Run events state) :
    (∀ login, events.countP (completes login) ≤ 1) ∧
    (∀ first caller id query code flow origin now succeeded last,
      events = first ++ (caller, .complete id query code flow origin now succeeded) :: last →
      ∃ login storedAt, origin = some login ∧ (login, .stored id flow storedAt) ∈ first ∧
        query.state = flow.state ∧ flow.issued = some (storedAt / second) ∧
        (maxAge < maxDuration → now / second * second - storedAt / second * second ≤ maxAge)) ∧
    ∀ first caller last, events = first ++ (caller, .success) :: last →
      (∃ id query code flow origin now,
        (caller, .complete id query code flow origin now true) ∈ first) ∧
      (∃ id, (caller, .renewSaved id) ∈ first) ∧ ∃ old, (caller, .renewed old) ∈ first := by
  have every := run_of_untaken run
  refine ⟨(single_of_run run).few, ?_, ?_⟩
  · intro first caller id query code flow origin now succeeded last split
    obtain ⟨login, storedAt, given, stored, same, issued, young⟩ :=
      complete_stored copies every split
    exact ⟨login, storedAt, given, stored, same, issued, fun small => le_of_sub small young⟩
  · rintro first caller last rfl
    obtain ⟨before, after, prior, step, -⟩ := every.cut
    have since := since_of_run prior caller
    cases step with
    | success here =>
      rw [here] at since
      exact since

theorem second_positive : 0 < second := by decide

def sampleManager : Manager (String ⊕ Int) := ⟨second, .ok, second_positive⟩

theorem asText_inl (value : String) :
    (Sum.elim some (fun _ => none) : String ⊕ Int → Option String) (.inl value) = some value := rfl

theorem unixTime_inr (value : Int) :
    (Sum.elim (fun _ => none) some : String ⊕ Int → Option Int) (.inr value) = some value := rfl

def sampleValues : Values (String ⊕ Int) :=
  ⟨.inl, .inr, Sum.elim some fun _ => none, Sum.elim (fun _ => none) some, asText_inl, unixTime_inr⟩

theorem sample_copies : Copies sampleManager sampleValues := by
  intro data out copied
  cases copied
  rfl

/-- One session without a flow. -/
def sampleStart : State (String ⊕ Int) :=
  ⟨Function.update (fun _ => none) "sid" (some ⟨fun _ => none, second⟩), fun _ => none, fun _ => .idle⟩

theorem sample_initial : (machine sampleManager sampleValues (600 * second)).Initial sampleStart := by
  refine ⟨fun id entry found => ?_, rfl, rfl⟩
  by_cases same : id = "sid"
  · simp only [sampleStart, same, update_self] at found
    cases found
    rfl
  · simp only [sampleStart, update_of_ne same] at found
    cases found

def sampleQuery : Query := ⟨"", "s", "c"⟩

theorem sample_valid : validateCallback (600 * second) 0 sampleQuery
    (issue "s" "n" "v" 0) = .ok "c" := by
  decide

def live : Context := ⟨false, false⟩

/-- A step that loads nothing for a callback takes nothing. -/
theorem untaken_of {before after : State Value} {event : Nat × Action Value}
    (idle : ∀ query cleared stored origin,
      after.tasks event.1 ≠ .consuming query cleared stored origin) : Untaken before event after :=
  fun _ query cleared stored login _ held => absurd held (idle query cleared stored (some login))

theorem not_consuming_update {task : Task Value}
    (rest : ∀ other query cleared stored origin, tasks other ≠ .consuming query cleared stored origin)
    (own : ∀ query cleared stored origin, task ≠ .consuming query cleared stored origin) (other : Nat)
    (query : Query) (cleared : Session Value) (stored : FlowState) (origin : Option Nat) :
    update tasks caller task other ≠ .consuming query cleared stored origin := by
  by_cases same : other = caller
  · rw [same, update_self]
    exact own query cleared stored origin
  · rw [update_of_ne same]
    exact rest other query cleared stored origin

/-- A login, and a callback with its state. -/
theorem flow_used_once_callback : ∃ events, ∃ state : State (String ⊕ Int),
    (untakenMachine sampleManager sampleValues (600 * second)).Run events state ∧
      events.countP (completes 0) = 1 ∧ ∀ login, events.countP (completes login) ≤ 1 := by
  have run : ∃ events, ∃ state : State (String ⊕ Int),
      (untakenMachine sampleManager sampleValues (600 * second)).Run events state ∧
        events.countP (completes 0) = 1 := by
    refine ⟨_, _, ⟨sampleStart, sample_initial, .cons ⟨@Step.login _ _ _ _ _ 0 "s" "n" "v" rfl, ?_⟩
      (.cons ⟨@Step.loginLoad _ _ _ _ _ 0 _ _ _ live (some "sid") none 0 _ _ rfl rfl, ?_⟩
      (.cons ⟨@Step.store _ _ _ _ _ 0 _ _ _ _ live 0 0 _ rfl rfl, ?_⟩
      (.cons ⟨@Step.callback _ _ _ _ _ 1 sampleQuery rfl, ?_⟩
      (.cons ⟨@Step.callbackLoad _ _ _ _ _ 1 _ live (some "sid") none 0 _ _ rfl rfl, ?_⟩
      (.cons ⟨@Step.consume _ _ _ _ _ 1 _ _ _ _ live 0 _ rfl rfl, ?_⟩
      (.cons ⟨@Step.complete _ _ _ _ _ 1 _ _ _ _ 0 "c" true rfl sample_valid, ?_⟩
        (.nil _)))))))⟩, rfl⟩
    · exact untaken_of fun _ _ _ _ => by simp [State.task]
    · exact untaken_of fun _ _ _ _ => by simp [State.task]
    · exact untaken_of fun _ _ _ _ => by simp [State.task]
    · exact untaken_of fun _ _ _ _ => by simp [State.task]
    · intro _ _ _ _ login _ _ other query cleared stored
      apply not_consuming_update (not_consuming_update (not_consuming_update (not_consuming_update
        (fun _ _ _ _ _ => by simp [sampleStart]) _) _) _) <;>
      exact nofun
    · exact untaken_of fun _ _ _ _ => by simp [State.task]
    · exact untaken_of fun _ _ _ _ => by simp [State.task]
  obtain ⟨events, state, run, counted⟩ := run
  exact ⟨events, state, run, counted, (flow_used_once _ _ _ sample_copies events state run).1⟩

/-- Two callbacks with the same query load the session before either saves it. -/
theorem flow_used_twice : ¬∀ (manager : Manager (String ⊕ Int)) values maxAge,
    Copies manager values → ∀ events state, (machine manager values maxAge).Run events state →
      ∀ login, events.countP (completes login) ≤ 1 := by
  intro claim
  have run : ∃ events, ∃ state : State (String ⊕ Int),
      (machine sampleManager sampleValues (600 * second)).Run events state ∧
        events.countP (completes 0) = 2 := by
    refine ⟨_, _, ⟨sampleStart, sample_initial, .cons (@Step.login _ _ _ _ _ 0 "s" "n" "v" rfl)
      (.cons (@Step.loginLoad _ _ _ _ _ 0 _ _ _ live (some "sid") none 0 _ _ rfl rfl)
      (.cons (@Step.store _ _ _ _ _ 0 _ _ _ _ live 0 0 _ rfl rfl)
      (.cons (@Step.callback _ _ _ _ _ 1 sampleQuery rfl)
      (.cons (@Step.callback _ _ _ _ _ 2 sampleQuery rfl)
      (.cons (@Step.callbackLoad _ _ _ _ _ 1 _ live (some "sid") none 0 _ _ rfl rfl)
      (.cons (@Step.callbackLoad _ _ _ _ _ 2 _ live (some "sid") none 0 _ _ rfl rfl)
      (.cons (@Step.consume _ _ _ _ _ 1 _ _ _ _ live 0 _ rfl rfl)
      (.cons (@Step.consume _ _ _ _ _ 2 _ _ _ _ live 0 _ rfl rfl)
      (.cons (@Step.complete _ _ _ _ _ 1 _ _ _ _ 0 "c" true rfl sample_valid)
      (.cons (@Step.complete _ _ _ _ _ 2 _ _ _ _ 0 "c" true rfl sample_valid)
        (.nil _)))))))))))⟩, rfl⟩
  obtain ⟨events, state, run, counted⟩ := run
  exact absurd (claim _ _ _ sample_copies events state run 0) (by rw [counted]; decide)

end Golusoris.Oidc
