import Golusoris.Lib.Machine
import Golusoris.Tiny.Registry
import Mathlib.Data.List.Nodup

/-!
# Allocating versions

Any number of `PGRegistry.SaveModel` calls for one tenant and one name, with version 0
and fresh IDs. A call reads the highest version and inserts the next one, in two
statements that those of other calls come between; it tries again when the unique index
refuses the row. A statement may also fail without an effect.
-/

namespace Golusoris.Tiny.Versions

open List
open Lib

variable {Number : Type}

/-- Where a call is: the attempts it has left count the one it is in. -/
inductive Progress (Number : Type) where
  | idle
  | reading (m : Model Number) (left : Nat)
  | inserting (m : Model Number) (left : Nat)
  | saved (m : Model Number)
  | failed (m : Model Number)

def Progress.model : Progress Number → Option (Model Number)
  | .idle => none
  | .reading m _ | .inserting m _ | .saved m | .failed m => some m

structure State (Number : Type) where
  rows : List (Model Number)
  calls : Nat → Progress Number

def State.call (state : State Number) (caller : Nat) (progress : Progress Number) : State Number :=
  { state with calls := fun other => if other = caller then progress else state.calls other }

inductive Action where
  | start
  | read
  | saved (version : Int)
  | collided
  | gaveUp
  | failed
  deriving DecidableEq

variable (checks : Checks Number) (tenantId name : Bytes)

/-- The statements of the calls. -/
inductive Step : State Number → Nat × Action → State Number → Prop where
  | start {state : State Number} {caller : Nat} {m : Model Number} (free : state.calls caller = .idle)
      (ours : m.tenantId = tenantId ∧ m.name = name) (auto : m.version = 0)
      (fresh : (∀ row ∈ state.rows, row.id ≠ m.id) ∧
        ∀ other known, (state.calls other).model = some known → known.id ≠ m.id) :
      Step state (caller, .start) (state.call caller (.reading m maxVersionRetries))
  | read {state : State Number} {caller left : Nat} {m : Model Number}
      (here : state.calls caller = .reading m left) :
      Step state (caller, .read) (state.call caller
        (.inserting { m with version := nextVersion state.rows m.tenantId m.name } left))
  | saved {state : State Number} {caller left : Nat} {m : Model Number} {rows : List (Model Number)}
      (here : state.calls caller = .inserting m left)
      (inserted : insertModel checks state.rows m = .ok rows) :
      Step state (caller, .saved m.version) { state.call caller (.saved m) with rows := rows }
  | collided {state : State Number} {caller left : Nat} {m : Model Number}
      (here : state.calls caller = .inserting m (left + 2))
      (refused : insertModel checks state.rows m = .error .uniqueViolation) :
      Step state (caller, .collided) (state.call caller (.reading m (left + 1)))
  | gaveUp {state : State Number} {caller : Nat} {m : Model Number}
      (here : state.calls caller = .inserting m 1)
      (refused : insertModel checks state.rows m = .error .uniqueViolation) :
      Step state (caller, .gaveUp) (state.call caller (.failed m))
  | rejected {state : State Number} {caller left : Nat} {m : Model Number}
      (here : state.calls caller = .inserting m left)
      (refused : insertModel checks state.rows m = .error .rejected) :
      Step state (caller, .failed) (state.call caller (.failed m))
  /-- The statement never reached the table. -/
  | lost {state : State Number} {caller left : Nat} {m : Model Number}
      (here : state.calls caller = .reading m left ∨ state.calls caller = .inserting m left) :
      Step state (caller, .failed) (state.call caller (.failed m))

/-- Runs over a table that has no model of the name yet. -/
def machine : Machine (State Number) (Nat × Action) where
  Initial state := (∀ row ∈ state.rows, ¬named tenantId name row) ∧ ∀ caller, state.calls caller = .idle
  Step := Step checks tenantId name

def isSaved (event : Nat × Action) : Bool :=
  match event.2 with
  | .saved _ => true
  | _ => false

/-- The versions of the name, in the order in which they were inserted. -/
def versions (rows : List (Model Number)) : List Int :=
  (rows.filter (named tenantId name)).map Model.version

/-- The versions from 1 on, so many of them. -/
def upTo (count : Nat) : List Int := (List.range count).map fun index : Nat => (index : Int) + 1

variable {version : Int}

theorem mem_upTo {count : Nat} : version ∈ upTo count ↔ 1 ≤ version ∧ version ≤ count := by
  rw [upTo, mem_map]
  constructor
  · rintro ⟨index, found, rfl⟩
    have small := mem_range.mp found
    omega
  · rintro ⟨positive, small⟩
    exact ⟨(version - 1).toNat, mem_range.mpr (by omega), by omega⟩

theorem upTo_succ (count : Nat) : upTo (count + 1) = upTo count ++ [(count : Int) + 1] := by
  rw [upTo, range_succ, map_append]
  rfl

theorem nodup_upTo (count : Nat) : (upTo count).Nodup :=
  Nodup.map (fun left right same => by omega) nodup_range

/-- What every run keeps. -/
structure Allocated (history : List (Nat × Action)) (state : State Number) : Prop where
  versions : versions tenantId name state.rows = upTo (history.countP isSaved)
  pending : ∀ caller m left, state.calls caller = .inserting m left →
    1 ≤ m.version ∧ m.version ≤ (history.countP isSaved : Int) + 1
  ours : ∀ caller m, (state.calls caller).model = some m → m.tenantId = tenantId ∧ m.name = name
  apart : ∀ first second, first ≠ second → ∀ m other, (state.calls first).model = some m →
    (state.calls second).model = some other → m.id ≠ other.id
  absent : ∀ caller m, (state.calls caller).model = some m → state.calls caller ≠ .saved m →
    ∀ row ∈ state.rows, row.id ≠ m.id
  present : ∀ caller m, state.calls caller = .saved m → stored m ∈ state.rows
  reported : ∀ caller version, (caller, .saved version) ∈ history →
    version ≤ (history.countP isSaved : Int)

variable {checks tenantId name} {history : List (Nat × Action)} {before after : State Number}

theorem nextVersion_of_versions {rows : List (Model Number)} {count : Nat}
    (taken : versions tenantId name rows = upTo count) :
    nextVersion rows tenantId name = (count : Int) + 1 := by
  rw [nextVersion, ← versions, taken]
  congr 1
  cases count with
  | zero => rfl
  | succ count =>
    have top : (upTo (count + 1)).max? = some ((count : Int) + 1) := by
      refine max?_eq_some_iff.mpr ⟨mem_upTo.mpr (by omega), ?_⟩
      intro version found
      have bound := (mem_upTo.mp found).2
      omega
    rw [top]
    rfl

/-- What a call's model must meet while nothing is inserted for it. -/
structure Waiting (tenantId name : Bytes) (history : List (Nat × Action)) (state : State Number)
    (caller : Nat) (progress : Progress Number) : Prop where
  pending : ∀ m left, progress = .inserting m left →
    1 ≤ m.version ∧ m.version ≤ (history.countP isSaved : Int) + 1
  ours : ∀ m, progress.model = some m → m.tenantId = tenantId ∧ m.name = name
  apart : ∀ m, progress.model = some m → ∀ other, other ≠ caller → ∀ known,
    (state.calls other).model = some known → known.id ≠ m.id
  absent : ∀ m, progress.model = some m → ∀ row ∈ state.rows, row.id ≠ m.id
  unsaved : ∀ m, progress ≠ .saved m

variable {caller : Nat} {m : Model Number} {progress : Progress Number}

variable (allocated : Allocated tenantId name history before)

include allocated in
/-- A call that waits goes on with its model, up to the version. -/
theorem Allocated.waiting (model : (before.calls caller).model = some m)
    (unsaved : before.calls caller ≠ .saved m)
    (same : progress.model = some { m with version := version }) (still : ∀ m, progress ≠ .saved m)
    (pending : ∀ m left, progress = .inserting m left →
      1 ≤ m.version ∧ m.version ≤ (history.countP isSaved : Int) + 1) :
    Waiting tenantId name history before caller progress := by
  constructor
  · exact pending
  · intro m' known
    obtain rfl := Option.some.inj (same.symm.trans known)
    exact allocated.ours caller m model
  · intro m' known other differ other' otherModel
    obtain rfl := Option.some.inj (same.symm.trans known)
    exact allocated.apart other caller differ other' m otherModel model
  · intro m' known row found
    obtain rfl := Option.some.inj (same.symm.trans known)
    exact allocated.absent caller m model unsaved row found
  · exact still

include allocated in
/-- A step that inserts nothing lets one call wait. -/
theorem Allocated.move {action : Action} (quiet : isSaved (caller, action) = false)
    (unsaved : ∀ m, before.calls caller ≠ .saved m)
    (waiting : Waiting tenantId name history before caller progress) :
    Allocated tenantId name (history ++ [(caller, action)]) (before.call caller progress) := by
  have count : (history ++ [(caller, action)]).countP isSaved = history.countP isSaved := by
    rw [countP_append, countP_singleton, quiet]
    rfl
  have calls : ∀ other, (before.call caller progress).calls other =
      if other = caller then progress else before.calls other := fun _ => rfl
  constructor
  · rw [count]
    exact allocated.versions
  · intro other m left here
    rw [count]
    rw [calls] at here
    split at here
    · exact waiting.pending m left here
    · exact allocated.pending other m left here
  · intro other m here
    rw [calls] at here
    split at here
    · exact waiting.ours m here
    · exact allocated.ours other m here
  · intro first second differ m other left right
    rw [calls] at left right
    split at left
    · rename_i equal
      subst equal
      rw [if_neg differ.symm] at right
      exact (waiting.apart m left second differ.symm other right).symm
    · rename_i apart
      split at right
      · rename_i equal
        subst equal
        exact waiting.apart other right first differ m left
      · exact allocated.apart first second differ m other left right
  · intro other m here proper row found
    rw [calls] at here proper
    split at here
    · exact waiting.absent m here row found
    · rename_i apart
      rw [if_neg apart] at proper
      exact allocated.absent other m here proper row found
  · intro other m here
    rw [calls] at here
    split at here
    · exact absurd here (waiting.unsaved m)
    · exact allocated.present other m here
  · intro other version found
    rw [count]
    rcases mem_append.mp found with found | last
    · exact allocated.reported other version found
    · obtain ⟨-, rfl⟩ := Prod.mk.inj (mem_singleton.mp last)
      cases quiet

include allocated in
/-- The unique index lets only the next version in. -/
theorem Allocated.saved {left : Nat} {rows : List (Model Number)}
    (here : before.calls caller = .inserting m left)
    (inserted : insertModel checks before.rows m = .ok rows) :
    m.version = (history.countP isSaved : Int) + 1 ∧
      Allocated tenantId name (history ++ [(caller, .saved m.version)])
        { before.call caller (.saved m) with rows := rows } := by
  obtain ⟨clear, rfl⟩ : before.rows.any (conflicts · m) = false ∧ before.rows ++ [stored m] = rows := by
    rw [insertModel] at inserted
    split_ifs at inserted with rejected taken
    exact ⟨Bool.eq_false_iff.mpr taken, Except.ok.inj inserted⟩
  have model : (before.calls caller).model = some m := by rw [here]; rfl
  obtain ⟨tenant, title⟩ := allocated.ours caller m model
  obtain ⟨positive, small⟩ := allocated.pending caller m left here
  have fits : named tenantId name (stored m) := decide_eq_true ⟨tenant, title⟩
  -- A version up to the count is taken.
  have next : m.version = (history.countP isSaved : Int) + 1 := by
    by_contra lower
    have taken : m.version ∈ Versions.versions tenantId name before.rows := by
      rw [allocated.versions]
      exact mem_upTo.mpr (by omega)
    obtain ⟨row, found, same⟩ := mem_map.mp taken
    obtain ⟨present, rowFits⟩ := mem_filter.mp found
    obtain ⟨rowTenant, rowTitle⟩ := of_decide_eq_true rowFits
    have free := any_eq_false.mp clear row present
    rw [conflicts, decide_eq_true_eq] at free
    exact free (.inr ⟨rowTenant.trans tenant.symm, rowTitle.trans title.symm, same⟩)
  have count : (history ++ [(caller, Action.saved m.version)]).countP isSaved =
      history.countP isSaved + 1 := by
    rw [countP_append, countP_singleton]
    rfl
  have calls : ∀ other, (before.call caller (.saved m)).calls other =
      if other = caller then Progress.saved m else before.calls other := fun _ => rfl
  have models : ∀ other m', ((before.call caller (.saved m)).calls other).model = some m' →
      (before.calls other).model = some m' := by
    intro other m' known
    rw [calls] at known
    split at known
    · rename_i equal
      cases known
      exact equal ▸ model
    · exact known
  refine ⟨next, ?_⟩
  constructor
  · rw [count, upTo_succ, ← allocated.versions, Versions.versions, filter_append,
      map_append, ← Versions.versions]
    have version : (stored m).version = (history.countP isSaved : Int) + 1 := next
    simp only [filter_cons, fits, if_true, filter_nil, map_cons, map_nil, version]
  · intro other m' left' known
    rw [count]
    rw [calls] at known
    split at known
    · cases known
    · obtain ⟨least, most⟩ := allocated.pending other m' left' known
      omega
  · exact fun other m' known => allocated.ours other m' (models other m' known)
  · exact fun first second differ m' other known known' =>
      allocated.apart first second differ m' other (models first m' known) (models second other known')
  · intro other m' known proper row found
    have different : other ≠ caller := by
      rintro rfl
      rw [calls, if_pos rfl] at known proper
      cases known
      exact proper rfl
    rcases mem_append.mp found with found | last
    · refine allocated.absent other m' (models other m' known) ?_ row found
      rwa [calls, if_neg different] at proper
    · rw [mem_singleton.mp last]
      exact allocated.apart caller other different.symm m m' model (models other m' known)
  · intro other m' known
    rw [calls] at known
    split at known
    · cases known
      simp
    · exact mem_append_left _ (allocated.present other m' known)
  · intro other version found
    rw [count]
    rcases mem_append.mp found with found | last
    · have bound := allocated.reported other version found
      omega
    · obtain ⟨-, same⟩ := Prod.mk.inj (mem_singleton.mp last)
      cases same
      omega

include allocated in
/-- A call that fails or tries again. -/
theorem Allocated.again {action : Action} (quiet : isSaved (caller, action) = false)
    (model : (before.calls caller).model = some m) (unsaved : ∀ m, before.calls caller ≠ .saved m)
    (same : progress.model = some m) (still : ∀ m, progress ≠ .saved m)
    (stopped : ∀ m left, progress ≠ .inserting m left) :
    Allocated tenantId name (history ++ [(caller, action)]) (before.call caller progress) :=
  allocated.move quiet unsaved (allocated.waiting model (unsaved m) same still
    fun m left inserting => absurd inserting (stopped m left))

include allocated in
theorem Allocated.step {event : Nat × Action}
    (step : Step checks tenantId name before event after) :
    Allocated tenantId name (history ++ [event]) after := by
  cases step with
  | @start caller m free ours auto fresh =>
    refine allocated.move rfl (fun _ => by simp [free]) ?_
    constructor
    · exact nofun
    · intro m' same
      cases same
      exact ours
    · intro m' same other _ known model
      cases same
      exact fresh.2 other known model
    · intro m' same
      cases same
      exact fresh.1
    · exact nofun
  | @read caller left m here =>
    have model : (before.calls caller).model = some m := by rw [here]; rfl
    refine allocated.move rfl (fun _ => by simp [here])
      (allocated.waiting model (by simp [here]) rfl (fun _ => by simp) ?_)
    intro m' left' same
    obtain ⟨rfl, -⟩ := Progress.inserting.inj same
    obtain ⟨tenant, title⟩ := allocated.ours caller m model
    simp only [tenant, title, nextVersion_of_versions allocated.versions]
    omega
  | saved here inserted => exact (allocated.saved here inserted).2
  | @collided _ _ _ here _ | @gaveUp _ _ here _ | @rejected _ _ _ here _ =>
    exact allocated.again rfl (by rw [here]; rfl) (fun _ => by simp [here]) rfl (fun _ => by simp)
      (fun _ _ => by simp)
  | @lost caller left m here =>
    have model : (before.calls caller).model = some m := by
      rcases here with here | here <;> rw [here] <;> rfl
    refine allocated.again rfl model ?_ rfl (fun _ => by simp) (fun _ _ => by simp)
    intro m' saved
    rcases here with here | here <;> rw [here] at saved <;> cases saved

theorem allocated_of_run {events : List (Nat × Action)} {state : State Number}
    (run : (machine checks tenantId name).Run events state) :
    Allocated tenantId name events state := by
  refine run.history_invariant (Allocated tenantId name) ?_ fun _ _ _ _ kept step => kept.step step
  rintro state ⟨unnamed, idle⟩
  have none : ∀ caller, (state.calls caller).model = none := fun caller => by rw [idle caller]; rfl
  constructor
  · rw [versions, filter_eq_nil_iff.mpr unnamed]
    rfl
  · exact fun caller m left here => by rw [idle caller] at here; cases here
  · exact fun caller m here => by rw [none caller] at here; cases here
  · exact fun first second _ m other here => by rw [none first] at here; cases here
  · exact fun caller m here => by rw [none caller] at here; cases here
  · exact fun caller m here => by rw [idle caller] at here; cases here
  · exact fun caller version found => absurd found not_mem_nil

/-- A call after whose start some version is in use allots a larger one. -/
theorem larger_of_later {events : List (Nat × Action)} {history : List (Nat × Action)}
    {state finish : State Number}
    (trace : (machine checks tenantId name).Trace state events finish)
    (allocated : Allocated tenantId name history state)
    (used : version ≤ (history.countP isSaved : Int))
    (pending : ∀ m left, state.calls caller = .inserting m left → version < m.version) :
    ∀ allotted, (caller, .saved allotted) ∈ events → version < allotted := by
  induction trace generalizing history with
  | nil => exact fun allotted found => absurd found not_mem_nil
  | @cons before after finish event events head _ ih =>
    have next := allocated.step head
    have more : version ≤ ((history ++ [event]).countP isSaved : Int) := by
      rw [countP_append]
      omega
    have later : ∀ m left, after.calls caller = .inserting m left → version < m.version := by
      intro m left here
      cases head with
      | @read other left' m' reading =>
        rw [State.call] at here
        simp only at here
        split at here
        · obtain ⟨rfl, -⟩ := Progress.inserting.inj here
          obtain ⟨tenant, title⟩ := allocated.ours other m' (by rw [reading]; rfl)
          simp only [tenant, title, nextVersion_of_versions allocated.versions]
          omega
        · exact pending m left here
      | start | saved | collided | gaveUp | rejected | lost =>
        simp only [State.call] at here
        split at here
        · cases here
        · exact pending m left here
    intro allotted found
    rcases mem_cons.mp found with same | found
    · subst same
      cases head with
      | saved here inserted => exact pending _ _ here
    · exact ih next more later allotted found

/-- Concurrent calls get the versions from 1 on, each its own, in the order of calls that
do not overlap; a call that does not succeed leaves no row. -/
theorem versions_allocated (checks : Checks Number) (tenantId name : Bytes)
    (events : List (Nat × Action)) (state : State Number)
    (run : (machine checks tenantId name).Run events state) :
    -- The versions in use are those up to the number of successes.
    versions tenantId name state.rows = upTo (events.countP isSaved) ∧
    -- A model that was saved is there, and no other model has its version.
    (∀ caller m, state.calls caller = .saved m → stored m ∈ state.rows ∧
      ∀ row ∈ state.rows, named tenantId name row → row.version = m.version → row = stored m) ∧
    -- A call that starts after another returned gets a larger version.
    (∀ first middle last earlier later version allotted,
      events = first ++ (earlier, .saved version) :: middle ++ (later, .start) :: last →
        (later, .saved allotted) ∈ last → version < allotted) ∧
    -- A call that failed inserted nothing.
    (∀ caller m, state.calls caller = .failed m → ∀ row ∈ state.rows, row.id ≠ m.id) := by
  have allocated := allocated_of_run run
  refine ⟨allocated.versions, ?_, ?_, ?_⟩
  · intro caller m here
    have present := allocated.present caller m here
    refine ⟨present, fun row found fits same => ?_⟩
    have ours := allocated.ours caller m (by rw [here]; rfl)
    have distinct : (versions tenantId name state.rows).Nodup :=
      allocated.versions ▸ nodup_upTo _
    exact List.inj_on_of_nodup_map distinct (List.mem_filter.mpr ⟨found, fits⟩)
      (List.mem_filter.mpr ⟨present, decide_eq_true ours⟩) same
  · rintro first middle last earlier later version allotted rfl found
    obtain ⟨before, after, prior, step, rest⟩ := run.cut
    have then_ := allocated_of_run prior
    have used := then_.reported earlier version (by simp)
    refine larger_of_later rest (then_.step step) ?_ ?_ allotted found
    · rw [List.countP_append]
      omega
    · intro m left here
      cases step with
      | start free ours auto fresh =>
        rw [State.call] at here
        simp at here
  · intro caller m here
    exact allocated.absent caller m (by rw [here]; rfl) (by rw [here]; exact nofun)

/-- Two calls of which the second reads before the first inserts. -/
def raced : List (Nat × Action) :=
  [(0, .start), (1, .start), (0, .read), (1, .read), (0, .saved 1), (1, .collided), (1, .read),
    (1, .saved 2)]

def racer (id : UInt8) : Model Unit :=
  ⟨[id], [], [0x6E], [], 0, [], [], [], [], [], none, none, none, 1⟩

theorem versions_allocated_raced : ∃ state : State Unit,
    versions [] [0x6E] state.rows = upTo (raced.countP isSaved) := by
  have run : ∃ state, (machine (⟨fun _ => true, fun _ => true, fun _ => true⟩ : Checks Unit) [] [0x6E]).Run
      raced state := by
    refine ⟨_, ⟨[], fun _ => .idle⟩, ⟨by simp, fun _ => rfl⟩,
      .cons (@Step.start _ _ _ _ _ 0 (racer 0x61) rfl ⟨rfl, rfl⟩ rfl ⟨by simp, ?_⟩)
        (.cons (@Step.start _ _ _ _ _ 1 (racer 0x62) rfl ⟨rfl, rfl⟩ rfl ⟨by simp [State.call], ?_⟩)
          (.cons (.read rfl) (.cons (.read rfl)
            (.cons (@Step.saved _ _ _ _ _ 0 _ { racer 0x61 with version := 1 } _ rfl rfl)
              (.cons (.collided rfl rfl) (.cons (.read rfl)
                (.cons (@Step.saved _ _ _ _ _ 1 _ { racer 0x62 with version := 2 } _ rfl rfl)
                  (.nil _))))))))⟩
    · intro other known model
      cases model
    · intro other known model
      rw [State.call] at model
      simp only at model
      split at model
      · cases model
        decide
      · cases model
  obtain ⟨state, run⟩ := run
  exact ⟨state, (versions_allocated _ [] [0x6E] raced state run).1⟩

end Golusoris.Tiny.Versions
