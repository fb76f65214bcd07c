import Golusoris.Webhooks.Out

/-!
# What the delivery records say

A record tells the attempts that were saved since its delivery was created or replayed.
An attempt that is not saved ends its call with an error. This holds in every run that
replays no delivered delivery and none of an inactive endpoint: `Replay` looks at
neither.
-/

namespace Golusoris.Webhooks.Out

open List
open Golusoris.Lib

/-- An action among the attempts that are recorded for a delivery. -/
def record (id : Bytes) (attempts : List Attempt) : Action → List Attempt
  | .created other => if other = id then [] else attempts
  | .attempted attempt =>
      if attempt.delivery = id ∧ attempt.recorded then
        if attempt.first then [attempt] else attempts ++ [attempt]
      else attempts

/-- The attempts recorded since a delivery was created or last replayed. -/
def recorded (id : Bytes) (log : List Action) : List Attempt := log.foldl (record id) []

/-- A record agrees with its attempts. -/
structure Accurate (most : Nat) (attempts : List Attempt) (delivery : Delivery) : Prop where
  number : delivery.attempts = attempts.length
  bounded : delivery.attempts ≤ most
  delivered : delivery.status = .delivered ↔ ∃ last, attempts.getLast? = some last ∧ last.succeeded
  failed : delivery.status = .failed →
    attempts.length = most ∧ ∀ attempt ∈ attempts, ¬attempt.succeeded

/-- The endpoint of an attempt was stored as active, its delivery not as delivered. -/
structure Allowed (attempt : Attempt) : Prop where
  active : ∃ endpoint, attempt.endpoint = some endpoint ∧ endpoint.active
  due : ∀ delivery, attempt.stored = some delivery → delivery.status ≠ .delivered

/-- What the store tells of the actions so far. -/
structure Tells (most : Nat) (log : List Action) (store : Store) : Prop where
  ids : ∀ id delivery, store.deliveries id = some delivery → delivery.id = id
  endpointIDs : ∀ id endpoint, store.endpoints id = some endpoint → endpoint.id = id
  accurate : ∀ id delivery, store.deliveries id = some delivery →
    Accurate most (recorded id log) delivery
  allowed : ∀ attempt, .attempted attempt ∈ log → attempt.sent → Allowed attempt

/-- An attempt that is not recorded ends its call with an error. -/
def Reports (actions : List Action) (errors : List Error) : Prop :=
  ∀ attempt, .attempted attempt ∈ actions → ¬attempt.recorded → errors ≠ []

variable {delivery : Delivery}

section Records

variable {most : Nat} {log : List Action} {store : Store} {id : Bytes}

theorem recorded_append (id : Bytes) (log : List Action) (action : Action) :
    recorded id (log ++ [action]) = record id (recorded id log) action := by
  rw [recorded, foldl_append]
  rfl

theorem accurate_created (delivery : Delivery) (fresh : delivery.attempts = 0)
    (pending : delivery.status = .pending) : Accurate most [] delivery where
  number := fresh
  bounded := fresh ▸ Nat.zero_le most
  delivered := by simp [pending]
  failed := fun failed => by
    rw [pending] at failed
    cases failed

@[simp] theorem save_endpoints (store : Store) (delivery : Delivery) (saved : Saved) :
    (store.save delivery saved).endpoints = store.endpoints := by
  rw [Store.save]
  split_ifs <;> rfl

theorem save_deliveries (store : Store) (delivery : Delivery) (saved : Saved) (id : Bytes) :
    (store.save delivery saved).deliveries id =
      if saved.kept ∧ id = delivery.id then some delivery else store.deliveries id := by
  rw [Store.save]
  by_cases kept : saved.kept
  · by_cases same : id = delivery.id
    · subst same
      simp [kept]
    · simp [kept, same]
  · simp [kept]

/-- A save after some actions keeps the store telling the truth if the saved record does,
and if the actions record nothing else. -/
theorem Tells.save (tells : Tells most log store) {actions : List Action}
    {saved : Saved}
    (own : saved.kept → Accurate most (recorded delivery.id (log ++ actions)) delivery)
    (others : ∀ id, ¬(saved.kept ∧ id = delivery.id) →
      recorded id (log ++ actions) = recorded id log)
    (allowed : ∀ attempt, .attempted attempt ∈ actions → attempt.sent → Allowed attempt) :
    Tells most (log ++ actions) (store.save delivery saved) where
  ids := by
    intro id stored found
    rw [save_deliveries] at found
    split_ifs at found with written
    · cases found
      exact written.2.symm
    · exact tells.ids id stored found
  endpointIDs := by
    intro id endpoint found
    rw [save_endpoints] at found
    exact tells.endpointIDs id endpoint found
  accurate := by
    intro id stored found
    rw [save_deliveries] at found
    split_ifs at found with written
    · cases found
      exact written.2 ▸ own written.1
    · rw [others id written]
      exact tells.accurate id stored found
  allowed := by
    intro attempt listed
    obtain before | here := mem_append.mp listed
    · exact tells.allowed attempt before
    · exact allowed attempt here

/-- Creating a delivery records no attempt yet. -/
theorem Tells.create (tells : Tells most log store) (saved : Saved)
    (fresh : delivery.attempts = 0) (pending : delivery.status = .pending) :
    Tells most (log ++ if saved.kept then [.created delivery.id] else [])
      (store.save delivery saved) := by
  apply tells.save
  · intro kept
    rw [if_pos kept, recorded_append, record, if_pos rfl]
    exact accurate_created delivery fresh pending
  · intro id unwritten
    split_ifs with kept
    · rw [recorded_append, record, if_neg fun same => unwritten ⟨kept, same.symm⟩]
    · rw [append_nil]
  · intro attempt listed
    split_ifs at listed <;> simp at listed

end Records

section Attempts

variable {opts : Options} {log : List Action} {store : Store} {endpoint held : Endpoint}
  {delivery : Delivery} {left : Nat}

/-- A delivery in the loop: all its attempts failed and are recorded, and there is an
active endpoint for the next. -/
structure Trying (opts : Options) (log : List Action) (store : Store) (endpoint : Endpoint)
    (delivery : Delivery) (left : Nat) : Prop where
  tells : Tells opts.attempts log store
  pending : delivery.status = .pending
  left : left + delivery.attempts = opts.attempts
  tried : 0 < delivery.attempts → (recorded delivery.id log).length = delivery.attempts ∧
    ∀ attempt ∈ recorded delivery.id log, ¬attempt.succeeded
  active : ∃ held, store.endpoints endpoint.id = some held ∧ held.active
  due : ∀ stored, store.deliveries delivery.id = some stored → stored.status ≠ .delivered

theorem recordAttempt_id (delivery : Delivery) (now : Nat) (result : Except String Int) :
    (recordAttempt delivery now result).id = delivery.id := by
  unfold recordAttempt
  cases result with
  | error cause => rfl
  | ok code =>
    dsimp only
    split_ifs <;> rfl

theorem recordAttempt_attempts (delivery : Delivery) (now : Nat) (result : Except String Int) :
    (recordAttempt delivery now result).attempts = delivery.attempts + 1 := by
  unfold recordAttempt
  cases result with
  | error cause => rfl
  | ok code =>
    dsimp only
    split_ifs <;> rfl

theorem recordAttempt_status (delivery : Delivery) (now : Nat) (result : Except String Int) :
    (recordAttempt delivery now result).status =
      if isSuccess result then .delivered else delivery.status := by
  unfold recordAttempt
  cases result with
  | error cause => rfl
  | ok code =>
    dsimp only
    split_ifs <;> rfl

/-- The attempt that a round of the loop makes. -/
def attemptOf (opts : Options) (store : Store) (endpoint : Endpoint) (delivery : Delivery)
    (round : Round) : Attempt where
  delivery := delivery.id
  first := delivery.attempts = 0
  endpoint := store.endpoints endpoint.id
  stored := store.deliveries delivery.id
  sent := (post opts endpoint round.answer).1
  succeeded := isSuccess (post opts endpoint round.answer).2
  recorded := round.saved.kept

/-- The record that a round of the loop makes. -/
def recordOf (opts : Options) (endpoint : Endpoint) (delivery : Delivery) (round : Round) : Delivery :=
  recordAttempt delivery round.now (post opts endpoint round.answer).2

variable (trying : Trying opts log store endpoint delivery left)

include trying in
theorem Trying.allowed (round : Round) : Allowed (attemptOf opts store endpoint delivery round) :=
  ⟨trying.active, trying.due⟩

include trying in
/-- The attempts that are recorded after a round. -/
theorem Trying.recorded {round : Round} (kept : round.saved.kept) : ∃ before,
      recorded delivery.id (log ++ [.attempted (attemptOf opts store endpoint delivery round)]) =
        before ++ [attemptOf opts store endpoint delivery round] ∧
      before.length = delivery.attempts ∧ ∀ attempt ∈ before, ¬attempt.succeeded := by
  rw [recorded_append, record, if_pos ⟨rfl, kept⟩]
  by_cases first : delivery.attempts = 0
  · refine ⟨[], ?_, first.symm, fun _ none => absurd none not_mem_nil⟩
    rw [if_pos (by simp [attemptOf, first])]
    rfl
  · obtain ⟨length, failed⟩ := trying.tried (Nat.pos_of_ne_zero first)
    refine ⟨_, ?_, length, failed⟩
    rw [if_neg (by simp [attemptOf, first])]

/-- A saved round leaves an accurate record. -/
theorem Trying.accurate (trying : Trying opts log store endpoint delivery (left + 1)) {round : Round}
    (kept : round.saved.kept) : Accurate opts.attempts
      (Out.recorded delivery.id
        (log ++ [.attempted (attemptOf opts store endpoint delivery round)]))
      (recordOf opts endpoint delivery round) := by
  obtain ⟨before, recorded, length, failed⟩ := trying.recorded kept
  have room := trying.left
  have status := recordAttempt_status delivery round.now (post opts endpoint round.answer).2
  rw [recorded]
  constructor
  · rw [recordOf, recordAttempt_attempts, length_append, length]
    rfl
  · rw [recordOf, recordAttempt_attempts]
    omega
  · rw [recordOf, status, getLast?_concat]
    simp only [Option.some.injEq, exists_eq_left', attemptOf, trying.pending]
    split_ifs with succeeded <;> simp [succeeded]
  · rw [recordOf, status, trying.pending]
    split_ifs <;> nofun

/-- After a round the store tells the truth. -/
theorem Trying.round (trying : Trying opts log store endpoint delivery (left + 1)) (round : Round) :
    Tells opts.attempts (log ++ [.attempted (attemptOf opts store endpoint delivery round)])
      (store.save (recordOf opts endpoint delivery round) round.saved) := by
  have id : (recordOf opts endpoint delivery round).id = delivery.id := recordAttempt_id ..
  apply trying.tells.save
  · intro kept
    rw [id]
    exact trying.accurate kept
  · intro other unwritten
    rw [recorded_append, record, if_neg]
    rintro ⟨same, kept⟩
    exact unwritten ⟨kept, (id.trans same).symm⟩
  · intro attempt listed _
    obtain rfl := Action.attempted.inj (mem_singleton.mp listed)
    exact trying.allowed round

/-- A failed round that is saved leads to the next one. -/
theorem Trying.next (trying : Trying opts log store endpoint delivery (left + 1)) {round : Round}
    (written : round.saved = .written)
    (failed : ¬isSuccess (post opts endpoint round.answer).2) :
    Trying opts (log ++ [.attempted (attemptOf opts store endpoint delivery round)])
      (store.save (recordOf opts endpoint delivery round) round.saved) endpoint
      (recordOf opts endpoint delivery round) left := by
  have kept : round.saved.kept := by
    rw [written]
    rfl
  have id : (recordOf opts endpoint delivery round).id = delivery.id := recordAttempt_id ..
  have status : (recordOf opts endpoint delivery round).status = .pending := by
    rw [recordOf, recordAttempt_status, if_neg failed, trying.pending]
  have attempts : (recordOf opts endpoint delivery round).attempts = delivery.attempts + 1 :=
    recordAttempt_attempts ..
  have room := trying.left
  obtain ⟨before, recorded, length, none⟩ := trying.recorded kept
  refine ⟨trying.round round, status, by omega, fun _ => ?_, ?_, ?_⟩
  · rw [id, recorded, attempts, length_append, length]
    refine ⟨rfl, fun attempt listed => ?_⟩
    obtain earlier | last := mem_append.mp listed
    · exact none attempt earlier
    · rw [mem_singleton.mp last]
      exact failed
  · rw [save_endpoints]
    exact trying.active
  · intro stored found
    rw [save_deliveries, if_pos ⟨kept, rfl⟩] at found
    rw [← Option.some.inj found, status]
    nofun

/-- Dead-lettering a delivery leaves an accurate record. -/
theorem Trying.deadLetter (trying : Trying opts log store endpoint delivery 0) (visit : Visit) :
    Tells opts.attempts log (deadLetter store delivery visit).store := by
  have room := trying.left
  have some := opts.attempts_pos
  obtain ⟨length, failed⟩ := trying.tried (by omega)
  have all : (Out.recorded delivery.id log).length = opts.attempts := by omega
  have saved : Tells opts.attempts (log ++ []) (store.save
      { delivery with status := .failed, updatedAt := visit.now } visit.saved) := by
    apply trying.tells.save
    · intro _
      rw [append_nil]
      refine ⟨length.symm, by simp only; omega, ?_, fun _ => ⟨all, failed⟩⟩
      constructor
      · nofun
      · rintro ⟨last, found, succeeded⟩
        exact absurd succeeded (failed last (mem_of_getLast? found))
    · intro _ _
      rw [append_nil]
    · intro attempt none
      exact absurd none not_mem_nil
  rw [append_nil] at saved
  exact saved

/-- One round of the loop. -/
theorem deliverLoop_succ (visit : Visit) (left : Nat) (store : Store) (delivery : Delivery) :
    deliverLoop opts endpoint visit (left + 1) store delivery =
      let round := visit.rounds delivery.attempts
      let attempt := attemptOf opts store endpoint delivery round
      let after := store.save (recordOf opts endpoint delivery round) round.saved
      if waitFails opts delivery.attempts round.cancelled then { store, errors := [.cancelled] }
      else if round.saved ≠ .written then
        { store := after, actions := [.attempted attempt], errors := [.saveDelivery delivery.id] }
      else if isSuccess (post opts endpoint round.answer).2 then
        { store := after, actions := [.attempted attempt] }
      else
        let rest := deliverLoop opts endpoint visit left after (recordOf opts endpoint delivery round)
        { rest with actions := .attempted attempt :: rest.actions } :=
  rfl

/-- What a call does: the store still tells the truth, and what could not be recorded is
reported. -/
structure Keeps (most : Nat) (log : List Action) (store : Store) (outcome : Outcome) : Prop where
  tells : Tells most (log ++ outcome.actions) outcome.store
  endpoints : outcome.store.endpoints = store.endpoints
  reports : Reports outcome.actions outcome.errors

theorem Keeps.refl {errors : List Error} (tells : Tells opts.attempts log store) :
    Keeps opts.attempts log store { store, errors } where
  tells := by
    rw [append_nil]
    exact tells
  endpoints := rfl
  reports := fun attempt none => absurd none not_mem_nil

include trying in
theorem deliverLoop_keeps (visit : Visit) :
    Keeps opts.attempts log store (deliverLoop opts endpoint visit left store delivery) := by
  induction left generalizing log store delivery with
  | zero =>
    refine ⟨?_, save_endpoints .., fun attempt none => absurd none not_mem_nil⟩
    rw [deliverLoop, Out.deadLetter, append_nil]
    exact trying.deadLetter visit
  | succ left ih =>
    rw [deliverLoop_succ]
    generalize visit.rounds delivery.attempts = round
    dsimp only
    have tells := trying.round round
    split_ifs with waits unsaved succeeds
    · exact .refl trying.tells
    · refine ⟨tells, save_endpoints .., fun _ _ _ => cons_ne_nil _ _⟩
    · -- The attempt is saved, so there is nothing to report.
      simp only [ne_eq, not_not] at unsaved
      refine ⟨tells, save_endpoints .., fun attempt listed lost => ?_⟩
      obtain rfl := Action.attempted.inj (mem_singleton.mp listed)
      exact absurd (show round.saved.kept by rw [unsaved]; rfl) lost
    · simp only [ne_eq, not_not] at unsaved
      have rest := ih (trying.next unsaved succeeds)
      refine ⟨?_, rest.endpoints.trans (save_endpoints ..), fun attempt listed lost => ?_⟩
      · rw [append_cons]
        exact rest.tells
      · obtain here | later := mem_cons.mp listed
        · cases here
          exact absurd (show round.saved.kept by rw [unsaved]; rfl) lost
        · exact rest.reports attempt later lost

end Attempts

section Calls

variable {opts : Options} {log : List Action} {store : Store}

/-- A delivery whose attempts are all to come. -/
theorem deliver_keeps {endpoint held : Endpoint} (tells : Tells opts.attempts log store)
    (pending : delivery.status = .pending) (fresh : delivery.attempts = 0)
    (stored : store.endpoints endpoint.id = some held) (active : held.active)
    (due : ∀ stored, store.deliveries delivery.id = some stored → stored.status ≠ .delivered)
    (visit : Visit) :
    Keeps opts.attempts log store (deliver opts store endpoint delivery visit) := by
  apply deliverLoop_keeps
  exact ⟨tells, pending, by omega, fun some => by omega, ⟨held, stored, active⟩, due⟩

theorem dispatchEndpoint_keeps {endpoint : Endpoint} (tells : Tells opts.attempts log store)
    (stored : store.endpoints endpoint.id = some endpoint) (active : endpoint.active)
    (event body : Bytes) (start : Start) :
    Keeps opts.attempts log store (dispatchEndpoint opts store endpoint event body start) := by
  rw [dispatchEndpoint]
  cases start.newID with
  | error cause => exact .refl tells
  | ok id =>
    dsimp only
    generalize made : (Delivery.mk id endpoint.id event body 0 .pending 0 "" start.now start.now) =
      delivery
    have own : delivery.id = id := by rw [← made]
    have pending : delivery.status = .pending := by rw [← made]
    have fresh : delivery.attempts = 0 := by rw [← made]
    have created := tells.create start.saved fresh pending
    rw [own] at created
    have quiet : ∀ attempt, .attempted attempt ∉
        if start.saved.kept then [Action.created id] else [] := by
      intro attempt listed
      split_ifs at listed <;> simp at listed
    generalize (if start.saved.kept then [Action.created id] else []) = marks at created quiet
    by_cases written : start.saved = .written
    · have kept : start.saved.kept := by
        rw [written]
        rfl
      have due : ∀ stored, (store.save delivery start.saved).deliveries delivery.id = some stored →
          stored.status ≠ .delivered := by
        intro other found
        rw [save_deliveries, if_pos ⟨kept, rfl⟩] at found
        rw [← Option.some.inj found, pending]
        nofun
      have held : (store.save delivery start.saved).endpoints endpoint.id = some endpoint := by
        rw [save_endpoints]
        exact stored
      have rest := deliver_keeps created pending fresh held active due start.visit
      rw [if_neg (not_not.mpr written)]
      refine ⟨?_, rest.endpoints.trans (save_endpoints ..), fun attempt listed lost => ?_⟩
      · rw [← append_assoc]
        exact rest.tells
      · obtain first | later := mem_append.mp listed
        · exact absurd first (quiet attempt)
        · exact rest.reports attempt later lost
    · rw [if_pos written]
      exact ⟨created, save_endpoints .., fun attempt listed => absurd listed (quiet attempt)⟩

theorem dispatchEach_keeps {listed : List (Endpoint × Start)} (tells : Tells opts.attempts log store)
    (stored : ∀ pair ∈ listed, store.endpoints pair.1.id = some pair.1) (event body : Bytes) :
    Keeps opts.attempts log store (dispatchEach opts event body listed store) := by
  induction listed generalizing log store with
  | nil => exact .refl tells
  | cons pair listed ih =>
    obtain ⟨endpoint, start⟩ := pair
    have own := stored _ mem_cons_self
    have others := fun pair inside => stored pair (mem_cons_of_mem _ inside)
    rw [dispatchEach]
    split_ifs with active
    · have one := dispatchEndpoint_keeps tells own active event body start
      have rest := ih one.tells fun pair inside => one.endpoints ▸ others pair inside
      refine ⟨?_, rest.endpoints.trans one.endpoints, fun attempt listed lost none => ?_⟩
      · rw [← append_assoc]
        exact rest.tells
      · obtain ⟨first, second⟩ := append_eq_nil_iff.mp none
        obtain here | later := mem_append.mp listed
        · exact one.reports attempt here lost first
        · exact rest.reports attempt later lost second
    · exact ih tells others

/-- What the amended record is about: a replay is of a delivery that is not stored as
delivered, and its endpoint is stored as active. -/
def Due (store : Store) : Call → Prop
  | .replay id _ _ _ => ∀ delivery endpoint, store.deliveries id = some delivery →
      store.endpoints delivery.endpointID = some endpoint →
      delivery.status ≠ .delivered ∧ endpoint.active
  | _ => True

theorem dispatch_keeps (tells : Tells opts.attempts log store) (event : Bytes)
    (payload : Except String Bytes) (listed : Option (List (Bytes × Start))) :
    Keeps opts.attempts log store (dispatch opts store event payload listed) := by
  unfold dispatch
  cases payload with
  | error cause => exact .refl tells
  | ok body =>
    cases listed with
    | none => exact .refl tells
    | some listed =>
      apply dispatchEach_keeps tells
      rintro ⟨endpoint, start⟩ inside
      obtain ⟨⟨id, other⟩, -, found⟩ := mem_filterMap.mp inside
      obtain ⟨held, filtered, same⟩ := Option.map_eq_some_iff.mp found
      obtain ⟨rfl, -⟩ := Prod.mk.inj same
      have stored := (Option.filter_eq_some_iff.mp filtered).1
      rw [tells.endpointIDs id held stored]
      exact stored

theorem replay_keeps (tells : Tells opts.attempts log store) {id : Bytes}
    {deliveryFound endpointFound : Bool} {visit : Visit}
    (due : Due store (.replay id deliveryFound endpointFound visit)) :
    Keeps opts.attempts log store (replay opts store id deliveryFound endpointFound visit) := by
  rw [replay]
  cases found : (store.deliveries id).filter fun _ => deliveryFound with
  | none => exact .refl tells
  | some delivery =>
    have stored := (Option.filter_eq_some_iff.mp found).1
    dsimp only
    cases known : (store.endpoints delivery.endpointID).filter fun _ => endpointFound with
    | none => exact .refl tells
    | some endpoint =>
      have held := (Option.filter_eq_some_iff.mp known).1
      obtain ⟨undelivered, active⟩ := due delivery endpoint stored held
      have own := tells.endpointIDs _ endpoint held
      refine deliver_keeps tells rfl rfl (own ▸ held) active (fun other again => ?_) visit
      rw [tells.ids id delivery stored, stored] at again
      exact Option.some.inj again ▸ undelivered

/-- Any call that is due keeps the store telling the truth. -/
theorem perform_keeps (tells : Tells opts.attempts log store) {call : Call} (due : Due store call) :
    Tells opts.attempts (log ++ (perform opts store call).actions) (perform opts store call).store ∧
      Reports (perform opts store call).actions (perform opts store call).errors := by
  cases call with
  | dispatch event payload listed =>
    have kept := dispatch_keeps tells event payload listed
    exact ⟨kept.tells, kept.reports⟩
  | replay id deliveryFound endpointFound visit =>
    have kept := replay_keeps tells due
    exact ⟨kept.tells, kept.reports⟩
  | saveEndpoint endpoint =>
    refine ⟨⟨tells.ids, fun id other found => ?_, ?_, ?_⟩, fun _ none =>
      absurd none not_mem_nil⟩
    · simp only [perform, Function.update_apply] at found
      split_ifs at found with same
      · rw [← Option.some.inj found, same]
      · exact tells.endpointIDs id other found
    · rw [perform, append_nil]
      exact tells.accurate
    · rw [perform, append_nil]
      exact tells.allowed
  | deleteEndpoint id =>
    refine ⟨⟨tells.ids, fun other endpoint found => ?_, ?_, ?_⟩, fun _ none =>
      absurd none not_mem_nil⟩
    · simp only [perform, Function.update_apply] at found
      split_ifs at found with same
      exact tells.endpointIDs other endpoint found
    · rw [perform, append_nil]
      exact tells.accurate
    · rw [perform, append_nil]
      exact tells.allowed

end Calls

section Runs

variable {opts : Options} {events : List (Call × List Action × List Error)} {store : Store}

/-- The runs whose replays are due. -/
def heeding (opts : Options) : Machine Store (Call × List Action × List Error) where
  Initial := (machine opts).Initial
  Step store event after := (machine opts).Step store event after ∧ Due store event.1

/-- What was done in a run. -/
def actionsOf (events : List (Call × List Action × List Error)) : List Action :=
  events.flatMap fun event => event.2.1

/-- The records after a run. -/
structure Faithful (most : Nat) (events : List (Call × List Action × List Error)) (store : Store) :
    Prop where
  records : ∀ id delivery, store.deliveries id = some delivery →
    Accurate most (recorded id (actionsOf events)) delivery
  posts : ∀ attempt, .attempted attempt ∈ actionsOf events → attempt.sent → Allowed attempt
  reports : ∀ event ∈ events, Reports event.2.1 event.2.2

/-- Calls one after another, with what they do. -/
def play (opts : Options) : Store → List Call → List (Call × List Action × List Error) × Store
  | store, [] => ([], store)
  | store, call :: calls =>
      let outcome := perform opts store call
      let rest := play opts outcome.store calls
      ((call, outcome.actions, outcome.errors) :: rest.1, rest.2)

theorem run_play (calls : List Call) : (machine opts).Run
    (play opts ⟨fun _ => none, fun _ => none⟩ calls).1
    (play opts ⟨fun _ => none, fun _ => none⟩ calls).2 := by
  have trace (store : Store) :
      (machine opts).Trace store (play opts store calls).1 (play opts store calls).2 := by
    induction calls generalizing store with
    | nil => exact .nil store
    | cons call calls ih => exact .cons rfl (ih _)
  exact ⟨_, rfl, trace _⟩

/-- One attempt for a delivery, to URLs of any kind. -/
def single : Options where
  maxAttempts := 1
  backoff := fun _ => 0
  allowInsecureHTTP := false
  parse := fun _ => .ok ⟨"https", false, [0x68]⟩

/-- An endpoint for all events. -/
def hook (active : Bool) : Endpoint := ⟨[0x65], [0x75], [], active⟩

/-- Attempts that get one answer and are saved in one way. -/
def meets (code : Int) (saved : Saved) : Visit :=
    ⟨fun _ => ⟨false, 1, .answered code, saved⟩, 2, .written⟩

/-- An event is dispatched to the endpoint. -/
def dispatched (code : Int) (saved : Saved) : Call :=
  .dispatch [0x6F] (.ok []) (some [([0x65], ⟨.ok [0x64], 0, .written, meets code saved⟩)])

end Runs

end Golusoris.Webhooks.Out
