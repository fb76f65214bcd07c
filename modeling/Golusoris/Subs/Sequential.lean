import Golusoris.Subs.Service

/-!
# Operations one after the other

Here every operation of the service runs to its end before the next one begins.
`Operation.run` gives the store it leaves, the changes it reports and the error
it returns; any call of the store may fail, and one that fails has no effect.
`Written` says once which record an operation can write over which, and the laws
of a record, the course of its periods and `ProcessDue` follow from it.
-/

namespace Golusoris.Subs

open List

abbrev Store := Finmap (fun _ : String => Subscription)

inductive Failure where
  | idGen
  | notFound
  | get
  | upsert
  | refused (error : Error)
  deriving DecidableEq, Repr

/-- The clock reading of a call and the calls of the store that fail. -/
structure Attempt where
  now : Time
  getFails : Bool := false
  upsertFails : Bool := false

/-- What `ProcessDue` meets at one ID: its own fetch, and its call of `Cancel`. -/
structure Visit where
  id : String
  fetchFails : Bool := false
  cancel : Attempt

inductive Operation where
  /-- `id` is what `IDGen` returns, if it succeeds. -/
  | start (params : StartParams) (id : Option String) (attempt : Attempt)
  | method (call : Call) (attempt : Attempt)
  | processDue (now : Time) (visits : List Visit)

structure Outcome where
  store : Store
  changes : List ChangeEvent := []
  failure : Option Failure := none

/-- `Upsert` succeeds and `emit` reports the change. -/
def Outcome.written (store : Store) (next : Subscription) (source : Option Status) (time : Time) :
    Outcome where
  store := store.insert next.id next
  changes := [⟨next, source, next.status, time⟩]

/-- A method that reads a subscription before it writes it. -/
def perform (periodLength : Time) (store : Store) (call : Call) (attempt : Attempt) : Outcome :=
  if attempt.getFails then { store, failure := some .get }
  else
    match store.lookup call.id with
    | none => { store, failure := some .notFound }
    | some sub =>
        match respond periodLength attempt.now sub call with
        | .error error => { store, failure := some (.refused error) }
        | .ok none => { store }
        | .ok (some next) =>
            if attempt.upsertFails then { store, failure := some .upsert }
            else .written store next (some sub.status) attempt.now

def startWith (periodLength : Time) (store : Store) (params : StartParams) (id : Option String)
    (attempt : Attempt) : Outcome :=
  if params.customerID = "" ∨ params.plan = "" then
    { store, failure := some (.refused .startArguments) }
  else
    match id with
    | none => { store, failure := some .idGen }
    | some id =>
        match Subs.start periodLength id attempt.now params with
        | .error error => { store, failure := some (.refused error) }
        | .ok sub =>
            if attempt.upsertFails then { store, failure := some .upsert }
            else .written store sub none attempt.now

instance (now : Time) (sub : Subscription) : Decidable (Due now sub) :=
  inferInstanceAs (Decidable (((∃ due ∈ sub.cancelAt, due ≤ now) ∧ sub.status ≠ .canceled) ∨
    (sub.status = .trialing ∧ ∃ ends ∈ sub.trialEndsAt, ends ≤ now)))

/-- One round of `ProcessDue`; a failure is logged and the sweep goes on. -/
def visit (periodLength now : Time) (store : Store) (visit : Visit) : Outcome :=
  if visit.fetchFails then { store }
  else
    match store.lookup visit.id with
    | none => { store }
    | some sub =>
        if Due now sub then
          { perform periodLength store (.cancel visit.id none) visit.cancel with failure := none }
        else { store }

def sweep (periodLength now : Time) (store : Store) : List Visit → Outcome
  | [] => { store }
  | next :: visits =>
      let here := visit periodLength now store next
      let rest := sweep periodLength now here.store visits
      { store := rest.store, changes := here.changes ++ rest.changes }

def Operation.run (periodLength : Time) (store : Store) : Operation → Outcome
  | .start params id attempt => startWith periodLength store params id attempt
  | .method call attempt => perform periodLength store call attempt
  | .processDue now visits => sweep periodLength now store visits

/-- The store after a sequence of operations. -/
def runAll (periodLength : Time) (store : Store) (operations : List Operation) : Store :=
  operations.foldl (fun store operation => (operation.run periodLength store).store) store

variable {periodLength now : Time} {sub next : Subscription} {call : Call} {store : Store}

/-- The record that a call writes over the one it fetched. -/
inductive Written (periodLength now : Time) (sub : Subscription) : Call → Subscription → Prop where
  | activate (id : String) (inactive : sub.status ∈ [.incomplete, .trialing, .pastDue]) :
      Written periodLength now sub (.activate id)
        { sub with
          status := .active
          updatedAt := now
          trialEndsAt := none
          currentPeriodStart := now
          currentPeriodEnd := now + periodLength }
  | cancelNow (id : String) (effective : Option Time) (ongoing : sub.status ≠ .canceled)
      (due : Call.immediate now (.cancel id effective) = true) :
      Written periodLength now sub (.cancel id effective)
        { sub with
          status := .canceled
          canceledAt := some now
          cancelAt := none
          updatedAt := now }
  | cancelLater (id : String) (effective : Option Time) (ongoing : sub.status ≠ .canceled)
      (ahead : Call.immediate now (.cancel id effective) ≠ true) :
      Written periodLength now sub (.cancel id effective)
        { sub with cancelAt := effective, updatedAt := now }
  | resume (id : String) (ongoing : sub.status ≠ .canceled) :
      Written periodLength now sub (.resume id) { sub with cancelAt := none, updatedAt := now }
  | pause (id : String) (active : sub.status = .active) :
      Written periodLength now sub (.pause id)
        { sub with status := .paused, updatedAt := now, pausedAt := some now }
  | unpause (id : String) (paused : sub.status = .paused) :
      Written periodLength now sub (.unpause id)
        { sub with status := .active, updatedAt := now, pausedAt := none }
  | markPastDue (id : String) (active : sub.status = .active) :
      Written periodLength now sub (.markPastDue id)
        { sub with status := .pastDue, updatedAt := now }
  | renew (id : String) (ongoing : sub.status = .active ∨ sub.status = .trialing) :
      Written periodLength now sub (.renew id)
        { sub with
          currentPeriodStart := sub.currentPeriodEnd
          currentPeriodEnd := sub.currentPeriodEnd + periodLength
          updatedAt := now }
  | convert (id : String) (trialing : sub.status = .trialing) :
      Written periodLength now sub (.renew id)
        { sub with
          currentPeriodStart := sub.currentPeriodEnd
          currentPeriodEnd := sub.currentPeriodEnd + periodLength
          updatedAt := now
          trialEndsAt := none
          status := .active }
  | changePlan (id newPlan : String) (newSeats : Int) :
      Written periodLength now sub (.changePlan id newPlan newSeats)
        { sub with
          plan := newPlan
          seats := if 0 < newSeats then newSeats else sub.seats
          updatedAt := now }

theorem transition_written {target : Status} {verb : String} {valid : List Status}
    {mutate : Subscription → Subscription}
    (decided : transition target verb valid mutate now sub = .ok (some next)) :
    sub.status ∈ valid ∧ next = mutate { sub with status := target, updatedAt := now } := by
  unfold transition at decided
  by_cases same : sub.status = target
  · simp [same] at decided
  rw [if_neg same] at decided
  by_cases allowed : sub.status ∉ valid
  · simp [allowed] at decided
  rw [if_neg allowed] at decided
  exact ⟨not_not.mp allowed, (Option.some.inj (Except.ok.inj decided)).symm⟩

theorem respond_written (decided : respond periodLength now sub call = .ok (some next)) :
    Written periodLength now sub call next := by
  cases call with
  | activate id =>
    rw [respond] at decided
    obtain ⟨valid, rfl⟩ := transition_written decided
    exact .activate id valid
  | cancel id effective =>
    simp only [respond] at decided
    split_ifs at decided with canceled immediate
    · cases decided
    · cases decided
      exact .cancelNow id effective canceled immediate
    · cases decided
      exact .cancelLater id effective canceled immediate
  | resume id =>
    simp only [respond] at decided
    split_ifs at decided with canceled scheduled
    · cases decided
    · cases decided
      exact .resume id canceled
  | pause id =>
    rw [respond] at decided
    obtain ⟨valid, rfl⟩ := transition_written decided
    exact .pause id (mem_singleton.mp valid)
  | unpause id =>
    rw [respond] at decided
    obtain ⟨valid, rfl⟩ := transition_written decided
    exact .unpause id (mem_singleton.mp valid)
  | markPastDue id =>
    rw [respond] at decided
    obtain ⟨valid, rfl⟩ := transition_written decided
    exact .markPastDue id (mem_singleton.mp valid)
  | renew id =>
    simp only [respond] at decided
    split_ifs at decided with refused ended
    · cases decided
      exact .convert id ended.1
    · cases decided
      refine .renew id ?_
      by_contra neither
      exact refused (not_or.mp neither)
  | changePlan id newPlan newSeats =>
    cases decided
    exact .changePlan id newPlan newSeats

variable (written : Written periodLength now sub call next)

include written in
theorem Written.id : next.id = sub.id := by
  cases written with
  | _ => rfl

/-- How the fields of a stored subscription go together. -/
structure Lawful (periodLength : Time) (sub : Subscription) : Prop where
  canceledAt : sub.canceledAt ≠ none ↔ sub.status = .canceled
  cancelAt : sub.status = .canceled → sub.cancelAt = none
  pausedAt : sub.status = .paused → sub.pausedAt ≠ none
  trialEndsAt : sub.status = .trialing → sub.trialEndsAt ≠ none
  period : sub.currentPeriodEnd = sub.currentPeriodStart + periodLength

include written in
theorem Written.lawful (lawful : Lawful periodLength sub) : Lawful periodLength next := by
  obtain ⟨canceledAt, cancelAt, pausedAt, trialEndsAt, period⟩ := lawful
  cases written with
  | activate id inactive =>
    have unset : sub.canceledAt = none := by
      by_contra set
      rw [canceledAt.mp set] at inactive
      simp at inactive
    exact ⟨by simp [unset], nofun, nofun, nofun, rfl⟩
  | cancelNow id effective ongoing due => exact ⟨by simp, fun _ => rfl, nofun, nofun, period⟩
  | cancelLater _ _ ongoing _ | resume _ ongoing =>
    exact ⟨canceledAt, fun canceled => absurd canceled ongoing, pausedAt, trialEndsAt, period⟩
  | pause id active =>
    have unset : sub.canceledAt = none := by simpa [active] using canceledAt
    exact ⟨by simp [unset], nofun, fun _ => nofun, nofun, period⟩
  | unpause _ paused | markPastDue _ paused =>
    have unset : sub.canceledAt = none := by simpa [paused] using canceledAt
    exact ⟨by simp [unset], nofun, nofun, nofun, period⟩
  | renew id ongoing => exact ⟨canceledAt, cancelAt, pausedAt, trialEndsAt, rfl⟩
  | convert id trialing =>
    have unset : sub.canceledAt = none := by simpa [trialing] using canceledAt
    exact ⟨by simp [unset], nofun, nofun, nofun, rfl⟩
  | changePlan id newPlan newSeats => exact ⟨canceledAt, cancelAt, pausedAt, trialEndsAt, period⟩

theorem start_lawful {id : String} {params : StartParams}
    (created : start periodLength id now params = .ok sub) :
    Lawful periodLength sub ∧ sub.id = id := by
  unfold start at created
  split_ifs at created with missing trial
  · cases created
    exact ⟨⟨by simp, nofun, nofun, fun _ => nofun, rfl⟩, rfl⟩
  · cases created
    exact ⟨⟨by simp, nofun, nofun, nofun, rfl⟩, rfl⟩

/-- Each subscription is stored under its own ID and is lawful. -/
def Sound (periodLength : Time) (store : Store) : Prop :=
  ∀ id sub, store.lookup id = some sub → sub.id = id ∧ Lawful periodLength sub

/-- The changes that an operation reports for one ID. -/
def Outcome.changesOf (outcome : Outcome) (id : String) : List ChangeEvent :=
  outcome.changes.filter fun change => change.subscription.id = id

/-- The operation leaves the ID alone and reports nothing about it. -/
def Outcome.Leaves (outcome : Outcome) (store : Store) (id : String) : Prop :=
  outcome.store.lookup id = store.lookup id ∧ outcome.changesOf id = []

/-- The operation stores a record under the ID and reports that once. -/
def Outcome.Stores (outcome : Outcome) (id : String) (next : Subscription)
    (source : Option Status) : Prop :=
  outcome.store.lookup id = some next ∧
    ∃ time, outcome.changesOf id = [⟨next, source, next.status, time⟩]

theorem Outcome.leaves_self (store : Store) (failure : Option Failure) (id : String) :
    Outcome.Leaves { store, failure } store id :=
  ⟨rfl, rfl⟩

/-- A write of one record is seen at its own ID only. -/
theorem Outcome.written_effect (store : Store) (next : Subscription) (source : Option Status)
    (time : Time) (id : String) :
    (id = next.id ∧ (Outcome.written store next source time).Stores id next source) ∨
      (id ≠ next.id ∧ (Outcome.written store next source time).Leaves store id) := by
  by_cases same : id = next.id
  · refine .inl ⟨same, ?_, time, ?_⟩
    · rw [same]
      exact Finmap.lookup_insert _
    · simp [Outcome.changesOf, Outcome.written, same]
  · refine .inr ⟨same, Finmap.lookup_insert_of_ne _ same, ?_⟩
    simp [Outcome.changesOf, Outcome.written, Ne.symm same]

/-- A method leaves every ID alone, or it writes over the record that it fetched. -/
theorem perform_effect (sound : Sound periodLength store) (call : Call) (attempt : Attempt)
    (id : String) :
    (perform periodLength store call attempt).Leaves store id ∨
      ∃ sub next, call.id = id ∧ store.lookup id = some sub ∧
        Written periodLength attempt.now sub call next ∧
        (perform periodLength store call attempt).Stores id next (some sub.status) := by
  unfold perform
  by_cases getFails : attempt.getFails = true
  · rw [if_pos getFails]
    exact .inl (Outcome.leaves_self ..)
  rw [if_neg getFails]
  cases found : store.lookup call.id with
  | none => exact .inl (Outcome.leaves_self ..)
  | some sub =>
    simp only
    cases decided : respond periodLength attempt.now sub call with
    | error error => exact .inl (Outcome.leaves_self ..)
    | ok result =>
      cases result with
      | none => exact .inl (Outcome.leaves_self ..)
      | some next =>
        simp only
        by_cases upsertFails : attempt.upsertFails = true
        · rw [if_pos upsertFails]
          exact .inl (Outcome.leaves_self ..)
        rw [if_neg upsertFails]
        have written := respond_written decided
        have stored : next.id = call.id := written.id.trans (sound call.id sub found).1
        rcases Outcome.written_effect store next (some sub.status) attempt.now id with
          ⟨rfl, stores⟩ | ⟨-, leaves⟩
        · exact .inr ⟨sub, next, stored.symm, stored ▸ found, written, stores⟩
        · exact .inl leaves

theorem startWith_effect (store : Store) (params : StartParams) (generated : Option String)
    (attempt : Attempt) (id : String) :
    (startWith periodLength store params generated attempt).Leaves store id ∨
      ∃ next, generated = some id ∧ next.id = id ∧ Lawful periodLength next ∧
        (startWith periodLength store params generated attempt).Stores id next none := by
  unfold startWith
  by_cases missing : params.customerID = "" ∨ params.plan = ""
  · rw [if_pos missing]
    exact .inl (Outcome.leaves_self ..)
  rw [if_neg missing]
  cases generated with
  | none => exact .inl (Outcome.leaves_self ..)
  | some new =>
    simp only
    cases created : start periodLength new attempt.now params with
    | error error => exact .inl (Outcome.leaves_self ..)
    | ok sub =>
      simp only
      by_cases upsertFails : attempt.upsertFails = true
      · rw [if_pos upsertFails]
        exact .inl (Outcome.leaves_self ..)
      rw [if_neg upsertFails]
      obtain ⟨lawful, rfl⟩ := start_lawful created
      rcases Outcome.written_effect store sub none attempt.now id with
        ⟨rfl, stores⟩ | ⟨-, leaves⟩
      · exact .inr ⟨sub, rfl, rfl, lawful, stores⟩
      · exact .inl leaves

/-- `Cancel` at no set time writes a canceled record. -/
theorem Written.canceled {id : String}
    (written : Written periodLength now sub (.cancel id none) next) : next.status = .canceled := by
  cases written with
  | cancelNow _ _ ongoing due => rfl
  | cancelLater _ _ ongoing ahead => exact absurd rfl ahead

theorem not_due_of_canceled (canceled : sub.status = .canceled) : ¬ Due now sub := by
  rintro (⟨-, ongoing⟩ | ⟨trialing, -⟩)
  · exact ongoing canceled
  · rw [canceled] at trialing
    cases trialing

/-- An operation that writes lawful records under their own IDs keeps the store
sound. -/
theorem Sound.keeps {outcome : Outcome} (sound : Sound periodLength store)
    (effect : ∀ id, outcome.Leaves store id ∨
      ∃ next source, next.id = id ∧ Lawful periodLength next ∧ outcome.Stores id next source) :
    Sound periodLength outcome.store := by
  intro id sub found
  rcases effect id with ⟨same, -⟩ | ⟨next, source, own, lawful, stored, -⟩
  · exact sound id sub (same.symm.trans found)
  · obtain rfl := Option.some.inj (stored.symm.trans found)
    exact ⟨own, lawful⟩

/-- The cancellation of a due subscription, as `ProcessDue` makes it. -/
def Outcome.Cancels (outcome : Outcome) (periodLength now : Time) (store : Store) (id : String) :
    Prop :=
  ∃ sub next time, store.lookup id = some sub ∧ Due now sub ∧
    Written periodLength time sub (.cancel id none) next ∧
    outcome.Stores id next (some sub.status)

theorem Outcome.Cancels.record {outcome : Outcome} {id : String}
    (sound : Sound periodLength store) (cancels : outcome.Cancels periodLength now store id) :
    ∃ next source, next.id = id ∧ Lawful periodLength next ∧ outcome.Stores id next source := by
  obtain ⟨sub, next, time, found, -, written, stores⟩ := cancels
  obtain ⟨own, lawful⟩ := sound id sub found
  exact ⟨next, _, written.id.trans own, written.lawful lawful, stores⟩

theorem visit_effect (now : Time) (sound : Sound periodLength store) (one : Visit) (id : String) :
    (visit periodLength now store one).Leaves store id ∨
      one.id = id ∧ (visit periodLength now store one).Cancels periodLength now store id := by
  unfold visit
  by_cases fetchFails : one.fetchFails = true
  · rw [if_pos fetchFails]
    exact .inl (Outcome.leaves_self ..)
  rw [if_neg fetchFails]
  cases found : store.lookup one.id with
  | none => exact .inl (Outcome.leaves_self ..)
  | some sub =>
    simp only
    by_cases due : Due now sub
    · rw [if_pos due]
      rcases perform_effect sound (.cancel one.id none) one.cancel id with
        leaves | ⟨sub', next, rfl, found', written, stores⟩
      · exact .inl leaves
      · obtain rfl := Option.some.inj (found.symm.trans found')
        exact .inr ⟨rfl, sub, next, one.cancel.now, found, due, written, stores⟩
    · rw [if_neg due]
      exact .inl (Outcome.leaves_self ..)

theorem visit_sound (now : Time) (sound : Sound periodLength store) (one : Visit) :
    Sound periodLength (visit periodLength now store one).store := by
  refine sound.keeps fun id => ?_
  rcases visit_effect now sound one id with leaves | ⟨-, cancels⟩
  · exact .inl leaves
  · exact .inr (cancels.record sound)

/-- A subscription that is not due when a sweep begins is left alone. -/
theorem sweep_effect (sound : Sound periodLength store) (visits : List Visit) (id : String) :
    (sweep periodLength now store visits).Leaves store id ∨
      id ∈ visits.map Visit.id ∧
        (sweep periodLength now store visits).Cancels periodLength now store id := by
  induction visits generalizing store with
  | nil => exact .inl (Outcome.leaves_self ..)
  | cons one visits ih =>
    have together : (sweep periodLength now store (one :: visits)).changesOf id =
        (visit periodLength now store one).changesOf id ++
          (sweep periodLength now (visit periodLength now store one).store visits).changesOf id :=
      filter_append ..
    rcases ih (visit_sound now sound one) with ⟨same, quiet⟩ | ⟨member, later⟩
    · rcases visit_effect now sound one id with
        ⟨same', quiet'⟩ | ⟨rfl, sub, next, time, found, due, written, stored, at', reported⟩
      · exact .inl ⟨same.trans same', by rw [together, quiet, quiet']; rfl⟩
      · refine .inr ⟨mem_cons_self, sub, next, time, found, due, written,
          same.trans stored, at', ?_⟩
        rw [together, quiet, reported]
        rfl
    · obtain ⟨sub, next, time, found, due, written, stored, at', reported⟩ := later
      rcases visit_effect now sound one id with
        ⟨same', quiet'⟩ | ⟨rfl, sub', next', time', found', due', written', stored', -⟩
      · refine .inr ⟨mem_cons_of_mem _ member, sub, next, time, same'.symm.trans found, due,
          written, stored, at', ?_⟩
        rw [together, quiet', reported]
        rfl
      · -- A subscription that was just canceled is not due again.
        obtain rfl := Option.some.inj (stored'.symm.trans found)
        exact absurd due (not_due_of_canceled written'.canceled)

/-- What an operation does to one subscription: nothing, a new record under a
generated ID, or a record over the one that was stored. -/
theorem Operation.effect (sound : Sound periodLength store) (operation : Operation) (id : String) :
    (operation.run periodLength store).Leaves store id ∨
      (∃ params attempt next, operation = .start params (some id) attempt ∧ next.id = id ∧
        Lawful periodLength next ∧ (operation.run periodLength store).Stores id next none) ∨
      ∃ sub call time next, store.lookup id = some sub ∧
        (∀ id', call = .activate id' → ∃ attempt, operation = .method (.activate id) attempt) ∧
        Written periodLength time sub call next ∧
        (operation.run periodLength store).Stores id next (some sub.status) := by
  cases operation with
  | start params generated attempt =>
    rcases startWith_effect store params generated attempt id with
      leaves | ⟨next, rfl, own, lawful, stores⟩
    · exact .inl leaves
    · exact .inr (.inl ⟨params, attempt, next, rfl, own, lawful, stores⟩)
  | method call attempt =>
    rcases perform_effect sound call attempt id with
      leaves | ⟨sub, next, rfl, found, written, stores⟩
    · exact .inl leaves
    · refine .inr (.inr ⟨sub, call, attempt.now, next, found, ?_, written, stores⟩)
      rintro id rfl
      exact ⟨attempt, rfl⟩
  | processDue now visits =>
    rcases sweep_effect sound visits id with
      leaves | ⟨-, sub, next, time, found, -, written, stores⟩
    · exact .inl leaves
    · refine .inr (.inr ⟨sub, _, time, next, found, ?_, written, stores⟩)
      intro id' impossible
      cases impossible

theorem Operation.sound (sound : Sound periodLength store) (operation : Operation) :
    Sound periodLength (operation.run periodLength store).store := by
  refine sound.keeps fun id => ?_
  rcases operation.effect sound id with leaves | ⟨params, attempt, next, -, own, lawful, stores⟩ |
    ⟨sub, call, time, next, found, -, written, stores⟩
  · exact .inl leaves
  · exact .inr ⟨next, none, own, lawful, stores⟩
  · obtain ⟨own, lawful⟩ := sound id sub found
    exact .inr ⟨next, _, written.id.trans own, written.lawful lawful, stores⟩

theorem runAll_sound (sound : Sound periodLength store) (operations : List Operation) :
    Sound periodLength (runAll periodLength store operations) := by
  induction operations generalizing store with
  | nil => exact sound
  | cons operation operations ih => exact ih (operation.sound sound)

theorem empty_sound : Sound periodLength ∅ := by
  intro id sub found
  rw [Finmap.lookup_empty] at found
  cases found

/-- The records of one ID, from a store on and after each operation. -/
def timeline (periodLength : Time) (id : String) : Store → List Operation → List Subscription
  | store, [] => (store.lookup id).toList
  | store, operation :: operations =>
      (store.lookup id).toList ++
        timeline periodLength id (operation.run periodLength store).store operations

/-- The period stays, or the next one begins where it ends. -/
def Continues (earlier later : Subscription) : Prop :=
  (later.currentPeriodStart = earlier.currentPeriodStart ∧
      later.currentPeriodEnd = earlier.currentPeriodEnd) ∨
    later.currentPeriodStart = earlier.currentPeriodEnd

/-- The operation begins a new course of periods: it creates the subscription
or activates it. -/
def Operation.restarts (id : String) : Operation → Bool
  | .start _ generated _ => generated = some id
  | .method (.activate other) _ => other = id
  | _ => false

include written in
theorem Written.continues (other : ∀ id, call ≠ .activate id) : Continues sub next := by
  cases written with
  | activate id => exact absurd rfl (other id)
  | renew | convert => exact .inr rfl
  | _ => exact .inl ⟨rfl, rfl⟩

/-- An operation that does not restart the periods continues them. -/
theorem Operation.continues (sound : Sound periodLength store) {operation : Operation} {id : String}
    (goes_on : operation.restarts id = false) :
    (operation.run periodLength store).store.lookup id = store.lookup id ∨
      ∃ sub next, store.lookup id = some sub ∧
        (operation.run periodLength store).store.lookup id = some next ∧ Continues sub next := by
  rcases operation.effect sound id with ⟨same, -⟩ | ⟨params, attempt, next, rfl, -⟩ |
    ⟨sub, call, time, next, found, only, written, stored, -⟩
  · exact .inl same
  · simp [Operation.restarts] at goes_on
  · refine .inr ⟨sub, next, found, stored, written.continues ?_⟩
    rintro id' rfl
    obtain ⟨attempt, rfl⟩ := only id' rfl
    simp [Operation.restarts] at goes_on

theorem timeline_head (store : Store) (operations : List Operation) (id : String) :
    ∀ sub, store.lookup id = some sub →
      (timeline periodLength id store operations).head? = some sub := by
  intro sub found
  cases operations with
  | nil | cons _ _ => simp [timeline, found]

theorem timeline_continues (sound : Sound periodLength store) (operations : List Operation)
    (id : String) (goes_on : ∀ operation ∈ operations, operation.restarts id = false) :
    (timeline periodLength id store operations).IsChain Continues := by
  induction operations generalizing store with
  | nil =>
    cases found : store.lookup id with
    | none | some _ => simp [timeline, found]
  | cons operation operations ih =>
    have rest := ih (operation.sound sound)
      (fun other member => goes_on other (mem_cons_of_mem _ member))
    cases found : store.lookup id with
    | none => simpa [timeline, found] using rest
    | some sub =>
      have next : ∃ next, (operation.run periodLength store).store.lookup id = some next ∧
          Continues sub next := by
        rcases Operation.continues sound (goes_on operation mem_cons_self) with
          same | ⟨sub', next, found', stored, continues⟩
        · exact ⟨sub, same.trans found, .inl ⟨rfl, rfl⟩⟩
        · obtain rfl := Option.some.inj (found.symm.trans found')
          exact ⟨next, stored, continues⟩
      obtain ⟨next, stored, continues⟩ := next
      simp only [timeline, found, Option.toList_some, singleton_append]
      refine isChain_cons.mpr ⟨?_, rest⟩
      intro first isFirst
      rw [timeline_head _ _ _ next stored] at isFirst
      cases isFirst
      exact continues

def Visit.faultless (one : Visit) : Bool :=
  !one.fetchFails && !one.cancel.getFails && !one.cancel.upsertFails

theorem Due.ongoing (due : Due now sub) : sub.status ≠ .canceled :=
  fun canceled => not_due_of_canceled canceled due

/-- A visit without failures settles its subscription. -/
theorem visit_settles (sound : Sound periodLength store) (one : Visit)
    (faultless : one.faultless = true) :
    ∀ sub, (visit periodLength now store one).store.lookup one.id = some sub → ¬ Due now sub := by
  simp only [Visit.faultless, Bool.and_eq_true, Bool.not_eq_true'] at faultless
  obtain ⟨⟨fetched, got⟩, upserted⟩ := faultless
  intro sub stored due
  rcases visit_effect now sound one one.id with ⟨same, quiet⟩ | ⟨-, _, next, _, -, -, written, now', -⟩
  · -- The fetched record is due, so the visit has canceled it and reported that.
    have found := same.symm.trans stored
    have canceled : respond periodLength one.cancel.now sub (.cancel one.id none) =
        .ok (some { sub with
          status := .canceled
          canceledAt := some one.cancel.now
          cancelAt := none
          updatedAt := one.cancel.now }) := by
      simp [respond, due.ongoing, Call.immediate]
    have own := (sound one.id sub found).1
    simp [visit, fetched, found, due, perform, got, Call.id, canceled, upserted, Outcome.written,
      Outcome.changesOf, own] at quiet
  · obtain rfl := Option.some.inj (now'.symm.trans stored)
    exact not_due_of_canceled written.canceled due

/-- After a sweep without failures no listed subscription is due. -/
theorem sweep_settles (sound : Sound periodLength store) (visits : List Visit)
    (faultless : ∀ one ∈ visits, one.faultless = true) (id : String)
    (listed : id ∈ visits.map Visit.id) :
    ∀ sub, (sweep periodLength now store visits).store.lookup id = some sub → ¬ Due now sub := by
  induction visits generalizing store with
  | nil => cases listed
  | cons one visits ih =>
    have rest : ∀ other ∈ visits, other.faultless = true :=
      fun other member => faultless other (mem_cons_of_mem _ member)
    by_cases later : id ∈ visits.map Visit.id
    · exact ih (visit_sound now sound one) rest later
    · -- The last visit of the ID is this one, and the rest of the sweep leaves it alone.
      obtain rfl : id = one.id := by simpa [later] using listed
      rcases sweep_effect (visit_sound now sound one) visits one.id with
        ⟨same, -⟩ | ⟨member, -⟩
      · intro sub stored
        exact visit_settles sound one (faultless one mem_cons_self) sub (same.symm.trans stored)
      · exact absurd member later

/-- A sweep leaves alone what it does not list and what is not due. -/
theorem sweep_leaves (sound : Sound periodLength store) (visits : List Visit) (id : String)
    (spared : id ∉ visits.map Visit.id ∨ ∀ sub, store.lookup id = some sub → ¬ Due now sub) :
    (sweep periodLength now store visits).store.lookup id = store.lookup id := by
  rcases sweep_effect sound visits id with ⟨same, -⟩ | ⟨member, sub, _, _, found, due, -⟩
  · exact same
  · rcases spared with unlisted | notDue
    · exact absurd member unlisted
    · exact absurd due (notDue sub found)

/-- From an empty store on, whatever operations run one after the other and
whatever the clock shows: every stored record is lawful, its periods are without
gaps until it is activated again, and `ProcessDue` cancels exactly what is due. -/
theorem records_lawful (periodLength : Time) (operations : List Operation) :
    (∀ id sub, (runAll periodLength ∅ operations).lookup id = some sub → Lawful periodLength sub) ∧
      (∀ id later, (∀ operation ∈ later, operation.restarts id = false) →
        (timeline periodLength id (runAll periodLength ∅ operations) later).IsChain Continues) ∧
      ∀ now visits, (∀ one ∈ visits, one.faultless = true) →
        (∀ id ∈ visits.map Visit.id, ∀ sub,
          ((Operation.processDue now visits).run periodLength
            (runAll periodLength ∅ operations)).store.lookup id = some sub → ¬ Due now sub) ∧
        ∀ id, (id ∉ visits.map Visit.id ∨
            ∀ sub, (runAll periodLength ∅ operations).lookup id = some sub → ¬ Due now sub) →
          ((Operation.processDue now visits).run periodLength
            (runAll periodLength ∅ operations)).store.lookup id =
            (runAll periodLength ∅ operations).lookup id := by
  have sound := runAll_sound (empty_sound : Sound periodLength ∅) operations
  refine ⟨?_, ?_, ?_⟩
  · intro id sub found
    exact (sound id sub found).2
  · intro id later goes_on
    exact timeline_continues sound later id goes_on
  · intro now visits faultless
    refine ⟨?_, ?_⟩
    · intro id listed
      exact sweep_settles sound visits faultless id listed
    · intro id spared
      exact sweep_leaves sound visits id spared

end Golusoris.Subs
