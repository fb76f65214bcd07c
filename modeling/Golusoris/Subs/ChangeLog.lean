import Golusoris.Subs.Sequential

/-!
# The change log

What `OnChange` is told about one subscription is a chain: each change starts
from the status the one before it led to, and the last one leads to the status
that is stored. The induction runs over the operations and carries the status
stored so far; `Operation.effect` says what one operation adds to the log.

Only `Start` reports a change from no status, so the chain needs IDs that are
not given out twice, which is what `IDGen` is for.
-/

namespace Golusoris.Subs

open List

variable {periodLength : Time} {store : Store} {id : String}

/-- Everything that a sequence of operations reports. -/
def changesAll (periodLength : Time) : Store → List Operation → List ChangeEvent
  | _, [] => []
  | store, operation :: operations =>
      (operation.run periodLength store).changes ++
        changesAll periodLength (operation.run periodLength store).store operations

/-- What it reports for one ID. -/
def changeLog (periodLength : Time) (id : String) (store : Store) (operations : List Operation) :
    List ChangeEvent :=
  (changesAll periodLength store operations).filter fun change => change.subscription.id = id

/-- The ID that an operation is given by `IDGen`. -/
def Operation.generated : Operation → Option String
  | .start _ generated _ => generated
  | _ => none

/-- Each change starts where the one before it ended. -/
def Linked (earlier later : ChangeEvent) : Prop :=
  later.source = some earlier.target

variable (operation : Operation)

theorem changeLog_cons (operations : List Operation) :
    changeLog periodLength id store (operation :: operations) =
      (operation.run periodLength store).changesOf id ++
        changeLog periodLength id (operation.run periodLength store).store operations :=
  filter_append ..

theorem perform_quiet (call : Call) (attempt : Attempt)
    (fails : (perform periodLength store call attempt).failure ≠ none) :
    (perform periodLength store call attempt).store = store ∧
      (perform periodLength store call attempt).changes = [] := by
  unfold perform at fails ⊢
  by_cases getFails : attempt.getFails = true
  · rw [if_pos getFails]
    exact ⟨rfl, rfl⟩
  rw [if_neg getFails] at fails ⊢
  cases found : store.lookup call.id with
  | none => exact ⟨rfl, rfl⟩
  | some sub =>
    rw [found] at fails
    simp only at fails ⊢
    cases decided : respond periodLength attempt.now sub call with
    | error error => exact ⟨rfl, rfl⟩
    | ok result =>
      rw [decided] at fails
      cases result with
      | none => exact ⟨rfl, rfl⟩
      | some next =>
        simp only at fails ⊢
        by_cases upsertFails : attempt.upsertFails = true
        · rw [if_pos upsertFails]
          exact ⟨rfl, rfl⟩
        · rw [if_neg upsertFails] at fails
          exact absurd rfl fails

theorem startWith_quiet (params : StartParams) (generated : Option String) (attempt : Attempt)
    (fails : (startWith periodLength store params generated attempt).failure ≠ none) :
    (startWith periodLength store params generated attempt).store = store ∧
      (startWith periodLength store params generated attempt).changes = [] := by
  unfold startWith at fails ⊢
  by_cases missing : params.customerID = "" ∨ params.plan = ""
  · rw [if_pos missing]
    exact ⟨rfl, rfl⟩
  rw [if_neg missing] at fails ⊢
  cases generated with
  | none => exact ⟨rfl, rfl⟩
  | some new =>
    simp only at fails ⊢
    cases created : start periodLength new attempt.now params with
    | error error => exact ⟨rfl, rfl⟩
    | ok sub =>
      rw [created] at fails
      simp only at fails ⊢
      by_cases upsertFails : attempt.upsertFails = true
      · rw [if_pos upsertFails]
        exact ⟨rfl, rfl⟩
      · rw [if_neg upsertFails] at fails
        exact absurd rfl fails

/-- An operation that fails does nothing; `ProcessDue` does not fail. -/
theorem Operation.failure_quiet (fails : (operation.run periodLength store).failure ≠ none) :
    (operation.run periodLength store).store = store ∧
      (operation.run periodLength store).changes = [] := by
  cases operation with
  | start params generated attempt => exact startWith_quiet params generated attempt fails
  | method call attempt => exact perform_quiet call attempt fails
  | processDue now visits =>
    refine absurd ?_ fails
    cases visits with
    | nil => rfl
    | cons one visits => rfl

variable (sound : Sound periodLength store)

include sound in
/-- An operation that changes a record reports that once. -/
theorem Operation.reports (operation : Operation)
    (changed : (operation.run periodLength store).store.lookup id ≠ store.lookup id) :
    ∃ change, (operation.run periodLength store).changesOf id = [change] := by
  rcases operation.effect sound id with ⟨same, -⟩ | ⟨_, _, _, -, -, -, -, _, reported⟩ |
    ⟨_, _, _, _, -, -, -, -, _, reported⟩
  · exact absurd same changed
  · exact ⟨_, reported⟩
  · exact ⟨_, reported⟩

/-- The IDs still to be given out are not in use, and none is given out twice. -/
def Distinct (store : Store) (operations : List Operation) : Prop :=
  (operations.filterMap Operation.generated).Nodup ∧
    ∀ id ∈ operations.filterMap Operation.generated, store.lookup id = none

variable {operation : Operation} {operations : List Operation}

variable (distinct : Distinct store (operation :: operations))

include distinct in
theorem Distinct.fresh (given : operation.generated = some id) : store.lookup id = none := by
  refine distinct.2 id ?_
  rw [filterMap_cons_some given]
  exact mem_cons_self

include sound distinct in
theorem Distinct.tail : Distinct (operation.run periodLength store).store operations := by
  obtain ⟨once, unused⟩ := distinct
  have later : ∀ id ∈ operations.filterMap Operation.generated,
      operation.generated ≠ some id ∧ store.lookup id = none := by
    intro id member
    cases given : operation.generated with
    | none =>
      rw [filterMap_cons_none given] at unused
      exact ⟨nofun, unused id member⟩
    | some new =>
      rw [filterMap_cons_some given] at once unused
      refine ⟨?_, unused id (mem_cons_of_mem _ member)⟩
      intro same
      cases same
      exact (nodup_cons.mp once).1 member
  refine ⟨?_, ?_⟩
  · cases given : operation.generated with
    | none => rwa [filterMap_cons_none given] at once
    | some new =>
      rw [filterMap_cons_some given] at once
      exact (nodup_cons.mp once).2
  · intro id member
    obtain ⟨other, free⟩ := later id member
    rcases operation.effect sound id with ⟨same, -⟩ | ⟨params, attempt, next, rfl, -⟩ |
      ⟨sub, call, time, next, found, -⟩
    · exact same.trans free
    · exact absurd rfl other
    · rw [free] at found
      cases found

include sound distinct in
/-- An operation reports a change from the status that was stored, or nothing. -/
theorem Operation.effect_from (id : String) :
    (operation.run periodLength store).Leaves store id ∨
      ∃ next, (operation.run periodLength store).Stores id next
        ((store.lookup id).map Subscription.status) := by
  rcases operation.effect sound id with leaves | ⟨params, attempt, next, rfl, -, -, stores⟩ |
    ⟨sub, call, time, next, found, -, -, stores⟩
  · exact .inl leaves
  · refine .inr ⟨next, ?_⟩
    rw [distinct.fresh rfl]
    exact stores
  · refine .inr ⟨next, ?_⟩
    rw [found]
    exact stores

include sound in
/-- From any store on, the log of an ID starts at the stored status, is linked,
and ends at the status that is stored then. -/
theorem changeLog_linked (operations : List Operation) (distinct : Distinct store operations)
    (id : String) :
    (∀ first ∈ (changeLog periodLength id store operations).head?,
        first.source = (store.lookup id).map Subscription.status) ∧
      (changeLog periodLength id store operations).IsChain Linked ∧
      ((changeLog periodLength id store operations).getLast?.map ChangeEvent.target).or
          ((store.lookup id).map Subscription.status) =
        ((runAll periodLength store operations).lookup id).map Subscription.status := by
  induction operations generalizing store with
  | nil => simp [changeLog, changesAll, runAll]
  | cons operation operations ih =>
    obtain ⟨starts, linked, ends⟩ := ih (operation.sound sound) (distinct.tail sound)
    have rest : runAll periodLength store (operation :: operations) =
        runAll periodLength (operation.run periodLength store).store operations := rfl
    rw [changeLog_cons, rest]
    rcases Operation.effect_from sound distinct id with ⟨same, quiet⟩ | ⟨next, stored, time, one⟩
    · rw [quiet, nil_append, ← same]
      exact ⟨starts, linked, ends⟩
    · rw [one, singleton_append]
      rw [stored, Option.map_some] at starts ends
      refine ⟨?_, isChain_cons.mpr ⟨?_, linked⟩, ?_⟩
      · intro first isFirst
        cases isFirst
        rfl
      · intro following isNext
        exact starts following isNext
      · rw [← ends, getLast?_cons]
        cases (changeLog periodLength id (operation.run periodLength store).store
          operations).getLast? with
        | none => rfl
        | some last => rfl

/-- From an empty store on, with failing store calls anywhere: the changes of an
ID are linked and end at the stored status, an operation that changes a record
reports it once, and one that returns an error does and reports nothing. -/
theorem change_log_faithful (periodLength : Time) (operations : List Operation)
    (distinct : (operations.filterMap Operation.generated).Nodup) :
    (∀ id, (changeLog periodLength id ∅ operations).IsChain Linked ∧
        (changeLog periodLength id ∅ operations).getLast?.map ChangeEvent.target =
          ((runAll periodLength ∅ operations).lookup id).map Subscription.status) ∧
      ∀ earlier operation later, operations = earlier ++ operation :: later →
        (∀ id, (operation.run periodLength (runAll periodLength ∅ earlier)).store.lookup id ≠
            (runAll periodLength ∅ earlier).lookup id →
          ∃ change, (operation.run periodLength (runAll periodLength ∅ earlier)).changesOf id =
            [change]) ∧
        ((operation.run periodLength (runAll periodLength ∅ earlier)).failure ≠ none →
          (operation.run periodLength (runAll periodLength ∅ earlier)).store =
              runAll periodLength ∅ earlier ∧
            (operation.run periodLength (runAll periodLength ∅ earlier)).changes = []) := by
  refine ⟨?_, ?_⟩
  · intro id
    have unused : Distinct ∅ operations := ⟨distinct, fun id _ => Finmap.lookup_empty id⟩
    obtain ⟨-, linked, ends⟩ := changeLog_linked (empty_sound : Sound periodLength ∅) operations
      unused id
    rw [Finmap.lookup_empty, Option.map_none, Option.or_none] at ends
    exact ⟨linked, ends⟩
  · intro earlier operation later _
    have sound := runAll_sound (empty_sound : Sound periodLength ∅) earlier
    exact ⟨fun id changed => operation.reports sound changed, operation.failure_quiet⟩

/-- A trial that ends, the first sweep failing to store the cancellation. -/
def trialCourse : List Operation :=
  [.start ⟨"c", "pro", 1, 10, []⟩ (some "s") { now := 0 },
    .method (.changePlan "s" "max" 2) { now := 1 },
    .processDue 20 [{ id := "s", cancel := { now := 20, upsertFails := true } }],
    .processDue 30 [{ id := "s", cancel := { now := 30 } }]]

theorem trialCourse_faithful :
    (trialCourse.filterMap Operation.generated).Nodup ∧
      (changeLog 100 "s" ∅ trialCourse).IsChain Linked ∧
      (changeLog 100 "s" ∅ trialCourse).getLast?.map ChangeEvent.target =
        ((runAll 100 ∅ trialCourse).lookup "s").map Subscription.status := by
  have distinct : (trialCourse.filterMap Operation.generated).Nodup := by decide
  exact ⟨distinct, (change_log_faithful 100 trialCourse distinct).1 "s"⟩

end Golusoris.Subs
