import Golusoris.Lib.Machine
import Mathlib.Logic.Function.Basic

/-!
# Linearization points

An execution of `count` steps is explained by a sequential machine when some
of its steps are marked with an operation of that machine. `Placed` says that
the marked operations, in the order of the steps, are a trace. A mark may be
put on an earlier step as long as the operation changes nothing there: this is
how a call whose outcome is known late is placed at its beginning.
-/

namespace Golusoris.Lib

open Function (update update_of_ne update_self)
open Machine

variable {State Operation : Type*} {spec : Machine State Operation}

/-- `points` marks some of the first `count` steps with an operation and
`states` are the states of the sequential machine between the steps. -/
structure Placed (spec : Machine State Operation) (states : Nat → State)
    (points : Nat → Option Operation) (count : Nat) : Prop where
  quiet : ∀ index < count, points index = none → states (index + 1) = states index
  step : ∀ index < count, ∀ operation, points index = some operation →
    spec.Step (states index) operation (states (index + 1))
  future : ∀ index, count ≤ index → points index = none

namespace Placed

variable {states : Nat → State} {points : Nat → Option Operation} {count : Nat}

variable (placed : Placed spec states points count)

include placed in
theorem lt_of_some {index : Nat} {operation : Operation} (marked : points index = some operation) :
    index < count := by
  by_contra late
  rw [placed.future index (Nat.le_of_not_lt late)] at marked
  cases marked

/-- The marked operations in order. -/
def operations (points : Nat → Option Operation) (count : Nat) : List Operation :=
  (List.range count).filterMap points

include placed in
theorem trace : spec.Trace (states 0) (operations points count) (states count) := by
  have upTo : ∀ length ≤ count,
      spec.Trace (states 0) (operations points length) (states length) := by
    intro length
    induction length with
    | zero =>
      intro _
      exact .nil _
    | succ length ih =>
      intro bound
      have earlier := ih (by omega)
      rw [operations, List.range_succ, List.filterMap_append]
      cases marked : points length with
      | none =>
        rw [placed.quiet length (by omega) marked]
        simpa [operations, marked] using earlier
      | some operation =>
        have step := placed.step length (by omega) operation marked
        simpa [operations, marked] using earlier.snoc step
  exact upTo count (Nat.le_refl count)

include placed in
/-- One more step without a mark. -/
theorem extend_quiet :
    Placed spec (update states (count + 1) (states count)) points (count + 1) := by
  constructor
  · intro index bound unmarked
    rw [update_of_ne (by omega : index ≠ count + 1)]
    by_cases last : index = count
    · rw [last, update_self]
    · rw [update_of_ne (by omega), placed.quiet index (by omega) unmarked]
  · intro index bound operation marked
    have earlier := placed.lt_of_some marked
    rw [update_of_ne (by omega), update_of_ne (by omega)]
    exact placed.step index earlier operation marked
  · intro index bound
    exact placed.future index (by omega)

include placed in
/-- One more step, marked with an operation of the state reached. -/
theorem extend_step {operation : Operation} {next : State}
    (step : spec.Step (states count) operation next) :
    Placed spec (update states (count + 1) next)
      (update points count (some operation)) (count + 1) := by
  constructor
  · intro index bound unmarked
    have earlier : index ≠ count := by
      rintro rfl
      rw [update_self] at unmarked
      cases unmarked
    rw [update_of_ne earlier] at unmarked
    rw [update_of_ne (by omega), update_of_ne (by omega)]
    exact placed.quiet index (by omega) unmarked
  · intro index bound other marked
    rw [update_of_ne (by omega : index ≠ count + 1)]
    by_cases last : index = count
    · subst last
      rw [update_self] at marked
      cases marked
      rw [update_self]
      exact step
    · rw [update_of_ne last] at marked
      rw [update_of_ne (by omega)]
      exact placed.step index (by omega) other marked
  · intro index bound
    rw [update_of_ne (by omega)]
    exact placed.future index (by omega)

include placed in
/-- Mark an earlier step with an operation that changes nothing there. -/
theorem insert {index : Nat} {operation : Operation} (bound : index < count)
    (unmarked : points index = none) (step : spec.Step (states index) operation (states index)) :
    Placed spec states (update points index (some operation)) count := by
  constructor
  · intro other otherBound otherUnmarked
    have different : other ≠ index := by
      rintro rfl
      rw [update_self] at otherUnmarked
      cases otherUnmarked
    rw [update_of_ne different] at otherUnmarked
    exact placed.quiet other otherBound otherUnmarked
  · intro other otherBound mark marked
    by_cases same : other = index
    · subst same
      rw [update_self] at marked
      cases marked
      rw [placed.quiet other otherBound unmarked]
      exact step
    · rw [update_of_ne same] at marked
      exact placed.step other otherBound mark marked
  · intro other late
    rw [update_of_ne (by omega)]
    exact placed.future other late

end Placed

end Golusoris.Lib
