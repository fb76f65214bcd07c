import Mathlib.Logic.Basic
import Mathlib.Tactic.Common

/-!
# Labelled machines and their finite traces

A `Machine` is a step relation whose labels are what an observer sees.
`Trace` consumes one label at a time, so a run can be cut at any event and
resumed from the state reached there. The rules below are the only inductions
over runs in this development: `Trace.invariant` carries a property of states,
`Trace.invariant_of` carries one that needs a fact about each event consumed,
and `Trace.history_invariant` relates the state to the events already seen.
-/

namespace Golusoris.Lib

/-- A step relation with its admitted starting states. -/
structure Machine (State Event : Type*) where
  Initial : State → Prop
  Step : State → Event → State → Prop

namespace Machine

variable {State Event : Type*} {machine : Machine State Event}
variable {start middle finish : State} {events later : List Event}

/-- The finite event sequences that lead from one state to another. -/
inductive Trace (machine : Machine State Event) : State → List Event → State → Prop where
  | nil (state : State) : Trace machine state [] state
  | cons {before after finish : State} {event : Event} {events : List Event}
      (head : machine.Step before event after)
      (rest : Trace machine after events finish) :
      Trace machine before (event :: events) finish

/-- A run is a trace whose first state is admitted. -/
def Run (machine : Machine State Event) (events : List Event) (finish : State) : Prop :=
  ∃ start, machine.Initial start ∧ machine.Trace start events finish

theorem Trace.append (first : machine.Trace start events middle)
    (second : machine.Trace middle later finish) :
    machine.Trace start (events ++ later) finish := by
  induction first with
  | nil => exact second
  | cons head _ ih => exact .cons head (ih second)

/-- A trace of a concatenation passes through a state between the two parts. -/
theorem Trace.split (trace : machine.Trace start (events ++ later) finish) :
    ∃ middle, machine.Trace start events middle ∧ machine.Trace middle later finish := by
  induction events generalizing start with
  | nil => exact ⟨start, .nil start, trace⟩
  | cons event events ih =>
    cases trace with
    | cons head rest =>
      obtain ⟨middle, first, second⟩ := ih rest
      exact ⟨middle, .cons head first, second⟩

variable {event : Event}

theorem Trace.singleton (step : machine.Step start event finish) :
    machine.Trace start [event] finish :=
  .cons step (.nil finish)

theorem Trace.snoc (trace : machine.Trace start events middle)
    (step : machine.Step middle event finish) : machine.Trace start (events ++ [event]) finish :=
  trace.append (.singleton step)

/-- Cut a trace around one of its events. -/
theorem Trace.cut (trace : machine.Trace start (events ++ event :: later) finish) :
    ∃ before after, machine.Trace start events before ∧
      machine.Step before event after ∧ machine.Trace after later finish := by
  obtain ⟨before, first, rest⟩ := trace.split
  cases rest with
  | cons head rest => exact ⟨before, _, first, head, rest⟩

/-- A property that every admitted event keeps is kept along a trace of such
events. -/
theorem Trace.invariant_of (Holds : State → Prop) (Admitted : Event → Prop)
    (preserved : ∀ before event after, Admitted event → Holds before →
      machine.Step before event after → Holds after)
    (trace : machine.Trace start events finish)
    (admitted : ∀ event ∈ events, Admitted event) (holds : Holds start) : Holds finish := by
  induction trace with
  | nil => exact holds
  | @cons before after _ event events head _ ih =>
    have here : Admitted event := admitted event List.mem_cons_self
    have rest : ∀ event ∈ events, Admitted event :=
      fun other member => admitted other (List.mem_cons_of_mem _ member)
    exact ih rest (preserved before event after here holds head)

/-- A property that every event keeps is kept along every trace. -/
theorem Trace.invariant (Holds : State → Prop)
    (preserved : ∀ before event after, Holds before → machine.Step before event after → Holds after)
    (trace : machine.Trace start events finish) (holds : Holds start) : Holds finish :=
  trace.invariant_of Holds (fun _ => True)
    (fun before event after _ => preserved before event after) (fun _ _ => trivial) holds

/-- Relate the state reached to the whole sequence of events that led there. -/
theorem Trace.history_invariant (Holds : List Event → State → Prop)
    (preserved : ∀ history before event after, Holds history before →
      machine.Step before event after → Holds (history ++ [event]) after)
    (trace : machine.Trace start events finish) {history : List Event}
    (holds : Holds history start) : Holds (history ++ events) finish := by
  induction trace generalizing history with
  | nil => simpa using holds
  | @cons before after _ event events head _ ih =>
    have next := ih (preserved history before event after holds head)
    simpa [List.append_assoc] using next

/-- Every reachable state satisfies a property that holds at the start and is
kept by every step. -/
theorem Run.invariant (Holds : State → Prop)
    (initial : ∀ state, machine.Initial state → Holds state)
    (preserved : ∀ before event after, Holds before → machine.Step before event after → Holds after)
    (run : machine.Run events finish) : Holds finish := by
  obtain ⟨start, valid, trace⟩ := run
  exact trace.invariant Holds preserved (initial start valid)

theorem Run.history_invariant (Holds : List Event → State → Prop)
    (initial : ∀ state, machine.Initial state → Holds [] state)
    (preserved : ∀ history before event after, Holds history before →
      machine.Step before event after → Holds (history ++ [event]) after)
    (run : machine.Run events finish) : Holds events finish := by
  obtain ⟨start, valid, trace⟩ := run
  simpa using trace.history_invariant Holds preserved (initial start valid)

theorem Run.snoc (run : machine.Run events middle) (step : machine.Step middle event finish) :
    machine.Run (events ++ [event]) finish := by
  obtain ⟨start, valid, trace⟩ := run
  exact ⟨start, valid, trace.snoc step⟩

/-- Cut a run around one of its events. -/
theorem Run.cut (run : machine.Run (events ++ event :: later) finish) :
    ∃ before after, machine.Run events before ∧
      machine.Step before event after ∧ machine.Trace after later finish := by
  obtain ⟨start, valid, trace⟩ := run
  obtain ⟨before, after, first, step, rest⟩ := trace.cut
  exact ⟨before, after, ⟨start, valid, first⟩, step, rest⟩

/-- The run passes through a state with a property. -/
def Visits (machine : Machine State Event) (events : List Event) (finish : State)
    (Holds : State → Prop) : Prop :=
  ∃ first second middle, events = first ++ second ∧ machine.Run first middle ∧
    machine.Trace middle second finish ∧ Holds middle

theorem Run.visits {Holds : State → Prop} (run : machine.Run events finish)
    (holds : Holds finish) : machine.Visits events finish Holds :=
  ⟨events, [], finish, (List.append_nil events).symm, run, .nil finish, holds⟩

theorem Visits.snoc {Holds : State → Prop} (visits : machine.Visits events middle Holds)
    (step : machine.Step middle event finish) :
    machine.Visits (events ++ [event]) finish Holds := by
  obtain ⟨first, second, passed, rfl, run, trace, holds⟩ := visits
  exact ⟨first, second ++ [event], passed, List.append_assoc .., run, trace.snoc step, holds⟩

end Machine

end Golusoris.Lib
