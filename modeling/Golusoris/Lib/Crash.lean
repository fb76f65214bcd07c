import Mathlib.Tactic.Common

/-!
# Programs that may stop between any two effects

A `Script` reads the state as often as it likes and changes it in atomic steps.
`Stops` relates the state at the start to every state in which the process may
have stopped, `run` is the uninterrupted execution. `Safe crash script post`
is the proof rule for both: `crash` holds wherever the script may stop and
`post` of the result when it completes.
-/

namespace Golusoris.Lib

/-- A sequential program over a shared state. -/
inductive Script (State Result : Type) where
  | done (result : Result)
  | look (next : State → Script State Result)
  | act (change : State → State) (next : Script State Result)

namespace Script

variable {State Result Other : Type}

/-- Execute to the end. -/
def run : Script State Result → State → Result × State
  | .done result, state => (result, state)
  | .look next, state => run (next state) state
  | .act change next, state => run next (change state)

/-- The states in which a run may be cut off, its end included. -/
inductive Stops : Script State Result → State → State → Prop where
  | here (script : Script State Result) (state : State) : Stops script state state
  | look {next : State → Script State Result} {state final : State}
      (rest : Stops (next state) state final) : Stops (.look next) state final
  | act {change : State → State} {next : Script State Result} {state final : State}
      (rest : Stops next (change state) final) : Stops (.act change next) state final

/-- Execute until so many changes are made. -/
def runFor : Script State Result → Nat → State → State
  | .done _, _, state => state
  | .look next, changes, state => runFor (next state) changes state
  | .act _ _, 0, state => state
  | .act change next, changes + 1, state => runFor next changes (change state)

theorem stops_runFor (script : Script State Result) (changes : Nat) (state : State) :
    Stops script state (script.runFor changes state) := by
  induction script generalizing changes state with
  | done result => exact .here _ state
  | look next ih => exact .look (ih state changes state)
  | act change next ih =>
    cases changes with
    | zero => exact .here _ state
    | succ changes => exact .act (ih changes (change state))

def bind : Script State Result → (Result → Script State Other) → Script State Other
  | .done result, next => next result
  | .look first, next => .look fun state => bind (first state) next
  | .act change first, next => .act change (bind first next)

/-- `crash` holds wherever the script may stop, `post` of what it returns. -/
def Safe (crash : State → Prop) :
    Script State Result → (Result → State → Prop) → State → Prop
  | .done result, post, state => crash state ∧ post result state
  | .look next, post, state => Safe crash (next state) post state
  | .act change next, post, state => crash state ∧ Safe crash next post (change state)

variable {crash weaker : State → Prop} {post other : Result → State → Prop}
variable {script : Script State Result} {state final : State}

variable (safe : Safe crash script post state)

include safe in
theorem Safe.now : crash state := by
  induction script with
  | done => exact safe.1
  | look next ih => exact ih state safe
  | act => exact safe.1

include safe in
theorem Safe.mono (allowed : ∀ state, crash state → weaker state)
    (implied : ∀ result state, post result state → other result state) :
    Safe weaker script other state := by
  induction script generalizing state with
  | done result => exact ⟨allowed state safe.1, implied result state safe.2⟩
  | look next ih => exact ih state safe
  | act change next ih => exact ⟨allowed state safe.1, ih safe.2⟩

include safe in
/-- The end is one of the places where the script may stop. -/
theorem Safe.stopped :
    Safe crash script (fun result state => crash state ∧ post result state) state := by
  induction script generalizing state with
  | done => exact ⟨safe.1, safe⟩
  | look next ih => exact ih state safe
  | act change next ih => exact ⟨safe.1, ih safe.2⟩

theorem Safe.bind {next : Result → Script State Other} {after : Other → State → Prop}
    (safe : Safe crash script (fun result => Safe crash (next result) after) state) :
    Safe crash (script.bind next) after state := by
  induction script generalizing state with
  | done => exact safe.2
  | look first ih => exact ih state safe
  | act change first ih => exact ⟨safe.1, ih safe.2⟩

include safe in
theorem Safe.stops (stops : Stops script state final) : crash final := by
  induction stops with
  | here => exact safe.now
  | look _ ih => exact ih safe
  | act _ ih => exact ih safe.2

include safe in
theorem Safe.run : post (script.run state).1 (script.run state).2 := by
  induction script generalizing state with
  | done => exact safe.2
  | look next ih => exact ih state safe
  | act change next ih => exact ih safe.2

variable {Failure : Type}

def fail (failure : Failure) : Script State (Except Failure Result) := .done (.error failure)

def give (value : Result) : Script State (Except Failure Result) := .done (.ok value)

/-- Go on with the value of a computation that takes no step. -/
def check (outcome : Except Failure Result)
    (next : Result → Script State (Except Failure Other)) : Script State (Except Failure Other) :=
  match outcome with
  | .error failure => .fail failure
  | .ok value => next value

/-- Go on with the value, or stop with the failure. -/
def attempt (script : Script State (Except Failure Result))
    (next : Result → Script State (Except Failure Other)) : Script State (Except Failure Other) :=
  script.bind fun result => .check result next

variable {next : Result → Script State (Except Failure Other)}

theorem Safe.attempt {script : Script State (Except Failure Result)}
    {after : Except Failure Other → State → Prop}
    (safe : Safe crash script (fun result state =>
      match result with
      | .error failure => after (.error failure) state
      | .ok value => Safe crash (next value) after state) state) :
    Safe crash (script.attempt next) after state := by
  refine Safe.bind (safe.stopped.mono (fun _ holds => holds) ?_)
  rintro result state ⟨now, holds⟩
  cases result with
  | error failure => exact ⟨now, holds⟩
  | ok value => exact holds

theorem Safe.check {outcome : Except Failure Result} {after : Except Failure Other → State → Prop}
    (now : crash state)
    (failed : ∀ failure, outcome = .error failure → after (.error failure) state)
    (safe : ∀ value, outcome = .ok value → Safe crash (next value) after state) :
    Safe crash (Script.check outcome next) after state := by
  cases outcome with
  | error failure => exact ⟨now, failed failure rfl⟩
  | ok value => exact safe value rfl

/-- Started where the invariant holds, the script keeps it wherever it may stop
and returns only good results. -/
def Keeps (inv : State → Prop) (good : Result → Prop) (script : Script State Result) : Prop :=
  ∀ state, inv state → Safe inv script (fun result state => inv state ∧ good result) state

variable {inv : State → Prop} {good : Result → Prop} {goodOther : Other → Prop}

theorem keeps_done {result : Result} (isGood : good result) :
    Keeps inv good (.done result : Script State Result) :=
  fun _ holds => ⟨holds, holds, isGood⟩

theorem keeps_look {next : State → Script State Result}
    (keeps : ∀ state, Keeps inv good (next state)) :
    Keeps inv good (.look next) :=
  fun state holds => keeps state state holds

theorem keeps_act {change : State → State} (changed : ∀ state, inv state → inv (change state))
    (keeps : Keeps inv good script) : Keeps inv good (.act change script) :=
  fun state holds => ⟨holds, keeps (change state) (changed state holds)⟩

theorem Keeps.bind {next : Result → Script State Other} (keeps : Keeps inv good script)
    (after : ∀ result, good result → Keeps inv goodOther (next result)) :
    Keeps inv goodOther (script.bind next) := by
  intro state holds
  refine Safe.bind ((keeps state holds).mono (fun _ holds => holds) ?_)
  rintro result state ⟨holds, isGood⟩
  exact after result isGood state holds

theorem Keeps.stops (keeps : Keeps inv good script) (holds : inv state)
    (stops : Stops script state final) : inv final :=
  (keeps state holds).stops stops

/-- The value, if there is one, is good. -/
def OnOk (good : Result → Prop) : Except Failure Result → Prop
  | .ok value => good value
  | .error _ => True

variable {goodValue : Result → Prop} {goodNext : Other → Prop}

theorem keeps_fail (failure : Failure) :
    Keeps inv (OnOk goodValue) (.fail failure : Script State (Except Failure Result)) :=
  keeps_done trivial

theorem keeps_give {value : Result} (isGood : goodValue value) :
    Keeps inv (OnOk goodValue) (.give value : Script State (Except Failure Result)) :=
  keeps_done isGood

theorem keeps_check {outcome : Except Failure Result}
    (keeps : ∀ value, outcome = .ok value → Keeps inv (OnOk goodNext) (next value)) :
    Keeps inv (OnOk goodNext) (Script.check outcome next) := by
  cases outcome with
  | error failure => exact keeps_fail failure
  | ok value => exact keeps value rfl

theorem Keeps.attempt {script : Script State (Except Failure Result)}
    (keeps : Keeps inv (OnOk goodValue) script)
    (after : ∀ value, goodValue value → Keeps inv (OnOk goodNext) (next value)) :
    Keeps inv (OnOk goodNext) (script.attempt next) := by
  refine keeps.bind fun result isGood => keeps_check ?_
  rintro value rfl
  exact after value isGood

end Script

end Golusoris.Lib
