import Golusoris.Lib.Machine
import Golusoris.Lib.Utf8
import Mathlib.Data.List.Perm.Subperm

/-!
# Label guards

`observability/metricdef` bounds the values of a label with a guard. An observation
is admitted by the guards, label by label, and then creates its series; `Reset`
clears the series and then the guards, label by label; `Delete` asks the guards and
then deletes. Each of these steps takes a lock of its own and gives it back.

The first look of `admit` under the read lock is not a step: a value that it finds
is admitted there, one that it does not find is looked up again under the lock.
-/

namespace Golusoris.Metricdef

open Lib

def otherValue : Bytes := textBytes "other"

/-- The guard of a label: `nil`, an `allowGuard` or a `distinctGuard`. -/
inductive Limit where
  | unbounded
  | allow (values : List Bytes)
  | maxDistinct (max : Nat)
  deriving DecidableEq

/-- `admit`: what becomes of a value, and the values seen after it. -/
def Limit.admitValue (limit : Limit) (seen : List Bytes) (value : Bytes) : Bytes × List Bytes :=
  match limit with
  | .unbounded => (value, seen)
  | .allow values => (if value ∈ values then value else otherValue, seen)
  | .maxDistinct max =>
      if value ∈ seen then (value, seen)
      else if max ≤ seen.length then (otherValue, seen)
      else (value, seen ++ [value])

/-- `lookup`. -/
def Limit.lookup (limit : Limit) (seen : List Bytes) (value : Bytes) : Bytes :=
  match limit with
  | .unbounded => value
  | .allow values => if value ∈ values then value else otherValue
  | .maxDistinct _ => if value ∈ seen then value else otherValue

/-- `reset`. -/
def Limit.reset (limit : Limit) (seen : List Bytes) : List Bytes :=
  match limit with
  | .maxDistinct _ => []
  | _ => seen

/-- Where a call is. -/
inductive Call where
  | idle
  /-- In `bound`: the values admitted so far, and those of the labels left. -/
  | binding (admitted rest : List Bytes)
  /-- In `known`: the label that is looked up next. -/
  | looking (values : List Bytes) (label : Nat)
  /-- In `reset` of the guards: the label that is cleared next. -/
  | clearing (label : Nat)

structure State where
  /-- The values that the guard of a label knows. -/
  seen : Nat → List Bytes
  /-- The live series by their label values. -/
  series : List (List Bytes)
  calls : Nat → Call

def State.call (state : State) (caller : Nat) (call : Call) : State :=
  { state with calls := fun other => if other = caller then call else state.calls other }

/-- Let the guard of a label know these values only. -/
def State.know (state : State) (label : Nat) (values : List Bytes) : State :=
  { state with seen := fun other => if other = label then values else state.seen other }

inductive Action where
  | observe (values : List Bytes)
  | admitValue
  | create
  | refuse
  | delete (values : List Bytes)
  | lookup
  | erase
  | reset
  | clear
  deriving DecidableEq

/-- The steps of a caller's calls on a gauge with these guards. -/
inductive Step (limits : List Limit) : State → Nat × Action → State → Prop where
  | observe {state : State} {caller : Nat} {values : List Bytes} (free : state.calls caller = .idle)
      (counted : values.length = limits.length) :
      Step limits state (caller, .observe values) (state.call caller (.binding [] values))
  | admitValue {state : State} {caller : Nat} {admitted rest : List Bytes} {value : Bytes} {limit : Limit}
      (here : state.calls caller = .binding admitted (value :: rest))
      (guarded : limits[admitted.length]? = some limit) :
      Step limits state (caller, .admitValue)
        ((state.know admitted.length (limit.admitValue (state.seen admitted.length) value).2).call caller
          (.binding (admitted ++ [(limit.admitValue (state.seen admitted.length) value).1]) rest))
  | create {state : State} {caller : Nat} {values : List Bytes}
      (here : state.calls caller = .binding values []) :
      Step limits state (caller, .create) { state.call caller .idle with series := values :: state.series }
  /-- The client library refuses the values. -/
  | refuse {state : State} {caller : Nat} {values : List Bytes}
      (here : state.calls caller = .binding values []) :
      Step limits state (caller, .refuse) (state.call caller .idle)
  | delete {state : State} {caller : Nat} {values : List Bytes} (free : state.calls caller = .idle)
      (counted : values.length = limits.length) :
      Step limits state (caller, .delete values) (state.call caller (.looking values 0))
  | lookup {state : State} {caller : Nat} {values : List Bytes} {label : Nat} {value : Bytes}
      {limit : Limit} (here : state.calls caller = .looking values label)
      (given : values[label]? = some value) (guarded : limits[label]? = some limit) :
      Step limits state (caller, .lookup) (state.call caller
        (if limit.lookup (state.seen label) value = value then .looking values (label + 1) else .idle))
  | erase {state : State} {caller : Nat} {values : List Bytes}
      (here : state.calls caller = .looking values limits.length) :
      Step limits state (caller, .erase)
        { state.call caller .idle with series := state.series.filter (· ≠ values) }
  | reset {state : State} {caller : Nat} (free : state.calls caller = .idle) :
      Step limits state (caller, .reset)
        { state.call caller (if limits = [] then .idle else .clearing 0) with series := [] }
  | clear {state : State} {caller label : Nat} {limit : Limit}
      (here : state.calls caller = .clearing label) (guarded : limits[label]? = some limit) :
      Step limits state (caller, .clear)
        ((state.know label (limit.reset (state.seen label))).call caller
          (if label + 1 < limits.length then .clearing (label + 1) else .idle))

def start : State := ⟨fun _ => [], [], fun _ => .idle⟩

/-- Runs of a gauge that was just registered. -/
def machine (limits : List Limit) : Machine State (Nat × Action) where
  Initial state := state = start
  Step := Step limits

/-- The live series carry at most so many values of a label other than `other`, and
the guard knows them all. -/
structure Bounded (label max : Nat) (state : State) : Prop where
  few : ∀ values : List Bytes, values.Nodup →
    (∀ value ∈ values, value ≠ otherValue ∧ ∃ series ∈ state.series, series[label]? = some value) →
      values.length ≤ max
  known : ∀ series ∈ state.series, ∀ value, series[label]? = some value →
    value = otherValue ∨ value ∈ state.seen label

/-- Nothing that a guard admitted is live or about to be: no series and no observation
that was admitted carries a value of the label other than `other`. -/
structure Quiet (label : Nat) (state : State) : Prop where
  series : ∀ series ∈ state.series, ∀ value, series[label]? = some value → value = otherValue
  calls : ∀ caller admitted rest, state.calls caller = .binding admitted rest →
    ∀ value, admitted[label]? = some value → value = otherValue

/-- The runs in which the guard of a label is cleared only when it is quiet. -/
def quietMachine (limits : List Limit) (label : Nat) : Machine State (Nat × Action) where
  Initial state := state = start
  Step before event after := Step limits before event after ∧
    (event.2 = .clear → before.calls event.1 = .clearing label → Quiet label before)

/-- What a quiet run keeps. -/
structure Kept (label max : Nat) (state : State) : Prop where
  small : (state.seen label).length ≤ max
  series : ∀ series ∈ state.series, ∀ value, series[label]? = some value →
    value = otherValue ∨ value ∈ state.seen label
  calls : ∀ caller admitted rest, state.calls caller = .binding admitted rest →
    ∀ value, admitted[label]? = some value → value = otherValue ∨ value ∈ state.seen label

variable {label max : Nat} {state : State}

theorem Kept.bounded (kept : Kept label max state) : Bounded label max state := by
  constructor
  · intro values distinct carried
    have known : values ⊆ state.seen label := by
      intro value found
      obtain ⟨proper, series, live, here⟩ := carried value found
      exact (kept.series series live value here).resolve_left proper
    exact Nat.le_trans (List.subperm_of_subset distinct known).length_le kept.small
  · exact kept.series

/-- A call that is no observation in progress changes nothing. -/
theorem Kept.call (kept : Kept label max state) (caller : Nat)
    {call : Call} (fine : ∀ admitted rest, call = .binding admitted rest →
      ∀ value, admitted[label]? = some value → value = otherValue ∨ value ∈ state.seen label) :
    Kept label max (state.call caller call) := by
  constructor
  · exact kept.small
  · exact kept.series
  · intro other admitted rest here
    rw [State.call] at here
    simp only at here
    split at here
    · exact fine admitted rest here
    · exact kept.calls other admitted rest here

theorem Kept.without (kept : Kept label max state) {series : List (List Bytes)}
    (fewer : ∀ values ∈ series, values ∈ state.series) :
    Kept label max { state with series := series } :=
  ⟨kept.small, fun values live => kept.series values (fewer values live), kept.calls⟩

/-- What a guard admits, it knows. -/
theorem admit_maxDistinct {seen : List Bytes} (small : seen.length ≤ max) (value : Bytes) :
    (((Limit.maxDistinct max).admitValue seen value).1 = otherValue ∨
      ((Limit.maxDistinct max).admitValue seen value).1 ∈
      ((Limit.maxDistinct max).admitValue seen value).2) ∧
    seen ⊆ ((Limit.maxDistinct max).admitValue seen value).2 ∧
    ((Limit.maxDistinct max).admitValue seen value).2.length ≤ max := by
  rw [Limit.admitValue]
  split_ifs with known full
  · exact ⟨.inr known, List.Subset.refl _, small⟩
  · exact ⟨.inl rfl, List.Subset.refl _, small⟩
  · refine ⟨.inr (by simp), List.subset_append_left _ _, ?_⟩
    rw [List.length_append, List.length_singleton]
    omega

theorem Kept.step {limits : List Limit} {before after : State} {event : Nat × Action}
    (limited : limits[label]? = some (.maxDistinct max))
    (step : (quietMachine limits label).Step before event after) (kept : Kept label max before) :
    Kept label max after := by
  obtain ⟨step, quiet⟩ := step
  cases step with
  | observe free counted =>
    refine kept.call _ fun admitted rest same value found => ?_
    cases same
    cases found
  | @admitValue caller admitted rest value limit here guarded =>
    by_cases same : admitted.length = label
    · subst same
      obtain rfl := Option.some.inj (guarded.symm.trans limited)
      obtain ⟨known, more, few⟩ := admit_maxDistinct kept.small value
      have wider : Kept admitted.length max (before.know admitted.length
          ((Limit.maxDistinct max).admitValue (before.seen admitted.length) value).2) := by
        constructor
        · simpa [State.know] using few
        · intro series live other found
          rcases kept.series series live other found with rfl | found
          · exact .inl rfl
          · exact .inr (by simpa [State.know] using more found)
        · intro caller others rest here other found
          rcases kept.calls caller others rest here other found with rfl | found
          · exact .inl rfl
          · exact .inr (by simpa [State.know] using more found)
      refine wider.call _ fun others left same other found => ?_
      cases same
      rw [List.getElem?_concat_length] at found
      cases found
      simpa [State.know] using known
    · have unchanged : (before.know admitted.length
          (limit.admitValue (before.seen admitted.length) value).2).seen label = before.seen label :=
        if_neg (Ne.symm same)
      have still : Kept label max (before.know admitted.length
          (limit.admitValue (before.seen admitted.length) value).2) := by
        constructor
        · rw [unchanged]
          exact kept.small
        · rw [unchanged]
          exact kept.series
        · rw [unchanged]
          exact kept.calls
      refine still.call _ fun others left shape other found => ?_
      cases shape
      rw [unchanged]
      rw [List.getElem?_append] at found
      split at found
      · exact kept.calls caller admitted _ here other found
      · rw [List.getElem?_singleton, if_neg (by omega)] at found
        cases found
  | @create caller values here =>
    have done : Kept label max (before.call caller .idle) := kept.call caller nofun
    refine ⟨done.small, fun series live value found => ?_, done.calls⟩
    rcases List.mem_cons.mp live with rfl | live
    · exact kept.calls caller _ _ here value found
    · exact kept.series series live value found
  | refuse _ | delete _ _ => exact kept.call _ nofun
  | lookup here given guarded =>
    refine kept.call _ fun _ _ same => ?_
    split at same <;> cases same
  | @erase caller values here =>
    have done : Kept label max (before.call caller .idle) := kept.call caller nofun
    exact done.without fun values live => (List.mem_filter.mp live).1
  | @reset caller free =>
    have done : Kept label max (before.call caller (if limits = [] then .idle else .clearing 0)) := by
      refine kept.call _ fun _ _ same => ?_
      split at same <;> cases same
    exact done.without fun values live => absurd live List.not_mem_nil
  | @clear caller cleared limit here guarded =>
    have next : Kept label max (before.know cleared (limit.reset (before.seen cleared))) := by
      by_cases same : cleared = label
      · subst same
        obtain rfl := Option.some.inj (guarded.symm.trans limited)
        have calm := quiet rfl here
        constructor
        · simp [State.know, Limit.reset]
        · exact fun series live value found => .inl (calm.series series live value found)
        · exact fun other admitted rest here value found =>
            .inl (calm.calls other admitted rest here value found)
      · have unchanged : (before.know cleared (limit.reset (before.seen cleared))).seen label =
            before.seen label := if_neg (Ne.symm same)
        constructor
        · rw [unchanged]
          exact kept.small
        · rw [unchanged]
          exact kept.series
        · rw [unchanged]
          exact kept.calls
    refine next.call _ fun _ _ same => ?_
    split at same <;> cases same

/-- In every run that clears the guard of a label only when it is quiet, the label stays
bounded. -/
theorem bounded_of_quiet (limits : List Limit) (label max : Nat)
    (limited : limits[label]? = some (.maxDistinct max)) (events : List (Nat × Action)) (state : State)
    (run : (quietMachine limits label).Run events state) : Bounded label max state := by
  refine (run.invariant (Kept label max) ?_ ?_).bounded
  · rintro state rfl
    exact ⟨Nat.zero_le _, by simp [start], by simp [start]⟩
  · exact fun before event after kept step => kept.step limited step

/-- One tenant is observed under a limit of one. -/
def observed : List (Nat × Action) := [(0, .observe [[0x61]]), (0, .admitValue), (0, .create)]

theorem bounded_observed : ∃ state, (quietMachine [.maxDistinct 1] 0).Run observed state ∧
    Bounded 0 1 state := by
  have run : ∃ state, (quietMachine [.maxDistinct 1] 0).Run observed state := by
    refine ⟨_, start, rfl, .cons ⟨.observe rfl rfl, ?_⟩ (.cons ⟨.admitValue rfl rfl, ?_⟩
      (.cons ⟨.create rfl, ?_⟩ (.nil _)))⟩ <;> exact nofun
  obtain ⟨state, run⟩ := run
  exact ⟨state, run, bounded_of_quiet [.maxDistinct 1] 0 1 rfl observed state run⟩

/-- An observation that was admitted before a reset creates its series after it. -/
def straggling : List (Nat × Action) :=
  [(0, .observe [[0x61]]), (0, .admitValue), (1, .reset), (1, .clear), (0, .create),
    (2, .observe [[0x62]]), (2, .admitValue), (2, .create)]

/-- The series of the straggler stays beside that of the value admitted after the reset,
and the guard does not know it. -/
theorem straggler_unbounded : ¬∀ limits label max,
    limits[label]? = some (.maxDistinct max) → ∀ events state, (machine limits).Run events state →
      Bounded label max state := by
  intro claim
  have run : ∃ state, (machine [.maxDistinct 1]).Run straggling state ∧
      state.series = [[[0x62]], [[0x61]]] ∧ state.seen 0 = [[0x62]] :=
    ⟨_, ⟨start, rfl, .cons (.observe rfl rfl) (.cons (.admitValue rfl rfl) (.cons (.reset rfl)
      (.cons (.clear rfl rfl) (.cons (.create rfl) (.cons (.observe rfl rfl) (.cons (.admitValue rfl rfl)
        (.cons (.create rfl) (.nil _))))))))⟩, rfl, rfl⟩
  obtain ⟨state, run, series, -⟩ := run
  have bounded := claim [.maxDistinct 1] 0 1 rfl straggling state run
  have two : [[0x61], [0x62]].length ≤ 1 := by
    refine bounded.few [[0x61], [0x62]] (by decide) ?_
    rw [series]
    intro value found
    rcases List.mem_cons.mp found with rfl | found
    · exact ⟨by decide, [[0x61]], by simp, rfl⟩
    · obtain rfl := List.mem_singleton.mp found
      exact ⟨by decide, [[0x62]], by simp, rfl⟩
  exact absurd two (by decide)

end Golusoris.Metricdef
