import Golusoris.Lib.Machine
import Mathlib.Logic.Function.Basic

/-!
# The singleton predictor of a fleet

All leases of a `SingletonFactory` share one predictor and a gate, a channel with room
for one token. A lease takes the token to load its model and puts it back when the load
fails, after its prediction, or when it is closed; the flag `acquired` says whether it
has the token to give back.

A step below is an operation on the gate, on the flag, or of the predictor, so the steps
of any number of leases interleave between them.
-/

namespace Golusoris.Tiny.Fleet

open Golusoris.Lib

/-- How far the goroutine of a lease is. `waiting` and `loading` are in `Load`,
`predicting` is in the `Predict` of the predictor; `releasing` is about to test the flag
and `returning` has cleared it. -/
inductive Phase (Model : Type) where
  | idle
  | waiting (model : Model)
  | loading (model : Model)
  | predicting
  | releasing
  | returning
  deriving DecidableEq

/-- `singletonLease`. -/
structure Lease (Model : Type) where
  acquired : Bool := false
  phase : Phase Model := .idle
  deriving DecidableEq

/-- The leases with the tokens in the gate and the model that the predictor has. -/
structure State (Id Model : Type) where
  leases : Id → Lease Model
  gate : Nat
  installed : Option Model

/-- What the goroutine of a lease does. `loaded` and `failed` end the `Load` of the
predictor, `predicts` and `predicted` begin and end its `Predict` and tell the model that
it runs with. -/
inductive Action (Model : Type) where
  | load (model : Model)
  | alreadyLoaded
  | cancelled
  | acquires
  | loaded (model : Model)
  | failed
  | notLoaded
  | predicts (installed : Option Model)
  | predicted (installed : Option Model)
  | close
  | released
  | clears
  | returns
  deriving DecidableEq

/-- A step of one lease, with the gate and the model before and after. -/
inductive Turn {Model : Type} : Lease Model → Nat → Option Model → Action Model →
    Lease Model → Nat → Option Model → Prop where
  | alreadyLoaded (gate : Nat) (installed : Option Model) :
      Turn ⟨true, .idle⟩ gate installed .alreadyLoaded ⟨true, .idle⟩ gate installed
  | load (model : Model) (gate : Nat) (installed : Option Model) :
      Turn ⟨false, .idle⟩ gate installed (.load model) ⟨false, .waiting model⟩ gate installed
  | cancelled (acquired : Bool) (model : Model) (gate : Nat) (installed : Option Model) :
      Turn ⟨acquired, .waiting model⟩ gate installed .cancelled ⟨acquired, .idle⟩ gate installed
  | acquires (acquired : Bool) (model : Model) (gate : Nat) (installed : Option Model) :
      Turn ⟨acquired, .waiting model⟩ (gate + 1) installed .acquires ⟨true, .loading model⟩ gate
        installed
  | loaded (acquired : Bool) (model : Model) (gate : Nat) (installed : Option Model) :
      Turn ⟨acquired, .loading model⟩ gate installed (.loaded model) ⟨acquired, .idle⟩ gate
        (some model)
  -- A load that fails or panics may leave any model behind.
  | failed (acquired : Bool) (model : Model) (gate : Nat) (installed left : Option Model) :
      Turn ⟨acquired, .loading model⟩ gate installed .failed ⟨acquired, .releasing⟩ gate left
  | notLoaded (gate : Nat) (installed : Option Model) :
      Turn ⟨false, .idle⟩ gate installed .notLoaded ⟨false, .idle⟩ gate installed
  | predicts (gate : Nat) (installed : Option Model) :
      Turn ⟨true, .idle⟩ gate installed (.predicts installed) ⟨true, .predicting⟩ gate installed
  | predicted (acquired : Bool) (gate : Nat) (installed : Option Model) :
      Turn ⟨acquired, .predicting⟩ gate installed (.predicted installed) ⟨acquired, .releasing⟩ gate
        installed
  | close (acquired : Bool) (gate : Nat) (installed : Option Model) :
      Turn ⟨acquired, .idle⟩ gate installed .close ⟨acquired, .releasing⟩ gate installed
  | released (gate : Nat) (installed : Option Model) :
      Turn ⟨false, .releasing⟩ gate installed .released ⟨false, .idle⟩ gate installed
  | clears (gate : Nat) (installed : Option Model) :
      Turn ⟨true, .releasing⟩ gate installed .clears ⟨false, .returning⟩ gate installed
  -- The channel has room for one token.
  | returns (acquired : Bool) (gate : Nat) (installed : Option Model) (room : gate < 1) :
      Turn ⟨acquired, .returning⟩ gate installed .returns ⟨acquired, .idle⟩ (gate + 1) installed

variable {Id Model : Type} [DecidableEq Id]

/-- Any lease takes its turn. -/
inductive Step : State Id Model → Id × Action Model → State Id Model → Prop where
  | turn {state : State Id Model} {id : Id} {action : Action Model} {lease : Lease Model}
      {gate : Nat} {installed : Option Model}
      (turn : Turn (state.leases id) state.gate state.installed action lease gate installed) :
      Step state (id, action) ⟨Function.update state.leases id lease, gate, installed⟩

/-- `SingletonFactory` puts one token into the gate; leases start without it. -/
def machine (Id Model : Type) [DecidableEq Id] : Machine (State Id Model) (Id × Action Model) where
  Initial state := state.gate = 1 ∧ ∀ id, state.leases id = {}
  Step := Step

/-- The lease has the token: it took it and has not put it back. -/
def Lease.Holds (lease : Lease Model) : Prop := lease.acquired = true ∨ lease.phase = .returning

instance Lease.decidableHolds (lease : Lease Model) [DecidableEq Model] : Decidable lease.Holds :=
  inferInstanceAs (Decidable (_ ∨ _))

/-- The model that an action of a lease loads. -/
def Action.loads : Action Model → Option Model
  | .loaded model => some model
  | _ => none

/-- The model that a lease loads with an event. -/
def loadedBy (id : Id) (event : Id × Action Model) : Option Model :=
  if event.1 = id then event.2.loads else none

/-- The model of the last load of a lease that succeeded. -/
def lastLoaded (id : Id) (events : List (Id × Action Model)) : Option Model :=
  (events.filterMap (loadedBy id)).getLast?

/-- What the phase says about the flag and the model. -/
def Lease.Fits (lease : Lease Model) (installed last : Option Model) : Prop :=
  match lease.phase with
  | .idle => lease.acquired = true → installed.isSome ∧ installed = last
  | .waiting _ => lease.acquired = false
  | .loading _ => lease.acquired = true
  | .predicting => lease.acquired = true ∧ installed.isSome ∧ installed = last
  | .releasing => True
  | .returning => lease.acquired = false

/-- The token is in the gate or with one lease, and every lease fits its phase. -/
structure Kept (events : List (Id × Action Model)) (state : State Id Model) : Prop where
  free : (∀ id, ¬(state.leases id).Holds) → state.gate = 1
  taken : ∀ id, (state.leases id).Holds → state.gate = 0
  one : ∀ first second, (state.leases first).Holds → (state.leases second).Holds → first = second
  fits : ∀ id, (state.leases id).Fits state.installed (lastLoaded id events)

section Holding

variable {lease after : Lease Model} {gate left : Nat} {installed next last : Option Model}
  {action : Action Model}

theorem lastLoaded_append (id : Id) (events : List (Id × Action Model)) (event : Id × Action Model) :
    lastLoaded id (events ++ [event]) = (loadedBy id event).or (lastLoaded id events) := by
  cases loaded : loadedBy id event <;> simp [lastLoaded, List.filterMap_append, loaded]

/-- The model matters only to a lease that has the token. -/
theorem Lease.Fits.of_free (fits : lease.Fits installed last) (free : ¬lease.Holds) :
    lease.Fits next last := by
  obtain ⟨acquired, phase⟩ := lease
  simp only [Lease.Holds, not_or] at free
  cases phase with
  | idle => exact fun held => absurd held free.1
  | waiting _ | loading _ | releasing | returning => exact fits
  | predicting => exact absurd fits.1 free.1

/-- What a turn does to the token: nothing, taking it or putting it back. -/
inductive Moves (lease : Lease Model) (gate : Nat) (after : Lease Model) (left : Nat) : Prop where
  | stays (same : after.Holds ↔ lease.Holds) (level : left = gate)
  | takes (before : ¬lease.Holds) (now : after.Holds) (level : gate = left + 1)
  | gives (before : lease.Holds) (now : ¬after.Holds) (level : left = gate + 1)

variable (turn : Turn lease gate installed action after left next)

include turn in
/-- A turn moves the token as its phase says. -/
theorem Turn.moves (fits : lease.Fits installed last) : Moves lease gate after left := by
  cases turn with
  | alreadyLoaded | notLoaded => exact .stays .rfl rfl
  | load | cancelled | loaded | failed | predicts | predicted | close | released | clears =>
    exact .stays (by simp [Lease.Holds]) rfl
  | acquires acquired =>
    obtain rfl : acquired = false := fits
    exact .takes (by simp [Lease.Holds]) (.inl rfl) rfl
  | returns acquired =>
    obtain rfl : acquired = false := fits
    exact .gives (.inr rfl) (by simp [Lease.Holds]) rfl

include turn in
/-- Only a lease with the token changes the model. -/
theorem Turn.installs (fits : lease.Fits installed last) (free : ¬lease.Holds) :
    next = installed := by
  cases turn with
  | loaded | failed => exact absurd (.inl fits) free
  | _ => rfl

include turn in
/-- After a turn the lease fits its phase again. -/
theorem Turn.fits (fits : lease.Fits installed last) : after.Fits next (action.loads.or last) := by
  cases turn with
  | alreadyLoaded => exact fits
  | load => rfl
  | cancelled acquired | returns acquired =>
    obtain rfl : acquired = false := fits
    exact fun held => absurd held Bool.false_ne_true
  | acquires => rfl
  | loaded => exact fun _ => ⟨rfl, rfl⟩
  | failed | predicted | close => trivial
  | notLoaded => exact fits
  | predicts => exact ⟨rfl, fits rfl⟩
  | released => exact fun held => absurd held Bool.false_ne_true
  | clears => rfl

end Holding

section Runs

variable {events : List (Id × Action Model)} {state after : State Id Model}

theorem kept_initial (initial : (machine Id Model).Initial state) : Kept [] state where
  free := fun _ => initial.1
  taken := fun id held => by simp [initial.2 id, Lease.Holds] at held
  one := fun first _ held => by simp [initial.2 first, Lease.Holds] at held
  fits := fun id => by
    rw [initial.2 id]
    exact fun held => absurd held Bool.false_ne_true

/-- A turn of one lease keeps the token in one place. -/
theorem Kept.step {event : Id × Action Model} (kept : Kept events state)
    (step : (machine Id Model).Step state event after) : Kept (events ++ [event]) after := by
  obtain @⟨id, action, lease, gate, installed, turn⟩ := step
  have own := kept.fits id
  have others {other : Id} (differ : other ≠ id) :
      Function.update state.leases id lease other = state.leases other :=
    Function.update_of_ne differ lease state.leases
  have here : Function.update state.leases id lease id = lease :=
    Function.update_self id lease state.leases
  have fits (other : Id) : (Function.update state.leases id lease other).Fits installed
      (lastLoaded other (events ++ [(id, action)])) := by
    rw [lastLoaded_append, loadedBy]
    by_cases same : id = other
    · subst same
      rw [here, if_pos rfl]
      exact turn.fits own
    · rw [others (Ne.symm same), if_neg same]
      by_cases held : (state.leases id).Holds
      · exact (kept.fits other).of_free fun also => same (kept.one id other held also)
      · exact turn.installs own held ▸ kept.fits other
  have held (other : Id) : (Function.update state.leases id lease other).Holds →
      other = id ∨ (state.leases other).Holds := by
    intro held
    by_cases same : other = id
    · exact .inl same
    · exact .inr (others same ▸ held)
  obtain ⟨same, rfl⟩ | ⟨before, now, level⟩ | ⟨before, now, rfl⟩ := turn.moves own
  · have as (other : Id) : (Function.update state.leases id lease other).Holds ↔
        (state.leases other).Holds := by
      by_cases equal : other = id
      · subst equal
        rw [here, same]
      · rw [others equal]
    exact ⟨fun none => kept.free fun other => (as other).not.mp (none other),
      fun other held => kept.taken other ((as other).mp held),
      fun first second one two => kept.one first second ((as first).mp one) ((as second).mp two), fits⟩
  · -- No other lease has the token that was in the gate.
    have alone (other : Id) (held' : (Function.update state.leases id lease other).Holds) :
        other = id := by
      refine (held other held').resolve_right fun also => ?_
      have empty := kept.taken other also
      omega
    have level' := kept.free fun other also => by
      have empty := kept.taken other also
      omega
    exact ⟨fun none => absurd now (here ▸ none id), fun _ _ => by simp only; omega,
      fun first second one two => (alone first one).trans (alone second two).symm, fits⟩
  · -- The lease that puts the token back was the only one with it.
    have empty := kept.taken id before
    have none (other : Id) : ¬(Function.update state.leases id lease other).Holds := by
      intro held'
      obtain rfl | also := held other held'
      · exact now (here ▸ held')
      · obtain rfl := kept.one other id also before
        exact now (here ▸ held')
    exact ⟨fun _ => by simp only; omega, fun other held => absurd held (none other),
      fun first _ held => absurd held (none first), fits⟩

theorem kept_run (run : (machine Id Model).Run events state) : Kept events state :=
  run.history_invariant Kept (fun _ => kept_initial) fun _ _ _ _ kept step => kept.step step

/-- What the predictor runs with is what the lease loaded last. -/
theorem Kept.runs {id : Id} {action : Action Model} {ran : Option Model} (kept : Kept events state)
    (step : (machine Id Model).Step state (id, action) after)
    (runs : action = .predicts ran ∨ action = .predicted ran) :
    ∃ model, ran = some model ∧ lastLoaded id events = some model := by
  obtain @⟨_, _, lease, gate, installed, turn⟩ := step
  have own := kept.fits id
  generalize state.leases id = before at turn own
  generalize state.gate = full at turn
  have fits : ran.isSome ∧ ran = lastLoaded id events := by
    obtain rfl | rfl := runs
    · cases turn with
      | predicts => exact own rfl
    · cases turn with
      | predicted => exact own.2
  obtain ⟨model, rfl⟩ := Option.isSome_iff_exists.mp fits.1
  exact ⟨model, rfl, fits.2.symm⟩

/-- What the leases of a singleton keep, after the events of a run: every prediction runs
with the model that its lease loaded last, and the one token is in the gate or with the
only lease that is between its load and the end of its prediction. -/
structure Serialized (events : List (Id × Action Model)) (state : State Id Model) : Prop where
  predictions : ∀ before id action ran later, events = before ++ (id, action) :: later →
    action = .predicts ran ∨ action = .predicted ran →
    ∃ model, ran = some model ∧ lastLoaded id before = some model
  alone : ∀ first second, (state.leases first).Holds → (state.leases second).Holds → first = second
  free : (∀ id, ¬(state.leases id).Holds) → state.gate = 1
  taken : ∀ id, (state.leases id).Holds → state.gate = 0

/-- Leases keep model and prediction together, in whatever order their steps come. -/
theorem leases_serialized (run : (machine Id Model).Run events state) : Serialized events state where
  predictions := by
    rintro before id action ran later rfl runs
    obtain ⟨middle, after, first, step, -⟩ := run.cut
    exact (kept_run first).runs step runs
  alone := (kept_run run).one
  free := (kept_run run).free
  taken := (kept_run run).taken

/-- A lease loads and predicts while another one waits. -/
theorem leases_serialized_two : ∃ state : State Bool Nat,
    (machine Bool Nat).Run [(false, .load 7), (false, .acquires), (true, .load 8), (false, .loaded 7),
      (false, .predicts (some 7)), (false, .predicted (some 7)), (false, .clears)] state ∧
    Serialized [(false, .load 7), (false, .acquires), (true, .load 8), (false, .loaded 7),
      (false, .predicts (some 7)), (false, .predicted (some 7)), (false, .clears)] state := by
  have start : (machine Bool Nat).Run [] ⟨fun _ => {}, 1, none⟩ := ⟨_, ⟨rfl, fun _ => rfl⟩, .nil _⟩
  have asks := start.snoc (.turn (.load 7 1 none) : (machine Bool Nat).Step _ (false, _) _)
  have takes := asks.snoc (.turn (.acquires false 7 0 none) : (machine Bool Nat).Step _ (false, _) _)
  have waits := takes.snoc (.turn (.load 8 0 none) : (machine Bool Nat).Step _ (true, _) _)
  have loads := waits.snoc (.turn (.loaded true 7 0 none) : (machine Bool Nat).Step _ (false, _) _)
  have begins := loads.snoc (.turn (.predicts 0 (some 7)) : (machine Bool Nat).Step _ (false, _) _)
  have ends := begins.snoc
    (.turn (.predicted true 0 (some 7)) : (machine Bool Nat).Step _ (false, _) _)
  have clears := ends.snoc (.turn (.clears 0 (some 7)) : (machine Bool Nat).Step _ (false, _) _)
  exact ⟨_, clears, leases_serialized clears⟩

end Runs

end Golusoris.Tiny.Fleet
