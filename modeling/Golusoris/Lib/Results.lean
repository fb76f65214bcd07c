import Mathlib.Data.List.Induction
import Mathlib.Tactic.Common

/-! Rules for computations that return or fail: binding two, and going through a list. -/

namespace Golusoris.Lib

section Binding

variable {ε α β : Type}

/-- A computation that succeeds has a first half that does. -/
theorem exists_of_bind_eq_ok {first : Except ε α} {next : α → Except ε β} {value : β}
    (succeeded : (first >>= next) = .ok value) :
    ∃ middle, first = .ok middle ∧ next middle = .ok value := by
  cases first with
  | error failure => cases succeeded
  | ok middle => exact ⟨middle, rfl, succeeded⟩

theorem exists_of_map_eq_ok {first : Except ε α} {change : α → β} {value : β}
    (succeeded : first.map change = .ok value) :
    ∃ middle, first = .ok middle ∧ change middle = value := by
  cases first with
  | error failure => cases succeeded
  | ok middle => exact ⟨middle, rfl, Except.ok.inj succeeded⟩

/-- A failure that neither half has is not one of the whole. -/
theorem bind_ne_error {first : Except ε α} {next : α → Except ε β} {failure : ε}
    (left : first ≠ .error failure)
    (right : ∀ middle, first = .ok middle → next middle ≠ .error failure) :
    (first >>= next) ≠ .error failure := by
  cases first with
  | error other =>
    intro failed
    cases failed
    exact left rfl
  | ok middle => exact right middle rfl

theorem ok_of_toOption {result : Except ε α} {value : α}
    (returned : result.toOption = some value) : result = .ok value := by
  cases result with
  | error failure => cases returned
  | ok other => rw [Option.some.inj returned]

end Binding

section Folding

variable {ε State α : Type} {step : State → α → Except ε State}

/-- What every step keeps, with the items done so far, holds after the last. -/
theorem foldlM_invariant (Holds : List α → State → Prop) {items : List α} {state final : State}
    (kept : ∀ before item state after, item ∈ items → Holds before state →
      step state item = .ok after → Holds (before ++ [item]) after)
    (holds : Holds [] state) (folded : items.foldlM step state = .ok final) : Holds items final := by
  induction items using List.reverseRecOn generalizing final with
  | nil =>
    obtain rfl := Except.ok.inj folded
    exact holds
  | append_singleton items item ih =>
    rw [List.foldlM_append] at folded
    obtain ⟨middle, first, last⟩ := exists_of_bind_eq_ok folded
    rw [List.foldlM_cons] at last
    obtain ⟨after, step, same⟩ := exists_of_bind_eq_ok last
    obtain rfl := Except.ok.inj same
    have before := ih (fun before other state after member =>
      kept before other state after (List.mem_append_left _ member)) first
    exact kept items item middle after (List.mem_append_right _ List.mem_cons_self) before step

theorem foldlM_ne_error {failure : ε} (other : ∀ state item, step state item ≠ .error failure)
    (items : List α) (state : State) : items.foldlM step state ≠ .error failure := by
  induction items generalizing state with
  | nil =>
    intro failed
    cases failed
  | cons item items ih =>
    rw [List.foldlM_cons]
    exact bind_ne_error (other state item) fun middle _ => ih middle

end Folding

end Golusoris.Lib
