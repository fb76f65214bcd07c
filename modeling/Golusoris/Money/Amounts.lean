import Golusoris.Lib.Utf8
import Mathlib

/-!
# Amounts of money

This module embeds `Add`, `Sub`, `Neg` and `Abs` of `money/money.go`. An amount is
an `int64`, and the operations wrap. They are exact as long as the result is one
that 64 bits hold, and only then: `Add` and `Sub` report currencies that differ,
nothing reports an amount out of range.
-/

namespace Golusoris

open Lib
open Int64

structure Money where
  amount : Int64
  currency : Bytes
  deriving DecidableEq

/-- `ErrCurrencyMismatch`, with the two currencies. -/
inductive MoneyError where
  | currencyMismatch (currency other : Bytes)
  deriving DecidableEq, Repr

namespace Money

def checkSameCurrency (money other : Money) : Except MoneyError Unit :=
  if money.currency ≠ other.currency then .error (.currencyMismatch money.currency other.currency)
  else .ok ()

def add (money other : Money) : Except MoneyError Money := do
  money.checkSameCurrency other
  return ⟨money.amount + other.amount, money.currency⟩

def sub (money other : Money) : Except MoneyError Money := do
  money.checkSameCurrency other
  return ⟨money.amount - other.amount, money.currency⟩

def neg (money : Money) : Money := ⟨-money.amount, money.currency⟩

def abs (money : Money) : Money :=
  if money.amount < 0 then ⟨-money.amount, money.currency⟩ else money

/-- The value is the amount of the result in the currency, or an error is reported. -/
def Exact (currency : Bytes) (value : Int) : Except MoneyError Money → Prop
  | .ok money => money.currency = currency ∧ money.amount.toInt = value
  | .error _ => True

/-- What an `int64` can hold. -/
def Representable (value : Int) : Prop := -2 ^ 63 ≤ value ∧ value < 2 ^ 63

instance (value : Int) : Decidable (Representable value) := inferInstanceAs (Decidable (_ ∧ _))

/-- Wrapping leaves a number as it is just when 64 bits hold it. -/
theorem bmod_eq_self_iff (value : Int) : value.bmod (2 ^ 64) = value ↔ Representable value := by
  rw [Int.bmod_eq_iff (by decide), Representable]
  simp only [Int.sub_self, Int.dvd_zero, and_true]
  omega

variable {money other : Money}

theorem exact_of_wrapped {currency : Bytes} {amount : Int64} {value : Int}
    (wrapped : amount.toInt = value.bmod (2 ^ 64)) :
    Exact currency value (.ok ⟨amount, currency⟩) ↔ Representable value := by
  rw [← bmod_eq_self_iff, ← wrapped]
  exact ⟨fun exact => exact.2, fun same => ⟨rfl, same⟩⟩

/-- An operation on two amounts is exact if the currencies differ or the result fits. -/
theorem exact_checked {amount : Int64} {value : Int} (wrapped : amount.toInt = value.bmod (2 ^ 64)) :
    Exact money.currency value (money.checkSameCurrency other >>= fun _ => .ok ⟨amount, money.currency⟩) ↔
      money.currency ≠ other.currency ∨ Representable value := by
  rw [Money.checkSameCurrency]
  by_cases differ : money.currency = other.currency
  · rw [if_neg (not_not.mpr differ)]
    refine (exact_of_wrapped wrapped).trans ⟨.inr, fun fits => fits.resolve_left ?_⟩
    exact not_not.mpr differ
  · rw [if_pos differ]
    exact ⟨fun _ => .inl differ, fun _ => trivial⟩

theorem exact_add : Exact money.currency (money.amount.toInt + other.amount.toInt) (money.add other) ↔
    money.currency ≠ other.currency ∨ Representable (money.amount.toInt + other.amount.toInt) :=
  exact_checked (toInt_add money.amount other.amount)

theorem exact_sub : Exact money.currency (money.amount.toInt - other.amount.toInt) (money.sub other) ↔
    money.currency ≠ other.currency ∨ Representable (money.amount.toInt - other.amount.toInt) :=
  exact_checked (toInt_sub money.amount other.amount)

theorem exact_neg : Exact money.currency (-money.amount.toInt) (.ok money.neg) ↔
    Representable (-money.amount.toInt) :=
  exact_of_wrapped (toInt_neg money.amount)

/-- Negation leaves the range at its lower end only. -/
theorem representable_neg_iff (amount : Int64) :
    Representable (-amount.toInt) ↔ amount ≠ minValue := by
  have lower := amount.le_toInt
  have upper := amount.toInt_lt
  have least : minValue.toInt = -2 ^ 63 := by decide
  rw [Representable, ne_eq, ← toInt_inj, least]
  omega

theorem exact_abs :
    (Exact money.currency money.amount.toInt.natAbs (.ok money.abs) ∧ 0 ≤ money.abs.amount.toInt) ↔
      money.amount ≠ minValue := by
  rw [← representable_neg_iff]
  have upper := money.amount.toInt_lt
  by_cases negative : money.amount < 0
  · have below : money.amount.toInt < 0 := lt_iff_toInt_lt.mp negative
    have magnitude : (money.amount.toInt.natAbs : Int) = -money.amount.toInt := by omega
    rw [abs, if_pos negative, magnitude, exact_of_wrapped (toInt_neg money.amount)]
    refine ⟨fun exact => exact.1, fun fits => ⟨fits, ?_⟩⟩
    have negated : (-money.amount).toInt = -money.amount.toInt := by
      rw [toInt_neg, (bmod_eq_self_iff _).mpr fits]
    dsimp only
    omega
  · have above : 0 ≤ money.amount.toInt := by
      have bound := mt lt_iff_toInt_lt.mpr negative
      simpa using bound
    have magnitude : (money.amount.toInt.natAbs : Int) = money.amount.toInt := by omega
    rw [abs, if_neg negative, magnitude, Representable]
    refine ⟨fun _ => by omega, fun _ => ⟨⟨rfl, rfl⟩, above⟩⟩

/-- The operations are exact just when the result is an `int64`. -/
theorem arithmetic_exact_iff (money other : Money) :
    (Exact money.currency (money.amount.toInt + other.amount.toInt) (money.add other) ↔
        money.currency ≠ other.currency ∨ Representable (money.amount.toInt + other.amount.toInt)) ∧
      (Exact money.currency (money.amount.toInt - other.amount.toInt) (money.sub other) ↔
        money.currency ≠ other.currency ∨ Representable (money.amount.toInt - other.amount.toInt)) ∧
      (Exact money.currency (-money.amount.toInt) (.ok money.neg) ↔
        money.amount ≠ Int64.minValue) ∧
      (Exact money.currency money.amount.toInt.natAbs (.ok money.abs) ∧
          0 ≤ money.abs.amount.toInt ↔ money.amount ≠ Int64.minValue) :=
  ⟨exact_add, exact_sub, exact_neg.trans (representable_neg_iff money.amount), exact_abs⟩

/-- The largest amount and one more make the least one. -/
theorem add_wraps :
    ¬∀ money other : Money, money.currency = other.currency →
      Exact money.currency (money.amount.toInt + other.amount.toInt) (money.add other) ∧
        Exact money.currency (money.amount.toInt - other.amount.toInt) (money.sub other) ∧
        Exact money.currency (-money.amount.toInt) (.ok money.neg) ∧
        Exact money.currency money.amount.toInt.natAbs (.ok money.abs) ∧
        0 ≤ money.abs.amount.toInt := by
  intro exact
  have sum := (exact ⟨Int64.maxValue, textBytes "USD"⟩ ⟨1, textBytes "USD"⟩ rfl).1
  have wrong : (Int64.maxValue + 1).toInt = Int64.maxValue.toInt + 1 := sum.2
  exact absurd wrong (by decide)

example : (abs ⟨minValue, textBytes "USD"⟩).amount = minValue := by decide

end Golusoris.Money
