import Mathlib.Tactic.Ring

/-!
# Machine words

The product of two 64-bit words as two words, the division of two words by one, which
fails when the quotient takes more than one, and signed words that are not negative.
-/

namespace Golusoris.Lib.Words

/-- The high and the low word of a product. -/
def mul64 (x y : UInt64) : UInt64 × UInt64 := (.ofNat (x.toNat * y.toNat / 2 ^ 64), x * y)

/-- The quotient and the remainder of two words by one. -/
def div64 (high low y : UInt64) : Option (UInt64 × UInt64) :=
  if y ≤ high then none
  else
    let dividend := high.toNat * 2 ^ 64 + low.toNat
    some (.ofNat (dividend / y.toNat), .ofNat (dividend % y.toNat))

theorem mul64_whole (x y : UInt64) :
    (mul64 x y).1.toNat * 2 ^ 64 + (mul64 x y).2.toNat = x.toNat * y.toNat := by
  have high : x.toNat * y.toNat / 2 ^ 64 < 2 ^ 64 := by
    rw [Nat.div_lt_iff_lt_mul (by decide)]
    exact Nat.mul_lt_mul'' x.toNat_lt y.toNat_lt
  rw [mul64, UInt64.toNat_ofNat_of_lt' high, UInt64.toNat_mul]
  exact Nat.div_add_mod' _ _

theorem mul64_high (x y : UInt64) : (mul64 x y).1.toNat = x.toNat * y.toNat / 2 ^ 64 := by
  have whole := mul64_whole x y
  have low := (mul64 x y).2.toNat_lt
  omega

/-- A product divides without failing when the quotient is less than a word. -/
theorem div64_mul64 {x y z : UInt64} (fits : x.toNat * y.toNat < z.toNat * 2 ^ 64) :
    ∃ rest, div64 (mul64 x y).1 (mul64 x y).2 z = some
    (.ofNat (x.toNat * y.toNat / z.toNat), rest) := by
  have below : ¬z ≤ (mul64 x y).1 := by
    rw [UInt64.le_iff_toNat_le, mul64_high]
    omega
  rw [div64, if_neg below, mul64_whole]
  exact ⟨_, rfl⟩

theorem toNat_toUInt64 {value : Int64} (positive : 0 ≤ value.toInt) :
    (value.toUInt64.toNat : Int) = value.toInt := by
  rw [Int64.toNat_toUInt64_of_le (Int64.le_iff_toInt_le.mpr positive)]
  exact Int.toNat_of_nonneg positive

theorem toInt_toInt64 {value : UInt64} (small : value.toNat < 2 ^ 63) :
    value.toInt64.toInt = value.toNat := by
  rw [← value.ofNat_toNat, UInt64.toInt64_ofNat', UInt64.toNat_ofNat_of_lt' value.toNat_lt]
  exact Int64.toInt_ofNat_of_lt small

end Golusoris.Lib.Words
