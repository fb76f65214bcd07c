import Golusoris.Lib.Utf8
import Mathlib.Algebra.Group.Nat.Defs
import Mathlib.Tactic.Common

/-!
# Decimal digits

Numbers written in decimal, without leading zeros or with a fixed number of
digits, and read back.
-/

namespace Golusoris.Lib.Digits

def isDigit (byte : UInt8) : Bool := 0x30 ≤ byte && byte ≤ 0x39

def digit (value : Nat) : UInt8 := UInt8.ofNat (0x30 + value)

def digitValue (byte : UInt8) : Nat := byte.toNat - 0x30

theorem isDigit_digit {value : Nat} (small : value < 10) : isDigit (digit value) := by
  have all : ∀ value < 10, isDigit (digit value) := by decide
  exact all value small

theorem digitValue_digit {value : Nat} (small : value < 10) : digitValue (digit value) = value := by
  have all : ∀ value < 10, digitValue (digit value) = value := by decide
  exact all value small

theorem digit_ne_zero {value : Nat} (small : value < 10) (positive : 0 < value) :
    digit value ≠ 0x30 := by
  have all : ∀ value < 10, 0 < value → digit value ≠ 0x30 := by decide
  exact all value small positive

def natTextFrom : Nat → Nat → Bytes
  | 0, value => [digit (value % 10)]
  | fuel + 1, value =>
      if value < 10 then [digit value] else natTextFrom fuel (value / 10) ++ [digit (value % 10)]

def natText (value : Nat) : Bytes := natTextFrom value value

theorem natTextFrom_eq {fuel more value : Nat} (enough : value ≤ fuel) (also : value ≤ more) :
    natTextFrom fuel value = natTextFrom more value := by
  induction fuel generalizing more value with
  | zero =>
    obtain rfl := Nat.le_zero.mp enough
    cases more <;> rfl
  | succ fuel ih =>
    cases more with
    | zero =>
      obtain rfl := Nat.le_zero.mp also
      rfl
    | succ more =>
      rw [natTextFrom, natTextFrom]
      split_ifs with small
      · rfl
      · rw [@ih more (value / 10) (by omega) (by omega)]

variable (value : Nat)

/-- The last digit comes off the end. -/
theorem natText_eq : natText value =
    if value < 10 then [digit value] else natText (value / 10) ++ [digit (value % 10)] := by
  cases value with
  | zero => rfl
  | succ value =>
    rw [natText, natTextFrom]
    split_ifs with small
    · rfl
    · rw [natText, natTextFrom_eq (Nat.le_of_lt_succ (Nat.div_lt_self (Nat.succ_pos _) (by omega)))
        (Nat.le_refl _)]

theorem all_natText : (natText value).all isDigit := by
  induction value using Nat.strongRecOn with
  | ind value ih =>
    rw [natText_eq]
    split_ifs with small
    · simpa using isDigit_digit small
    · rw [List.all_append, ih (value / 10) (by omega)]
      simpa using isDigit_digit (Nat.mod_lt value (by omega))

/-- A number of more than one digit starts with a digit other than zero. -/
theorem natText_cons : ∃ first rest, natText value = first :: rest ∧
    isDigit first ∧ (first = 0x30 → rest = []) := by
  induction value using Nat.strongRecOn with
  | ind value ih =>
    rw [natText_eq]
    split_ifs with small
    · exact ⟨digit value, [], rfl, isDigit_digit small, fun _ => rfl⟩
    · obtain ⟨first, rest, text, digits, leading⟩ := ih (value / 10) (by omega)
      rw [text]
      refine ⟨first, rest ++ [digit (value % 10)], rfl, digits, fun zero => ?_⟩
      -- The digits before the last are those of a positive number.
      exfalso
      have alone := leading zero
      rw [alone, natText_eq] at text
      split_ifs at text with one
      · have same : digit (value / 10) = first := List.cons.inj text |>.1
        exact digit_ne_zero one (by omega) (same.trans zero)
      · have long := congrArg List.length text
        obtain ⟨_, _, before, -, -⟩ := ih (value / 10 / 10) (by omega)
        rw [before] at long
        simp at long

def readNatFrom (value : Nat) : Bytes → Option Nat
  | [] => some value
  | byte :: rest =>
      if isDigit byte then readNatFrom (value * 10 + digitValue byte) rest else none

/-- A text of one or more digits. -/
def readNat : Bytes → Option Nat
  | [] => none
  | byte :: rest => readNatFrom 0 (byte :: rest)

theorem readNatFrom_append (first second : Bytes) :
    readNatFrom value (first ++ second) =
      (readNatFrom value first).bind fun value => readNatFrom value second := by
  induction first generalizing value with
  | nil => rfl
  | cons byte rest ih =>
    rw [List.cons_append, readNatFrom, readNatFrom]
    split_ifs with known
    · exact ih _
    · rfl

theorem readNatFrom_natText : readNatFrom 0 (natText value) = some value := by
  induction value using Nat.strongRecOn with
  | ind value ih =>
    rw [natText_eq]
    split_ifs with small
    · simp [readNatFrom, isDigit_digit small, digitValue_digit small]
    · have last := Nat.mod_lt value (show 10 > 0 by omega)
      rw [readNatFrom_append, ih (value / 10) (by omega), Option.bind_some, readNatFrom,
        if_pos (isDigit_digit last), readNatFrom, digitValue_digit last]
      congr 1
      omega

theorem readNat_natText : readNat (natText value) = some value := by
  obtain ⟨first, rest, text, -, -⟩ := natText_cons value
  rw [text, readNat, ← text, readNatFrom_natText]

def intText (value : Int) : Bytes :=
  if value < 0 then 0x2D :: natText value.natAbs else natText value.natAbs

def readInt : Bytes → Option Int
  | 0x2D :: rest => (readNat rest).map fun value : Nat => -(value : Int)
  | 0x2B :: rest => (readNat rest).map fun value : Nat => (value : Int)
  | text => (readNat text).map fun value : Nat => (value : Int)

theorem readInt_intText (value : Int) : readInt (intText value) = some value := by
  rw [intText]
  split_ifs with negative
  · rw [readInt, readNat_natText, Option.map_some]
    congr 1
    omega
  · obtain ⟨first, rest, text, known, -⟩ := natText_cons value.natAbs
    have plain : readInt (first :: rest) = (readNat (first :: rest)).map fun value : Nat => (value : Int) := by
      unfold readInt
      split
      · rename_i same
        cases same
        exact absurd known (by decide)
      · rename_i same
        cases same
        exact absurd known (by decide)
      · rfl
    rw [text, plain, ← text, readNat_natText, Option.map_some]
    congr 1
    omega

/-- The last digits of a number. -/
def fixed : Nat → Nat → Bytes
  | 0, _ => []
  | width + 1, value => fixed width (value / 10) ++ [digit (value % 10)]

@[simp] theorem length_fixed (width value : Nat) : (fixed width value).length = width := by
  induction width generalizing value with
  | zero => rfl
  | succ width ih => simp [fixed, ih]

theorem all_fixed (width value : Nat) : (fixed width value).all isDigit := by
  induction width generalizing value with
  | zero => rfl
  | succ width ih =>
    rw [fixed, List.all_append, ih]
    simpa using isDigit_digit (Nat.mod_lt value (by omega))

theorem readNatFrom_fixed (before width value : Nat) :
    readNatFrom before (fixed width value) = some (before * 10 ^ width + value % 10 ^ width) := by
  induction width generalizing value with
  | zero => simp [fixed, readNatFrom, Nat.mod_one]
  | succ width ih =>
    have last := Nat.mod_lt value (show 10 > 0 by omega)
    rw [fixed, readNatFrom_append, ih, Option.bind_some, readNatFrom,
      if_pos (isDigit_digit last), readNatFrom, digitValue_digit last]
    congr 1
    rw [Nat.pow_succ', Nat.mod_mul, Nat.add_mul]
    have shifted : before * 10 ^ width * 10 = before * (10 * 10 ^ width) := by
      rw [Nat.mul_assoc, Nat.mul_comm (10 ^ width)]
    omega

theorem fixed_inj {width first second : Nat} (small : first < 10 ^ width)
    (also : second < 10 ^ width) (same : fixed width first = fixed width second) :
    first = second := by
  have read := congrArg (readNatFrom 0) same
  rw [readNatFrom_fixed, readNatFrom_fixed, Nat.mod_eq_of_lt small, Nat.mod_eq_of_lt also] at read
  simpa using read

theorem fixed_zero (width : Nat) : fixed width 0 = List.replicate width 0x30 := by
  induction width with
  | zero => rfl
  | succ width ih =>
    rw [fixed, Nat.zero_div, ih, List.replicate_succ']
    rfl

theorem length_natText_le {width value : Nat} (small : value < 10 ^ (width + 1)) :
    (natText value).length ≤ width + 1 := by
  induction width generalizing value with
  | zero => rw [natText_eq, if_pos (by omega)]; simp
  | succ width ih =>
    rw [natText_eq]
    split_ifs with one
    · simp
    · have shorter := @ih (value / 10) (by rw [Nat.pow_succ] at small; omega)
      simpa using shorter

/-- Zeros in front make up for the digits that are not there. -/
theorem replicate_append_natText {width value : Nat} (short : (natText value).length ≤ width) :
    List.replicate (width - (natText value).length) 0x30 ++ natText value = fixed width value := by
  induction width generalizing value with
  | zero =>
    obtain ⟨first, rest, text, -, -⟩ := natText_cons value
    simp [text] at short
  | succ width ih =>
    rw [fixed]
    by_cases one : value < 10
    · rw [natText_eq, if_pos one, Nat.div_eq_of_lt one, fixed_zero, Nat.mod_eq_of_lt one]
      rfl
    · rw [natText_eq, if_neg one] at short ⊢
      rw [List.length_append, List.length_singleton] at short ⊢
      rw [← @ih (value / 10) (by omega), ← List.append_assoc, Nat.add_sub_add_right]

end Golusoris.Lib.Digits
