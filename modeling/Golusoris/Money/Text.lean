import Golusoris.Lib.Digits
import Golusoris.Money.Amounts

/-!
# Amounts as text

`string` embeds `Money.String`: the magnitude of the amount is divided by the
currency's number of minor units, the fraction is padded to the currency's number
of digits. The table of currencies is of another package, and so are the powers of
ten; what it reports are scales whose power `uint64` holds exactly.

`readAmount` reads a printed amount back.
-/

namespace Golusoris.Money

open List
open Lib Lib.Digits

/-- The currencies of another package, with `strings.ToUpper` and `math.Pow10` as a
`uint64`. -/
structure Currencies where
  toUpper : Bytes → Bytes
  getDigits : Bytes → Option Nat
  pow10 : Nat → UInt64
  pow10_default : (pow10 2).toNat = 10 ^ 2
  pow10_eq : ∀ code digits, getDigits code = some digits → (pow10 digits).toNat = 10 ^ digits

namespace Currencies

variable (table : Currencies)

def minorUnitScale (code : Bytes) : Nat :=
  match table.getDigits (table.toUpper code) with
  | none => 2
  | some digits => digits

theorem pow10_minorUnitScale (code : Bytes) :
    (table.pow10 (table.minorUnitScale code)).toNat = 10 ^ table.minorUnitScale code := by
  rw [minorUnitScale]
  split
  · exact table.pow10_default
  · rename_i digits known
    exact table.pow10_eq _ _ known

end Currencies

/-- The sign and the magnitude that `String` prints. -/
def signed (amount : Int64) : Bytes × UInt64 :=
  if amount = Int64.minValue then ([0x2D], (1 : UInt64) <<< 63)
  else if amount < 0 then ([0x2D], (-amount).toUInt64)
  else ([], amount.toUInt64)

/-- `String`; `%0*d` pads with zeros in front. -/
def string (table : Currencies) (money : Money) : Bytes :=
  let decimals := table.minorUnitScale money.currency
  if decimals = 0 then intText money.amount.toInt ++ 0x20 :: money.currency
  else
    let (sign, u) := signed money.amount
    let divisor := table.pow10 decimals
    let major := u / divisor
    let minor := natText (u % divisor).toNat
    sign ++ natText major.toNat ++ 0x2E :: (List.replicate (decimals - minor.length) 0x30 ++ minor) ++
      0x20 :: money.currency

theorem toNat_toUInt64 {amount : Int64} (positive : 0 ≤ amount.toInt) :
    amount.toUInt64.toNat = amount.toInt.natAbs := by
  have bound : 0 ≤ amount := Int64.le_iff_toInt_le.mpr positive
  rw [Int64.toNat_toUInt64_of_le bound]
  exact (Int.toNat_of_nonneg positive ▸ (Int.natAbs_natCast _).symm)

theorem signed_spec (amount : Int64) :
    (signed amount).1 = (if amount.toInt < 0 then [0x2D] else []) ∧
      (signed amount).2.toNat = amount.toInt.natAbs := by
  have least : Int64.minValue.toInt = -2 ^ 63 := by decide
  rw [signed]
  by_cases minimal : amount = Int64.minValue
  · subst minimal
    exact ⟨rfl, by decide⟩
  · have fits := (representable_neg_iff amount).mpr minimal
    rw [if_neg minimal]
    by_cases negative : amount < 0
    · have below : amount.toInt < 0 := Int64.lt_iff_toInt_lt.mp negative
      have negated : (-amount).toInt = -amount.toInt := by
        rw [Int64.toInt_neg, (bmod_eq_self_iff _).mpr fits]
      rw [if_pos negative, if_pos below]
      refine ⟨rfl, ?_⟩
      have positive : 0 ≤ (-amount).toInt := by omega
      rw [toNat_toUInt64 positive, negated, Int.natAbs_neg]
    · have above : ¬amount.toInt < 0 := fun below => negative (Int64.lt_iff_toInt_lt.mpr below)
      rw [if_neg negative, if_neg above]
      exact ⟨rfl, toNat_toUInt64 (Int.not_lt.mp above)⟩

/-- The decimal with a number of fraction digits that is so many units of the last one. -/
def decimalText (scale : Nat) (units : Int) : Bytes :=
  (if units < 0 then [0x2D] else []) ++ natText (units.natAbs / 10 ^ scale) ++
    if scale = 0 then [] else 0x2E :: fixed scale (units.natAbs % 10 ^ scale)

theorem string_eq (table : Currencies) (money : Money) : money.string table =
    decimalText (table.minorUnitScale money.currency) money.amount.toInt ++ 0x20 :: money.currency := by
  have power := table.pow10_minorUnitScale money.currency
  rw [string, decimalText]
  by_cases whole : table.minorUnitScale money.currency = 0
  · simp only [whole, if_true, pow_zero, Nat.div_one, append_nil, intText]
    split <;> rfl
  · obtain ⟨sign, magnitude⟩ := signed_spec money.amount
    have small := Nat.mod_lt money.amount.toInt.natAbs
      (Nat.pow_pos (n := table.minorUnitScale money.currency) (show 0 < 10 by decide))
    obtain ⟨scale, more⟩ := Nat.exists_eq_succ_of_ne_zero whole
    have short : (natText (money.amount.toInt.natAbs % 10 ^ table.minorUnitScale money.currency)).length ≤
        table.minorUnitScale money.currency := by
      rw [more] at small ⊢
      exact length_natText_le small
    simp only [if_neg whole, sign, UInt64.toNat_div, UInt64.toNat_mod, magnitude, power,
      replicate_append_natText short]

/-- The units that a magnitude with a number of fraction digits stands for. -/
def readMagnitude (scale : Nat) (text : Bytes) : Option Nat :=
  if scale = 0 then readNat text
  else
    match text.dropWhile Digits.isDigit with
    | 0x2E :: fraction =>
        if fraction.length = scale then do
          let whole ← readNat (text.takeWhile Digits.isDigit)
          let part ← readNat fraction
          return whole * 10 ^ scale + part
        else none
    | _ => none

/-- The amount of a printed text, with a number of fraction digits. -/
def readAmount (scale : Nat) (text : Bytes) : Option Int :=
  match text.takeWhile (· ≠ 0x20) with
  | 0x2D :: printed => (readMagnitude scale printed).map fun units : Nat => -(units : Int)
  | printed => (readMagnitude scale printed).map fun units : Nat => (units : Int)

theorem not_mem_decimalText (scale : Nat) (units : Int) {byte : UInt8}
    (other : Digits.isDigit byte = false ∧ byte ≠ 0x2D ∧ byte ≠ 0x2E) :
    byte ∉ decimalText scale units := by
  obtain ⟨letter, minus, point⟩ := other
  have digits : ∀ text : Bytes, text.all Digits.isDigit → byte ∉ text := by
    intro text all found
    exact absurd (all_eq_true.mp all byte found) (by simp [letter])
  rw [decimalText]
  simp only [mem_append, not_or]
  refine ⟨⟨?_, digits _ (all_natText _)⟩, ?_⟩
  · split_ifs <;> simp [minus]
  · split_ifs with whole
    · simp
    · simpa [point] using digits _ (all_fixed _ _)

theorem readMagnitude_decimal (scale units : Nat) :
    readMagnitude scale (natText (units / 10 ^ scale) ++
      if scale = 0 then [] else 0x2E :: fixed scale (units % 10 ^ scale)) = some units := by
  rw [readMagnitude]
  split_ifs with whole
  · rw [whole, append_nil, pow_zero, Nat.div_one, readNat_natText]
  · have digits := all_eq_true.mp (all_natText (units / 10 ^ scale))
    have taken : (natText (units / 10 ^ scale) ++ 0x2E :: fixed scale (units % 10 ^ scale)).takeWhile
        Digits.isDigit = natText (units / 10 ^ scale) := by
      rw [takeWhile_append_of_pos digits, takeWhile_cons_of_neg (by decide), append_nil]
    have dropped : (natText (units / 10 ^ scale) ++ 0x2E :: fixed scale (units % 10 ^ scale)).dropWhile
        Digits.isDigit = 0x2E :: fixed scale (units % 10 ^ scale) := by
      rw [dropWhile_append_of_pos digits, dropWhile_cons_of_neg (by decide)]
    have fraction : readNat (fixed scale (units % 10 ^ scale)) = some (units % 10 ^ scale) := by
      have read := readNatFrom_fixed 0 scale (units % 10 ^ scale)
      rw [Nat.zero_mul, Nat.zero_add, Nat.mod_mod] at read
      obtain ⟨first, rest, shape⟩ := exists_cons_of_length_pos
        (by rw [length_fixed]; omega : 0 < (fixed scale (units % 10 ^ scale)).length)
      rw [shape] at read ⊢
      exact read
    rw [taken, dropped]
    simp only [length_fixed, if_true, readNat_natText, fraction]
    exact congrArg some (Nat.div_add_mod' units (10 ^ scale))

/-- What is printed is read back. -/
theorem readAmount_decimalText (scale : Nat) (units : Int) (rest : Bytes) :
    readAmount scale (decimalText scale units ++ 0x20 :: rest) = some units := by
  have printed : (decimalText scale units ++ 0x20 :: rest).takeWhile (· ≠ 0x20) =
      decimalText scale units := by
    rw [takeWhile_append_of_pos, takeWhile_cons_of_neg (by simp), append_nil]
    intro byte found
    refine decide_eq_true ?_
    rintro rfl
    exact not_mem_decimalText scale units (by decide) found
  rw [readAmount, printed, decimalText]
  by_cases negative : units < 0
  · rw [if_pos negative]
    simp only [cons_append, nil_append, readMagnitude_decimal, Option.map_some]
    congr 1
    omega
  · obtain ⟨first, digits, text, letter, -⟩ := natText_cons (units.natAbs / 10 ^ scale)
    have magnitude := readMagnitude_decimal scale units.natAbs
    rw [if_neg negative, nil_append]
    rw [text, cons_append] at magnitude ⊢
    split
    · rename_i same
      obtain ⟨rfl, -⟩ := List.cons.inj same
      exact absurd letter (by decide)
    · rw [magnitude, Option.map_some]
      congr 1
      omega

/-- The text of an amount is the exact decimal, and tells the amount. -/
theorem string_exact (table : Currencies) (money : Money) :
    (∃ whole fraction, fraction < 10 ^ table.minorUnitScale money.currency ∧
        money.string table = (if money.amount < 0 then [0x2D] else []) ++ natText whole ++
          (if table.minorUnitScale money.currency = 0 then []
            else 0x2E :: fixed (table.minorUnitScale money.currency) fraction) ++
          0x20 :: money.currency ∧
        money.amount.toInt = (if money.amount < 0 then -1 else 1) *
          ((whole * 10 ^ table.minorUnitScale money.currency + fraction : Nat) : Int)) ∧
      readAmount (table.minorUnitScale money.currency) (money.string table) =
        some money.amount.toInt ∧
      ∀ other : Money, other.currency = money.currency → other.string table = money.string table →
        other = money := by
  have read := readAmount_decimalText (table.minorUnitScale money.currency) money.amount.toInt money.currency
  rw [← string_eq] at read
  have sign : money.amount < 0 ↔ money.amount.toInt < 0 := Int64.lt_iff_toInt_lt
  refine ⟨⟨money.amount.toInt.natAbs / 10 ^ table.minorUnitScale money.currency,
    money.amount.toInt.natAbs % 10 ^ table.minorUnitScale money.currency,
    Nat.mod_lt _ (Nat.pow_pos (by decide)), ?_, ?_⟩, read, ?_⟩
  · simp only [string_eq, decimalText, sign]
  · rw [Nat.div_add_mod']
    simp only [sign]
    split <;> omega
  · intro other currency same
    have read' := readAmount_decimalText (table.minorUnitScale other.currency) other.amount.toInt
      other.currency
    rw [← string_eq, same, currency, read] at read'
    have amount := Int64.toInt_inj.mp (Option.some.inj read')
    show Money.mk other.amount other.currency = Money.mk money.amount money.currency
    rw [amount, currency]

/-- Three currencies of the table, all of whose scales are small. -/
def threeCurrencies : Currencies where
  toUpper := id
  getDigits code :=
    if code = textBytes "USD" then some 2
    else if code = textBytes "JPY" then some 0
    else if code = textBytes "KWD" then some 3
    else none
  pow10 digits := UInt64.ofNat (10 ^ digits)
  pow10_default := by decide
  pow10_eq code digits known := by
    split_ifs at known
    all_goals
      cases known
      decide

example : string threeCurrencies ⟨-5, textBytes "USD"⟩ = textBytes "-0.05 USD" := by decide +kernel
example : string threeCurrencies ⟨Int64.minValue, textBytes "KWD"⟩ =
    textBytes "-9223372036854775.808 KWD" := by
  decide +kernel

end Golusoris.Money
