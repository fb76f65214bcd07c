import Golusoris.Lib.Digits
import Golusoris.Lib.JsonValue

/-!
# Writing and reading compound JSON values

Integers, arrays and objects put together from the phrases of their items, and
the items of an array or an object that was read. Text that is not valid UTF-8
comes back coerced, everything else as it was written.
-/

namespace Golusoris.Lib.Json

open Numeral

theorem wellNumbered_whole {text : Bytes} (digits : text.all Digits.isDigit) :
    wellNumbered .whole text := by
  induction text with
  | nil => rfl
  | cons byte rest ih =>
    rw [List.all_cons, Bool.and_eq_true] at digits
    have numeric : isNumeric byte := digits.1
    simp only [wellNumbered, step, numeric, if_true]
    exact ih digits.2

theorem wellNumbered_first {byte : UInt8} {rest : Bytes} (known : Digits.isDigit byte)
    (digits : rest.all Digits.isDigit) (leading : byte = 0x30 → rest = []) :
    (first byte).any fun next => wellNumbered next rest := by
  by_cases zero : byte = 0x30
  · rw [leading zero, zero]
    rfl
  · have numeric : isNumeric byte := known
    rw [first, if_neg zero, if_pos numeric]
    exact wellNumbered_whole digits

theorem wellNumbered_start_eq {byte : UInt8} {rest : Bytes} (known : Digits.isDigit byte) :
    wellNumbered .start (byte :: rest) = (first byte).any fun next => wellNumbered next rest := by
  have unsigned : byte ≠ 0x2D := by
    rintro rfl
    exact absurd known (by decide)
  rw [wellNumbered, step, if_neg unsigned]
  cases first byte <;> rfl

theorem wellNumbered_minus_eq {byte : UInt8} {rest : Bytes} :
    wellNumbered .start (0x2D :: byte :: rest) =
      (first byte).any fun next => wellNumbered next rest := by
  rw [wellNumbered, step, if_pos rfl]
  simp only [wellNumbered, step]
  cases first byte <;> rfl

theorem wellNumbered_intText (value : Int) : wellNumbered .start (Digits.intText value) := by
  obtain ⟨first, rest, text, known, leading⟩ := Digits.natText_cons value.natAbs
  have all := Digits.all_natText value.natAbs
  rw [text, List.all_cons, Bool.and_eq_true] at all
  rw [Digits.intText, text]
  split_ifs with negative
  · rw [wellNumbered_minus_eq]
    exact wellNumbered_first known all.2 leading
  · rw [wellNumbered_start_eq known]
    exact wellNumbered_first known all.2 leading

def intPhrase (value : Int) : Phrase .value := .number (Digits.intText value)

theorem intPhrase_wellFormed (value : Int) : (intPhrase value).WellFormed := wellNumbered_intText value

def stringPhrase (text : Bytes) : Phrase .value := .string (quote text)

theorem stringPhrase_wellFormed (text : Bytes) : (stringPhrase text).WellFormed :=
  wellQuoted_of_body (body_quote text)

def elementsOf : Phrase .value → List (Phrase .value) → Phrase .elements
  | value, [] => .lastElement [] value []
  | value, next :: rest => .element [] value [] (elementsOf next rest)

def arrayOf : List (Phrase .value) → Phrase .value
  | [] => .emptyArray []
  | first :: rest => .array (elementsOf first rest)

def Phrase.items : Phrase .elements → List (Phrase .value)
  | .lastElement _ value _ => [value]
  | .element _ value _ rest => value :: rest.items

theorem items_elementsOf (first : Phrase .value) (rest : List (Phrase .value)) :
    (elementsOf first rest).items = first :: rest := by
  induction rest generalizing first with
  | nil => rw [elementsOf, Phrase.items]
  | cons next rest ih => rw [elementsOf, Phrase.items, ih]

theorem wellFormed_elementsOf {first : Phrase .value} {rest : List (Phrase .value)}
    (written : ∀ value ∈ first :: rest, value.WellFormed) : (elementsOf first rest).WellFormed := by
  induction rest generalizing first with
  | nil => exact ⟨blank_nil, written first List.mem_cons_self, blank_nil⟩
  | cons next rest ih =>
    constructor
    · exact ⟨blank_nil, written first List.mem_cons_self, blank_nil⟩
    · exact ih fun value found => written value (List.mem_cons_of_mem _ found)

theorem wellFormed_arrayOf {values : List (Phrase .value)}
    (written : ∀ value ∈ values, value.WellFormed) : (arrayOf values).WellFormed := by
  cases values with
  | nil => exact blank_nil
  | cons first rest => exact wellFormed_elementsOf written

theorem depth_elementsOf {first : Phrase .value} {rest : List (Phrase .value)} {bound : Nat} :
    (elementsOf first rest).depth ≤ bound ↔ ∀ value ∈ first :: rest, value.depth ≤ bound := by
  induction rest generalizing first with
  | nil => simp [elementsOf, Phrase.depth]
  | cons next rest ih => simp [elementsOf, Phrase.depth, Nat.max_le, ih]

theorem depth_arrayOf {values : List (Phrase .value)} {bound : Nat} :
    (arrayOf values).depth ≤ bound + 1 ↔ ∀ value ∈ values, value.depth ≤ bound := by
  cases values with
  | nil => simp [arrayOf, Phrase.depth]
  | cons first rest => rw [arrayOf, Phrase.depth, Nat.add_le_add_iff_right, depth_elementsOf]

/-- The members of an object by their names. -/
def Phrase.pairs : Phrase .members → List (Bytes × Phrase .value)
  | .lastMember _ name _ _ value _ => [(unquote name, value)]
  | .member _ name _ _ value _ rest => (unquote name, value) :: rest.pairs

theorem pairs_membersOf (first : Bytes × Phrase .value) (rest : List (Bytes × Phrase .value)) :
    (membersOf first rest).pairs =
      (first :: rest).map fun entry => (Utf8.coerce entry.1, entry.2) := by
  induction rest generalizing first with
  | nil => simp [membersOf, Phrase.pairs, unquote_quote]
  | cons next rest ih => simp [membersOf, Phrase.pairs, unquote_quote, ih next]

end Golusoris.Lib.Json
