import Golusoris.Lib.EventStream
import Golusoris.Lib.JsonValue
import Mathlib

/-!
# The encoding of canonical values

What `json.Marshal` writes for the values a registry stores: `nil`, booleans,
`float64`, strings, `[]any` and `map[string]any`, with markup escaped. A float is
written by `strconv.AppendFloat`, a parameter here, and its exponent cleaned up.
-/

namespace Golusoris.Tiny.Json

open List
open Lib (Bytes)
open Lib.Json (Word marshalString quote quoteBytes quoteRune quoteAscii unitEscape quotes)

/-- What is used of `float64`: the tests of `math`, three comparisons of the
absolute value and the shortest text in a format. -/
structure Floats (F : Type) where
  isInf : F → Bool
  isNaN : F → Bool
  absIsZero : F → Bool
  absBelowMicro : F → Bool
  absFromSextillion : F → Bool
  appendFloat : F → UInt8 → Bytes

/-- A Go value of a stored kind, or one of another type. A map is the list of its
entries in the order in which it is ranged over. -/
inductive Value (F : Type) where
  | null
  | bool (value : Bool)
  | number (value : F)
  | string (value : Bytes)
  | nilArray
  | array (items : List (Value F))
  | nilMap
  | map (entries : List (Bytes × Value F))
  | other (type : Bytes)

def formatE : UInt8 := 0x65
def formatF : UInt8 := 0x66

/-- The text ends in `e-0` and a digit. -/
def PaddedExponent (text : Bytes) : Prop :=
  4 ≤ text.length ∧ text[text.length - 4]? = some 0x65 ∧ text[text.length - 3]? = some 0x2D ∧
    text[text.length - 2]? = some 0x30

instance decidablePaddedExponent (text : Bytes) : Decidable (PaddedExponent text) :=
  inferInstanceAs (Decidable (_ ∧ _ ∧ _ ∧ _))

/-- The text without the zero of its exponent. -/
def cleanExponent (text : Bytes) : Bytes :=
  if PaddedExponent text then text.take (text.length - 2) ++ text.drop (text.length - 1) else text

/-- Strings between commas. -/
def commas (items : List Bytes) : Bytes := List.intercalate [0x2C] items

def member (entry : Bytes × Bytes) : Bytes := marshalString entry.1 ++ 0x3A :: entry.2

/-- A map with its names in order. -/
def marshalMembers (entries : List (Bytes × Bytes)) : Bytes :=
  0x7B :: (commas ((entries.mergeSort fun left right => decide (left.1 ≤ right.1)).map member) ++
    [0x7D])

def marshalItems (items : List Bytes) : Bytes := 0x5B :: (commas items ++ [0x5D])

section Marshalling

variable {F : Type} (floats : Floats F)

def marshalFloat (value : F) : Bytes :=
  if ¬ floats.absIsZero value ∧ (floats.absBelowMicro value ∨ floats.absFromSextillion value) then
    cleanExponent (floats.appendFloat value formatE)
  else floats.appendFloat value formatF

mutual

/-- The text of a value; other types are left out. -/
def marshal : Value F → Bytes
  | .null => Word.null.text
  | .bool true => Word.true.text
  | .bool false => Word.false.text
  | .number value => marshalFloat floats value
  | .string value => marshalString value
  | .nilArray => Word.null.text
  | .array items => marshalItems (marshalAll items)
  | .nilMap => Word.null.text
  | .map entries => marshalMembers (marshalEntries entries)
  | .other _ => []

def marshalAll : List (Value F) → List Bytes
  | [] => []
  | item :: rest => marshal item :: marshalAll rest

def marshalEntries : List (Bytes × Value F) → List (Bytes × Bytes)
  | [] => []
  | (key, value) :: rest => (key, marshal value) :: marshalEntries rest

end

end Marshalling

/-- The brackets and commas of a container with so many items. -/
def frame (count : ℕ) : ℕ := 2 + (count - 1)

theorem length_commas (items : List Bytes) :
    (commas items).length = (items.map List.length).sum + (items.length - 1) := by
  induction items with
  | nil => rfl
  | cons first rest hyp =>
    cases rest with
    | nil => simp [commas]
    | cons second rest =>
      have step : commas (first :: second :: rest) = first ++ 0x2C :: commas (second :: rest) := by
        simp [commas, intercalate]
      rw [step, length_append, length_cons, hyp]
      simp only [map_cons, sum_cons, length_cons]
      omega

theorem length_marshalItems (items : List Bytes) :
    (marshalItems items).length = frame items.length + (items.map List.length).sum := by
  rw [marshalItems, length_cons, length_append, length_commas, frame,
    length_singleton]
  omega

theorem length_member (entry : Bytes × Bytes) :
    (member entry).length = (marshalString entry.1).length + 1 + entry.2.length := by
  rw [member, length_append, length_cons]
  omega

/-- The order of the names has no part in the length. -/
theorem length_marshalMembers (entries : List (Bytes × Bytes)) :
    (marshalMembers entries).length =
      frame entries.length + (entries.map fun entry => (member entry).length).sum := by
  have order := mergeSort_perm entries fun left right => decide (left.1 ≤ right.1)
  have sums := (order.map fun entry => (member entry).length).sum_eq
  rw [marshalMembers, length_cons, length_append, length_commas, map_map,
    length_map, order.length_eq, frame, length_singleton]
  have same : (List.map (List.length ∘ member)
      (entries.mergeSort fun left right => decide (left.1 ≤ right.1))).sum = _ := sums
  rw [same]
  omega

theorem length_cleanExponent (text : Bytes) :
    (cleanExponent text).length =
      if PaddedExponent text then text.length - 1 else text.length := by
  rw [cleanExponent]
  split_ifs with padded
  · have long := padded.1
    rw [length_append, length_take, length_drop]
    omega
  · rfl

end Golusoris.Tiny.Json
