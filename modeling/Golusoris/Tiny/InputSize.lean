import Golusoris.Lib.Base64
import Golusoris.Tiny.JsonMarshal

/-!
# The size of a prediction's input

Source: `ai/tiny/serve/fleet/json_size.go`, `checkInputSize` and `jsonLimitWriter` of
`ai/tiny/serve/fleet/fleet.go`. A value is walked with a stack of frames, the last
one first, before it is encoded. What `encoding/json` does with numbers and raw
texts is a parameter. No type of an input here has a marshaler of its own.
-/

namespace Golusoris.Tiny.Admission

open Lib (Bytes textBytes)
open Lib.Json (Word marshalString quotes)
open Tiny.Json (marshalItems marshalMembers)

def maxInputJSONDepth : ℕ := 512
def maxInputJSONValues : ℕ := 100000

/-- An input of the types that JSON has a form for. A number is of any of the number
types, bytes are a `[]byte` or nil, and a map is the list of its entries. -/
inductive Input (Number : Type) where
  | null
  | bool (value : Bool)
  | number (value : Number)
  | string (value : Bytes)
  | bytes (value : Option Bytes)
  | raw (text : Bytes)
  | nilSlice
  | slice (items : List (Input Number))
  | nilMap
  | map (entries : List (Bytes × Input Number))

/-- A value as it is read back into an `any`. -/
inductive Untyped {Number : Type} : Input Number → Prop
  | null : Untyped .null
  | bool (value : Bool) : Untyped (.bool value)
  | number (value : Number) : Untyped (.number value)
  | string (value : Bytes) : Untyped (.string value)
  | slice {items : List (Input Number)} (each : ∀ item ∈ items, Untyped item) :
      Untyped (.slice items)
  | map {entries : List (Bytes × Input Number)} (each : ∀ entry ∈ entries, Untyped entry.2) :
      Untyped (.map entries)

/-- What `encoding/json` does: the text of a number and the `float64` that it is read
as, a raw text without white space and the value that it is read as, and the pieces
in which a text is written. -/
structure Codec (Number : Type) where
  numberText : Number → Bytes
  float64 : Number → Number
  compact : Bytes → Bytes
  untyped : Bytes → Input Number
  untyped_untyped : ∀ text, Untyped (untyped text)
  pieces : Bytes → List Bytes
  flatten_pieces : ∀ text, (pieces text).flatten = text

/-- The order in which a map is ranged over when so many values are counted. -/
structure RangeOrder (Number : Type) where
  arrange : ℕ → List (Bytes × Input Number) → List (Bytes × Input Number)
  perm : ∀ values entries, (arrange values entries).Perm entries

inductive Failure where
  | values
  | depth
  | scalar (maxBytes : ℕ)
  | cap
  | encoded (maxBytes : ℕ)
  deriving DecidableEq

def Failure.error : Failure → Bytes
  | .values => textBytes ("ai/tiny/serve/fleet: input exceeds " ++ toString maxInputJSONValues ++
      " JSON values")
  | .depth => textBytes ("ai/tiny/serve/fleet: input exceeds JSON depth " ++
      toString maxInputJSONDepth)
  | .scalar maxBytes => textBytes ("ai/tiny/serve/fleet: input scalar exceeds cap " ++
      toString maxBytes ++ " bytes")
  | .cap => textBytes "ai/tiny/serve/fleet: input cap must be positive"
  | .encoded maxBytes => textBytes ("ai/tiny/serve/fleet: input exceeds cap " ++
      toString maxBytes ++ " bytes")

def asciiJSONWidth (char : UInt8) : ℕ :=
  if char ∈ [0x5C, 0x22, 0x08, 0x0C, 0x0A, 0x0D, 0x09] then 2
  else if char ∈ [0x3C, 0x3E, 0x26] then 6
  else if char < 0x20 then 6
  else 1

/-- The width of a rune, or of a byte that starts none. -/
def runeJSONWidth : Option Char → ℕ
  | none => 3
  | some rune => if rune.toNat = 0x2028 ∨ rune.toNat = 0x2029 then 6 else rune.utf8Size

/-- The encoded width of the character at the start of a text, and its own. -/
def charWidths : Bytes → ℕ × ℕ
  | [] => (0, 1)
  | char :: rest =>
      if char < 0x80 then (asciiJSONWidth char, 1)
      else
        let rune := Lib.Utf8.decodeRune (char :: rest)
        (runeJSONWidth rune, (rune.map Char.utf8Size).getD 1)

/-- The loop of `jsonStringExceeds`, with a bound on its rounds. -/
def exceedsFrom (limit : ℕ) : ℕ → ℕ → Bytes → Bool
  | 0, encodedBytes, _ => limit < encodedBytes
  | _ + 1, encodedBytes, [] => limit < encodedBytes
  | rounds + 1, encodedBytes, char :: rest =>
      let widths := charWidths (char :: rest)
      if limit < encodedBytes + widths.1 then true
      else exceedsFrom limit rounds (encodedBytes + widths.1) ((char :: rest).drop widths.2)

def jsonStringExceeds (value : Bytes) (limit : ℕ) : Bool := exceedsFrom limit value.length 2 value

def base64JSONBytes (rawBytes : ℕ) : ℕ := 2 + 4 * ((rawBytes + 2) / 3)

section Walk

variable {Number : Type}

/-- The test of `validateJSONScalarMemory`. -/
def scalarExceeds (maxBytes : ℕ) : Input Number → Bool
  | .raw text => maxBytes < text.length
  | .string value => jsonStringExceeds value maxBytes
  | .bytes value => maxBytes < base64JSONBytes (value.getD []).length
  | _ => false

/-- The values inside a value, in the order in which they are pushed. -/
def Input.children : Input Number → List (Input Number)
  | .slice items => items
  | .map entries => entries.flatMap fun entry => [.string entry.1, entry.2]
  | _ => []

/-- What `appendJSONChildren` asks of the values that are left. -/
def roomy (remaining : ℕ) : Input Number → Bool
  | .slice items => items.length ≤ remaining
  | .map entries => entries.length ≤ remaining / 2
  | _ => true

/-- The value as the range over it goes. -/
def RangeOrder.ranged (order : RangeOrder Number) (values : ℕ) : Input Number → Input Number
  | .map entries => .map (order.arrange values entries)
  | value => value

structure Frame (Number : Type) where
  value : Input Number
  depth : ℕ

/-- One round of the loop of `validateJSONInputMemory` for a value that is not nil:
the frames that are pushed, the last one first. -/
def visit (order : RangeOrder Number) (maxBytes values depth : ℕ) (value : Input Number) :
    Except Failure (List (Frame Number)) :=
  if maxInputJSONValues < values then .error .values
  else if maxInputJSONDepth < depth then .error .depth
  else if scalarExceeds maxBytes value then .error (.scalar maxBytes)
  else if !roomy (maxInputJSONValues - values) value then .error .values
  else .ok ((order.ranged values value).children.map fun child => ⟨child, depth + 1⟩).reverse

theorem visit_eq_ok {order : RangeOrder Number} {maxBytes values depth : ℕ} {value : Input Number}
    {pushed : List (Frame Number)} : visit order maxBytes values depth value = .ok pushed ↔
      (values ≤ maxInputJSONValues ∧ depth ≤ maxInputJSONDepth ∧ scalarExceeds maxBytes value = false ∧
        roomy (maxInputJSONValues - values) value) ∧
      ((order.ranged values value).children.map fun child => ⟨child, depth + 1⟩).reverse = pushed := by
  rw [visit]
  split_ifs with many deep large crowded <;> simp_all <;> omega

/-! A range pushes the same values in another order. -/

theorem children_ranged (order : RangeOrder Number) (values : ℕ) (value : Input Number) :
    (order.ranged values value).children.Perm value.children := by
  cases value with
  | map entries => exact (order.perm values entries).flatMap_right _
  | _ => exact .rfl

theorem sizes_le {Item : Type} [SizeOf Item] (items : List Item) :
    (items.map sizeOf).sum ≤ sizeOf items := by
  induction items with
  | nil => exact Nat.zero_le _
  | cons item items ih =>
    rw [List.map_cons, List.sum_cons, List.cons.sizeOf_spec]
    omega

/-- The values inside are smaller together. -/
theorem sizes_children (value : Input Number) :
    (value.children.map sizeOf).sum < sizeOf value := by
  cases value with
  | slice items =>
    have all := sizes_le items
    rw [Input.children, Input.slice.sizeOf_spec]
    omega
  | map entries =>
    have all := sizes_le entries
    have same : (Input.children (.map entries)).map sizeOf =
        entries.flatMap fun entry => [sizeOf (.string entry.1 : Input Number), sizeOf entry.2] := by
      rw [Input.children, List.map_flatMap]
      rfl
    have pairs : ((Input.children (.map entries)).map sizeOf).sum = (entries.map sizeOf).sum := by
      rw [same]
      clear all same
      induction entries with
      | nil => rfl
      | cons entry entries ih =>
        obtain ⟨key, value⟩ := entry
        rw [List.flatMap_cons, List.sum_append, ih, List.map_cons, List.sum_cons]
        simp [Input.string.sizeOf_spec]
    rw [Input.map.sizeOf_spec]
    omega
  | _ => simp [Input.children] <;> omega

/-- The loop of `validateJSONInputMemory`, with the number of values counted so far. -/
def walk (order : RangeOrder Number) (maxBytes : ℕ) (values : ℕ) (stack : List (Frame Number)) :
    Except Failure Unit :=
  match stack with
  | [] => .ok ()
  | ⟨.null, _⟩ :: stack => walk order maxBytes values stack
  | frame :: stack =>
      match _ : visit order maxBytes (values + 1) frame.depth frame.value with
      | .error failure => .error failure
      | .ok pushed => walk order maxBytes (values + 1) (pushed ++ stack)
termination_by (stack.map fun frame => sizeOf frame.value).sum
decreasing_by
  · simp
  · obtain ⟨-, rfl⟩ := visit_eq_ok.mp (by assumption)
    have inside := sizes_children frame.value
    have same := ((children_ranged order (values + 1) frame.value).map sizeOf).sum_eq
    simp only [List.map_append, List.map_reverse, List.map_map, List.sum_append, List.sum_reverse,
      List.map_cons, List.sum_cons]
    have pushed : (List.map ((fun frame : Frame Number => sizeOf frame.value) ∘
        fun child => ⟨child, frame.depth + 1⟩) (order.ranged (values + 1) frame.value).children) =
        (order.ranged (values + 1) frame.value).children.map sizeOf := rfl
    rw [pushed, same]
    omega

def validateJSONInputMemory (order : RangeOrder Number) (input : Input Number) (maxBytes : ℕ) :
    Except Failure Unit :=
  walk order maxBytes 0 [⟨input, 0⟩]

variable (codec : Codec Number)

mutual

/-- What `MarshalWrite` writes. -/
def encode : Input Number → Bytes
  | .null => Word.null.text
  | .bool true => Word.true.text
  | .bool false => Word.false.text
  | .number value => codec.numberText value
  | .string value => marshalString value
  | .bytes none => Word.null.text
  | .bytes (some value) => quotes (Lib.Base64.encode value)
  | .raw text => codec.compact text
  | .nilSlice => Word.null.text
  | .slice items => marshalItems (encodeAll items)
  | .nilMap => Word.null.text
  | .map entries => marshalMembers (encodeEntries entries)

def encodeAll : List (Input Number) → List Bytes
  | [] => []
  | item :: rest => encode item :: encodeAll rest

def encodeEntries : List (Bytes × Input Number) → List (Bytes × Bytes)
  | [] => []
  | (key, value) :: rest => (key, encode value) :: encodeEntries rest

end

structure JsonLimitWriter where
  limit : ℕ
  written : ℕ

def JsonLimitWriter.write (w : JsonLimitWriter) (p : Bytes) : Option JsonLimitWriter :=
  if w.limit - w.written < p.length then none else some { w with written := w.written + p.length }

def checkInputSize (order : RangeOrder Number) (input : Input Number) (maxInputBytes : ℤ) :
    Except Failure Unit :=
  if maxInputBytes ≤ 0 then .error .cap
  else do
    validateJSONInputMemory order input maxInputBytes.toNat
    match (codec.pieces (encode codec input)).foldlM JsonLimitWriter.write
        ⟨maxInputBytes.toNat, 0⟩ with
    | none => .error (.encoded maxInputBytes.toNat)
    | some _ => .ok ()

/-- Of the members with one name the last is kept. -/
def lastMembers {Value : Type} : List (Bytes × Value) → List (Bytes × Value)
  | [] => []
  | entry :: rest =>
      if rest.any fun later => later.1 = entry.1 then lastMembers rest else entry :: lastMembers rest

/-- The members as they are read back: written in the order of the keys, and what is not
UTF-8 in a name is replaced. -/
def readMembers {Value : Type} (entries : List (Bytes × Value)) : List (Bytes × Value) :=
  lastMembers ((entries.mergeSort fun left right => decide (left.1 ≤ right.1)).map fun entry =>
    (Lib.Utf8.coerce entry.1, entry.2))

mutual

/-- The untyped value that the text of an input is read as. -/
def decoded : Input Number → Input Number
  | .null => .null
  | .bool value => .bool value
  | .number value => .number (codec.float64 value)
  | .string value => .string (Lib.Utf8.coerce value)
  | .bytes none => .null
  | .bytes (some value) => .string (Lib.Base64.encode value)
  | .raw text => codec.untyped text
  | .nilSlice => .null
  | .slice items => .slice (decodedAll items)
  | .nilMap => .null
  | .map entries => .map (readMembers (decodedEntries entries))

def decodedAll : List (Input Number) → List (Input Number)
  | [] => []
  | item :: rest => decoded item :: decodedAll rest

def decodedEntries : List (Bytes × Input Number) → List (Bytes × Input Number)
  | [] => []
  | (key, value) :: rest => (key, decoded value) :: decodedEntries rest

end

end Walk

end Golusoris.Tiny.Admission
