import Golusoris.Jcs.Scan
import Mathlib.Data.List.Lex
import Mathlib.Data.List.Sort

/-!
# JSON values and texts

`Json` is a value as a text writes it: object members in source order, strings
as sequences of Unicode scalar values and numbers as doubles. `Derives` is the
grammar of RFC 8259 over bytes, where a string is valid UTF-8 with surrogate
escapes in pairs only and a number is one with a finite double.
-/

namespace Golusoris.Jcs

open Lib

inductive Json where
  | null
  | bool (value : Bool)
  | number (value : ℚ)
  | string (text : List Char)
  | array (elements : List Json)
  | object (members : List (List Char × Json))

/-- Induction over values: a property of all children passes to the container. -/
theorem Json.induct {motive : Json → Prop} (null : motive .null)
    (bool : ∀ value, motive (.bool value)) (number : ∀ value, motive (.number value))
    (string : ∀ text, motive (.string text))
    (array : ∀ elements, (∀ element ∈ elements, motive element) → motive (.array elements))
    (object : ∀ members, (∀ member ∈ members, motive member.2) → motive (.object members)) :
    ∀ json, motive json
  | .null => null
  | .bool value => bool value
  | .number value => number value
  | .string text => string text
  | .array elements => array elements fun element _ =>
    Json.induct null bool number string array object element
  | .object members => object members fun member found =>
    have := List.sizeOf_lt_of_mem found
    have : sizeOf member.2 < sizeOf member := by
      obtain ⟨name, value⟩ := member
      simp
    Json.induct null bool number string array object member.2

mutual

/-- How deep arrays and objects nest. -/
def Json.depth : Json → Nat
  | .array elements => depthAll elements + 1
  | .object members => depthMembers members + 1
  | _ => 0

def depthAll : List Json → Nat
  | [] => 0
  | element :: elements => max element.depth (depthAll elements)

def depthMembers : List (List Char × Json) → Nat
  | [] => 0
  | (_, value) :: members => max value.depth (depthMembers members)

end

mutual

/-- No object at any level has two members of one name. -/
def Json.Distinct : Json → Prop
  | .array elements => DistinctAll elements
  | .object members => (members.map Prod.fst).Nodup ∧ DistinctMembers members
  | _ => True

def DistinctAll : List Json → Prop
  | [] => True
  | element :: elements => element.Distinct ∧ DistinctAll elements

def DistinctMembers : List (List Char × Json) → Prop
  | [] => True
  | (_, value) :: members => value.Distinct ∧ DistinctMembers members

end

/-- White space between tokens. -/
def Space (text : Bytes) : Prop := ∀ byte ∈ text, isSpace byte

def HexDigit (byte : UInt8) (value : Nat) : Prop :=
  (value < 10 ∧ byte.toNat = 0x30 + value) ∨
    (10 ≤ value ∧ value < 16 ∧ (byte.toNat = 0x57 + value ∨ byte.toNat = 0x37 + value))

/-- Four hex digits and their value. -/
def Hex4 (text : Bytes) (unit : Nat) : Prop :=
  ∃ a b c d w x y z, text = [a, b, c, d] ∧ HexDigit a w ∧ HexDigit b x ∧ HexDigit c y ∧
    HexDigit d z ∧ unit = ((w * 16 + x) * 16 + y) * 16 + z

/-- The two-character escapes. -/
def shortEscapes : List (UInt8 × Char) :=
  [(0x22, '"'), (0x5C, '\\'), (0x2F, '/'), (0x62, '\x08'), (0x66, '\x0C'), (0x6E, '\n'),
    (0x72, '\r'), (0x74, '\t')]

/-- The bytes between the quotes of a string and the characters they denote. -/
inductive StringBody : Bytes → List Char → Prop where
  | nil : StringBody [] []
  | plain {rune : Char} {text : Bytes} {runes : List Char} (printable : 0x20 ≤ rune.toNat)
      (unquoted : rune ≠ '"') (unescaped : rune ≠ '\\') (rest : StringBody text runes) :
      StringBody (String.utf8EncodeChar rune ++ text) (rune :: runes)
  | short {byte : UInt8} {rune : Char} {text : Bytes} {runes : List Char}
      (known : (byte, rune) ∈ shortEscapes) (rest : StringBody text runes) :
      StringBody (0x5C :: byte :: text) (rune :: runes)
  | unit {rune : Char} {digits text : Bytes} {runes : List Char} (hex : Hex4 digits rune.toNat)
      (rest : StringBody text runes) :
      StringBody (0x5C :: 0x75 :: digits ++ text) (rune :: runes)
  | pair {rune : Char} {high low text : Bytes} {runes : List Char}
      (supplementary : 0x10000 ≤ rune.toNat)
      (first : Hex4 high (0xD800 + (rune.toNat - 0x10000) / 0x400))
      (second : Hex4 low (0xDC00 + (rune.toNat - 0x10000) % 0x400))
      (rest : StringBody text runes) :
      StringBody (0x5C :: 0x75 :: high ++ (0x5C :: 0x75 :: low ++ text)) (rune :: runes)

def StringText (text : Bytes) (runes : List Char) : Prop :=
  ∃ body, text = 0x22 :: body ++ [0x22] ∧ StringBody body runes

def Digits (text : Bytes) : Prop := text ≠ [] ∧ ∀ byte ∈ text, isDigit byte

/-- A number: an optional minus, a whole part without leading zeros, an optional
fraction and an optional exponent. -/
structure NumberText (text : Bytes) : Prop where
  parts : ∃ minus whole fraction exponent, text = minus ++ (whole ++ (fraction ++ exponent)) ∧
    (minus = [] ∨ minus = [0x2D]) ∧
    (whole = [0x30] ∨ (Digits whole ∧ whole.head? ≠ some 0x30)) ∧
    (fraction = [] ∨ ∃ digits, fraction = 0x2E :: digits ∧ Digits digits) ∧
    (exponent = [] ∨ ∃ mark sign digits, exponent = mark :: sign ++ digits ∧
      (mark = 0x65 ∨ mark = 0x45) ∧ (sign = [] ∨ sign = [0x2B] ∨ sign = [0x2D]) ∧ Digits digits)

/-- What a piece of text stands for. -/
inductive Phrase where
  | value (json : Json)
  | elements (elements : List Json)
  | members (members : List (List Char × Json))

inductive Derives : Bytes → Phrase → Prop where
  | null : Derives (textBytes "null") (.value .null)
  | yes : Derives (textBytes "true") (.value (.bool true))
  | no : Derives (textBytes "false") (.value (.bool false))
  | number {text : Bytes} {value : ℚ} (written : NumberText text)
      (finite : parseFloat text = some value) : Derives text (.value (.number value))
  | string {text : Bytes} {runes : List Char} (written : StringText text runes) :
      Derives text (.value (.string runes))
  | emptyArray {space : Bytes} (blank : Space space) :
      Derives (0x5B :: space ++ [0x5D]) (.value (.array []))
  | array {text : Bytes} {elements : List Json} (inside : Derives text (.elements elements)) :
      Derives (0x5B :: text ++ [0x5D]) (.value (.array elements))
  | emptyObject {space : Bytes} (blank : Space space) :
      Derives (0x7B :: space ++ [0x7D]) (.value (.object []))
  | object {text : Bytes} {members : List (List Char × Json)}
      (inside : Derives text (.members members)) :
      Derives (0x7B :: text ++ [0x7D]) (.value (.object members))
  | lastElement {before text after : Bytes} {json : Json} (left : Space before)
      (inside : Derives text (.value json)) (right : Space after) :
      Derives (before ++ (text ++ after)) (.elements [json])
  | element {before text after more : Bytes} {json : Json} {elements : List Json}
      (left : Space before) (inside : Derives text (.value json)) (right : Space after)
      (rest : Derives more (.elements elements)) :
      Derives (before ++ (text ++ (after ++ 0x2C :: more))) (.elements (json :: elements))
  | lastMember {before name middle space text after : Bytes} {runes : List Char} {json : Json}
      (left : Space before) (named : StringText name runes) (inner : Space middle)
      (blank : Space space) (inside : Derives text (.value json)) (right : Space after) :
      Derives (before ++ (name ++ (middle ++ 0x3A :: (space ++ (text ++ after)))))
        (.members [(runes, json)])
  | member {before name middle space text after more : Bytes} {runes : List Char} {json : Json}
      {members : List (List Char × Json)} (left : Space before) (named : StringText name runes)
      (inner : Space middle) (blank : Space space) (inside : Derives text (.value json))
      (right : Space after) (rest : Derives more (.members members)) :
      Derives (before ++ (name ++ (middle ++ 0x3A :: (space ++ (text ++ (after ++ 0x2C :: more))))))
        (.members ((runes, json) :: members))

/-- The text, with white space around it, denotes the value. -/
def Denotes (data : Bytes) (json : Json) : Prop :=
  ∃ before text after, data = before ++ (text ++ after) ∧ Space before ∧ Space after ∧
    Derives text (.value json)

/-- The value is one of I-JSON within the nesting bound of the parser. -/
def Json.Admissible (bound : Nat) (json : Json) : Prop := json.Distinct ∧ json.depth ≤ bound

end Golusoris.Jcs
