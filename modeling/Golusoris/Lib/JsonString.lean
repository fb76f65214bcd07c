import Golusoris.Lib.JsonText

/-!
# The strings of JSON texts

`quote` writes bytes as the body of a string: it escapes what a string must not
hold and what HTML would take for markup, and writes every byte outside a valid
UTF-8 sequence as U+FFFD. `unquote` reads a body back; what it returns is valid
UTF-8, so that reading what was written replaces invalid bytes and nothing else.
-/

namespace Golusoris.Lib.Json

open List

def hexValue (byte : UInt8) : Option Nat :=
  if 0x30 ≤ byte ∧ byte ≤ 0x39 then some (byte.toNat - 0x30)
  else if 0x61 ≤ byte ∧ byte ≤ 0x66 then some (byte.toNat - 0x57)
  else if 0x41 ≤ byte ∧ byte ≤ 0x46 then some (byte.toNat - 0x37)
  else none

/-- The digit of a value, in lower case. -/
def hexLower (value : Nat) : UInt8 :=
  UInt8.ofNat (if value < 10 then 0x30 + value else 0x57 + value)

theorem hexValue_hexLower {value : Nat} (small : value < 16) : hexValue
    (hexLower value) = some value := by
  have all : ∀ value < 16, hexValue (hexLower value) = some value := by decide
  exact all value small

theorem isHexDigit_hexLower {value : Nat} (small : value < 16) : isHexDigit (hexLower value) := by
  have all : ∀ value < 16, isHexDigit (hexLower value) := by decide
  exact all value small

/-- The value of four digits at the front. -/
def hex4 : Bytes → Option Nat
  | a :: b :: c :: d :: _ => do
      let a ← hexValue a
      let b ← hexValue b
      let c ← hexValue c
      let d ← hexValue d
      some (((a * 16 + b) * 16 + c) * 16 + d)
  | _ => none

/-- The character that a byte after a backslash stands for. -/
def shortRune (byte : UInt8) : Char :=
  if byte = 0x62 then '\x08'
  else if byte = 0x66 then '\x0C'
  else if byte = 0x6E then '\n'
  else if byte = 0x72 then '\r'
  else if byte = 0x74 then '\t'
  else Char.ofNat byte.toNat

/-- The character of a high surrogate and the low one that an escape at the front has. -/
def pairRune (high : Nat) (text : Bytes) : Option Char :=
  if text.head? = some 0x5C ∧ text.tail.head? = some 0x75 then
    match hex4 (text.drop 2) with
    | none => none
    | some low =>
        if high < 0xDC00 ∧ 0xDC00 ≤ low ∧ low < 0xE000 then
          some (Char.ofNat ((high - 0xD800) * 0x400 + (low - 0xDC00) + 0x10000))
        else none
  else none

/-- What an escape stands for, and the bytes it has after the backslash. -/
def escapeRune (text : Bytes) : Char × Nat :=
  if text.head? = some 0x75 then
    match hex4 text.tail with
    | none => ('\uFFFD', 1)
    | some unit =>
        if 0xD800 ≤ unit ∧ unit < 0xE000 then
          match pairRune unit (text.drop 5) with
          | some rune => (rune, 11)
          | none => ('\uFFFD', 5)
        else (Char.ofNat unit, 5)
  else (shortRune (text.head?.getD 0), 1)

/-- The characters of a body, with so many bytes left. -/
def unquoteRunes : Nat → Bytes → List Char
  | 0, _ => []
  | _ + 1, [] => []
  | fuel + 1, byte :: rest =>
      if byte = 0x5C then (escapeRune rest).1 :: unquoteRunes fuel (rest.drop (escapeRune rest).2)
      else if byte < 0x80 then Char.ofNat byte.toNat :: unquoteRunes fuel rest
      else
        match Utf8.decodeRune (byte :: rest) with
        | some rune => rune :: unquoteRunes fuel ((byte :: rest).drop rune.utf8Size)
        | none => '\uFFFD' :: unquoteRunes fuel rest

/-- The text that a body stands for. -/
def unquote (body : Bytes) : Bytes := Utf8.encode (unquoteRunes body.length body)

/-- An escape of four digits. -/
def unitEscape (unit : Nat) : Bytes :=
  [0x5C, 0x75, hexLower (unit / 4096), hexLower (unit / 256 % 16), hexLower (unit / 16 % 16),
    hexLower (unit % 16)]

/-- The bytes that HTML takes for markup. -/
def isMarkup (byte : UInt8) : Bool := byte == 0x3C || byte == 0x3E || byte == 0x26

/-- One byte below 0x80. -/
def quoteAscii (byte : UInt8) : Bytes :=
  if byte = 0x22 ∨ byte = 0x5C then [0x5C, byte]
  else if byte = 0x08 then [0x5C, 0x62]
  else if byte = 0x0C then [0x5C, 0x66]
  else if byte = 0x0A then [0x5C, 0x6E]
  else if byte = 0x0D then [0x5C, 0x72]
  else if byte = 0x09 then [0x5C, 0x74]
  else if byte < 0x20 ∨ isMarkup byte then unitEscape byte.toNat
  else [byte]

/-- U+2028 and U+2029 end lines in JavaScript. -/
def quoteRune (rune : Char) : Bytes :=
  if rune.toNat < 0x80 then quoteAscii (UInt8.ofNat rune.toNat)
  else if rune.toNat = 0x2028 ∨ rune.toNat = 0x2029 then unitEscape rune.toNat
  else String.utf8EncodeChar rune

/-- A body for these bytes, with so many left. -/
def quoteBytes : Nat → Bytes → Bytes
  | 0, _ => []
  | _ + 1, [] => []
  | fuel + 1, byte :: rest =>
      match Utf8.decodeRune (byte :: rest) with
      | some rune => quoteRune rune ++ quoteBytes fuel ((byte :: rest).drop rune.utf8Size)
      | none => unitEscape 0xFFFD ++ quoteBytes fuel rest

def quote (text : Bytes) : Bytes := quoteBytes text.length text

theorem wellQuoted_append {state : Quoted} {first second : Bytes}
    (left : wellQuoted state first) (right : wellQuoted .plain second) :
    wellQuoted state (first ++ second) := by
  induction first generalizing state with
  | nil =>
    rw [wellQuoted, decide_eq_true_eq] at left
    rwa [left]
  | cons byte first ih =>
    rw [wellQuoted] at left
    rw [cons_append, wellQuoted]
    cases stepped : state.step byte with
    | none =>
      rw [stepped] at left
      cases left
    | some next =>
      rw [stepped] at left
      exact ih left

/-- A body, one character or escape after the other. -/
inductive Body : Bytes → Prop where
  | nil : Body []
  | plain {byte : UInt8} {rest : Bytes} (unquoted : byte ≠ 0x22) (unescaped : byte ≠ 0x5C)
      (printable : ¬byte < 0x20) (more : Body rest) : Body (byte :: rest)
  | short {mark : UInt8} {rest : Bytes} (known : isShortEscape mark) (more : Body rest) :
      Body (0x5C :: mark :: rest)
  | unit {a b c d : UInt8} {rest : Bytes}
      (digits : isHexDigit a ∧ isHexDigit b ∧ isHexDigit c ∧ isHexDigit d) (more : Body rest) :
      Body (0x5C :: 0x75 :: a :: b :: c :: d :: rest)

variable {body : Bytes}

theorem wellQuoted_digits {left : Nat} (quoted : wellQuoted (.digits left) body) :
    ∃ digit rest, body = digit :: rest ∧ isHexDigit digit ∧
      wellQuoted (if left = 0 then .plain else .digits (left - 1)) rest := by
  cases body with
  | nil => cases quoted
  | cons digit rest =>
    rw [wellQuoted, Quoted.step] at quoted
    by_cases known : isHexDigit digit
    · rw [if_pos known] at quoted
      exact ⟨digit, rest, rfl, known, quoted⟩
    · rw [if_neg known] at quoted
      cases quoted

theorem body_of_wellQuoted (quoted : wellQuoted .plain body) : Body body := by
  induction size : body.length using Nat.strongRecOn generalizing body with
  | _ size ih =>
    cases body with
    | nil => exact .nil
    | cons byte rest =>
      rw [length_cons] at size
      rw [wellQuoted, Quoted.step] at quoted
      split_ifs at quoted with closing escaped control
      · subst escaped
        cases rest with
        | nil => cases quoted
        | cons mark rest =>
          rw [length_cons] at size
          simp only [wellQuoted, Quoted.step] at quoted
          split_ifs at quoted with unit known
          · subst unit
            obtain ⟨a, rest, rfl, hexA, quoted⟩ := wellQuoted_digits quoted
            obtain ⟨b, rest, rfl, hexB, quoted⟩ := wellQuoted_digits quoted
            obtain ⟨c, rest, rfl, hexC, quoted⟩ := wellQuoted_digits quoted
            obtain ⟨d, rest, rfl, hexD, quoted⟩ := wellQuoted_digits quoted
            simp only [length_cons] at size
            exact .unit ⟨hexA, hexB, hexC, hexD⟩ (ih rest.length (by omega) quoted rfl)
          · exact .short known (ih rest.length (by omega) quoted rfl)
      · exact .plain closing escaped control (ih rest.length (by omega) quoted rfl)

theorem wellQuoted_of_body (written : Body body) : wellQuoted .plain body := by
  induction written with
  | nil => rfl
  | plain unquoted unescaped printable _ ih =>
    simpa [wellQuoted, Quoted.step, unquoted, unescaped, printable] using ih
  | @short mark rest known _ ih =>
    have unmarked : mark ≠ 0x75 := by
      rintro rfl
      cases known
    simpa [wellQuoted, Quoted.step, known, unmarked] using ih
  | unit digits _ ih =>
    simpa [wellQuoted, Quoted.step, digits] using ih

theorem Body.append {first second : Bytes} (left : Body first) (right : Body second) :
    Body (first ++ second) :=
  body_of_wellQuoted (wellQuoted_append (wellQuoted_of_body left) (wellQuoted_of_body right))

variable {unit fuel : Nat}

theorem body_unitEscape (small : unit < 0x10000) : Body (unitEscape unit) := by
  refine .unit ⟨?_, ?_, ?_, ?_⟩ .nil <;> exact isHexDigit_hexLower (by omega)

variable {byte : UInt8}

theorem body_quoteAscii : Body (quoteAscii byte) := by
  rw [quoteAscii]
  split_ifs with special back feed line carriage tab control
  · rcases special with rfl | rfl
    · exact .short rfl .nil
    · exact .short rfl .nil
  · exact .short rfl .nil
  · exact .short rfl .nil
  · exact .short rfl .nil
  · exact .short rfl .nil
  · exact .short rfl .nil
  · exact body_unitEscape (Nat.lt_trans byte.toNat_lt (by decide))
  · rw [not_or] at special control
    exact .plain special.1 special.2 control.1 .nil

theorem body_of_high {bytes : Bytes} (high : ∀ byte ∈ bytes, 0x80 ≤ byte) : Body bytes := by
  induction bytes with
  | nil => exact .nil
  | cons byte bytes ih =>
    have above : 0x80 ≤ byte.toNat := UInt8.le_iff_toNat_le.mp (high byte mem_cons_self)
    refine .plain ?_ ?_ ?_ (ih fun other member => high other (mem_cons_of_mem _ member))
    · rintro rfl
      exact absurd above (by decide)
    · rintro rfl
      exact absurd above (by decide)
    · rw [UInt8.lt_iff_toNat_lt]
      exact fun below => absurd (Nat.lt_of_le_of_lt above below) (by decide)

theorem body_quoteRune (rune : Char) : Body (quoteRune rune) := by
  rw [quoteRune]
  split_ifs with ascii ends
  · exact body_quoteAscii
  · exact body_unitEscape (by omega)
  · exact body_of_high fun byte => Utf8.le_of_mem_encodeChar (by omega)

/-- What is written is a body. -/
theorem body_quote (text : Bytes) : Body (quote text) := by
  rw [quote]
  generalize text.length = fuel
  induction fuel generalizing text with
  | zero => exact .nil
  | succ fuel ih =>
    cases text with
    | nil => exact .nil
    | cons byte rest =>
      rw [quoteBytes]
      split
      · exact (body_quoteRune _).append (ih _)
      · exact (body_unitEscape (by decide)).append (ih _)

theorem hex4_unit (small : unit < 0x10000) (rest : Bytes) :
    hex4 (hexLower (unit / 4096) :: hexLower (unit / 256 % 16) :: hexLower (unit / 16 % 16) ::
      hexLower (unit % 16) :: rest) = some unit := by
  rw [hex4, hexValue_hexLower (by omega), hexValue_hexLower (by omega),
    hexValue_hexLower (by omega), hexValue_hexLower (by omega)]
  simp only [Option.bind_eq_bind, Option.bind_some, Option.some.injEq]
  omega

theorem unquoteRunes_unitEscape (small : unit < 0x10000)
    (scalar : ¬(0xD800 ≤ unit ∧ unit < 0xE000)) (rest : Bytes) :
    unquoteRunes (fuel + 1) (unitEscape unit ++ rest) = Char.ofNat unit :: unquoteRunes fuel rest := by
  have escaped : escapeRune ((unitEscape unit ++ rest).tail) = (Char.ofNat unit, 5) := by
    simp [escapeRune, unitEscape, hex4_unit small, scalar]
  simp only [unitEscape, cons_append, nil_append, tail_cons] at escaped ⊢
  simp [unquoteRunes, escaped]

theorem unquoteRunes_short {mark : UInt8} (known : isShortEscape mark) (rest : Bytes) :
    unquoteRunes (fuel + 1) (0x5C :: mark :: rest) = shortRune mark :: unquoteRunes fuel rest := by
  have unmarked : mark ≠ 0x75 := by
    rintro rfl
    cases known
  simp [unquoteRunes, escapeRune, unmarked]

theorem unquoteRunes_ascii (unescaped : byte ≠ 0x5C) (ascii : byte < 0x80) (rest : Bytes) :
    unquoteRunes (fuel + 1) (byte :: rest) = Char.ofNat byte.toNat :: unquoteRunes fuel rest := by
  simp [unquoteRunes, unescaped, ascii]

theorem unquoteRunes_quoteAscii (ascii : byte < 0x80) (rest : Bytes) :
    unquoteRunes (fuel + 1) (quoteAscii byte ++ rest) =
      Char.ofNat byte.toNat :: unquoteRunes fuel rest := by
  rw [quoteAscii]
  split_ifs with special back feed line carriage tab control
  · rcases special with rfl | rfl
    · exact unquoteRunes_short rfl rest
    · exact unquoteRunes_short rfl rest
  · subst back
    exact unquoteRunes_short rfl rest
  · subst feed
    exact unquoteRunes_short rfl rest
  · subst line
    exact unquoteRunes_short rfl rest
  · subst carriage
    exact unquoteRunes_short rfl rest
  · subst tab
    exact unquoteRunes_short rfl rest
  · have small : byte.toNat < 0x80 := UInt8.lt_iff_toNat_lt.mp ascii
    exact unquoteRunes_unitEscape (by omega) (by omega) rest
  · rw [not_or] at special
    exact unquoteRunes_ascii special.2 ascii rest

theorem drop_encodeChar (rune : Char) (rest : Bytes) :
    (String.utf8EncodeChar rune ++ rest).drop rune.utf8Size = rest := by
  rw [← String.length_utf8EncodeChar, drop_left]

/-- A character outside ASCII that is written as it is. -/
theorem unquoteRunes_encodeChar {rune : Char} (wide : 0x80 ≤ rune.toNat) (rest : Bytes) :
    unquoteRunes (fuel + 1) (String.utf8EncodeChar rune ++ rest) = rune :: unquoteRunes fuel rest := by
  have decoded := Utf8.decodeRune_encode rune rest
  have dropped := drop_encodeChar rune rest
  cases shape : String.utf8EncodeChar rune with
  | nil => exact absurd shape String.utf8EncodeChar_ne_nil
  | cons byte more =>
    have high : 0x80 ≤ byte := Utf8.le_of_mem_encodeChar wide (by simp [shape])
    rw [shape, cons_append] at decoded dropped
    have unescaped : byte ≠ 0x5C := by
      rintro rfl
      exact absurd high (by decide)
    rw [cons_append, unquoteRunes, if_neg unescaped, if_neg (UInt8.not_lt.mpr high)]
    simp only [decoded, dropped]

theorem unquoteRunes_quoteRune (rune : Char) (rest : Bytes) :
    unquoteRunes (fuel + 1) (quoteRune rune ++ rest) = rune :: unquoteRunes fuel rest := by
  rw [quoteRune]
  split_ifs with ascii ends
  · have value : (UInt8.ofNat rune.toNat).toNat = rune.toNat := by
      rw [UInt8.toNat_ofNat', Nat.mod_eq_of_lt (by omega)]
    have small : UInt8.ofNat rune.toNat < 0x80 := by
      rw [UInt8.lt_iff_toNat_lt, value]
      exact ascii
    rw [unquoteRunes_quoteAscii small, value, Char.ofNat_toNat]
  · rw [unquoteRunes_unitEscape (by omega) (by omega), Char.ofNat_toNat]
  · exact unquoteRunes_encodeChar (by omega) rest

theorem unquoteRunes_quoteBytes {more : Nat} {text : Bytes}
    (room : (quoteBytes fuel text).length ≤ more) :
    unquoteRunes more (quoteBytes fuel text) = Utf8.decodeLossy fuel text := by
  induction fuel generalizing more text with
  | zero => cases more <;> rfl
  | succ fuel ih =>
    cases text with
    | nil => cases more <;> rfl
    | cons byte rest =>
      rw [quoteBytes] at room ⊢
      rw [Utf8.decodeLossy]
      cases decoded : Utf8.decodeRune (byte :: rest) with
      | some rune =>
        simp only [decoded, length_append] at room
        have filled : 0 < (quoteRune rune).length := by
          rw [quoteRune]
          split_ifs
          · rw [quoteAscii]
            split_ifs <;> simp [unitEscape]
          · simp [unitEscape]
          · exact length_pos_iff.mpr String.utf8EncodeChar_ne_nil
        obtain ⟨more, rfl⟩ : ∃ less, more = less + 1 := ⟨more - 1, by omega⟩
        simp only
        rw [unquoteRunes_quoteRune, ih (by omega)]
      | none =>
        simp only [decoded, length_append] at room
        have filled : (unitEscape 0xFFFD).length = 6 := rfl
        obtain ⟨more, rfl⟩ : ∃ less, more = less + 1 := ⟨more - 1, by omega⟩
        simp only
        rw [unquoteRunes_unitEscape (by decide) (by decide), ih (by omega)]

/-- Reading what was written replaces the bytes that are not UTF-8. -/
theorem unquote_quote (text : Bytes) : unquote (quote text) = Utf8.coerce text := by
  rw [unquote, quote, unquoteRunes_quoteBytes (Nat.le_refl _), Utf8.coerce]

end Golusoris.Lib.Json
