import Mathlib.Tactic.Common

/-!
# UTF-8 as lists of bytes

`decodeRune` reads one scalar value from the front of a byte list and accepts
what the standard decoder accepts; `encode` is its inverse on whole texts.
`decodeLossy` replaces every byte outside a valid sequence by U+FFFD, and
`coerce` encodes the result again.
-/

namespace Golusoris.Lib

open List

abbrev Bytes := List UInt8

-- Named, so that a definition that compares texts carries no proof of its own.
instance lawfulBEq_bytes : LawfulBEq Bytes := inferInstance
instance isTrans_bytes : IsTrans Bytes (· ≤ ·) := inferInstance
instance antisymm_bytes : @Std.Antisymm Bytes (· ≤ ·) := inferInstance
instance total_bytes : @Std.Total Bytes (· ≤ ·) := inferInstance

namespace Utf8

/-- The scalar value at the front of the bytes, if they start with a valid
encoding. -/
def decodeRune (bytes : List UInt8) : Option Char := bytes.toByteArray.utf8DecodeChar? 0

theorem decodeRune_encode (rune : Char) (rest : List UInt8) :
    decodeRune (String.utf8EncodeChar rune ++ rest) = some rune := by
  simp [decodeRune, ByteArray.utf8DecodeChar?_utf8EncodeChar_append]

/-- What was decoded is the encoding the bytes start with. -/
theorem decodeRune_eq_some {bytes : List UInt8} {rune : Char}
    (decoded : decodeRune bytes = some rune) :
    ∃ rest, bytes = String.utf8EncodeChar rune ++ rest := by
  obtain ⟨rest, whole⟩ := ByteArray.exists_of_utf8DecodeChar?_eq_some decoded
  refine ⟨rest.data.toList, ?_⟩
  simpa using congrArg (fun array : ByteArray => array.data.toList) whole

theorem encodeChar_ascii {rune : Char} (ascii : rune.toNat < 0x80) :
    String.utf8EncodeChar rune = [UInt8.ofNat rune.toNat] := by
  have small : rune.val.toNat ≤ 0x7F := Nat.le_of_lt_succ ascii
  rw [String.utf8EncodeChar, if_pos small]
  rfl

/-- Outside ASCII every byte of an encoding is above 0x7F. -/
theorem le_of_mem_encodeChar {rune : Char} (wide : 0x80 ≤ rune.toNat) {byte : UInt8}
    (found : byte ∈ String.utf8EncodeChar rune) : 0x80 ≤ byte := by
  have large : ¬rune.val.toNat ≤ 0x7F := Nat.not_le_of_lt wide
  have high {value : Nat} (above : 0x80 ≤ value) (below : value < 0x100) :
      0x80 ≤ UInt8.ofNat value := by
    rw [UInt8.le_iff_toNat_le, UInt8.toNat_ofNat', Nat.mod_eq_of_lt below]
    exact above
  rw [String.utf8EncodeChar, if_neg large] at found
  split_ifs at found with two three
  · simp only [mem_cons, not_mem_nil, or_false] at found
    rcases found with rfl | rfl <;> exact high (by omega) (by omega)
  · simp only [mem_cons, not_mem_nil, or_false] at found
    rcases found with rfl | rfl | rfl <;> exact high (by omega) (by omega)
  · simp only [mem_cons, not_mem_nil, or_false] at found
    rcases found with rfl | rfl | rfl | rfl <;> exact high (by omega) (by omega)

/-- After its first byte an encoding has continuation bytes. -/
theorem encodeChar_shape (rune : Char) : ∃ lead more, String.utf8EncodeChar rune = lead :: more ∧
    ∀ byte ∈ more, 0x80 ≤ byte ∧ byte < 0xC0 := by
  have inner {value : Nat} (above : 0x80 ≤ value) (below : value < 0xC0) :
      0x80 ≤ UInt8.ofNat value ∧ UInt8.ofNat value < 0xC0 := by
    rw [UInt8.le_iff_toNat_le, UInt8.lt_iff_toNat_lt, UInt8.toNat_ofNat',
      Nat.mod_eq_of_lt (by omega)]
    exact ⟨above, below⟩
  rw [String.utf8EncodeChar]
  split_ifs
  · exact ⟨_, _, rfl, by simp⟩
  · refine ⟨_, _, rfl, ?_⟩
    intro byte found
    simp only [mem_cons, not_mem_nil, or_false] at found
    subst found
    exact inner (by omega) (by omega)
  · refine ⟨_, _, rfl, ?_⟩
    intro byte found
    simp only [mem_cons, not_mem_nil, or_false] at found
    rcases found with rfl | rfl <;> exact inner (by omega) (by omega)
  · refine ⟨_, _, rfl, ?_⟩
    intro byte found
    simp only [mem_cons, not_mem_nil, or_false] at found
    rcases found with rfl | rfl | rfl <;> exact inner (by omega) (by omega)

def encode (text : List Char) : List UInt8 := text.flatMap String.utf8EncodeChar

@[simp] theorem encode_nil : encode [] = [] := rfl

@[simp] theorem encode_cons (rune : Char) (text : List Char) :
    encode (rune :: text) = String.utf8EncodeChar rune ++ encode text := rfl

@[simp] theorem encode_append (left right : List Char) :
    encode (left ++ right) = encode left ++ encode right :=
  flatMap_append

theorem encode_injective : Function.Injective encode := by
  intro left
  induction left with
  | nil =>
    intro right same
    cases right with
    | nil => rfl
    | cons rune right =>
      have empty : String.utf8EncodeChar rune = [] :=
        (append_eq_nil_iff.mp (encode_cons rune right ▸ same.symm)).1
      exact absurd empty String.utf8EncodeChar_ne_nil
  | cons rune left ih =>
    intro right same
    cases right with
    | nil =>
      have empty : String.utf8EncodeChar rune = [] :=
        (append_eq_nil_iff.mp (encode_cons rune left ▸ same)).1
      exact absurd empty String.utf8EncodeChar_ne_nil
    | cons other right =>
      have runes : rune = other := by
        have decoded := congrArg decodeRune same
        simpa [decodeRune_encode] using decoded
      subst runes
      rw [ih (append_cancel_left same)]

/-- Decode everything; a byte outside a valid sequence becomes U+FFFD. The fuel
is the number of bytes left. -/
def decodeLossy : Nat → List UInt8 → List Char
  | 0, _ => []
  | _ + 1, [] => []
  | fuel + 1, byte :: rest =>
      match decodeRune (byte :: rest) with
      | some rune => rune :: decodeLossy fuel ((byte :: rest).drop rune.utf8Size)
      | none => '\uFFFD' :: decodeLossy fuel rest

theorem decodeLossy_encode (text : List Char) (fuel : Nat) (enough : (encode text).length ≤ fuel) :
    decodeLossy fuel (encode text) = text := by
  induction text generalizing fuel with
  | nil => cases fuel <;> rfl
  | cons rune text ih =>
    rw [encode_cons, length_append, String.length_utf8EncodeChar] at enough
    have positive := rune.utf8Size_pos
    cases fuel with
    | zero => omega
    | succ fuel =>
      have decoded := decodeRune_encode rune (encode text)
      have dropped : (String.utf8EncodeChar rune ++ encode text).drop rune.utf8Size =
          encode text := by
        rw [← String.length_utf8EncodeChar, drop_left]
      rw [encode_cons]
      generalize String.utf8EncodeChar rune ++ encode text = bytes at decoded dropped
      cases bytes with
      | nil => cases decoded
      | cons byte rest =>
        simp only [decodeLossy, decoded, dropped]
        rw [ih fuel (by omega)]

/-- The bytes with every byte outside a valid sequence replaced. -/
def coerce (bytes : Bytes) : Bytes := encode (decodeLossy bytes.length bytes)

theorem coerce_encode (text : List Char) : coerce (encode text) = encode text := by
  rw [coerce, decodeLossy_encode text _ (Nat.le_refl _)]

/-- A byte below 0x80 is the encoding of one character. -/
theorem exists_encode_of_ascii : ∀ {bytes : Bytes}, (∀ byte ∈ bytes, byte < 0x80) →
    ∃ text, encode text = bytes
  | [], _ => ⟨[], rfl⟩
  | byte :: bytes, ascii => by
    obtain ⟨text, rfl⟩ := exists_encode_of_ascii fun other found =>
      ascii other (mem_cons_of_mem byte found)
    have small : byte.toNat < 128 := UInt8.lt_iff_toNat_lt.mp (ascii byte mem_cons_self)
    refine ⟨Char.ofNat byte.toNat :: text, ?_⟩
    have value : (Char.ofNat byte.toNat).val.toNat = byte.toNat := by
      rw [Char.ofNat, dif_pos (Or.inl (by omega))]
      rfl
    rw [encode_cons, String.utf8EncodeChar, value, if_pos (by omega)]
    simp

theorem ascii_of_all {bytes : Bytes} (small : bytes.all (· < 0x80)) :
    ∀ byte ∈ bytes, byte < 0x80 := by
  intro byte found
  exact of_decide_eq_true (all_eq_true.mp small byte found)

theorem coerce_ascii {bytes : Bytes} (ascii : ∀ byte ∈ bytes, byte < 0x80) :
    coerce bytes = bytes := by
  obtain ⟨text, rfl⟩ := exists_encode_of_ascii ascii
  exact coerce_encode text

end Utf8

/-- `unicode.IsSpace`. -/
def isSpace (rune : Char) : Bool :=
  (9 ≤ rune.toNat ∧ rune.toNat ≤ 13) ∨ rune.toNat = 32 ∨ rune.toNat = 0x85 ∨ rune.toNat = 0xa0 ∨
    rune.toNat = 0x1680 ∨ (0x2000 ≤ rune.toNat ∧ rune.toNat ≤ 0x200a) ∨ rune.toNat = 0x2028 ∨
    rune.toNat = 0x2029 ∨ rune.toNat = 0x202f ∨ rune.toNat = 0x205f ∨ rune.toNat = 0x3000

/-- `unicode.IsControl`. -/
def isControl (rune : Char) : Bool :=
  rune.toNat < 0x20 ∨ (0x7f ≤ rune.toNat ∧ rune.toNat < 0xa0)

/-- The bytes of a text. -/
def textBytes (text : String) : Bytes := Utf8.encode text.toList

end Golusoris.Lib
