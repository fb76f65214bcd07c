import Golusoris.Lib.Base64

/-! Base64 for URLs: two other letters, and no padding. -/

namespace Golusoris.Lib.Base64Url

open List
open Base64 (isBreak letter pad)

/-- The letter of a URL for one of the standard alphabet. -/
def webLetter (byte : UInt8) : UInt8 :=
  if byte = 0x2B then 0x2D else if byte = 0x2F then 0x5F else byte

def standardLetter (byte : UInt8) : Option UInt8 :=
  if byte = 0x2B ∨ byte = 0x2F ∨ byte = pad then none
  else if byte = 0x2D then some 0x2B
  else if byte = 0x5F then some 0x2F
  else some byte

/-- `base64.RawURLEncoding.EncodeToString`. -/
def encode (data : Bytes) : Bytes :=
  ((Base64.encode data).filter fun byte => byte != pad).map webLetter

/-- As much padding as the length leaves open. -/
def padded (letters : Bytes) : Bytes :=
  letters ++ List.replicate ((4 - letters.length % 4) % 4) pad

/-- `base64.RawURLEncoding.DecodeString`. -/
def decode (text : Bytes) : Option Bytes :=
  ((text.filter fun byte => !isBreak byte).mapM standardLetter).bind fun letters =>
    Base64.decodeGroups (padded letters)

theorem ne_pad_of_letter {value : Nat} (small : value < 64) : (letter value != pad) = true := by
  rw [bne_iff_ne]
  exact Base64.letter_ne_pad small

theorem padded_encode (data : Bytes) :
    padded ((Base64.encode data).filter fun byte => byte != pad) = Base64.encode data := by
  have removed : (pad != pad) = false := by decide
  induction data using Base64.encode.induct with
  | case1 => rfl
  | case2 first =>
    have small := first.toNat_lt
    simp only [Base64.encode, filter_cons, removed, filter_nil, if_true,
      ne_pad_of_letter (show first.toNat / 4 < 64 by omega),
      ne_pad_of_letter (show first.toNat % 4 * 16 < 64 by omega)]
    rfl
  | case3 first second =>
    have left := first.toNat_lt
    have right := second.toNat_lt
    simp only [Base64.encode, filter_cons, removed, filter_nil, if_true,
      ne_pad_of_letter (show first.toNat / 4 < 64 by omega),
      ne_pad_of_letter (show first.toNat % 4 * 16 + second.toNat / 16 < 64 by omega),
      ne_pad_of_letter (show second.toNat % 16 * 4 < 64 by omega)]
    rfl
  | case4 first second third rest ih =>
    have left := first.toNat_lt
    have middle := second.toNat_lt
    have right := third.toNat_lt
    simp only [Base64.encode, filter_cons, if_true,
      ne_pad_of_letter (show first.toNat / 4 < 64 by omega),
      ne_pad_of_letter (show first.toNat % 4 * 16 + second.toNat / 16 < 64 by omega),
      ne_pad_of_letter (show second.toNat % 16 * 4 + third.toNat / 64 < 64 by omega),
      ne_pad_of_letter (show third.toNat % 64 < 64 by omega)]
    have count (left : Nat) : (4 - (left + 1 + 1 + 1 + 1) % 4) % 4 = (4 - left % 4) % 4 := by omega
    rw [padded] at ih ⊢
    simp only [length_cons, cons_append, count, ih]

theorem webLetter_letter {value : Nat} (small : value < 64) :
    standardLetter (webLetter (letter value)) = some (letter value) ∧
      isBreak (webLetter (letter value)) = false ∧ webLetter (letter value) ≠ 0x2E := by
  have all : ∀ value < 64, standardLetter (webLetter (letter value)) = some (letter value) ∧
      isBreak (webLetter (letter value)) = false ∧ webLetter (letter value) ≠ 0x2E := by decide
  exact all value small

theorem letter_of_mem_filter {data : Bytes} {byte : UInt8}
    (kept : byte ∈ (Base64.encode data).filter fun byte => byte != pad) :
    ∃ value < 64, byte = letter value := by
  obtain ⟨written, other⟩ := mem_filter.mp kept
  exact (Base64.of_mem_encode written).resolve_left (bne_iff_ne.mp other)

theorem plain_encode {data : Bytes} {byte : UInt8} (written : byte ∈ encode data) :
    isBreak byte = false ∧ byte ≠ 0x2E := by
  obtain ⟨from_, kept, rfl⟩ := mem_map.mp written
  obtain ⟨value, small, rfl⟩ := letter_of_mem_filter kept
  exact (webLetter_letter small).2

theorem mapM_standardLetter {letters : Bytes}
    (all : ∀ byte ∈ letters, ∃ value < 64, byte = letter value) :
    (letters.map webLetter).mapM standardLetter = some letters := by
  induction letters with
  | nil => rfl
  | cons byte letters ih =>
    obtain ⟨value, small, rfl⟩ := all byte mem_cons_self
    rw [map_cons, mapM_cons, (webLetter_letter small).1,
      ih fun other listed => all other (mem_cons_of_mem _ listed)]
    rfl

theorem decode_encode (data : Bytes) : decode (encode data) = some data := by
  have kept : (encode data).filter (fun byte => !isBreak byte) = encode data :=
    filter_eq_self.mpr fun byte written => by rw [(plain_encode written).1]; rfl
  rw [decode, kept, encode, mapM_standardLetter fun byte listed => letter_of_mem_filter listed,
    Option.bind_some, padded_encode, Base64.decodeGroups_encode]

theorem encode_injective : Function.Injective encode := by
  intro data other same
  have decoded := decode_encode data
  rw [same, decode_encode] at decoded
  exact (Option.some.inj decoded).symm

theorem encode_ne_nil {data : Bytes} (some : data ≠ []) : encode data ≠ [] := by
  intro empty
  exact some (encode_injective (empty.trans (by rfl : [] = encode [])))

end Golusoris.Lib.Base64Url
