import Golusoris.Lib.Utf8

/-!
# Base64

The standard alphabet with padding. `decode` passes over line breaks and does not
look at the bits that padding leaves over, as the decoder of the standard library
does.
-/

namespace Golusoris.Lib.Base64

def letter (value : Nat) : UInt8 :=
  if value < 26 then UInt8.ofNat (0x41 + value)
  else if value < 52 then UInt8.ofNat (0x61 + (value - 26))
  else if value < 62 then UInt8.ofNat (0x30 + (value - 52))
  else if value = 62 then 0x2B
  else 0x2F

/-- The six bits that a letter stands for. -/
def sextet (byte : UInt8) : Option Nat :=
  if 0x41 ≤ byte ∧ byte ≤ 0x5A then some (byte.toNat - 0x41)
  else if 0x61 ≤ byte ∧ byte ≤ 0x7A then some (byte.toNat - 0x61 + 26)
  else if 0x30 ≤ byte ∧ byte ≤ 0x39 then some (byte.toNat - 0x30 + 52)
  else if byte = 0x2B then some 62
  else if byte = 0x2F then some 63
  else none

def pad : UInt8 := 0x3D

/-- Three bytes are four letters; one or two at the end are padded to four. -/
def encode : Bytes → Bytes
  | [] => []
  | [first] => [letter (first.toNat / 4), letter (first.toNat % 4 * 16), pad, pad]
  | [first, second] =>
      [letter (first.toNat / 4), letter (first.toNat % 4 * 16 + second.toNat / 16),
        letter (second.toNat % 16 * 4), pad]
  | first :: second :: third :: rest =>
      letter (first.toNat / 4) :: letter (first.toNat % 4 * 16 + second.toNat / 16) ::
        letter (second.toNat % 16 * 4 + third.toNat / 64) :: letter (third.toNat % 64) :: encode rest

def firstByte (a b : Nat) : UInt8 := UInt8.ofNat (a * 4 + b / 16)
def secondByte (b c : Nat) : UInt8 := UInt8.ofNat (b % 16 * 16 + c / 4)
def thirdByte (c d : Nat) : UInt8 := UInt8.ofNat (c % 4 * 64 + d)

/-- Four letters at a time; only the last four may be padded. -/
def decodeGroups : Bytes → Option Bytes
  | [] => some []
  | first :: second :: third :: fourth :: rest =>
      (sextet first).bind fun a => (sextet second).bind fun b =>
        if third = pad then
          if fourth = pad ∧ rest = [] then some [firstByte a b] else none
        else (sextet third).bind fun c =>
          if fourth = pad then
            if rest = [] then some [firstByte a b, secondByte b c] else none
          else (sextet fourth).bind fun d =>
            (decodeGroups rest).map fun out =>
              firstByte a b :: secondByte b c :: thirdByte c d :: out
  | _ => none

def isBreak (byte : UInt8) : Bool := byte == 0x0A || byte == 0x0D

def decode (text : Bytes) : Option Bytes := decodeGroups (text.filter fun byte => !isBreak byte)

theorem sextet_letter {value : Nat} (small : value < 64) : sextet (letter value) = some value := by
  have all : ∀ value < 64, sextet (letter value) = some value := by decide
  exact all value small

theorem letter_ne_pad {value : Nat} (small : value < 64) : letter value ≠ pad := by
  have all : ∀ value < 64, letter value ≠ pad := by decide
  exact all value small

theorem plain_letter {value : Nat} (small : value < 64) :
    letter value < 0x80 ∧ isBreak (letter value) = false := by
  have all : ∀ value < 64, letter value < 0x80 ∧ isBreak (letter value) = false := by decide
  exact all value small

theorem firstByte_encode (first second : UInt8) :
    firstByte (first.toNat / 4) (first.toNat % 4 * 16 + second.toNat / 16) = first := by
  have small := second.toNat_lt
  have whole : first.toNat / 4 * 4 + (first.toNat % 4 * 16 + second.toNat / 16) / 16 =
      first.toNat := by omega
  rw [firstByte, whole, UInt8.ofNat_toNat]

theorem firstByte_last (first : UInt8) :
    firstByte (first.toNat / 4) (first.toNat % 4 * 16) = first :=
  firstByte_encode first 0

theorem secondByte_encode (first second third : UInt8) :
    secondByte (first.toNat % 4 * 16 + second.toNat / 16)
      (second.toNat % 16 * 4 + third.toNat / 64) = second := by
  have left := second.toNat_lt
  have right := third.toNat_lt
  have whole : (first.toNat % 4 * 16 + second.toNat / 16) % 16 * 16 +
      (second.toNat % 16 * 4 + third.toNat / 64) / 4 = second.toNat := by omega
  rw [secondByte, whole, UInt8.ofNat_toNat]

theorem secondByte_last (first second : UInt8) :
    secondByte (first.toNat % 4 * 16 + second.toNat / 16) (second.toNat % 16 * 4) = second :=
  secondByte_encode first second 0

theorem thirdByte_encode (second third : UInt8) :
    thirdByte (second.toNat % 16 * 4 + third.toNat / 64) (third.toNat % 64) = third := by
  have small := third.toNat_lt
  have whole : (second.toNat % 16 * 4 + third.toNat / 64) % 4 * 64 + third.toNat % 64 =
      third.toNat := by omega
  rw [thirdByte, whole, UInt8.ofNat_toNat]

theorem decodeGroups_encode (data : Bytes) : decodeGroups (encode data) = some data := by
  induction data using encode.induct with
  | case1 => rfl
  | case2 first =>
    have small := first.toNat_lt
    rw [encode, decodeGroups, sextet_letter (by omega), sextet_letter (by omega)]
    simp [firstByte_last]
  | case3 first second =>
    have left := first.toNat_lt
    have right := second.toNat_lt
    rw [encode, decodeGroups, sextet_letter (by omega), sextet_letter (by omega),
      Option.bind_some, Option.bind_some, if_neg (letter_ne_pad (by omega)),
      sextet_letter (by omega)]
    simp [firstByte_encode, secondByte_last]
  | case4 first second third rest ih =>
    have left := first.toNat_lt
    have middle := second.toNat_lt
    have right := third.toNat_lt
    rw [encode, decodeGroups, sextet_letter (by omega), sextet_letter (by omega),
      Option.bind_some, Option.bind_some, if_neg (letter_ne_pad (by omega)),
      sextet_letter (by omega), Option.bind_some, if_neg (letter_ne_pad (by omega)),
      sextet_letter (by omega), ih]
    simp [firstByte_encode, secondByte_encode, thirdByte_encode]

theorem of_mem_encode {data : Bytes} {byte : UInt8} (written : byte ∈ encode data) :
    byte = pad ∨ ∃ value < 64, byte = letter value := by
  induction data using encode.induct with
  | case1 => cases written
  | case2 first =>
    have small := first.toNat_lt
    simp only [encode, List.mem_cons, List.not_mem_nil, or_false] at written
    rcases written with rfl | rfl | rfl | rfl
    · exact .inr ⟨_, by omega, rfl⟩
    · exact .inr ⟨_, by omega, rfl⟩
    · exact .inl rfl
    · exact .inl rfl
  | case3 first second =>
    have left := first.toNat_lt
    have right := second.toNat_lt
    simp only [encode, List.mem_cons, List.not_mem_nil, or_false] at written
    rcases written with rfl | rfl | rfl | rfl
    · exact .inr ⟨_, by omega, rfl⟩
    · exact .inr ⟨_, by omega, rfl⟩
    · exact .inr ⟨_, by omega, rfl⟩
    · exact .inl rfl
  | case4 first second third rest ih =>
    have left := first.toNat_lt
    have middle := second.toNat_lt
    have right := third.toNat_lt
    simp only [encode, List.mem_cons] at written
    rcases written with rfl | rfl | rfl | rfl | later
    · exact .inr ⟨_, by omega, rfl⟩
    · exact .inr ⟨_, by omega, rfl⟩
    · exact .inr ⟨_, by omega, rfl⟩
    · exact .inr ⟨_, by omega, rfl⟩
    · exact ih later

/-- What is written is ASCII without line breaks. -/
theorem plain_encode {data : Bytes} {byte : UInt8} (written : byte ∈ encode data) :
    byte < 0x80 ∧ isBreak byte = false := by
  rcases of_mem_encode written with rfl | ⟨value, small, rfl⟩
  · decide
  · exact plain_letter small

theorem decode_encode (data : Bytes) : decode (encode data) = some data := by
  have kept : (encode data).filter (fun byte => !isBreak byte) = encode data :=
    List.filter_eq_self.mpr fun byte found => by rw [(plain_encode found).2]; rfl
  rw [decode, kept, decodeGroups_encode]

theorem coerce_encode (data : Bytes) : Utf8.coerce (encode data) = encode data :=
  Utf8.coerce_ascii fun _ found => (plain_encode found).1

end Golusoris.Lib.Base64
