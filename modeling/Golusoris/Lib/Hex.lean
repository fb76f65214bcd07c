import Golusoris.Lib.JsonString

/-! Bytes as pairs of hexadecimal digits, in lower case when written. -/

namespace Golusoris.Lib.Hex

open Json (hexLower hexValue hexValue_hexLower)

def encode (bytes : Bytes) : Bytes :=
  bytes.flatMap fun byte => [hexLower (byte.toNat / 16), hexLower (byte.toNat % 16)]

def decode : Bytes → Option Bytes
  | [] => some []
  | [_] => none
  | high :: low :: rest => do
      let high ← hexValue high
      let low ← hexValue low
      let rest ← decode rest
      some (UInt8.ofNat (16 * high + low) :: rest)

theorem decode_encode (bytes : Bytes) : decode (encode bytes) = some bytes := by
  induction bytes with
  | nil => rfl
  | cons byte rest ih =>
    have small := byte.toNat_lt
    have whole : UInt8.ofNat (16 * (byte.toNat / 16) + byte.toNat % 16) = byte := by
      rw [Nat.div_add_mod, UInt8.ofNat_toNat]
    rw [encode, List.flatMap_cons, List.cons_append, List.cons_append, List.nil_append, decode,
      hexValue_hexLower (by omega), hexValue_hexLower (by omega), Option.bind_eq_bind,
      Option.bind_some, Option.bind_eq_bind, Option.bind_some, ← encode, ih]
    simp only [whole, Option.bind_some]

end Golusoris.Lib.Hex
