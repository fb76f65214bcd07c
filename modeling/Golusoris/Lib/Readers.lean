import Golusoris.Lib.Utf8

/-! What reading a source of bytes to its end gives: bytes, and perhaps a failure after them. -/

namespace Golusoris.Lib

structure Reader (Failure : Type) where
  bytes : Bytes
  failure : Option Failure

namespace Reader

variable {Failure : Type}

/-- `io.LimitReader`: after so many bytes the source counts as ended. -/
def limit (count : Nat) (reader : Reader Failure) : Reader Failure :=
  if count ≤ reader.bytes.length then ⟨reader.bytes.take count, none⟩ else reader

/-- A source that fails after so many bytes, unless it ends before. -/
def failAfter (count : Nat) (cause : Failure) (reader : Reader Failure) : Reader Failure :=
  if count ≤ reader.bytes.length then ⟨reader.bytes.take count, some cause⟩ else reader

/-- `io.ReadAll`. -/
def readAll (reader : Reader Failure) : Except Failure Bytes :=
  match reader.failure with
  | some cause => .error cause
  | none => .ok reader.bytes

theorem limit_prefix (count : Nat) (reader : Reader Failure) :
    (reader.limit count).bytes <+: reader.bytes := by
  rw [limit]
  split
  · exact List.take_prefix count reader.bytes
  · exact List.prefix_refl _

/-- A read that stays below a limit has met the end of the source. -/
theorem readAll_of_limit {count : Nat} {reader : Reader Failure} {data : Bytes}
    (read : (reader.limit count).readAll = .ok data) (below : data.length < count) :
    reader.readAll = .ok data := by
  rw [limit] at read
  split at read
  · have taken : reader.bytes.take count = data := Except.ok.inj read
    rw [← taken, List.length_take, Nat.min_eq_left ‹_›] at below
    exact absurd below (Nat.lt_irrefl count)
  · exact read

theorem readAll_of_failAfter {count : Nat} {cause : Failure} {reader : Reader Failure}
    {data : Bytes} (read : (reader.failAfter count cause).readAll = .ok data) :
    reader.readAll = .ok data := by
  rw [failAfter] at read
  split at read
  · cases read
  · exact read

end Reader

end Golusoris.Lib
