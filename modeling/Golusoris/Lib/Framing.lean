import Golusoris.Lib.Utf8
import Mathlib

/-! Byte strings behind their lengths, and what a sequence of them is known from. -/

namespace Golusoris.Lib.Framing

open List

/-- The lowest bytes of a number, the highest of them first. -/
def bigEndian : Nat → Nat → Bytes
  | 0, _ => []
  | width + 1, value => bigEndian width (value / 256) ++ [UInt8.ofNat value]

def readBigEndian (bytes : Bytes) : Nat := bytes.foldl (fun value byte => 256 * value + byte.toNat) 0

theorem length_bigEndian (width value : Nat) : (bigEndian width value).length = width := by
  induction width generalizing value with
  | zero => rfl
  | succ width ih => rw [bigEndian, length_append, ih, length_singleton]

theorem readBigEndian_bigEndian {width value : Nat} (fits : value < 256 ^ width) :
    readBigEndian (bigEndian width value) = value := by
  induction width generalizing value with
  | zero => exact (Nat.lt_one_iff.mp fits).symm
  | succ width ih =>
    have high : value / 256 < 256 ^ width := Nat.div_lt_of_lt_mul (by rwa [Nat.mul_comm, ← Nat.pow_succ])
    have low : (UInt8.ofNat value).toNat = value % 256 := UInt8.toNat_ofNat
    have read := ih high
    rw [readBigEndian] at read
    rw [bigEndian, readBigEndian, foldl_append, read, foldl_cons, foldl_nil, low]
    exact Nat.div_add_mod value 256

/-- A byte string behind its length in eight bytes. -/
def frame (part : Bytes) : Bytes := bigEndian 8 part.length ++ part

def stream (parts : List Bytes) : Bytes := parts.flatMap frame

/-- A byte string whose length eight bytes can hold. -/
def Fits (part : Bytes) : Prop := part.length < 2 ^ 64

theorem frame_append_inj {part other rest after : Bytes} (fits : Fits part) (fits' : Fits other)
    (same : frame part ++ rest = frame other ++ after) : part = other ∧ rest = after := by
  rw [frame, frame, append_assoc, append_assoc] at same
  obtain ⟨sizes, tails⟩ := append_inj same (by rw [length_bigEndian, length_bigEndian])
  have length : part.length = other.length := by
    rw [← @readBigEndian_bigEndian 8 _ fits, sizes, readBigEndian_bigEndian fits']
  exact append_inj tails length

/-- The parts are known from the stream. -/
theorem stream_inj {parts others : List Bytes} (fits : ∀ part ∈ parts, Fits part)
    (fits' : ∀ part ∈ others, Fits part) : stream parts = stream others ↔ parts = others := by
  refine ⟨fun same => ?_, congrArg stream⟩
  have framed (part : Bytes) : frame part ≠ [] := by
    intro none
    have length := congrArg List.length none
    rw [frame, length_append, length_bigEndian, length_nil] at length
    omega
  induction parts generalizing others with
  | nil =>
    cases others with
    | nil => rfl
    | cons other others => exact absurd (append_eq_nil_iff.mp same.symm).1 (framed other)
  | cons part parts ih =>
    cases others with
    | nil => exact absurd (append_eq_nil_iff.mp same).1 (framed part)
    | cons other others =>
      obtain ⟨here, later⟩ := forall_mem_cons.mp fits
      obtain ⟨here', later'⟩ := forall_mem_cons.mp fits'
      obtain ⟨rfl, rest⟩ := frame_append_inj here here' same
      rw [ih later later' rest]

end Golusoris.Lib.Framing
