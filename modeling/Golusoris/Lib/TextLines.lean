import Golusoris.Lib.Utf8

/-!
# Lines of a text

A text is cut at its line feeds. The last line may lack one; there is no empty line
after the last feed.
-/

namespace Golusoris.Lib

open List

def lineFeed : UInt8 := 0x0A

def carriageReturn : UInt8 := 0x0D

structure TextLine where
  text : Bytes
  /-- A line feed follows. -/
  ended : Bool
  deriving DecidableEq

/-- The lines of a text. -/
def textLines : Bytes → List TextLine
  | [] => []
  | byte :: rest =>
      if byte = lineFeed then ⟨[], true⟩ :: textLines rest
      else
        match textLines rest with
        | [] => [⟨[byte], false⟩]
        | line :: lines => ⟨byte :: line.text, line.ended⟩ :: lines

/-- One carriage return at the end is dropped. -/
def dropReturn (text : Bytes) : Bytes :=
  if text.getLast? = some carriageReturn then text.dropLast else text

theorem textLines_append {text : Bytes} (free : lineFeed ∉ text) (rest : Bytes) :
    textLines (text ++ lineFeed :: rest) = ⟨text, true⟩ :: textLines rest := by
  induction text with
  | nil => rfl
  | cons byte text ih =>
    obtain ⟨other, free⟩ := not_or.mp (mem_cons.not.mp free)
    rw [cons_append, textLines, if_neg (Ne.symm other), ih free]

theorem textLines_free {text : Bytes} (free : lineFeed ∉ text) (some : text ≠ []) :
    textLines text = [⟨text, false⟩] := by
  induction text with
  | nil => exact absurd rfl some
  | cons byte text ih =>
    obtain ⟨other, free⟩ := not_or.mp (mem_cons.not.mp free)
    rw [textLines, if_neg (Ne.symm other)]
    by_cases none : text = []
    · rw [none, textLines]
    · rw [ih free none]

theorem dropReturn_append {text more : Bytes} (some : more ≠ []) :
    dropReturn (text ++ more) = text ++ dropReturn more := by
  obtain rfl | ⟨front, last, rfl⟩ := eq_nil_or_concat more
  · exact absurd rfl some
  · rw [concat_eq_append, dropReturn, dropReturn, ← append_assoc, getLast?_concat, getLast?_concat,
      dropLast_concat, dropLast_concat]
    split_ifs
    · rfl
    · rw [append_assoc]

end Golusoris.Lib
