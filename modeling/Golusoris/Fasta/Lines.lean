import Golusoris.Fasta.Parse

/-!
# Lines from pieces

A line is cut into pieces of the size of the buffer, one byte less where a piece would end
with a carriage return. The calls that read a line are one for every piece and one for
what is left; when nothing is left and no line feed follows, the last call is the end of
the input, and the line is lost.
-/

namespace Golusoris.Fasta

open List
open Lib (Bytes BufferedReader TextLine textLines dropReturn lineFeed carriageReturn)

/-- The length of the piece at the front of a line that fills the buffer. -/
def pieceLength (text : Bytes) : ℕ :=
  if text[fastaReadBufferSize - 1]? = some carriageReturn then fastaReadBufferSize - 1
  else fastaReadBufferSize

theorem pieceLength_pos (text : Bytes) : 0 < pieceLength text := by
  unfold pieceLength fastaReadBufferSize
  split_ifs <;> omega

/-- The number of pieces of a line that fill the buffer, and what is left of it. -/
def pieces (text : Bytes) : ℕ × Bytes :=
  if text.length < fastaReadBufferSize then (0, text)
  else
    let (count, left) := pieces (text.drop (pieceLength text))
    (count + 1, left)
termination_by text.length
decreasing_by
  have positive := pieceLength_pos text
  simp only [fastaReadBufferSize] at *
  rw [List.length_drop]
  omega

/-- A line without its terminator. -/
def content (line : TextLine) : Bytes := if line.ended then dropReturn line.text else line.text

/-- The line ends with the input, and with a piece. -/
def Lost (line : TextLine) : Prop := line.ended = false ∧ (pieces line.text).2 = []

/-- The calls for a line are not more than there may be. -/
def Few (maxBytes : ℕ) (line : TextLine) : Prop := (pieces line.text).1 + 1 ≤ maxFragments maxBytes

instance (maxBytes : ℕ) : DecidablePred (Few maxBytes) := fun line =>
  inferInstanceAs (Decidable ((pieces line.text).1 + 1 ≤ maxFragments maxBytes))

instance : DecidablePred Lost := fun line =>
  inferInstanceAs (Decidable (line.ended = false ∧ (pieces line.text).2 = []))

variable {text rest left more : Bytes}

theorem pieces_short (short : text.length < fastaReadBufferSize) : pieces text = (0, text) := by
  rw [pieces, if_pos short]

theorem pieces_long (long : fastaReadBufferSize ≤ text.length) :
    pieces text = ((pieces (text.drop (pieceLength text))).1 + 1,
      (pieces (text.drop (pieceLength text))).2) := by
  rw [pieces, if_neg (Nat.not_lt.mpr long)]

section Fragments

variable {maxBytes : ℕ} {reader : BufferedReader}

/-- What the bytes of a line, with those after it, are. -/
def Stands (line : TextLine) (rest bytes : Bytes) : Prop :=
  lineFeed ∉ line.text ∧
    if line.ended then bytes = line.text ++ lineFeed :: rest else bytes = line.text ∧ rest = []

/-- What reading a line comes to. -/
inductive Outcome (maxBytes calls : ℕ) (before : Bytes) (line : TextLine) (rest : Bytes) :
    Except LineFailure Bytes → BufferedReader → Prop where
  | tooLong {text : String} {reader : BufferedReader}
      (long : maxBytes < before.length + (content line).length ∨ calls < (pieces line.text).1 + 1) :
      Outcome maxBytes calls before line rest (.error (.lineTooLong text)) reader
  | eof {reader : BufferedReader} (short : before.length + (content line).length ≤ maxBytes)
      (few : (pieces line.text).1 + 1 ≤ calls) (lost : Lost line) (read : reader.source.flatten = []) :
      Outcome maxBytes calls before line rest (.error .eof) reader
  | line {reader : BufferedReader} (short : before.length + (content line).length ≤ maxBytes)
      (few : (pieces line.text).1 + 1 ≤ calls) (kept : ¬Lost line) (after : reader.pending = rest) :
      Outcome maxBytes calls before line rest (.ok (trimReturns (before ++ content line))) reader

variable {line : TextLine}

/-- Bytes without a line feed at the front are a part of the line. -/
theorem Stands.cut (stands : Stands line rest (text ++ left)) (free : lineFeed ∉ text) :
    ∃ more, line.text = text ++ more ∧ Stands ⟨more, line.ended⟩ rest left := by
  obtain ⟨own, same⟩ := stands
  cases ended : line.ended with
  | false =>
    rw [ended, if_neg Bool.false_ne_true] at same
    refine ⟨left, same.1.symm, ?_, ?_⟩
    · exact fun fed => own (same.1 ▸ mem_append_right _ fed)
    · exact ⟨rfl, same.2⟩
  | true =>
    rw [ended, if_pos rfl] at same
    obtain ⟨more, whole, after⟩ | ⟨more, whole, after⟩ := append_eq_append_iff.mp same
    · refine ⟨more, whole, ?_, after⟩
      exact fun fed => own (whole ▸ mem_append_right _ fed)
    · cases more with
      | nil =>
        rw [append_nil] at whole
        exact ⟨[], by rw [whole, append_nil], not_mem_nil, by rw [after]; rfl⟩
      | cons first more =>
        obtain rfl : lineFeed = first := (List.cons.inj after).1
        exact absurd (whole ▸ mem_append_right _ mem_cons_self) free

/-- The end of the bytes is the end of the line, if it has no line feed. -/
theorem Stands.eq_line (stands : Stands line rest (text ++ lineFeed :: left))
    (free : lineFeed ∉ text) : line = ⟨text, true⟩ ∧ left = rest := by
  obtain ⟨more, whole, own, same⟩ := stands.cut free
  obtain ⟨full, ended⟩ := line
  cases ended with
  | false =>
    obtain rfl := same.1
    exact absurd mem_cons_self own
  | true =>
    cases more with
    | nil =>
      rw [append_nil] at whole
      exact ⟨by rw [← whole], (List.cons.inj same).2⟩
    | cons first more =>
      obtain rfl := (List.cons.inj same).1
      exact absurd mem_cons_self own

theorem Stands.eq_last (stands : Stands line rest text) (free : lineFeed ∉ text) :
    line = ⟨text, false⟩ ∧ rest = [] := by
  obtain ⟨own, same⟩ := stands
  obtain ⟨full, ended⟩ := line
  cases ended with
  | false =>
    obtain ⟨rfl, none⟩ := same
    exact ⟨rfl, none⟩
  | true =>
    obtain rfl : text = full ++ lineFeed :: rest := same
    exact absurd (mem_append_right _ mem_cons_self) free

/-- A piece at the front of a line, and the line after it. -/
structure Piece (line : TextLine) (text more : Bytes) : Prop where
  whole : line.text = text ++ more
  length : text.length = pieceLength line.text
  long : fastaReadBufferSize ≤ line.text.length
  last : more = [] → text.getLast? ≠ some carriageReturn

theorem Piece.content (piece : Piece line text more) :
    content line = text ++ content ⟨more, line.ended⟩ := by
  unfold Fasta.content
  rw [piece.whole]
  split_ifs
  · by_cases none : more = []
    · rw [none, append_nil, dropReturn, if_neg (piece.last none)]
      exact (append_nil _).symm
    · exact Lib.dropReturn_append none
  · rfl

theorem Piece.pieces (piece : Piece line text more) :
    pieces line.text = ((pieces more).1 + 1, (pieces more).2) := by
  rw [pieces_long piece.long, ← piece.length, piece.whole, drop_left]

/-- What comes of a line after a piece comes of the whole line. -/
theorem Outcome.after {calls : ℕ} {before : Bytes} {read : Except LineFailure Bytes}
    (piece : Piece line text more)
    (outcome : Outcome maxBytes calls (before ++ text) ⟨more, line.ended⟩ rest read reader) :
    Outcome maxBytes (calls + 1) before line rest read reader := by
  have length : (before ++ text).length + (Fasta.content ⟨more, line.ended⟩).length =
      before.length + (Fasta.content line).length := by
    rw [piece.content, length_append, length_append, Nat.add_assoc]
  have lost : Lost line ↔ Lost ⟨more, line.ended⟩ := by
    rw [Lost, Lost, piece.pieces]
  cases outcome with
  | tooLong long =>
    refine .tooLong ?_
    rw [piece.pieces]
    simp only at long
    omega
  | eof short few gone read =>
    refine .eof (by omega) ?_ (lost.mpr gone) read
    rw [piece.pieces]
    exact Nat.succ_le_succ few
  | line short few kept after =>
    rw [append_assoc, ← piece.content]
    refine .line (by omega) ?_ (fun gone => kept (lost.mp gone)) after
    rw [piece.pieces]
    exact Nat.succ_le_succ few

theorem piece_full (whole : line.text = text ++ more) (length : text.length = fastaReadBufferSize)
    (last : text.getLast? ≠ some carriageReturn) : Piece line text more := by
  have place : line.text[fastaReadBufferSize - 1]? = text.getLast? := by
    rw [whole, ← length, getLast?_eq_getElem?,
      List.getElem?_append_left (by simp only [length, fastaReadBufferSize]; omega)]
  refine ⟨whole, ?_, ?_, fun _ => last⟩
  · rw [pieceLength, place, if_neg last, length]
  · rw [whole, length_append]
    omega

theorem Stands.head (stands : Stands line rest (carriageReturn :: left)) :
    line.text.head? = some carriageReturn := by
  obtain ⟨text, ended⟩ := line
  obtain ⟨-, same⟩ := stands
  cases ended with
  | false =>
    obtain ⟨rfl, -⟩ := same
    rfl
  | true =>
    cases text with
    | nil => exact absurd (List.cons.inj same).1 (by decide)
    | cons first text =>
      obtain rfl := (List.cons.inj same).1
      rfl

theorem piece_back (whole : line.text = text ++ more)
    (length : text.length + 1 = fastaReadBufferSize) (head : more.head? = some carriageReturn) :
    Piece line text more := by
  obtain ⟨more, rfl⟩ : ∃ after, more = carriageReturn :: after := by
    cases more with
    | nil => cases head
    | cons first after => exact ⟨after, by rw [Option.some.inj head]⟩
  have place : line.text[fastaReadBufferSize - 1]? = some carriageReturn := by
    rw [whole, ← length, Nat.add_sub_cancel, List.getElem?_append_right le_rfl, Nat.sub_self]
    rfl
  refine ⟨whole, ?_, ?_, fun none => (by cases none)⟩
  · rw [pieceLength, if_pos place]
    omega
  · rw [whole, length_append, length_cons]
    omega

/-- What reading a line comes to, with what it keeps of the reader. -/
structure ReadsLine (maxBytes calls : ℕ) (before : Bytes) (line : TextLine) (rest : Bytes)
    (reader : BufferedReader) (result : Except LineFailure Bytes × BufferedReader) : Prop where
  outcome : Outcome maxBytes calls before line rest result.1 result.2
  total : result.2.total = reader.total
  fits : result.2.buf.length ≤ fastaReadBufferSize

/-- A piece that fills the buffer leaves the rest of the line to the other calls. -/
theorem readsLine_piece {calls : ℕ} {before : Bytes}
    {reader reader' : BufferedReader} (piece : Piece line text more)
    (taken : reader.readLine fastaReadBufferSize = (some (text, true), reader'))
    (total : reader'.total = reader.total) (fits : reader'.buf.length ≤ fastaReadBufferSize)
    (within : before.length ≤ maxBytes)
    (later : (before ++ text).length ≤ maxBytes → ReadsLine maxBytes calls (before ++ text)
      ⟨more, line.ended⟩ rest reader' (readFragments maxBytes calls (before ++ text) reader')) :
    ReadsLine maxBytes (calls + 1) before line rest reader
      (readFragments maxBytes (calls + 1) before reader) := by
  rw [readFragments, taken]
  simp only
  split_ifs with long
  · refine ⟨.tooLong (.inl ?_), total, fits⟩
    rw [piece.content, length_append]
    omega
  · obtain ⟨outcome, total', fits'⟩ := later (by rw [length_append]; omega)
    exact ⟨outcome.after piece, total'.trans total, fits'⟩

theorem readFragments_readsLine : ∀ (calls : ℕ) {before : Bytes} {reader : BufferedReader}
    {line : TextLine} {rest : Bytes}, reader.buf.length ≤ fastaReadBufferSize →
      before.length ≤ maxBytes → Stands line rest reader.pending →
      ReadsLine maxBytes calls before line rest reader
      (readFragments maxBytes calls before reader) := by
  intro calls
  induction calls with
  | zero =>
    intro before reader line rest fits _ _
    exact ⟨.tooLong (.inr (Nat.succ_pos _)), rfl, fits⟩
  | succ calls ih =>
    intro before reader line rest fits within stands
    obtain ⟨reads, total, fits', ended⟩ :=
      BufferedReader.readLine_reads fits (by decide : 0 < fastaReadBufferSize)
    generalize taken : reader.readLine fastaReadBufferSize = result at *
    obtain ⟨fragment, reader'⟩ := result
    simp only at reads total fits' ended
    generalize after : reader'.pending = left at reads
    generalize reader.pending = bytes at reads stands
    cases reads with
    | @line text _ short free =>
      obtain ⟨rfl, rfl⟩ := stands.eq_line free
      rw [readFragments, taken]
      simp only [Bool.false_eq_true, if_false]
      split_ifs with long
      · exact ⟨.tooLong (.inl (by simp only [content, if_true]; omega)), total, fits'⟩
      · have bound : before.length + (content ⟨text, true⟩).length ≤ maxBytes := by
          simp only [content, if_true]
          omega
        refine ⟨.line bound ?_ ?_ after, total, fits'⟩
        · rw [pieces_short short]
          omega
        · rintro ⟨none, -⟩
          cases none
    | @full text _ length free last =>
      obtain ⟨more, whole, later⟩ := stands.cut free
      exact readsLine_piece (piece_full whole length last) taken total fits' within fun within =>
        ih fits' within (after ▸ later)
    | @back text left length free =>
      obtain ⟨more, whole, later⟩ := stands.cut free
      exact readsLine_piece (piece_back whole length later.head) taken total fits' within
        fun within => ih fits' within (after ▸ later)
    | last short free some =>
      obtain ⟨rfl, rfl⟩ := stands.eq_last free
      rw [readFragments, taken]
      have own : content ⟨bytes, false⟩ = bytes := rfl
      simp only [Bool.false_eq_true, if_false]
      split_ifs with long
      · exact ⟨.tooLong (.inl (by rw [own]; omega)), total, fits'⟩
      · refine ⟨.line (by rw [own]; omega) ?_ ?_ after, total, fits'⟩
        · rw [pieces_short short]
          omega
        · rw [Lost, pieces_short short]
          exact fun gone => some gone.2
    | nothing =>
      obtain ⟨rfl, rfl⟩ := stands.eq_last not_mem_nil
      rw [readFragments, taken]
      have none : pieces [] = (0, []) := pieces_short (by decide)
      refine ⟨.eof (by simpa [content] using within) (by rw [none]; omega) ⟨rfl, by rw [none]⟩ (ended rfl),
        total, fits'⟩

end Fragments

end Golusoris.Fasta
