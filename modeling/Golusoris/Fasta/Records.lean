import Golusoris.Fasta.Lines
import Mathlib.Data.List.Induction

/-!
# Records from lines

What the parser returns, as a function of the lines of the input: the lines that are
lost are left out, and lines that take too many pieces are refused.
-/

namespace Golusoris.Fasta

open List
open Lib (Bytes BufferedReader TextLine textLines lineFeed)

variable {line : Bytes}

section Records

variable (toUpper : Bytes → Bytes)

/-- The sequence up to the next header. -/
def body : List Bytes → Bytes
  | [] => []
  | line :: rest => if isHeader line then [] else toUpper (trimReturns line) ++ body rest

/-- One record for every header. -/
def records : List Bytes → List Sequence
  | [] => []
  | line :: rest =>
      if isHeader line then ⟨trimReturns (line.drop 1), body toUpper rest⟩ :: records rest
      else records rest

theorem body_header (header : isHeader line = true) (rest : List Bytes) :
    body toUpper (line :: rest) = [] := by
  rw [body, if_pos header]

theorem body_letters (letters : isHeader line = false) (rest : List Bytes) :
    body toUpper (line :: rest) = toUpper (trimReturns line) ++ body toUpper rest := by
  rw [body, if_neg (by rw [letters]; exact Bool.false_ne_true)]

theorem records_header (header : isHeader line = true) (rest : List Bytes) :
    records toUpper (line :: rest) = ⟨trimReturns (line.drop 1), body toUpper rest⟩ :: records toUpper rest := by
  rw [records, if_pos header]

theorem records_letters (letters : isHeader line = false) (rest : List Bytes) :
    records toUpper (line :: rest) = records toUpper rest := by
  rw [records, if_neg (by rw [letters]; exact Bool.false_ne_true)]

end Records

/-- The lines that are not lost, without their terminators. -/
def kept (lines : List TextLine) : List Bytes := (lines.filter fun line => ¬Lost line).map content

/-- Bytes start with a line, the empty one at the end if there is no other. -/
theorem exists_stands (bytes : Bytes) : ∃ line rest, Stands line rest bytes ∧
    (bytes = [] ∧ line = ⟨[], false⟩ ∨ textLines bytes = line :: textLines rest) ∧
    (line.ended = false → rest = []) := by
  by_cases fed : lineFeed ∈ bytes
  · obtain ⟨text, rest, rfl, free⟩ := eq_append_cons_of_mem fed
    exact ⟨⟨text, true⟩, rest, ⟨free, rfl⟩, .inr (Lib.textLines_append free rest), fun none => (by cases none)⟩
  · refine ⟨⟨bytes, false⟩, [], ⟨fed, rfl, rfl⟩, ?_, fun _ => rfl⟩
    by_cases none : bytes = []
    · exact .inl ⟨none, by rw [none]⟩
    · exact .inr (Lib.textLines_free fed none)

theorem length_textLines : ∀ bytes : Bytes, (textLines bytes).length ≤ bytes.length
  | [] => Nat.le_refl _
  | byte :: rest => by
    have before := length_textLines rest
    rw [textLines]
    split_ifs
    · simpa using before
    · cases lines : textLines rest with
      | nil => simp
      | cons line lines' =>
        rw [lines] at before
        simp only [length_cons] at before ⊢
        omega

theorem trimReturns_cons {first : UInt8} (other : first ≠ Lib.carriageReturn) (text : Bytes) :
    trimReturns (first :: text) = first :: trimReturns text := by
  induction text using reverseRecOn with
  | nil => simp [trimReturns, rdropWhile_singleton, other]
  | append_singleton text last ih =>
    unfold trimReturns at ih ⊢
    rw [← cons_append, rdropWhile_concat, rdropWhile_concat]
    split_ifs
    · exact ih
    · rfl

theorem isHeader_trimReturns (line : Bytes) : isHeader (trimReturns line) = isHeader line := by
  cases line with
  | nil => rfl
  | cons first text =>
    by_cases mark : first = 0x3E
    · rw [trimReturns_cons (by rw [mark]; decide)]
      rfl
    · have front : trimReturns (first :: text) <+: first :: text := rdropWhile_prefix _ _
      cases trimmed : trimReturns (first :: text) with
      | nil => simp [isHeader, mark]
      | cons other rest =>
        rw [trimmed] at front
        obtain ⟨rfl, -⟩ := cons_prefix_cons.mp front
        simp [isHeader, mark]

/-- A header is named by what follows its mark. -/
theorem drop_trimReturns (header : isHeader line) :
    (trimReturns line).drop 1 = trimReturns (line.drop 1) := by
  cases line with
  | nil => cases header
  | cons first text =>
    have mark : first = 0x3E := by simpa [isHeader] using header
    rw [trimReturns_cons (by rw [mark]; decide)]
    rfl

section Loop

variable (toUpper : Bytes → Bytes) {maxBytes maxRecords maxLineBytes : ℕ}

/-- The record at hand, with the letters that follow. -/
def FastaState.pending (s : FastaState) (lines : List Bytes) : List Sequence :=
  if s.active then [⟨s.name, s.sequence ++ body toUpper lines⟩] else []

/-- What a line that is kept does. -/
theorem consume_eq (s : FastaState) (line : Bytes) (sequences : List Sequence) :
    s.consume toUpper (trimReturns line) sequences maxRecords =
      if isHeader line then
        if s.records ≥ maxRecords then
          .error s!"bio: FASTA record count exceeds limit: more than {maxRecords}"
        else .ok (⟨trimReturns (line.drop 1), [], true, s.records + 1⟩, s.finish sequences)
      else .ok (if s.active then { s with sequence := s.sequence ++ toUpper (trimReturns line) } else s,
        sequences) := by
  rw [FastaState.consume, isHeader_trimReturns]
  cases header : isHeader line with
  | false => rfl
  | true => rw [drop_trimReturns header]; rfl

/-- Letters go to the record at hand. -/
theorem pending_letters (s : FastaState) (letters : isHeader line = false) (rest : List Bytes) :
    (if s.active = true then { s with sequence := s.sequence ++ toUpper (trimReturns line) }
      else s).pending toUpper rest = s.pending toUpper (line :: rest) ∧
    (if s.active = true then { s with sequence := s.sequence ++ toUpper (trimReturns line) }
      else s).records = s.records := by
  rw [FastaState.pending, FastaState.pending, body_letters toUpper letters]
  cases active : s.active <;> simp [active]

theorem finish_eq (s : FastaState) (sequences : List Sequence) :
    s.finish sequences = sequences ++ s.pending toUpper [] := by
  rw [FastaState.finish, FastaState.pending, body, append_nil]
  cases s.active <;> simp

/-- The limits of the lines, as the parser checks them. -/
def Passes (maxLineBytes : ℕ) (line : TextLine) : Prop :=
  (content line).length ≤ maxLineBytes ∧ Few maxLineBytes line

instance : DecidablePred (Passes maxLineBytes) := fun line =>
  inferInstanceAs (Decidable ((content line).length ≤ maxLineBytes ∧ Few maxLineBytes line))

/-- The first line of what is pending is read. -/
theorem readFASTALine_readsLine (maxLineBytes : ℕ) {reader : BufferedReader} {line : TextLine}
    {rest : Bytes}
    (fits : reader.buf.length ≤ fastaReadBufferSize) (stands : Stands line rest reader.pending) :
    ReadsLine maxLineBytes (maxFragments maxLineBytes) [] line rest reader
      (readFASTALine reader maxLineBytes) :=
  readFragments_readsLine _ fits (Nat.zero_le _) stands

theorem parseLines_toOption : ∀ (left : ℕ) {lineNumber : ℕ} (state : FastaState)
    {sequences : List Sequence} {reader : BufferedReader}, reader.buf.length ≤ fastaReadBufferSize →
      reader.total ≤ maxBytes → (textLines reader.pending).length < left →
      state.records ≤ maxRecords →
      (parseLines toUpper maxBytes maxRecords maxLineBytes left lineNumber state sequences
          reader).toOption =
        if (∀ line ∈ textLines reader.pending, Passes maxLineBytes line) ∧
            state.records + (kept (textLines reader.pending)).countP isHeader ≤ maxRecords then
          some (sequences ++ state.pending toUpper (kept (textLines reader.pending)) ++
            records toUpper (kept (textLines reader.pending)))
        else none := by
  intro left
  induction left with
  | zero => exact fun _ _ _ _ _ few => absurd few (Nat.not_lt_zero _)
  | succ left ih =>
    intro lineNumber state sequences reader fits small few room
    obtain ⟨line, rest, stands, place, last⟩ := exists_stands reader.pending
    obtain ⟨outcome, total, fits'⟩ := readFASTALine_readsLine maxLineBytes fits stands
    rw [parseLines]
    generalize readFASTALine reader maxLineBytes = result at *
    obtain ⟨read, reader'⟩ := result
    simp only at outcome total fits' ⊢
    have fetched : ¬reader'.fetched > maxBytes := by
      have : reader'.fetched ≤ reader'.total := Nat.le_add_right _ _
      omega
    rw [if_neg fetched]
    have empty : pieces [] = (0, []) := pieces_short (by decide)
    cases outcome with
    | tooLong long =>
      obtain ⟨-, rfl⟩ | lines := place
      · rw [empty] at long
        simp [content, maxFragments] at long
      · have fails : ¬Passes maxLineBytes line := by
          rintro ⟨short, few⟩
          rw [length_nil, Nat.zero_add] at long
          exact long.elim (Nat.not_lt.mpr short) (Nat.not_lt.mpr few)
        rw [if_neg fun all => fails (all.1 line (by rw [lines]; exact mem_cons_self))]
        rfl
    | eof short few' lost read =>
      have none : kept (textLines reader.pending) = [] := by
        obtain ⟨none, -⟩ | lines := place
        · rw [none]
          rfl
        · rw [lines, last lost.1]
          simp [kept, textLines, lost]
      have passes : ∀ line ∈ textLines reader.pending, Passes maxLineBytes line := by
        obtain ⟨none, -⟩ | lines := place
        · rw [none]
          exact fun _ listed => absurd listed not_mem_nil
        · rw [lines, last lost.1]
          intro other listed
          obtain rfl := mem_singleton.mp listed
          rw [length_nil, Nat.zero_add] at short
          exact ⟨short, few'⟩
      rw [none, if_pos ⟨passes, by simpa using room⟩, finish_eq toUpper, records, append_nil]
      rfl
    | line short few' keeps after =>
      have lines : textLines reader.pending = line :: textLines rest := by
        refine place.resolve_left ?_
        rintro ⟨-, rfl⟩
        exact keeps ⟨rfl, by rw [empty]⟩
      have first : Passes maxLineBytes line := by
        rw [length_nil, Nat.zero_add] at short
        exact ⟨short, few'⟩
      have others : kept (line :: textLines rest) = content line :: kept (textLines rest) := by
        simp [kept, keeps]
      rw [lines, length_cons] at few
      simp only [lines, others, forall_mem_cons, first, true_and, nil_append]
      rw [consume_eq]
      cases header : isHeader (content line) with
      | true =>
        simp only [if_true]
        by_cases full : state.records ≥ maxRecords
        · rw [if_pos full, if_neg]
          · rfl
          · rintro ⟨-, bound⟩
            rw [countP_cons_of_pos header] at bound
            omega
        · rw [if_neg full]
          simp only
          rw [ih ⟨trimReturns ((content line).drop 1), [], true, state.records + 1⟩ fits' (by omega)
            (by rw [after]; omega) (Nat.not_le.mp full), after,
            countP_cons_of_pos header, records_header toUpper header, finish_eq toUpper]
          have count : state.records + 1 + (kept (textLines rest)).countP isHeader =
              state.records + ((kept (textLines rest)).countP isHeader + 1) := by omega
          have same : state.pending toUpper (content line :: kept (textLines rest)) =
              state.pending toUpper [] := by
            rw [FastaState.pending, FastaState.pending, body_header toUpper header, body]
          rw [count, same]
          simp [FastaState.pending]
      | false =>
        obtain ⟨same, count⟩ := pending_letters toUpper state header (kept (textLines rest))
        simp only [Bool.false_eq_true, if_false]
        generalize (if state.active = true then
            { state with sequence := state.sequence ++ toUpper (trimReturns (content line)) }
          else state) = next at same count ⊢
        rw [ih next fits' (by omega) (by rw [after]; omega) (count.trans_le room), after, same, count,
          countP_cons_of_neg (by simp [header]), records_letters toUpper header]

/-- With more bytes than the limit there is no result. -/
theorem parseLines_none : ∀ (left : ℕ) {lineNumber : ℕ} {state : FastaState}
    {sequences : List Sequence} {reader : BufferedReader}, reader.buf.length ≤ fastaReadBufferSize →
      maxBytes < reader.total →
      (parseLines toUpper maxBytes maxRecords maxLineBytes left lineNumber state sequences
        reader).toOption = none := by
  intro left
  induction left with
  | zero => exact fun _ _ => rfl
  | succ left ih =>
    intro lineNumber state sequences reader fits large
    obtain ⟨line, rest, stands, -⟩ := exists_stands reader.pending
    obtain ⟨outcome, total, fits'⟩ := readFASTALine_readsLine maxLineBytes fits stands
    rw [parseLines]
    generalize readFASTALine reader maxLineBytes = result at *
    obtain ⟨read, reader'⟩ := result
    simp only at outcome total fits' ⊢
    split_ifs with fetched
    · rfl
    · cases outcome with
      | tooLong => rfl
      | eof short few lost ended =>
        have all : reader'.fetched = reader'.total := by
          rw [BufferedReader.total, ended, length_nil, Nat.add_zero]
        omega
      | line =>
        simp only
        cases state.consume toUpper (trimReturns ([] ++ content line)) sequences maxRecords with
        | error => rfl
        | ok next => exact ih fits' (by omega)

end Loop

theorem flatten_limited : ∀ (left : ℕ) (blocks : List Bytes),
    (limited left blocks).flatten = blocks.flatten.take left
  | _, [] => by simp [limited]
  | left, block :: rest => by
    rw [limited, flatten_cons, flatten_limited, flatten_cons, take_append]

/-- What the parser returns for limits that are accepted. -/
theorem parseFASTAContext_toOption (toUpper : Bytes → Bytes) (blocks : List Bytes)
    {opts limits : FASTAOptions} (accepted : opts.normalized = .ok limits) :
    (parseFASTAContext toUpper blocks opts).toOption =
      if blocks.flatten.length ≤ limits.maxBytes.toNat ∧
          (∀ line ∈ textLines blocks.flatten, Passes limits.maxLineBytes.toNat line) ∧
          (kept (textLines blocks.flatten)).countP isHeader ≤ limits.maxRecords.toNat then
        some (records toUpper (kept (textLines blocks.flatten)))
      else none := by
  rw [parseFASTAContext, accepted]
  simp only [parseFASTALines]
  obtain small | large := le_or_gt blocks.flatten.length limits.maxBytes.toNat
  · have pending : BufferedReader.pending ⟨[], limited (limits.maxBytes.toNat + 1) blocks, 0⟩ =
        blocks.flatten := by
      rw [BufferedReader.pending, nil_append, flatten_limited, take_of_length_le (by omega)]
    have total : BufferedReader.total ⟨[], limited (limits.maxBytes.toNat + 1) blocks, 0⟩ =
        blocks.flatten.length := by
      rw [← pending, BufferedReader.total, BufferedReader.pending, nil_append, Nat.zero_add]
    rw [parseLines_toOption toUpper _ _ (Nat.zero_le _) (total.trans_le small) ?_ (Nat.zero_le _), pending]
    · simp only [FastaState.pending, Bool.false_eq_true, if_false, nil_append, Nat.zero_add, small,
        true_and]
    · rw [pending]
      exact Nat.lt_succ_of_le ((length_textLines _).trans small)
  · rw [if_neg fun all => absurd all.1 (not_le_of_gt large)]
    refine parseLines_none toUpper _ (Nat.zero_le _) ?_
    rw [BufferedReader.total, flatten_limited, Nat.zero_add, length_take]
    omega

end Golusoris.Fasta
