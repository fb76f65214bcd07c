import Golusoris.Fasta.Records

/-!
# Which inputs are parsed faithfully

The parser should accept what keeps the limits and return one record for every header.
It does unless a line is lost, or takes more pieces than there may be.
-/

namespace Golusoris.Fasta

open List
open Lib (Bytes TextLine textLines lineFeed)

section Faithful

variable (toUpper : Bytes → Bytes)

/-- What an input should be parsed to, under limits that are accepted. -/
def promised (limits : FASTAOptions) (input : Bytes) : Option (List Sequence) :=
  if input.length ≤ limits.maxBytes.toNat ∧
      (∀ line ∈ (textLines input).map content, line.length ≤ limits.maxLineBytes.toNat) ∧
      ((textLines input).map content).countP isHeader ≤ limits.maxRecords.toNat then
    some (records toUpper ((textLines input).map content))
  else none

/-- The input, in blocks, is parsed to what it should be. -/
def Faithful (blocks : List Bytes) (opts limits : FASTAOptions) : Prop :=
  (parseFASTAContext toUpper blocks opts).toOption = promised toUpper limits blocks.flatten

end Faithful

/-- An input in the limits of bytes and lines: where the headers are not too many, no line
takes more pieces than there may be; and where the parser gets to a line that is lost, there
is no header. -/
def Clear (limits : FASTAOptions) (input : Bytes) : Prop :=
  input.length ≤ limits.maxBytes.toNat →
  (∀ line ∈ textLines input, (content line).length ≤ limits.maxLineBytes.toNat) →
    (((textLines input).map content).countP isHeader ≤ limits.maxRecords.toNat →
      ∀ line ∈ textLines input, Few limits.maxLineBytes.toNat line) ∧
    ((∀ line ∈ textLines input, Few limits.maxLineBytes.toNat line) →
      (kept (textLines input)).countP isHeader ≤ limits.maxRecords.toNat →
      (∃ line ∈ textLines input, Lost line) → ∀ line ∈ textLines input, ¬isHeader (content line))

/-- Only the last line may lack a line feed, and then it is not empty. -/
theorem textLines_ended : ∀ bytes : Bytes,
    (∀ line ∈ (textLines bytes).dropLast, line.ended = true) ∧
      ∀ line ∈ textLines bytes, line.ended = false → line.text ≠ []
  | [] => ⟨by simp [textLines], by simp [textLines]⟩
  | byte :: rest => by
    obtain ⟨before, filled⟩ := textLines_ended rest
    rw [textLines]
    split_ifs
    · refine ⟨?_, ?_⟩
      · cases lines : textLines rest with
        | nil => simp
        | cons line later =>
          rw [lines] at before
          rw [dropLast_cons_of_ne_nil (cons_ne_nil _ _), forall_mem_cons]
          exact ⟨rfl, before⟩
      · rw [forall_mem_cons]
        exact ⟨fun none => (by cases none), filled⟩
    · cases lines : textLines rest with
      | nil => simp
      | cons line later =>
        rw [lines] at before filled
        simp only
        refine ⟨?_, ?_⟩
        · cases later with
          | nil => simp
          | cons next later =>
            rw [dropLast_cons_of_ne_nil (cons_ne_nil _ _), forall_mem_cons] at before ⊢
            exact before
        · rw [forall_mem_cons] at filled ⊢
          exact ⟨fun _ => cons_ne_nil _ _, filled.2⟩

/-- A line that is lost does not end with a carriage return. -/
theorem getLast_of_pieces {text : Bytes} (none : (pieces text).2 = []) :
    text.getLast? ≠ some Lib.carriageReturn := by
  obtain short | long := Nat.lt_or_ge text.length fastaReadBufferSize
  · rw [pieces_short short] at none
    obtain rfl : text = [] := none
    simp
  · rw [pieces_long long] at none
    obtain more | all := Nat.lt_or_ge (pieceLength text) text.length
    · have later := getLast_of_pieces none
      rwa [getLast?_drop, if_neg (Nat.not_le.mpr more)] at later
    · have place : ¬text[fastaReadBufferSize - 1]? = some Lib.carriageReturn := by
        intro back
        rw [pieceLength, if_pos back] at all
        simp only [fastaReadBufferSize] at all long
        omega
      have length : text.length = fastaReadBufferSize := by
        rw [pieceLength, if_neg place] at all
        exact Nat.le_antisymm all long
      rwa [getLast?_eq_getElem?, length]
termination_by text.length
decreasing_by
  have positive := pieceLength_pos text
  rw [length_drop]
  omega

theorem trimReturns_of_last {text : Bytes} (last : text.getLast? ≠ some Lib.carriageReturn) :
    trimReturns text = text := by
  refine rdropWhile_eq_self_iff.mpr fun some back => last ?_
  rw [getLast?_eq_getLast_of_ne_nil some, of_decide_eq_true back]

/-- The lines up to one that is lost. -/
theorem kept_of_lost {bytes : Bytes} {line : TextLine} (listed : line ∈ textLines bytes)
    (lost : Lost line) :
    (textLines bytes).map content = kept (textLines bytes) ++ [content line] ∧
      trimReturns (content line) ≠ [] := by
  obtain ⟨before, filled⟩ := textLines_ended bytes
  have some := filled line listed lost.1
  have own : content line = line.text := by rw [content, lost.1, if_neg Bool.false_ne_true]
  have lines : textLines bytes = (textLines bytes).dropLast ++ [line] := by
    have nonempty : textLines bytes ≠ [] := ne_nil_of_mem listed
    have cut := dropLast_append_getLast nonempty
    rw [← cut, mem_append] at listed
    obtain early | last := listed
    · cases (before line early).symm.trans lost.1
    · rw [mem_singleton.mp last, cut]
  have ends : ∀ other ∈ (textLines bytes).dropLast, ¬Lost other := by
    rintro other early ⟨none, -⟩
    rw [before other early] at none
    cases none
  refine ⟨?_, ?_⟩
  · rw [lines, kept, filter_append, filter_eq_self.mpr (by simpa using ends)]
    simp [lost]
  · rw [own, trimReturns_of_last (getLast_of_pieces lost.2)]
    exact some

theorem kept_of_none {lines : List TextLine} (none : ∀ line ∈ lines, ¬Lost line) :
    kept lines = lines.map content := by
  rw [kept, filter_eq_self.mpr (by simpa using none)]

section More

variable (toUpper : Bytes → Bytes)

theorem length_records (lines : List Bytes) :
    (records toUpper lines).length = lines.countP isHeader := by
  induction lines with
  | nil => rfl
  | cons line rest ih =>
    cases header : isHeader line with
    | true => rw [records_header toUpper header, length_cons, ih, countP_cons_of_pos header]
    | false =>
      rw [records_letters toUpper header, ih, countP_cons_of_neg (by rw [header]; exact Bool.false_ne_true)]

theorem body_snoc {lines : List Bytes} (none : ∀ line ∈ lines, isHeader line = false) {last : Bytes}
    (letters : isHeader last = false) :
    body toUpper (lines ++ [last]) = body toUpper lines ++ toUpper (trimReturns last) := by
  induction lines with
  | nil => rw [nil_append, body_letters toUpper letters, body, append_nil, nil_append]
  | cons line rest ih =>
    obtain ⟨here, others⟩ := forall_mem_cons.mp none
    rw [cons_append, body_letters toUpper here, body_letters toUpper here, ih others,
      append_assoc]

theorem records_none {lines : List Bytes} (none : ∀ line ∈ lines, isHeader line = false) :
    records toUpper lines = [] := by
  rw [← length_eq_zero_iff, length_records, countP_eq_zero]
  exact fun line listed => by rw [none line listed]; exact Bool.false_ne_true

/-- The letters of the last line are in the last record. -/
theorem records_snoc_ne {lines : List Bytes} {last : Bytes} (letters : isHeader last = false)
    (some : toUpper (trimReturns last) ≠ []) {header : Bytes} (listed : header ∈ lines)
    (marked : isHeader header = true) : records toUpper (lines ++ [last]) ≠ records toUpper lines := by
  induction lines generalizing header with
  | nil => cases listed
  | cons line rest ih =>
    rw [cons_append]
    by_cases later : header ∈ rest
    · cases here : isHeader line with
      | true =>
        rw [records_header toUpper here, records_header toUpper here]
        exact fun same => ih later marked (List.cons.inj same).2
      | false =>
        rw [records_letters toUpper here, records_letters toUpper here]
        exact ih later marked
    · obtain rfl : header = line := (mem_cons.mp listed).resolve_right later
      rw [records_header toUpper marked, records_header toUpper marked]
      by_cases others : ∃ other ∈ rest, isHeader other = true
      · obtain ⟨other, listed, marked⟩ := others
        exact fun same => ih listed marked (List.cons.inj same).2
      · have none : ∀ other ∈ rest, isHeader other = false := fun other listed =>
          Bool.eq_false_iff.mpr fun marked => others ⟨other, listed, marked⟩
        intro same
        have seqs := (Sequence.mk.inj (List.cons.inj same).1).2
        rw [body_snoc toUpper none letters] at seqs
        exact some (append_right_eq_self.mp seqs)

/-- A line that is lost is missed, if there is a header. -/
theorem records_lost_ne (keeps : ∀ text, text ≠ [] → toUpper text ≠ []) {bytes : Bytes}
    {line header : TextLine} (listed : line ∈ textLines bytes) (lost : Lost line)
    (marked : header ∈ textLines bytes) (mark : isHeader (content header) = true) :
    records toUpper ((textLines bytes).map content) ≠ records toUpper (kept (textLines bytes)) := by
  obtain ⟨cut, some⟩ := kept_of_lost listed lost
  rw [cut]
  cases last : isHeader (content line) with
  | true =>
    intro same
    have lengths := congrArg List.length same
    rw [length_records, length_records, countP_append, countP_singleton, if_pos last] at lengths
    omega
  | false =>
    have own : content header ∈ kept (textLines bytes) := by
      have member := mem_map_of_mem (f := content) marked
      rw [cut, mem_append, mem_singleton] at member
      refine member.resolve_right fun same => ?_
      rw [same, last] at mark
      cases mark
    exact records_snoc_ne toUpper last (keeps _ some) own mark

end More

/-- An input in the limits of bytes and lines. -/
def Within (limits : FASTAOptions) (input : Bytes) : Prop :=
  input.length ≤ limits.maxBytes.toNat ∧
    ∀ line ∈ textLines input, (content line).length ≤ limits.maxLineBytes.toNat

section Limits

variable {toUpper : Bytes → Bytes} {blocks : List Bytes} {opts limits : FASTAOptions}

/-- In the limits of bytes and lines the others decide. -/
theorem faithful_within (accepted : opts.normalized = .ok limits)
    (within : Within limits blocks.flatten) :
    Faithful toUpper blocks opts limits ↔
      (if (∀ line ∈ textLines blocks.flatten, Few limits.maxLineBytes.toNat line) ∧
          (kept (textLines blocks.flatten)).countP isHeader ≤ limits.maxRecords.toNat then
        some (records toUpper (kept (textLines blocks.flatten))) else none) =
      (if ((textLines blocks.flatten).map content).countP isHeader ≤ limits.maxRecords.toNat then
        some (records toUpper ((textLines blocks.flatten).map content)) else none) := by
  obtain ⟨small, short⟩ := within
  rw [Faithful, parseFASTAContext_toOption toUpper blocks accepted, promised]
  have left : (blocks.flatten.length ≤ limits.maxBytes.toNat ∧
      (∀ line ∈ textLines blocks.flatten, Passes limits.maxLineBytes.toNat line) ∧
      (kept (textLines blocks.flatten)).countP isHeader ≤ limits.maxRecords.toNat) ↔
      (∀ line ∈ textLines blocks.flatten, Few limits.maxLineBytes.toNat line) ∧
        (kept (textLines blocks.flatten)).countP isHeader ≤ limits.maxRecords.toNat :=
    ⟨fun all => ⟨fun line listed => (all.2.1 line listed).2, all.2.2⟩,
      fun all => ⟨small, fun line listed => ⟨short line listed, all.1 line listed⟩, all.2⟩⟩
  have right : (blocks.flatten.length ≤ limits.maxBytes.toNat ∧
      (∀ line ∈ (textLines blocks.flatten).map content, line.length ≤ limits.maxLineBytes.toNat) ∧
      ((textLines blocks.flatten).map content).countP isHeader ≤ limits.maxRecords.toNat) ↔
      ((textLines blocks.flatten).map content).countP isHeader ≤ limits.maxRecords.toNat :=
    ⟨fun all => all.2.2, fun room => ⟨small, forall_mem_map.mpr short, room⟩⟩
  simp only [left, right]

/-- Beyond them nothing is accepted. -/
theorem faithful_beyond (accepted : opts.normalized = .ok limits)
    (beyond : ¬Within limits blocks.flatten) : Faithful toUpper blocks opts limits := by
  rw [Faithful, parseFASTAContext_toOption toUpper blocks accepted, promised]
  rw [if_neg fun all => beyond ⟨all.1, fun line listed => (all.2.1 line listed).1⟩,
    if_neg fun all => beyond ⟨all.1, fun line listed => all.2.1 _ (mem_map_of_mem listed)⟩]

theorem clear_of_faithful (keeps : ∀ text, text ≠ [] → toUpper text ≠ [])
    (accepted : opts.normalized = .ok limits) (faithful : Faithful toUpper blocks opts limits) :
    Clear limits blocks.flatten := by
  intro small short
  have same := (faithful_within accepted ⟨small, short⟩).mp faithful
  constructor
  · intro room
    rw [if_pos room] at same
    by_contra many
    rw [if_neg fun all => many all.1] at same
    cases same
  · rintro few room ⟨line, listed, lost⟩ header marked mark
    rw [if_pos ⟨few, room⟩] at same
    split_ifs at same
    exact records_lost_ne toUpper keeps listed lost marked mark (Option.some.inj same).symm

theorem faithful_of_clear (accepted : opts.normalized = .ok limits)
    (clear : Clear limits blocks.flatten) : Faithful toUpper blocks opts limits := by
  by_cases within : Within limits blocks.flatten
  · obtain ⟨few, harmless⟩ := clear within.1 within.2
    rw [faithful_within accepted within]
    generalize blocks.flatten = input at *
    have sublist : List.Sublist (kept (textLines input)) ((textLines input).map content) :=
      filter_sublist.map content
    by_cases lost : ∃ line ∈ textLines input, Lost line
    · by_cases room : (∀ line ∈ textLines input, Few limits.maxLineBytes.toNat line) ∧
          (kept (textLines input)).countP isHeader ≤ limits.maxRecords.toNat
      · have none : ∀ line ∈ (textLines input).map content, isHeader line = false :=
          forall_mem_map.mpr fun line listed => Bool.eq_false_iff.mpr
            (harmless room.1 room.2 lost line listed)
        have zero : ((textLines input).map content).countP isHeader = 0 :=
          countP_eq_zero.mpr fun line listed => Bool.eq_false_iff.mp (none line listed)
        rw [if_pos room, if_pos (zero.trans_le (Nat.zero_le _)), records_none toUpper none,
          records_none toUpper fun line listed => none line (sublist.subset listed)]
      · have many : ¬((textLines input).map content).countP isHeader ≤ limits.maxRecords.toNat :=
          fun all => room ⟨few all, (sublist.countP_le).trans all⟩
        rw [if_neg room, if_neg many]
    · have all : kept (textLines input) = (textLines input).map content :=
        kept_of_none fun line listed gone => lost ⟨line, listed, gone⟩
      rw [all]
      by_cases room : ((textLines input).map content).countP isHeader ≤ limits.maxRecords.toNat
      · rw [if_pos ⟨few room, room⟩, if_pos room]
      · rw [if_neg fun both => room both.2, if_neg room]
  · exact faithful_beyond accepted within

/-- Lines that are shorter than the buffer are neither lost nor refused. -/
theorem clear_of_short {input : Bytes}
    (short : ∀ line ∈ textLines input, line.text.length < fastaReadBufferSize) :
    Clear limits input := by
  intro _ _
  constructor
  · intro _ line listed
    rw [Few, pieces_short (short line listed)]
    exact Nat.le_add_left 1 _
  · rintro _ _ ⟨line, listed, ended, none⟩
    rw [pieces_short (short line listed)] at none
    exact absurd none ((textLines_ended input).2 line listed ended)

end Limits

/-- The parser is faithful exactly to the inputs that are clear. -/
theorem faithful_iff (toUpper : Bytes → Bytes) (keeps : ∀ text, text ≠ [] → toUpper text ≠ [])
    (blocks : List Bytes) (opts limits : FASTAOptions) (accepted : opts.normalized = .ok limits) :
    Faithful toUpper blocks opts limits ↔ Clear limits blocks.flatten :=
  ⟨clear_of_faithful keeps accepted, faithful_of_clear accepted⟩

/-- Upper case of letters below 0x80. -/
def asciiUpper (text : Bytes) : Bytes :=
  text.map fun byte => if 0x61 ≤ byte ∧ byte ≤ 0x7A then byte - 0x20 else byte

theorem asciiUpper_ne_nil (text : Bytes) (some : text ≠ []) : asciiUpper text ≠ [] := by
  simpa [asciiUpper] using some

def defaultLimits : FASTAOptions :=
  ⟨defaultFASTAMaxBytes, defaultFASTAMaxRecords, defaultFASTAMaxLineBytes⟩

/-- A record named `a` with the letters `ac`. -/
def smallInput : Bytes := [0x3E, 0x61, 0x0A, 0x61, 0x63]

theorem faithful_small : Faithful asciiUpper [smallInput] ⟨0, 0, 0⟩ defaultLimits :=
  (faithful_iff asciiUpper asciiUpper_ne_nil [smallInput] ⟨0, 0, 0⟩ defaultLimits rfl).mpr
    (clear_of_short (by decide))

/-- A record named `a` with as many letters as the buffer has bytes, and no line feed after them. -/
def alignedInput : Bytes := [0x3E, 0x61] ++ Lib.lineFeed :: List.replicate fastaReadBufferSize 0x41

theorem length_aligned : alignedInput.length = fastaReadBufferSize + 3 := by
  have all (n : ℕ) : ([0x3E, 0x61] ++ lineFeed :: replicate n (0x41 : UInt8)).length = n + 3 := by simp
  exact all _

/-- The letters of the aligned input, as a line. -/
def alignedLine : TextLine := ⟨List.replicate fastaReadBufferSize 0x41, false⟩

theorem textLines_aligned : textLines alignedInput = [⟨[0x3E, 0x61], true⟩, alignedLine] := by
  rw [alignedInput, Lib.textLines_append (by decide), Lib.textLines_free]
  · rfl
  · intro fed
    exact absurd (eq_of_mem_replicate fed) (by decide)
  · exact ne_nil_of_length_pos (by rw [length_replicate]; decide)

theorem pieces_aligned : pieces alignedLine.text = (1, []) := by
  have length : alignedLine.text.length = fastaReadBufferSize := length_replicate
  have place : alignedLine.text[fastaReadBufferSize - 1]? = some 0x41 :=
    getElem?_replicate_of_lt (by decide)
  have own : pieceLength alignedLine.text = fastaReadBufferSize := by
    rw [pieceLength, place, if_neg (by decide)]
  rw [pieces_long length.ge, own, ← length, drop_length, pieces_short (by decide)]

/-- The letters are lost. -/
theorem lost_aligned : ¬∀ (toUpper : Bytes → Bytes), (∀ text, text ≠ [] → toUpper text ≠ []) →
    ∀ (blocks : List Bytes) (opts limits : FASTAOptions), opts.normalized = .ok limits →
      Faithful toUpper blocks opts limits := by
  intro claim
  have clear : Clear defaultLimits [alignedInput].flatten := clear_of_faithful asciiUpper_ne_nil rfl
    (claim asciiUpper asciiUpper_ne_nil [alignedInput] ⟨0, 0, 0⟩ defaultLimits rfl)
  have length := length_aligned
  have letters : (content alignedLine).length = fastaReadBufferSize := List.length_replicate
  have lost : Lost alignedLine := ⟨rfl, by rw [pieces_aligned]⟩
  have few : Few defaultLimits.maxLineBytes.toNat alignedLine := by
    rw [Few, pieces_aligned]
    decide
  have first : Few defaultLimits.maxLineBytes.toNat ⟨[0x3E, 0x61], true⟩ := by
    rw [Few, pieces_short (by decide)]
    decide
  rw [List.flatten_singleton] at clear
  obtain ⟨-, harmless⟩ := clear (by rw [length]; decide) (by
    rw [textLines_aligned]
    simp only [List.forall_mem_cons, letters]
    exact ⟨by decide, by decide, by simp⟩)
  rw [textLines_aligned] at harmless
  refine harmless ?_ ?_ ⟨alignedLine, by simp, lost⟩ ⟨[0x3E, 0x61], true⟩ (by simp) (by decide)
  · simp only [List.forall_mem_cons]
    exact ⟨first, few, by simp⟩
  · have none : kept [⟨[0x3E, 0x61], true⟩, alignedLine] = [[0x3E, 0x61]] := by
      have own : ¬Lost ⟨[0x3E, 0x61], true⟩ := fun lost => absurd lost.1 (by decide)
      simp only [kept, List.filter_cons, own, lost, not_true_eq_false, not_false_eq_true, decide_true,
        decide_false, if_true, Bool.false_eq_true, if_false, List.filter_nil, List.map_cons, List.map_nil]
      rfl
    rw [none]
    decide

end Golusoris.Fasta
