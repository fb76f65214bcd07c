import Golusoris.Jcs.Steps

/-!
# The parser accepts the grammar

From wherever a value is expected, the parser reads every text that the grammar
derives and ends with the node table of the value, unless an object of it
repeats a name or it nests too deep. Conversely a run that ends has read a text
of the grammar. Both go by what one step does, the first by induction on the
derivation and the second by induction on the number of steps.
-/

namespace Golusoris.Jcs

open List
open Lib

variable {shortest : Formatter}

theorem Stop.space_append {after rest : Bytes} (blank : Space after) (stops : Stop rest) :
    Stop (after ++ rest) := by
  cases after with
  | nil => exact stops
  | cons byte after =>
    have space := blank byte mem_cons_self
    simp only [isSpace, Bool.or_eq_true, beq_iff_eq] at space
    rw [cons_append]
    rcases space with ((rfl | rfl) | rfl) | rfl <;> exact ⟨rfl, by simp [peek], by simp [peek],
      by simp [peek]⟩

theorem stop_cons {byte : UInt8} (known : byte = 0x2C ∨ byte = 0x5D ∨ byte = 0x7D) (rest : Bytes) :
    Stop (byte :: rest) := by
  rcases known with rfl | rfl | rfl <;> exact ⟨rfl, by simp [peek], by simp [peek], by simp [peek]⟩

theorem stop_nil : Stop [] := ⟨rfl, by decide, by decide, by decide⟩

variable {json : Json}

/-- No value starts with white space or a closer. -/
theorem Derives.solid {text : Bytes} (derives : Derives text (.value json)) (tail : Bytes) :
    isSpace (peek (text ++ tail)) = false ∧ peek (text ++ tail) ≠ 0x5D ∧
      peek (text ++ tail) ≠ 0x7D := by
  cases derives with
  | null => exact ⟨rfl, show (0x6E : UInt8) ≠ 0x5D by decide, show (0x6E : UInt8) ≠ 0x7D by decide⟩
  | yes => exact ⟨rfl, show (0x74 : UInt8) ≠ 0x5D by decide, show (0x74 : UInt8) ≠ 0x7D by decide⟩
  | no => exact ⟨rfl, show (0x66 : UInt8) ≠ 0x5D by decide, show (0x66 : UInt8) ≠ 0x7D by decide⟩
  | number written _ =>
    rcases written.peek tail with minus | digit
    · rw [minus]
      decide
    · generalize peek (text ++ tail) = byte at digit
      rw [isDigit_iff] at digit
      refine ⟨?_, ?_, ?_⟩
      · simp only [isSpace, Bool.or_eq_false_iff, beq_eq_false_iff_ne, ne_eq,
          ← UInt8.toNat_inj, UInt8.reduceToNat]
        omega
      · rintro rfl
        exact absurd digit (by decide)
      · rintro rfl
        exact absurd digit (by decide)
  | string written =>
    rw [written.peek tail]
    decide
  | emptyArray _ | array _ =>
    exact ⟨rfl, show (0x5B : UInt8) ≠ 0x5D by decide, show (0x5B : UInt8) ≠ 0x7D by decide⟩
  | emptyObject _ | object _ =>
    exact ⟨rfl, show (0x7B : UInt8) ≠ 0x5D by decide, show (0x7B : UInt8) ≠ 0x7D by decide⟩

theorem Derives.length_pos {text : Bytes} (derives : Derives text (.value json)) :
    0 < text.length := by
  have solid := derives.solid [0x5D]
  cases text with
  | nil => exact absurd rfl solid.2.1
  | cons byte text => simp

variable {runes : List Char}

section

variable {p : Parser} {before text tail : Bytes}

theorem Parser.Expecting.step_value (expecting : p.Expecting)
    (left : p.rest = before ++ (text ++ tail)) (blank : Space before)
    (solid : isSpace (peek (text ++ tail)) = false) :
    p.step shortest = Parser.value shortest { p with rest := text ++ tail } := by
  rw [expecting.step, left, skipSpace_append blank solid]

theorem Parser.value_number (start : peek (text ++ tail) = 0x2D ∨ isDigit (peek (text ++ tail)))
    {value : ℚ} (scanned : number (text ++ tail) = .ok (value, tail)) :
    Parser.value shortest { p with rest := text ++ tail } =
      .ok (p.finish shortest (.number value) tail) := by
  have other {byte : UInt8} (marked : byte ≠ 0x2D) (letter : isDigit byte = false) :
      peek (text ++ tail) ≠ byte := by
    rintro rfl
    exact start.elim marked fun digit => by simp [letter] at digit
  rw [Parser.value]
  dsimp only
  rw [if_neg (other (by decide) rfl), if_neg (other (by decide) rfl),
    if_neg (other (by decide) rfl), if_pos start, scanned]
  rfl

theorem Parser.value_string (start : peek (text ++ tail) = 0x22)
    (scanned : str (text ++ tail) = .ok (Utf8.encode runes, tail)) :
    Parser.value shortest { p with rest := text ++ tail } =
      .ok (p.finish shortest (.string runes) tail) := by
  rw [Parser.value]
  dsimp only
  rw [start, if_neg (by decide), if_neg (by decide), if_pos rfl, scanned]
  rfl

theorem Parser.value_array (rest : Bytes) :
    (maxDepth ≤ p.stack.length → ∃ error,
      Parser.value shortest { p with rest := 0x5B :: rest } = .error error) ∧
    (p.stack.length < maxDepth → Parser.value shortest { p with rest := 0x5B :: rest } =
      .ok (p.inArray shortest [] .stOpen rest)) := by
  change (_ → ∃ error, Parser.open { p with rest := 0x5B :: rest } .array = _) ∧
    (_ → Parser.open { p with rest := 0x5B :: rest } .array = _)
  rw [Parser.open]
  exact ⟨fun deep => ⟨_, if_pos deep⟩, fun shallow => if_neg (Nat.not_le_of_lt shallow)⟩

theorem Parser.value_object (rest : Bytes) :
    (maxDepth ≤ p.stack.length → ∃ error,
      Parser.value shortest { p with rest := 0x7B :: rest } = .error error) ∧
    (p.stack.length < maxDepth → Parser.value shortest { p with rest := 0x7B :: rest } =
      .ok (p.inObject shortest [] .stOpen [] rest)) := by
  change (_ → ∃ error, Parser.open { p with rest := 0x7B :: rest } .object = _) ∧
    (_ → Parser.open { p with rest := 0x7B :: rest } .object = _)
  rw [Parser.open]
  exact ⟨fun deep => ⟨_, if_pos deep⟩, fun shallow => if_neg (Nat.not_le_of_lt shallow)⟩

end

variable {node : Node} {laid : List Node} {bound count : Nat}

section

variable {p : Parser} {after : Bytes} {state : FrameState} {elements : List Json}
  {members : List (List Char × Json)}

theorem Parser.step_comma (blank : Space after) (rest : Bytes) :
    (p.within node laid .stSep [] (after ++ 0x2C :: rest)).step shortest =
      .ok (p.within node laid .stItem [] rest) := by
  rw [Parser.step_separator, skipSpace_append blank rfl, if_pos (peek_cons _ _)]
  rfl

theorem Parser.step_close (closable : state = .stSep ∨ state = .stOpen) (blank : Space after)
    (rest : Bytes) :
    (p.within node laid state [] (after ++ closer node.kind :: rest)).step shortest =
      (p.within node laid state [] rest).closeFrame := by
  have solid : isSpace (peek (closer node.kind :: rest)) = false := by
    cases node.kind <;> rfl
  have skipped := skipSpace_append blank solid
  rcases closable with rfl | rfl
  · have other : peek (closer node.kind :: rest) ≠ 0x2C := by
      cases node.kind <;> simp [closer, peek]
    rw [Parser.step_separator, skipped, if_neg other, if_pos (peek_cons _ _)]
    rfl
  · rw [Parser.step_open_close (by rw [skipped]; rfl), skipped]
    rfl

theorem Parser.step_close_array (closable : state = .stSep ∨ state = .stOpen) (blank : Space after)
    (rest : Bytes) :
    (p.inArray shortest elements state (after ++ 0x5D :: rest)).step shortest =
      .ok (p.finish shortest (.array elements) rest) :=
  (Parser.step_close closable blank rest).trans Parser.close_inArray

/-- The last step of an object succeeds exactly if the names differ. -/
theorem Parser.completes_close_object (going : p.done = false)
    (closable : state = .stSep ∨ state = .stOpen) (blank : Space after) (rest : Bytes) :
    (p.inObject shortest members state [] (after ++ 0x7D :: rest)).Completes shortest 1
      (members.map Prod.fst).Nodup (p.finish shortest (.object members) rest) := by
  have step : (p.inObject shortest members state [] (after ++ 0x7D :: rest)).step shortest =
      (p.inObject shortest members state [] rest).closeFrame :=
    Parser.step_close closable blank rest
  by_cases distinct : (members.map Prod.fst).Nodup
  · rw [Parser.close_inObject.1 distinct] at step
    have going' : (p.inObject shortest members state [] (after ++ 0x7D :: rest)).done = false := going
    exact (Parser.completes_step going' step).congr (iff_of_true trivial distinct)
  · obtain ⟨error, failed⟩ := Parser.close_inObject.2 distinct
    rw [failed] at step
    exact Parser.completes_error going step distinct

theorem Parser.memberName_eq {frame : Frame} {stack : List Frame} {name rest tail : Bytes}
    (quoted : peek p.rest = 0x22) (scanned : str p.rest = .ok (name, rest))
    (colon : skipSpace rest = 0x3A :: tail) :
    p.memberName frame stack =
      .ok { p with rest := tail, stack := { frame with name := name, state := .stValue } :: stack } := by
  simp [Parser.memberName, quoted, scanned, colon, peek_cons]

theorem Parser.step_name {before name middle : Bytes} (left : Space before)
    (named : StringText name runes) (inner : Space middle)
    (state_eq : state = .stItem ∨ state = .stOpen) (rest : Bytes) :
    (p.inObject shortest members state []
      (before ++ (name ++ (middle ++ 0x3A :: rest)))).step shortest =
      .ok (p.inObject shortest members .stValue (Utf8.encode runes) rest) := by
  have quoted := named.peek (middle ++ 0x3A :: rest)
  have skipped : skipSpace (before ++ (name ++ (middle ++ 0x3A :: rest))) =
      name ++ (middle ++ 0x3A :: rest) := skipSpace_append left (by rw [quoted]; rfl)
  rw [Parser.step_memberName, skipped]
  · exact Parser.memberName_eq quoted (str_text named _) (skipSpace_append inner rfl)
  · rw [skipped, quoted]
    exact state_eq.imp_right fun opened => ⟨opened, by decide⟩

/-- A member name on the way to a run with one more step. -/
theorem Parser.Completes.name {before name middle rest : Bytes}
    {fits : Prop} {q : Parser} (going : p.done = false) (left : Space before)
    (named : StringText name runes) (inner : Space middle)
    (state_eq : state = .stItem ∨ state = .stOpen)
    (read : (p.inObject shortest members .stValue (Utf8.encode runes) rest).Completes shortest bound
      fits q) :
    (p.inObject shortest members state []
      (before ++ (name ++ (middle ++ 0x3A :: rest)))).Completes shortest (bound + 1) fits q :=
  Parser.Completes.after going (Parser.step_name left named inner state_eq rest) read

end

/-- What the parser does with a text of the grammar, from everywhere it may come. -/
def Phrase.Parses (shortest : Formatter) (text : Bytes) : Phrase → Prop
  | .value json => ∀ (p : Parser) (before tail : Bytes), p.rest = before ++ (text ++ tail) →
      Space before → Stop tail → p.Expecting → p.stack.length ≤ maxDepth →
      p.Completes shortest text.length
        (json.Distinct ∧ p.stack.length + json.depth ≤ maxDepth) (p.finish shortest json tail)
  | .elements items => ∀ (p : Parser) (first : List Json) (state : FrameState) (tail : Bytes),
      (state = .stItem ∨ state = .stOpen) → p.done = false → p.stack.length < maxDepth →
      (p.inArray shortest first state (text ++ 0x5D :: tail)).Completes shortest (text.length + 1)
        (DistinctAll items ∧ p.stack.length + 1 + depthAll items ≤ maxDepth)
        (p.finish shortest (.array (first ++ items)) tail)
  | .members fields => ∀ (p : Parser) (first : List (List Char × Json)) (state : FrameState)
      (tail : Bytes), (state = .stItem ∨ state = .stOpen) → p.done = false →
      p.stack.length < maxDepth →
      (p.inObject shortest first state [] (text ++ 0x7D :: tail)).Completes shortest
        (text.length + 1)
        (DistinctMembers fields ∧ p.stack.length + 1 + depthMembers fields ≤ maxDepth ∧
          ((first ++ fields).map Prod.fst).Nodup)
        (p.finish shortest (.object (first ++ fields)) tail)

/-- A scalar is read in one step and always fits. -/
theorem Phrase.parses_scalar {text : Bytes} (derives : Derives text (.value json))
    (distinct : json.Distinct) (flat : json.depth = 0)
    (read : ∀ (p : Parser) (tail : Bytes), Stop tail →
      Parser.value shortest { p with rest := text ++ tail } = .ok (p.finish shortest json tail)) :
    Phrase.Parses shortest text (.value json) := by
  intro p before tail left blank stops expecting bounded
  have step : p.step shortest = .ok (p.finish shortest json tail) :=
    (expecting.step_value left blank (derives.solid tail).1).trans (read p tail stops)
  refine ((Parser.completes_step expecting.1 step).congr ?_).mono derives.length_pos
  rw [flat]
  exact iff_of_true trivial ⟨distinct, bounded⟩

/-- A container is opened if it is not too deep, and its inside is read. -/
theorem Phrase.parses_opened {p : Parser} {before text tail : Bytes} {opener : UInt8} {fits : Prop}
    {opened : Parser} (json : Json) (inner : Bytes)
    (left : p.rest = before ++ (text ++ tail)) (blank : Space before)
    (shape : text ++ tail = opener :: inner) (solid : isSpace opener = false)
    (expecting : p.Expecting)
    (value : (maxDepth ≤ p.stack.length → ∃ error,
      Parser.value shortest { p with rest := opener :: inner } = .error error) ∧
      (p.stack.length < maxDepth →
        Parser.value shortest { p with rest := opener :: inner } = .ok opened))
    (nested : 0 < json.depth)
    (inside : p.stack.length < maxDepth → opened.Completes shortest bound fits
      (p.finish shortest json tail))
    (same : p.stack.length < maxDepth →
      (fits ↔ json.Distinct ∧ p.stack.length + json.depth ≤ maxDepth)) :
    p.Completes shortest (bound + 1) (json.Distinct ∧ p.stack.length + json.depth ≤ maxDepth)
      (p.finish shortest json tail) := by
  have step : p.step shortest = Parser.value shortest { p with rest := opener :: inner } := by
    rw [← shape]
    exact expecting.step_value left blank (by rw [shape]; exact solid)
  by_cases deep : maxDepth ≤ p.stack.length
  · obtain ⟨error, failed⟩ := value.1 deep
    rw [failed] at step
    refine (Parser.completes_error expecting.1 step ?_).mono (by omega)
    rintro ⟨-, fits⟩
    omega
  · have shallow := Nat.lt_of_not_le deep
    rw [value.2 shallow] at step
    exact (Parser.Completes.after expecting.1 step (inside shallow)).congr (same shallow)

theorem add_max_le_iff {base left right : Nat} :
    base + max left right ≤ bound ↔ base + left ≤ bound ∧ base + right ≤ bound := by
  omega

/-- The parser reads every text of the grammar. -/
theorem Derives.parses {text : Bytes} {phrase : Phrase} (derives : Derives text phrase) :
    Phrase.Parses shortest text phrase := by
  induction derives with
  | null => exact Phrase.parses_scalar .null trivial rfl fun p tail _ => rfl
  | yes => exact Phrase.parses_scalar .yes trivial rfl fun p tail _ => rfl
  | no => exact Phrase.parses_scalar .no trivial rfl fun p tail _ => rfl
  | number written finite =>
    exact Phrase.parses_scalar (.number written finite) trivial rfl fun p tail stops =>
      Parser.value_number (written.peek tail) (number_append written finite stops)
  | string written =>
    exact Phrase.parses_scalar (.string written) trivial rfl fun p tail _ =>
      Parser.value_string (written.peek tail) (str_text written tail)
  | @emptyArray space blank =>
    intro p before tail left outer stops expecting bounded
    refine (Phrase.parses_opened (.array []) (space ++ 0x5D :: tail) left outer (by simp) rfl
      expecting (Parser.value_array _) (by decide) (fun shallow => Parser.completes_step expecting.1
        (Parser.step_close_array (Or.inr rfl) blank tail)) ?_).mono (by simp)
    intro shallow
    exact iff_of_true trivial ⟨trivial, shallow⟩
  | @array text elements inside ih =>
    intro p before tail left outer stops expecting bounded
    refine (Phrase.parses_opened (.array elements) (text ++ 0x5D :: tail) left outer (by simp) rfl
      expecting (Parser.value_array _) (by rw [Json.depth]; omega)
      (fun shallow => ih p [] .stOpen tail (Or.inr rfl) expecting.1 shallow) ?_).mono (by simp)
    intro shallow
    rw [Json.Distinct, Json.depth]
    exact and_congr_right fun _ => by omega
  | @emptyObject space blank =>
    intro p before tail left outer stops expecting bounded
    refine (Phrase.parses_opened (.object []) (space ++ 0x7D :: tail) left outer (by simp) rfl
      expecting (Parser.value_object _) (by decide)
      (fun shallow => Parser.completes_close_object expecting.1 (Or.inr rfl) blank tail)
      ?_).mono (by simp)
    intro shallow
    exact iff_of_true nodup_nil ⟨⟨nodup_nil, trivial⟩, shallow⟩
  | @object text members inside ih =>
    intro p before tail left outer stops expecting bounded
    refine (Phrase.parses_opened (.object members) (text ++ 0x7D :: tail) left outer (by simp) rfl
      expecting (Parser.value_object _) (by rw [Json.depth]; omega)
      (fun shallow => ih p [] .stOpen tail (Or.inr rfl) expecting.1 shallow) ?_).mono (by simp)
    intro shallow
    rw [Json.Distinct, Json.depth, nil_append]
    constructor
    · rintro ⟨distinct, deep, names⟩
      exact ⟨⟨names, distinct⟩, by omega⟩
    · rintro ⟨⟨names, distinct⟩, deep⟩
      exact ⟨distinct, by omega, names⟩
  | @lastElement before text after json left inside right ih =>
    intro p first state tail state_eq going shallow
    have stops : Stop (after ++ 0x5D :: tail) := .space_append right (stop_cons (by simp) tail)
    have solid := inside.solid (after ++ 0x5D :: tail)
    have expecting : (p.inArray shortest first state
        (before ++ (text ++ (after ++ 0x5D :: tail)))).Expecting := by
      refine Parser.expecting_inArray going (state_eq.imp_right fun opened => ⟨opened, ?_⟩)
      rw [skipSpace_append left solid.1]
      exact solid.2.1
    have read := ih _ before (after ++ 0x5D :: tail) rfl left stops expecting shallow
    rw [Parser.finish_inArray] at read
    have going' : (p.inArray shortest (first ++ [json]) .stSep (after ++ 0x5D :: tail)).done =
        false := going
    have whole := read.trans (Parser.completes_step going'
      (Parser.step_close_array (Or.inl rfl) right tail))
    simp only [append_assoc]
    refine (whole.mono (by simp; omega)).congr ?_
    rw [DistinctAll, DistinctAll, depthAll, depthAll, Nat.max_zero]
    simp [Parser.inArray]
  | @element before text after more json elements left inside right rest ih ihRest =>
    intro p first state tail state_eq going shallow
    have stops : Stop (after ++ 0x2C :: (more ++ 0x5D :: tail)) :=
      .space_append right (stop_cons (by simp) _)
    have solid := inside.solid (after ++ 0x2C :: (more ++ 0x5D :: tail))
    have expecting : (p.inArray shortest first state
        (before ++ (text ++ (after ++ 0x2C :: (more ++ 0x5D :: tail))))).Expecting := by
      refine Parser.expecting_inArray going (state_eq.imp_right fun opened => ⟨opened, ?_⟩)
      rw [skipSpace_append left solid.1]
      exact solid.2.1
    have read := ih _ before (after ++ 0x2C :: (more ++ 0x5D :: tail)) rfl left stops expecting
      shallow
    rw [Parser.finish_inArray] at read
    have going' : (p.inArray shortest (first ++ [json]) .stSep
        (after ++ 0x2C :: (more ++ 0x5D :: tail))).done = false := going
    have whole := read.trans (Parser.Completes.after going' (Parser.step_comma right _)
      (ihRest p (first ++ [json]) .stItem tail (Or.inl rfl) going shallow))
    simp only [append_assoc, cons_append] at whole ⊢
    refine (whole.mono (by simp; omega)).congr ?_
    rw [DistinctAll, depthAll, add_max_le_iff]
    simp only [Parser.inArray, Parser.length_stack_within]
    tauto
  | @lastMember before name middle space text after runes json left named inner blank inside right ih =>
    intro p first state tail state_eq going shallow
    have stops : Stop (after ++ 0x7D :: tail) := .space_append right (stop_cons (by simp) tail)
    have read := ih (p.inObject shortest first .stValue (Utf8.encode runes)
      (space ++ (text ++ (after ++ 0x7D :: tail)))) space (after ++ 0x7D :: tail) rfl blank stops
      (Parser.expecting_inObject going) shallow
    rw [Parser.finish_inObject] at read
    have whole := Parser.Completes.name going left named inner state_eq
      (read.trans (Parser.completes_close_object going (Or.inl rfl) right tail))
    simp only [append_assoc, cons_append]
    refine (whole.mono (by simp; omega)).congr ?_
    rw [DistinctMembers, DistinctMembers, depthMembers, depthMembers, Nat.max_zero]
    simp only [Parser.inObject, Parser.length_stack_within]
    tauto
  | @member before name middle space text after more runes json members left named inner blank
      inside right rest ih ihRest =>
      intro p first state tail state_eq going shallow
      have stops : Stop (after ++ 0x2C :: (more ++ 0x7D :: tail)) :=
        .space_append right (stop_cons (by simp) _)
      have read := ih (p.inObject shortest first .stValue (Utf8.encode runes)
        (space ++ (text ++ (after ++ 0x2C :: (more ++ 0x7D :: tail))))) space
        (after ++ 0x2C :: (more ++ 0x7D :: tail)) rfl blank stops (Parser.expecting_inObject going)
        shallow
      rw [Parser.finish_inObject] at read
      have going' : (p.inObject shortest (first ++ [(runes, json)]) .stSep []
          (after ++ 0x2C :: (more ++ 0x7D :: tail))).done = false := going
      have whole := Parser.Completes.name going left named inner state_eq
        (read.trans (Parser.Completes.after going' (Parser.step_comma right _)
          (ihRest p (first ++ [(runes, json)]) .stItem tail (Or.inl rfl) going shallow)))
      simp only [append_assoc, cons_append, nil_append] at whole ⊢
      refine (whole.mono (by simp; omega)).congr ?_
      rw [DistinctMembers, depthMembers, add_max_le_iff]
      simp only [Parser.inObject, Parser.length_stack_within]
      tauto

section

variable {p q : Parser} {rest : Bytes}

theorem Parser.scalar_eq_ok {Token : Type} {scanned : Scan Token} {write : Token → Bytes}
    (read : p.scalar scanned write = .ok q) :
    ∃ token tail, scanned = .ok (token, tail) ∧ q = p.attach (write token) tail := by
  cases scanned with
  | error fault => cases read
  | ok pair => exact ⟨pair.1, pair.2, rfl, (Except.ok.inj read).symm⟩

theorem Parser.open_eq_ok {kind : Kind} (opened : p.open kind = .ok q) :
    q = { p with
      rest := p.rest.tail
      nodes := p.nodes ++ [{ kind := kind }]
      stack := { node := p.nodes.length, state := .stOpen } :: p.stack } := by
  rw [Parser.open] at opened
  split_ifs at opened
  · cases opened
  · exact (Except.ok.inj opened).symm

/-- Where a value is read, a scalar is derived or a container is opened. -/
theorem Parser.value_eq_ok (read : Parser.value shortest { p with rest := rest } = .ok q) :
    (∃ text tail json, rest = text ++ tail ∧ Derives text (.value json) ∧
      q = p.finish shortest json tail) ∨
    (∃ inner, rest = 0x5B :: inner ∧ q = p.inArray shortest [] .stOpen inner) ∨
    (∃ inner, rest = 0x7B :: inner ∧ q = p.inObject shortest [] .stOpen [] inner) := by
  rw [Parser.value] at read
  dsimp only at read
  split_ifs at read with object array string numeric
  · refine Or.inr (Or.inr ⟨rest.tail, cons_tail_of_peek object (by decide), ?_⟩)
    rw [Parser.open_eq_ok read]
    rfl
  · refine Or.inr (Or.inl ⟨rest.tail, cons_tail_of_peek array (by decide), ?_⟩)
    rw [Parser.open_eq_ok read]
    rfl
  · obtain ⟨name, tail, scanned, rfl⟩ := Parser.scalar_eq_ok read
    obtain ⟨text, runes, rfl, written, rfl⟩ := str_eq_ok string scanned
    exact Or.inl ⟨text, tail, .string runes, rfl, .string written, rfl⟩
  · obtain ⟨value, tail, scanned, rfl⟩ := Parser.scalar_eq_ok read
    obtain ⟨text, rfl, written, finite⟩ := number_eq_ok scanned
    exact Or.inl ⟨text, tail, .number value, rfl, .number written finite, rfl⟩
  · obtain ⟨text, tail, scanned, rfl⟩ := Parser.scalar_eq_ok read
    obtain ⟨rfl, known, derives⟩ := literal_eq_ok scanned
    refine Or.inl ⟨textBytes text, tail, literalValue text, rfl, derives, ?_⟩
    rcases known with rfl | rfl | rfl <;> rfl

theorem Parser.memberName_eq_ok {frame : Frame} {stack : List Frame}
    (read : p.memberName frame stack = .ok q) :
    ∃ name middle, peek p.rest = 0x22 ∧ str p.rest = .ok (name, middle) ∧
      peek (skipSpace middle) = 0x3A ∧
      q = { p with
        rest := (skipSpace middle).tail
        stack := { frame with name := name, state := .stValue } :: stack } := by
  rw [Parser.memberName] at read
  split_ifs at read with unquoted
  · cases read
  · cases scanned : str p.rest with
    | error fault =>
      rw [scanned] at read
      cases read
    | ok pair =>
      obtain ⟨name, middle⟩ := pair
      rw [scanned] at read
      dsimp only at read
      split_ifs at read with missing
      · cases read
      · exact ⟨name, middle, not_not.mp unquoted, rfl, not_not.mp missing,
          (Except.ok.inj read).symm⟩

/-- After a child the parser reads a comma or closes the container. -/
theorem Parser.separator_eq_ok (read : (p.within node laid .stSep [] rest).step shortest = .ok q) :
    ∃ after tail, Space after ∧
      ((rest = after ++ 0x2C :: tail ∧ q = p.within node laid .stItem [] tail) ∨
        (rest = after ++ closer node.kind :: tail ∧
          (p.within node laid .stSep [] tail).closeFrame = .ok q)) := by
  rw [Parser.step_separator] at read
  split_ifs at read with comma closed
  · obtain ⟨after, blank, split⟩ := exists_space_cons comma (by decide)
    exact ⟨after, _, blank, Or.inl ⟨split, (Except.ok.inj read).symm⟩⟩
  · obtain ⟨after, blank, split⟩ := exists_space_cons closed (by cases node.kind <;> decide)
    exact ⟨after, _, blank, Or.inr ⟨split, read⟩⟩
  · cases read

theorem Parser.close_inObject_eq_ok {members : List (List Char × Json)} {state : FrameState}
    (closed : (p.inObject shortest members state [] rest).closeFrame = .ok q) :
    q = p.finish shortest (.object members) rest := by
  by_cases distinct : (members.map Prod.fst).Nodup
  · rw [Parser.close_inObject.1 distinct] at closed
    exact (Except.ok.inj closed).symm
  · obtain ⟨error, failed⟩ := Parser.close_inObject.2 distinct
    rw [failed] at closed
    cases closed

/-- A finished run from a parser that is not done takes a step. -/
theorem Parser.steps_eq_ok (run : p.steps shortest count = .ok q) (going : p.done = false)
    (done : q.done = true) :
    ∃ r less, count = less + 1 ∧ p.step shortest = .ok r ∧ r.steps shortest less = .ok q := by
  cases count with
  | zero =>
    cases run
    rw [going] at done
    cases done
  | succ less =>
    rw [Parser.steps_succ going] at run
    cases step : p.step shortest with
    | error error =>
      rw [step] at run
      cases run
    | ok r =>
      rw [step] at run
      exact ⟨r, less, rfl, rfl, run⟩

end

/-- A run of so many steps from where a value is expected reads a value. -/
def ReadsValue (shortest : Formatter) (count : Nat) : Prop :=
  ∀ p q : Parser, p.Expecting → p.steps shortest count = .ok q → q.done = true →
    ∃ before text tail json, p.rest = before ++ (text ++ tail) ∧ Space before ∧
      Derives text (.value json) ∧
      ∃ less < count, (p.finish shortest json tail).steps shortest less = .ok q

def ReadsElements (shortest : Formatter) (count : Nat) : Prop :=
  ∀ (p q : Parser) (first : List Json) (state : FrameState) (rest : Bytes), p.done = false →
    (state = .stItem ∨ (state = .stOpen ∧ peek (skipSpace rest) ≠ 0x5D)) →
    (p.inArray shortest first state rest).steps shortest count = .ok q → q.done = true →
    ∃ text elements tail, rest = text ++ 0x5D :: tail ∧ Derives text (.elements elements) ∧
      ∃ less < count,
        (p.finish shortest (.array (first ++ elements)) tail).steps shortest less = .ok q

def ReadsMembers (shortest : Formatter) (count : Nat) : Prop :=
  ∀ (p q : Parser) (first : List (List Char × Json)) (state : FrameState) (rest : Bytes),
    p.done = false → (state = .stItem ∨ (state = .stOpen ∧ peek (skipSpace rest) ≠ 0x7D)) →
    (p.inObject shortest first state [] rest).steps shortest count = .ok q → q.done = true →
    ∃ text members tail, rest = text ++ 0x7D :: tail ∧ Derives text (.members members) ∧
      ∃ less < count,
        (p.finish shortest (.object (first ++ members)) tail).steps shortest less = .ok q

theorem readsValue (elements : ∀ less < count, ReadsElements shortest less)
    (members : ∀ less < count, ReadsMembers shortest less) : ReadsValue shortest count := by
  intro p q expecting run done
  obtain ⟨r, less, rfl, step, run⟩ := Parser.steps_eq_ok run expecting.1 done
  rw [expecting.step] at step
  obtain ⟨before, blank, split⟩ := exists_space p.rest
  rcases Parser.value_eq_ok step with ⟨text, tail, json, left, derives, rfl⟩ |
    ⟨inner, left, rfl⟩ | ⟨inner, left, rfl⟩
  · exact ⟨before, text, tail, json, by rw [split, left], blank, derives, less, by omega, run⟩
  · by_cases closed : peek (skipSpace inner) = 0x5D
    · obtain ⟨space, empty, inside⟩ := exists_space_cons closed (by decide)
      generalize (skipSpace inner).tail = tail at inside
      subst inside
      obtain ⟨r, fewer, rfl, step, run⟩ := Parser.steps_eq_ok run expecting.1 done
      rw [Parser.step_close_array (Or.inr rfl) empty] at step
      cases step
      exact ⟨before, 0x5B :: space ++ [0x5D], tail, .array [], by rw [split, left]; simp, blank,
        .emptyArray empty, fewer, by omega, run⟩
    · obtain ⟨text, items, tail, rfl, derives, fewer, below, run⟩ :=
        elements less (by omega) p q [] .stOpen inner expecting.1 (Or.inr ⟨rfl, closed⟩) run done
      exact ⟨before, 0x5B :: text ++ [0x5D], tail, .array items, by rw [split, left]; simp, blank,
        .array derives, fewer, by omega, run⟩
  · by_cases closed : peek (skipSpace inner) = 0x7D
    · obtain ⟨space, empty, inside⟩ := exists_space_cons closed (by decide)
      generalize (skipSpace inner).tail = tail at inside
      subst inside
      obtain ⟨r, fewer, rfl, step, run⟩ := Parser.steps_eq_ok run expecting.1 done
      have closing : (p.inObject shortest [] .stOpen [] tail).closeFrame = .ok r :=
        (Parser.step_close (Or.inr rfl) empty tail).symm.trans step
      obtain rfl := Parser.close_inObject_eq_ok closing
      exact ⟨before, 0x7B :: space ++ [0x7D], tail, .object [], by rw [split, left]; simp, blank,
        .emptyObject empty, fewer, by omega, run⟩
    · obtain ⟨text, fields, tail, rfl, derives, fewer, below, run⟩ :=
        members less (by omega) p q [] .stOpen inner expecting.1 (Or.inr ⟨rfl, closed⟩) run done
      exact ⟨before, 0x7B :: text ++ [0x7D], tail, .object fields, by rw [split, left]; simp, blank,
        .object derives, fewer, by omega, run⟩

theorem readsElements (value : ReadsValue shortest count)
    (elements : ∀ less < count, ReadsElements shortest less) : ReadsElements shortest count := by
  intro p q first state rest going unclosed run done
  obtain ⟨before, text, tail, json, left, blank, derives, less, below, run⟩ :=
    value _ q (Parser.expecting_inArray going unclosed) run done
  obtain rfl : rest = before ++ (text ++ tail) := left
  rw [Parser.finish_inArray] at run
  obtain ⟨r, fewer, rfl, step, run⟩ := Parser.steps_eq_ok run going done
  obtain ⟨after, more, right, ⟨rfl, rfl⟩ | ⟨rfl, closed⟩⟩ := Parser.separator_eq_ok step
  · obtain ⟨text', items, tail', rfl, derives', fewest, below', run⟩ :=
      elements fewer (by omega) p q (first ++ [json]) .stItem more going (Or.inl rfl) run done
    exact ⟨before ++ (text ++ (after ++ 0x2C :: text')), json :: items, tail', by simp,
      .element blank derives right derives', fewest, by omega, by simpa using run⟩
  · obtain rfl := Except.ok.inj (Parser.close_inArray.symm.trans closed)
    exact ⟨before ++ (text ++ after), [json], more, by simp [closer, arrayNode],
      .lastElement blank derives right, fewer, by omega, run⟩

theorem readsMembers (value : ∀ less < count, ReadsValue shortest less)
    (members : ∀ less < count, ReadsMembers shortest less) : ReadsMembers shortest count := by
  intro p q first state rest going unclosed run done
  obtain ⟨r, less, rfl, step, run⟩ := Parser.steps_eq_ok run going done
  rw [Parser.step_memberName unclosed] at step
  obtain ⟨name, middle, quoted, scanned, colon, rfl⟩ := Parser.memberName_eq_ok step
  obtain ⟨before, blank, split⟩ := exists_space rest
  obtain ⟨spelling, runes, spelled, written, rfl⟩ := str_eq_ok quoted scanned
  obtain ⟨inner, gap, separated⟩ := exists_space_cons colon (by decide)
  replace run : (p.inObject shortest first .stValue (Utf8.encode runes)
    (skipSpace middle).tail).steps shortest less = .ok q := run
  generalize (skipSpace middle).tail = rest' at separated run
  obtain ⟨space, text, tail, json, left, lead, derives, fewer, below, run⟩ :=
    value less (by omega) _ q (Parser.expecting_inObject going) run done
  obtain rfl : rest' = space ++ (text ++ tail) := left
  rw [Parser.finish_inObject] at run
  obtain ⟨r, fewest, rfl, step, run⟩ := Parser.steps_eq_ok run going done
  have whole : rest = before ++ (spelling ++ (inner ++ 0x3A :: (space ++ (text ++ tail)))) := by
    rw [← separated, split]
    exact congrArg (before ++ ·) spelled
  obtain ⟨after, more, right, ⟨rfl, rfl⟩ | ⟨rfl, closed⟩⟩ := Parser.separator_eq_ok step
  · obtain ⟨text', fields, tail', rfl, derives', least, below', run⟩ :=
      members fewest (by omega) p q (first ++ [(runes, json)]) .stItem more going (Or.inl rfl) run done
    exact ⟨before ++ (spelling ++ (inner ++ 0x3A :: (space ++ (text ++ (after ++ 0x2C :: text'))))),
      (runes, json) :: fields, tail', by simpa using whole,
      .member blank written gap lead derives right derives', least, by omega, by simpa using run⟩
  · obtain rfl := Parser.close_inObject_eq_ok closed
    exact ⟨before ++ (spelling ++ (inner ++ 0x3A :: (space ++ (text ++ after)))), [(runes, json)],
      more, by simpa [closer, objectNode] using whole,
      .lastMember blank written gap lead derives right, fewest, by omega, run⟩

/-- A run that ends has read a value, by induction on its number of steps. -/
theorem reads_all (count : Nat) :
    ReadsValue shortest count ∧ ReadsElements shortest count ∧ ReadsMembers shortest count := by
  induction count using Nat.strong_induction_on with
  | h count ih =>
    have value : ReadsValue shortest count :=
      readsValue (fun less below => (ih less below).2.1) fun less below => (ih less below).2.2
    exact ⟨value, readsElements value fun less below => (ih less below).2.1,
      readsMembers (fun less below => (ih less below).1) fun less below => (ih less below).2.2⟩

/-- The parser before the first byte. -/
def Parser.start (data : Bytes) : Parser := { size := data.length, rest := data }

theorem Parser.expecting_start (data : Bytes) : (Parser.start data).Expecting :=
  ⟨rfl, Or.inl rfl⟩

/-- The bound on the steps is never what stops the parser: the run to it ends
with the table of the value or with an error. -/
theorem Parser.steps_denotes (shortest : Formatter) {data : Bytes} (denotes : Denotes data json) :
    ∃ after, Space after ∧
      ((json.Admissible maxDepth ∧ (Parser.start data).steps shortest (data.length + 1) =
        .ok ((Parser.start data).finish shortest json after)) ∨
      (¬json.Admissible maxDepth ∧
        ∃ error, (Parser.start data).steps shortest (data.length + 1) = .error error)) := by
  obtain ⟨before, text, after, rfl, left, right, derives⟩ := denotes
  have stops : Stop after := append_nil after ▸ .space_append right stop_nil
  have completes : (Parser.start (before ++ (text ++ after))).Completes shortest text.length
      (json.Distinct ∧ (Parser.start (before ++ (text ++ after))).stack.length + json.depth ≤ maxDepth)
      ((Parser.start (before ++ (text ++ after))).finish shortest json after) :=
    derives.parses (Parser.start (before ++ (text ++ after))) before after rfl left stops
      (Parser.expecting_start _) (Nat.zero_le _)
  refine ⟨after, right, ?_⟩
  have fits : json.Distinct ∧
      (Parser.start (before ++ (text ++ after))).stack.length + json.depth ≤ maxDepth ↔
      json.Admissible maxDepth := by
    rw [Json.Admissible, Parser.start, length_nil, Nat.zero_add]
  exact (completes.congr fits).outcome rfl (by simp; omega)

/-- What `parse` does with a text of the grammar. -/
theorem Parser.parse_denotes (shortest : Formatter) {data : Bytes} (denotes : Denotes data json) :
    (json.Admissible maxDepth ∧ (Parser.start data).parse shortest =
      .ok ((Parser.start data).finish shortest json [])) ∨
    (¬json.Admissible maxDepth ∧ ∃ error, (Parser.start data).parse shortest = .error error) := by
  obtain ⟨after, blank, ⟨admissible, run⟩ | ⟨fails, error, run⟩⟩ :=
    Parser.steps_denotes shortest denotes
  · refine Or.inl ⟨admissible, ?_⟩
    have run' : (Parser.start data).steps shortest ((Parser.start data).size + 1) =
      .ok ((Parser.start data).finish shortest json after) := run
    have skipped : skipSpace ((Parser.start data).finish shortest json after).rest = [] :=
      skipSpace_space blank
    rw [Parser.parse, run']
    simp only [bind, Except.bind, skipped]
    rfl
  · refine Or.inr ⟨fails, error, ?_⟩
    have run' : (Parser.start data).steps shortest ((Parser.start data).size + 1) = .error error := run
    rw [Parser.parse, run']
    rfl

/-- What `parse` accepts is a text of the grammar. -/
theorem Parser.denotes_of_parse {data : Bytes} {q : Parser}
    (parsed : (Parser.start data).parse shortest = .ok q) : ∃ json, Denotes data json := by
  rw [Parser.parse] at parsed
  cases run : (Parser.start data).steps shortest ((Parser.start data).size + 1) with
  | error error =>
    rw [run] at parsed
    cases parsed
  | ok r =>
    rw [run] at parsed
    simp only [bind, Except.bind] at parsed
    split_ifs at parsed with going left
    · cases parsed
    · cases parsed
    · have done : r.done = true := by simpa using going
      obtain ⟨before, text, tail, json, split, blank, derives, less, -, rest⟩ :=
        (reads_all _).1 _ r (Parser.expecting_start data) run done
      rw [Parser.steps_of_done rfl] at rest
      cases rest
      refine ⟨json, before, text, tail, split, blank, ?_, derives⟩
      exact skipSpace_eq_nil (not_not.mp left)

/-- `Canonicalize` accepts exactly the texts of values that have no object with
two members of one name and that nest at most `maxDepth` deep. -/
theorem canonicalize_accepts_iff (shortest : Formatter) (data : Bytes) :
    (∃ out, canonicalize shortest data = .ok out) ↔
      ∃ json, Denotes data json ∧ json.Admissible maxDepth := by
  constructor
  · rintro ⟨out, canonical⟩
    rw [canonicalize] at canonical
    cases parsed : (Parser.start data).parse shortest with
    | error error =>
      change ((Parser.start data).parse shortest).bind _ = _ at canonical
      rw [parsed] at canonical
      cases canonical
    | ok q =>
      obtain ⟨json, denotes⟩ := Parser.denotes_of_parse parsed
      rcases Parser.parse_denotes shortest denotes with
        ⟨admissible, -⟩ | ⟨-, error, failed⟩
      · exact ⟨json, denotes, admissible⟩
      · rw [parsed] at failed
        cases failed
  · rintro ⟨json, denotes, admissible⟩
    rcases Parser.parse_denotes shortest denotes with ⟨-, parsed⟩ | ⟨fails, -⟩
    · refine ⟨((Parser.start data).finish shortest json []).emit, ?_⟩
      change ((Parser.start data).parse shortest).bind _ = _
      rw [parsed]
      rfl
    · exact absurd admissible fails

end Golusoris.Jcs
