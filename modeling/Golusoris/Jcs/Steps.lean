import Golusoris.Jcs.Names

/-!
# Steps of the parser

What one step does in each state of the parser, as an equation over what is left
after white space, and how runs of steps compose. `Completes` is a run that ends
in a given state if a condition holds and with an error if it does not.
-/

namespace Golusoris.Jcs

open Lib

variable {shortest : Formatter}

variable {rest : Bytes}

theorem skipSpace_append {before : Bytes} (blank : Space before)
    (solid : isSpace (peek rest) = false) : skipSpace (before ++ rest) = rest := by
  rw [skipSpace, List.dropWhile_append_of_pos blank]
  cases rest with
  | nil => rfl
  | cons byte rest =>
    rw [peek_cons] at solid
    exact List.dropWhile_cons_of_neg (by simp [solid])

/-- White space and what is left after it. -/
theorem exists_space (rest : Bytes) :
    ∃ before, Space before ∧ rest = before ++ skipSpace rest :=
  ⟨rest.takeWhile isSpace, fun _ found => List.all_eq_true.mp List.all_takeWhile _ found,
    List.takeWhile_append_dropWhile.symm⟩

theorem cons_tail_of_peek {byte : UInt8} (same : peek rest = byte) (present : byte ≠ 0) :
    rest = byte :: rest.tail := by
  cases rest with
  | nil => exact absurd same.symm present
  | cons first rest => exact congrArg (· :: rest) same

/-- The byte after white space, with the white space before it. -/
theorem exists_space_cons {byte : UInt8} (same : peek (skipSpace rest) = byte)
    (present : byte ≠ 0) :
    ∃ before, Space before ∧ rest = before ++ byte :: (skipSpace rest).tail := by
  obtain ⟨before, blank, split⟩ := exists_space rest
  refine ⟨before, blank, ?_⟩
  rw [← cons_tail_of_peek same present]
  exact split

theorem skipSpace_eq_nil (empty : skipSpace rest = []) : Space rest := by
  obtain ⟨before, blank, split⟩ := exists_space rest
  rw [empty, List.append_nil] at split
  exact split ▸ blank

theorem skipSpace_space (blank : Space rest) : skipSpace rest = [] := by
  have skipped : skipSpace (rest ++ []) = [] := skipSpace_append blank rfl
  rwa [List.append_nil] at skipped

variable {p : Parser}

theorem Parser.steps_of_done (done : p.done = true) (count : Nat) :
    p.steps shortest count = .ok p := by
  cases count with
  | zero => rfl
  | succ count => rw [Parser.steps, if_pos done]

theorem Parser.steps_succ (going : p.done = false) (count : Nat) :
    p.steps shortest (count + 1) = (p.step shortest).bind (Parser.steps shortest count) := by
  rw [Parser.steps, if_neg (by simp [going])]
  rfl

theorem Parser.steps_add (p : Parser) (count more : Nat) :
    p.steps shortest (count + more) =
      (p.steps shortest count).bind (Parser.steps shortest more) := by
  induction count generalizing p with
  | zero =>
    rw [Nat.zero_add]
    rfl
  | succ count ih =>
    cases done : p.done with
    | true =>
      rw [Parser.steps_of_done done, Parser.steps_of_done done]
      exact (Parser.steps_of_done done more).symm
    | false =>
      rw [Nat.add_right_comm, Parser.steps_succ done, Parser.steps_succ done]
      cases p.step shortest with
      | error error => rfl
      | ok q => exact ih q

/-- Within so many steps the parser gets to `q` if the condition holds, and
fails if it does not. -/
def Parser.Completes (shortest : Formatter) (p : Parser) (bound : Nat) (fits : Prop) (q : Parser) :
    Prop :=
  (fits ∧ ∃ count ≤ bound, p.steps shortest count = .ok q) ∨
    (¬fits ∧ ∃ count ≤ bound, ∃ error, p.steps shortest count = .error error)

section

variable {p q r : Parser} {bound more : Nat} {fits other : Prop}

theorem Parser.Completes.mono (completes : p.Completes shortest bound fits q)
    (below : bound ≤ more) : p.Completes shortest more fits q := by
  rcases completes with ⟨holds, count, within, run⟩ | ⟨fails, count, within, run⟩
  · exact Or.inl ⟨holds, count, within.trans below, run⟩
  · exact Or.inr ⟨fails, count, within.trans below, run⟩

theorem Parser.Completes.congr (completes : p.Completes shortest bound fits q)
    (same : fits ↔ other) : p.Completes shortest bound other q := by
  rwa [← propext same]

/-- Runs compose: the first failure is the failure of the whole. -/
theorem Parser.Completes.trans (first : p.Completes shortest bound fits q)
    (second : q.Completes shortest more other r) :
    p.Completes shortest (bound + more) (fits ∧ other) r := by
  rcases first with ⟨holds, count, within, run⟩ | ⟨fails, count, within, error, run⟩
  · rcases second with ⟨holds', count', within', run'⟩ | ⟨fails', count', within', error, run'⟩
    · refine Or.inl ⟨⟨holds, holds'⟩, count + count', by omega, ?_⟩
      rw [Parser.steps_add, run]
      exact run'
    · refine Or.inr ⟨fun both => fails' both.2, count + count', by omega, error, ?_⟩
      rw [Parser.steps_add, run]
      exact run'
  · exact Or.inr ⟨fun both => fails both.1, count, by omega, error, run⟩

theorem Parser.completes_step (going : p.done = false) (step : p.step shortest = .ok q) :
    p.Completes shortest 1 True q := by
  refine Or.inl ⟨trivial, 1, Nat.le_refl _, ?_⟩
  rw [Parser.steps_succ going, step]
  rfl

theorem Parser.completes_error (going : p.done = false) {error : JcsError}
    (step : p.step shortest = .error error) (fails : ¬fits) : p.Completes shortest 1 fits q := by
  refine Or.inr ⟨fails, 1, Nat.le_refl _, error, ?_⟩
  rw [Parser.steps_succ going, step]
  rfl

/-- A step on the way to a run with one more step. -/
theorem Parser.Completes.after (going : p.done = false) (step : p.step shortest = .ok q)
    (rest : q.Completes shortest bound fits r) : p.Completes shortest (bound + 1) fits r := by
  have whole := (Parser.completes_step going step).trans rest
  rw [Nat.add_comm 1] at whole
  exact whole.congr (by rw [true_and])

/-- Past the bound the outcome no longer changes. -/
theorem Parser.Completes.outcome (completes : p.Completes shortest bound fits q)
    (done : q.done = true) (below : bound ≤ more) :
    (fits ∧ p.steps shortest more = .ok q) ∨
      (¬fits ∧ ∃ error, p.steps shortest more = .error error) := by
  rcases completes with ⟨holds, count, within, run⟩ | ⟨fails, count, within, error, run⟩
  · refine Or.inl ⟨holds, ?_⟩
    rw [← Nat.add_sub_cancel' (within.trans below), Parser.steps_add, run]
    exact Parser.steps_of_done done _
  · refine Or.inr ⟨fails, error, ?_⟩
    rw [← Nat.add_sub_cancel' (within.trans below), Parser.steps_add, run]
    rfl

end

/-- The next step reads a value: at the top level, after a member name, or for
an element of an array that is not closed here. -/
def Parser.Expecting (p : Parser) : Prop :=
  p.done = false ∧ (p.stack = [] ∨ ∃ frame stack, p.stack = frame :: stack ∧
    (frame.state = .stValue ∨ (p.kindOf frame = .array ∧ (frame.state = .stItem ∨
      (frame.state = .stOpen ∧ peek (skipSpace p.rest) ≠ 0x5D)))))

theorem Parser.Expecting.step (expecting : p.Expecting) :
    p.step shortest = Parser.value shortest { p with rest := skipSpace p.rest } := by
  obtain ⟨-, top | ⟨frame, stack, top, state⟩⟩ := expecting
  · simp only [Parser.step, top]
  · rcases state with named | ⟨array, item | ⟨opened, unclosed⟩⟩
    · simp only [Parser.step, top, named]
    · have array' : Parser.kindOf { p with rest := skipSpace p.rest, stack := frame :: stack } frame
          = .array := array
      simp [Parser.step, top, item, array']
    · have array' : Parser.kindOf { p with rest := skipSpace p.rest, stack := frame :: stack } frame
          = .array := array
      have closed : ¬peek (skipSpace p.rest) = closer .array := unclosed
      simp [Parser.step, top, opened, array', closed]

theorem Parser.step_of_object {frame : Frame} {stack : List Frame}
    (top : p.stack = frame :: stack) (object : p.kindOf frame = .object)
    (unclosed : frame.state = .stItem ∨ (frame.state = .stOpen ∧ peek (skipSpace p.rest) ≠ 0x7D)) :
    p.step shortest = Parser.memberName { p with rest := skipSpace p.rest } frame stack := by
  have object' : Parser.kindOf { p with rest := skipSpace p.rest, stack := frame :: stack } frame
      = .object := object
  rcases unclosed with item | ⟨opened, unclosed⟩
  · simp [Parser.step, top, item, object']
  · have closed : ¬peek (skipSpace p.rest) = closer .object := unclosed
    simp [Parser.step, top, opened, object', closed]

/-- The parser inside an array after some elements. -/
def Parser.inArray (shortest : Formatter) (p : Parser) (elements : List Json) (state : FrameState)
    (rest : Bytes) : Parser :=
  p.within (arrayNode (childAt (p.nodes.length + 1) elements))
    (layoutAll shortest (p.nodes.length + 1) elements) state [] rest

/-- The parser inside an object after some members, with the name that waits for
its value. -/
def Parser.inObject (shortest : Formatter) (p : Parser) (members : List (List Char × Json))
    (state : FrameState) (name rest : Bytes) : Parser :=
  p.within (objectNode (membersAt (p.nodes.length + 1) members))
    (layoutMembers shortest (p.nodes.length + 1) members) state name rest

section

variable {p : Parser} {node : Node} {laid : List Node} {state : FrameState} {name rest tail : Bytes}
  {elements : List Json} {members : List (List Char × Json)}

@[simp] theorem Parser.done_within : (p.within node laid state name rest).done = p.done := rfl

@[simp] theorem Parser.length_stack_within :
    (p.within node laid state name rest).stack.length = p.stack.length + 1 :=
  rfl

@[simp] theorem Parser.rest_within : (p.within node laid state name rest).rest = rest := rfl

/-- A step after a child reads a comma or the closer. -/
theorem Parser.step_separator :
    (p.within node laid .stSep name rest).step shortest =
      if peek (skipSpace rest) = 0x2C then
        .ok (p.within node laid .stItem name (skipSpace rest).tail)
      else if peek (skipSpace rest) = closer node.kind then
        (p.within node laid .stSep name (skipSpace rest).tail).closeFrame
      else p.fail (.errSyntax, skipSpace rest) := by
  change Parser.separator (p.within node laid .stSep name (skipSpace rest)) _ _ = _
  rw [Parser.separator, Parser.kindOf_within p node laid .stSep name _ rfl]
  rfl

/-- A step right after the opener may close the container. -/
theorem Parser.step_open_close (closed : peek (skipSpace rest) = closer node.kind) :
    (p.within node laid .stOpen name rest).step shortest =
      (p.within node laid .stOpen name (skipSpace rest).tail).closeFrame := by
  change (if FrameState.stOpen = .stOpen ∧ peek (skipSpace rest) =
    closer ((p.within node laid .stOpen name (skipSpace rest)).kindOf
      ⟨p.nodes.length, .stOpen, name⟩) then _ else _) = _
  rw [Parser.kindOf_within p node laid .stOpen name _ rfl, if_pos ⟨rfl, closed⟩]
  rfl

theorem Parser.finish_inArray (json : Json) :
    (p.inArray shortest elements state rest).finish shortest json tail =
      p.inArray shortest (elements ++ [json]) .stSep tail := by
  rw [Parser.inArray, Parser.finish_within, Parser.inArray, length_layoutAll, layoutAll_append,
    childAt_append]
  rfl

theorem Parser.close_inArray :
    (p.inArray shortest elements state rest).closeFrame =
      .ok (p.finish shortest (.array elements) rest) :=
  Parser.closeFrame_within_array rfl

theorem Parser.finish_inObject (name : List Char) (json : Json) :
    (p.inObject shortest members state (Utf8.encode name) rest).finish shortest json tail =
      p.inObject shortest (members ++ [(name, json)]) .stSep [] tail := by
  rw [Parser.inObject, Parser.finish_within, Parser.inObject, length_layoutMembers,
    layoutMembers_append, membersAt_append]
  rfl

/-- Closing an object checks that its names differ. -/
theorem Parser.close_inObject :
    ((members.map Prod.fst).Nodup → (p.inObject shortest members state name rest).closeFrame =
      .ok (p.finish shortest (.object members) rest)) ∧
    (¬(members.map Prod.fst).Nodup → ∃ error,
      (p.inObject shortest members state name rest).closeFrame = .error error) := by
  have check := repeatedMember_membersAt (p.nodes.length + 1) members
  rw [Parser.inObject, Parser.closeFrame_within_object rfl]
  cases found : repeatedMember (sortMembers (membersAt (p.nodes.length + 1) members)) with
  | none =>
    simp only [objectNode, found]
    exact ⟨fun _ => rfl, fun repeats => absurd (check.mp found) repeats⟩
  | some member =>
    simp only [objectNode, found]
    refine ⟨fun distinct => ?_, fun _ => ⟨_, rfl⟩⟩
    rw [check.mpr distinct] at found
    cases found

/-- A step where a member is expected reads its name and the colon. -/
theorem Parser.step_memberName
    (unclosed : state = .stItem ∨ (state = .stOpen ∧ peek (skipSpace rest) ≠ 0x7D)) :
    (p.inObject shortest members state [] rest).step shortest =
      Parser.memberName (p.inObject shortest members state [] (skipSpace rest))
        ⟨p.nodes.length, state, []⟩ p.stack :=
  Parser.step_of_object rfl (Parser.kindOf_within _ _ _ _ _ _ rfl) unclosed

theorem Parser.expecting_inArray (going : p.done = false)
    (unclosed : state = .stItem ∨ (state = .stOpen ∧ peek (skipSpace rest) ≠ 0x5D)) :
    (p.inArray shortest elements state rest).Expecting :=
  ⟨going, Or.inr ⟨_, _, rfl, Or.inr ⟨Parser.kindOf_within _ _ _ _ _ _ rfl, unclosed⟩⟩⟩

theorem Parser.expecting_inObject (going : p.done = false) :
    (p.inObject shortest members .stValue name rest).Expecting :=
  ⟨going, Or.inr ⟨_, _, rfl, Or.inl rfl⟩⟩

end

end Golusoris.Jcs
