import Golusoris.Lib.Utf8
import Mathlib.Tactic.SplitIfs

/-!
# JSON texts with their layout

A phrase is a piece of JSON text as its syntax tree: white space, number literals
and the bodies of strings stay as they are written, so the text of a phrase is a
function of it. `parse` reads a text back into the phrase, within a bound on how
deep arrays and objects nest. The scanner looks at bytes only: a string may hold
any bytes that need no escape.
-/

namespace Golusoris.Lib.Json

open List

def isBlank (byte : UInt8) : Bool :=
  byte == 0x20 || byte == 0x09 || byte == 0x0A || byte == 0x0D

def blanks (text : Bytes) : Bytes := text.takeWhile isBlank

def skip (text : Bytes) : Bytes := text.dropWhile isBlank

def isHexDigit (byte : UInt8) : Bool :=
  (0x30 ≤ byte && byte ≤ 0x39) || (0x61 ≤ byte && byte ≤ 0x66) || (0x41 ≤ byte && byte ≤ 0x46)

/-- Where the scanner stands in a string: between characters, after a backslash, or in
an escape with so many hexadecimal digits after the next one. -/
inductive Quoted where
  | plain
  | escape
  | digits (left : Nat)
  deriving DecidableEq, Repr

/-- The bytes that may follow a backslash, apart from `u`. -/
def isShortEscape (byte : UInt8) : Bool :=
  byte == 0x22 || byte == 0x5C || byte == 0x2F || byte == 0x62 || byte == 0x66 || byte == 0x6E ||
    byte == 0x72 || byte == 0x74

/-- A byte inside a string that does not end it. -/
def Quoted.step : Quoted → UInt8 → Option Quoted
  | .plain, byte =>
      if byte = 0x22 then none else if byte = 0x5C then some .escape
      else if byte < 0x20 then none else some .plain
  | .escape, byte =>
      if byte = 0x75 then some (.digits 3) else if isShortEscape byte then some .plain else none
  | .digits left, byte =>
      if isHexDigit byte then some (if left = 0 then .plain else .digits (left - 1)) else none

/-- The bytes are the rest of a string up to its closing quote. -/
def wellQuoted : Quoted → Bytes → Bool
  | state, [] => state = .plain
  | state, byte :: rest =>
      match state.step byte with
      | none => false
      | some next => wellQuoted next rest

/-- The rest of a string and what follows its closing quote. -/
def scanString : Quoted → Bytes → Option (Bytes × Bytes)
  | _, [] => none
  | state, byte :: rest =>
      if state = .plain ∧ byte = 0x22 then some ([], rest)
      else
        match state.step byte with
        | none => none
        | some next => (scanString next rest).map fun scanned => (byte :: scanned.1, scanned.2)

/-- Where the scanner stands in a number. -/
inductive Numeral where
  | start
  | minus
  | zero
  | whole
  | point
  | fraction
  | exponent
  | sign
  | power
  deriving DecidableEq, Repr

def isNumeric (byte : UInt8) : Bool := 0x30 ≤ byte && byte ≤ 0x39

/-- After the whole part. -/
def Numeral.onward (byte : UInt8) : Option Numeral :=
  if byte = 0x2E then some .point else if byte = 0x65 ∨ byte = 0x45 then some .exponent else none

/-- At the first digit. -/
def Numeral.first (byte : UInt8) : Option Numeral :=
  if byte = 0x30 then some .zero else if isNumeric byte then some .whole else none

def Numeral.step : Numeral → UInt8 → Option Numeral
  | .start, byte => if byte = 0x2D then some .minus else Numeral.first byte
  | .minus, byte => Numeral.first byte
  | .zero, byte => Numeral.onward byte
  | .whole, byte => if isNumeric byte then some .whole else Numeral.onward byte
  | .point, byte => if isNumeric byte then some .fraction else none
  | .fraction, byte =>
      if isNumeric byte then some .fraction
      else if byte = 0x65 ∨ byte = 0x45 then some .exponent else none
  | .exponent, byte =>
      if byte = 0x2B ∨ byte = 0x2D then some .sign
      else if isNumeric byte then some .power else none
  | .sign, byte => if isNumeric byte then some .power else none
  | .power, byte => if isNumeric byte then some .power else none

def Numeral.final : Numeral → Bool
  | .zero | .whole | .fraction | .power => true
  | _ => false

/-- The bytes are the rest of a number. -/
def wellNumbered : Numeral → Bytes → Bool
  | state, [] => state.final
  | state, byte :: rest =>
      match state.step byte with
      | none => false
      | some next => wellNumbered next rest

/-- The rest of a number as far as it goes, and what follows it. -/
def scanNumber : Numeral → Bytes → Option (Bytes × Bytes)
  | state, [] => if state.final then some ([], []) else none
  | state, byte :: rest =>
      match state.step byte with
      | none => if state.final then some ([], byte :: rest) else none
      | some next => (scanNumber next rest).map fun scanned => (byte :: scanned.1, scanned.2)

inductive Word where
  | null
  | true
  | false
  deriving DecidableEq, Repr

def Word.text : Word → Bytes
  | .null => [0x6E, 0x75, 0x6C, 0x6C]
  | .true => [0x74, 0x72, 0x75, 0x65]
  | .false => [0x66, 0x61, 0x6C, 0x73, 0x65]

def scanWord (text : Bytes) : Option (Word × Bytes) :=
  ([Word.null, Word.true, Word.false].find? fun word => word.text.isPrefixOf text).map
    fun word => (word, text.drop word.text.length)

inductive Kind where
  | value
  | elements
  | members

/-- A piece of JSON text. Elements and members are those between the brackets, at least
one of them. -/
inductive Phrase : Kind → Type where
  | word (literal : Word) : Phrase .value
  | number (text : Bytes) : Phrase .value
  | string (body : Bytes) : Phrase .value
  | emptyArray (space : Bytes) : Phrase .value
  | array (items : Phrase .elements) : Phrase .value
  | emptyObject (space : Bytes) : Phrase .value
  | object (items : Phrase .members) : Phrase .value
  | lastElement (before : Bytes) (value : Phrase .value) (after : Bytes) : Phrase .elements
  | element (before : Bytes) (value : Phrase .value) (after : Bytes) (rest : Phrase .elements) :
      Phrase .elements
  | lastMember (before name middle space : Bytes) (value : Phrase .value) (after : Bytes) :
      Phrase .members
  | member (before name middle space : Bytes) (value : Phrase .value) (after : Bytes)
      (rest : Phrase .members) : Phrase .members

def quotes (body : Bytes) : Bytes := 0x22 :: (body ++ [0x22])

/-- The name of a member with the colon and the space around it. -/
def heading (before name middle space : Bytes) : Bytes :=
  before ++ (quotes name ++ (middle ++ 0x3A :: space))

/-- The text of a phrase. -/
def Phrase.source : {kind : Kind} → Phrase kind → Bytes
  | _, .word literal => literal.text
  | _, .number text => text
  | _, .string body => quotes body
  | _, .emptyArray space => 0x5B :: (space ++ [0x5D])
  | _, .array items => 0x5B :: (items.source ++ [0x5D])
  | _, .emptyObject space => 0x7B :: (space ++ [0x7D])
  | _, .object items => 0x7B :: (items.source ++ [0x7D])
  | _, .lastElement before value after => before ++ (value.source ++ after)
  | _, .element before value after rest =>
      before ++ (value.source ++ (after ++ 0x2C :: rest.source))
  | _, .lastMember before name middle space value after =>
      heading before name middle space ++ (value.source ++ after)
  | _, .member before name middle space value after rest =>
      heading before name middle space ++ (value.source ++ (after ++ 0x2C :: rest.source))

/-- How deep arrays and objects nest. -/
def Phrase.depth : {kind : Kind} → Phrase kind → Nat
  | _, .word _ | _, .number _ | _, .string _ => 0
  | _, .emptyArray _ | _, .emptyObject _ => 1
  | _, .array items => items.depth + 1
  | _, .object items => items.depth + 1
  | _, .lastElement _ value _ => value.depth
  | _, .element _ value _ rest => max value.depth rest.depth
  | _, .lastMember _ _ _ _ value _ => value.depth
  | _, .member _ _ _ _ value _ rest => max value.depth rest.depth

/-- The calls that reading a phrase nests. -/
def Phrase.height : {kind : Kind} → Phrase kind → Nat
  | _, .word _ | _, .number _ | _, .string _ | _, .emptyArray _ | _, .emptyObject _ => 1
  | _, .array items => items.height + 1
  | _, .object items => items.height + 1
  | _, .lastElement _ value _ => value.height + 1
  | _, .element _ value _ rest => max value.height rest.height + 1
  | _, .lastMember _ _ _ _ value _ => value.height + 1
  | _, .member _ _ _ _ value _ rest => max value.height rest.height + 1

def Blank (text : Bytes) : Prop := text.all isBlank

/-- The spaces are white space and the literals are such. -/
def Phrase.WellFormed : {kind : Kind} → Phrase kind → Prop
  | _, .word _ => True
  | _, .number text => wellNumbered .start text
  | _, .string body => wellQuoted .plain body
  | _, .emptyArray space => Blank space
  | _, .array items => items.WellFormed
  | _, .emptyObject space => Blank space
  | _, .object items => items.WellFormed
  | _, .lastElement before value after => Blank before ∧ value.WellFormed ∧ Blank after
  | _, .element before value after rest =>
      (Blank before ∧ value.WellFormed ∧ Blank after) ∧ rest.WellFormed
  | _, .lastMember before name middle space value after =>
      (Blank before ∧ wellQuoted .plain name ∧ Blank middle ∧ Blank space) ∧
        value.WellFormed ∧ Blank after
  | _, .member before name middle space value after rest =>
      ((Blank before ∧ wellQuoted .plain name ∧ Blank middle ∧ Blank space) ∧
        value.WellFormed ∧ Blank after) ∧ rest.WellFormed

/-- The name of a member up to the value. -/
def scanHeading (text : Bytes) : Option ((Bytes × Bytes × Bytes × Bytes) × Bytes) :=
  if (skip text).head? = some 0x22 then
    (scanString .plain (skip text).tail).bind fun scanned =>
      let rest := scanned.2
      let after := (skip rest).tail
      if (skip rest).head? = some 0x3A then
        some ((blanks text, scanned.1, blanks rest, blanks after), skip after)
      else none
  else none

/-- The rest of a container after its opening bracket; the closing one is last. -/
def close {kind : Kind} (closer : UInt8) (empty : Bytes → Phrase .value)
    (items : Option (Phrase kind × Bytes)) (whole : Phrase kind → Phrase .value) (text : Bytes) :
    Option (Phrase .value × Bytes) :=
  if (skip text).head? = some closer then some (empty (blanks text), (skip text).tail)
  else
    items.bind fun read =>
      if read.2.head? = some closer then some (whole read.1, read.2.tail) else none

/-- A number or a word. -/
def scanScalar (text : Bytes) : Option (Phrase .value × Bytes) :=
  match scanWord text with
  | some (word, rest) => some (.word word, rest)
  | none => (scanNumber .start text).map fun scanned => (.number scanned.1, scanned.2)

/-- Go on after a value: to the next item, or to the end of the list. -/
def proceed {kind : Kind} (last : Bytes → Phrase kind) (more : Bytes → Phrase kind → Phrase kind)
    (items : Bytes → Option (Phrase kind × Bytes)) (rest : Bytes) : Option (Phrase kind × Bytes) :=
  if (skip rest).head? = some 0x2C then
    (items (skip rest).tail).map fun read => (more (blanks rest) read.1, read.2)
  else some (last (blanks rest), skip rest)

/-- Read a phrase at the front, with so many calls and so much nesting left. -/
def parse : Nat → (kind : Kind) → Nat → Bytes → Option (Phrase kind × Bytes)
  | 0, _, _, _ => none
  | fuel + 1, .value, depth, text =>
      if text.head? = some 0x5B then
        if depth = 0 then none
        else close 0x5D .emptyArray (parse fuel .elements (depth - 1) text.tail) .array text.tail
      else if text.head? = some 0x7B then
        if depth = 0 then none
        else close 0x7D .emptyObject (parse fuel .members (depth - 1) text.tail) .object text.tail
      else if text.head? = some 0x22 then
        (scanString .plain text.tail).map fun scanned => (.string scanned.1, scanned.2)
      else scanScalar text
  | fuel + 1, .elements, depth, text =>
      (parse fuel .value depth (skip text)).bind fun read =>
        proceed (.lastElement (blanks text) read.1) (.element (blanks text) read.1)
          (parse fuel .elements depth) read.2
  | fuel + 1, .members, depth, text =>
      (scanHeading text).bind fun scanned =>
        let (before, name, middle, space) := scanned.1
        (parse fuel .value depth scanned.2).bind fun read =>
          proceed (.lastMember before name middle space read.1)
            (.member before name middle space read.1) (parse fuel .members depth) read.2

/-- Calls that are enough for any text of this length. -/
def enough (text : Bytes) : Nat := 2 * text.length

/-- The value that a whole text is, apart from white space around it. -/
def document (depth : Nat) (text : Bytes) : Option (Phrase .value) :=
  (parse (enough text) .value depth (skip text)).bind fun read =>
    if skip read.2 = [] then some read.1 else none

/-- White space ends here. -/
def Solid (rest : Bytes) : Prop := ∀ byte ∈ rest.head?, isBlank byte = false

variable {byte : UInt8}

theorem solid_cons {rest : Bytes} (ink : isBlank byte = false) : Solid (byte :: rest) := by
  intro other found
  rw [head?_cons, Option.mem_some_iff] at found
  rwa [← found]

theorem blanks_append_skip (text : Bytes) : blanks text ++ skip text = text :=
  takeWhile_append_dropWhile

theorem skip_append {space rest : Bytes} (blank : Blank space) (solid : Solid rest) :
    skip (space ++ rest) = rest := by
  rw [skip, dropWhile_append_of_pos (all_eq_true.mp blank)]
  cases rest with
  | nil => rfl
  | cons byte rest => rw [dropWhile_cons_of_neg (by simp [solid byte rfl])]

theorem blanks_append {space rest : Bytes} (blank : Blank space) (solid : Solid rest) :
    blanks (space ++ rest) = space := by
  have whole := blanks_append_skip (space ++ rest)
  rw [skip_append blank solid] at whole
  exact append_cancel_right whole

/-- A string ends at the first quote that is not escaped. -/
theorem scanString_append {state : Quoted} {body rest : Bytes} (quoted : wellQuoted state body) :
    scanString state (body ++ 0x22 :: rest) = some (body, rest) := by
  induction body generalizing state with
  | nil =>
    rw [wellQuoted, decide_eq_true_eq] at quoted
    rw [nil_append, scanString, if_pos ⟨quoted, rfl⟩]
  | cons byte body ih =>
    rw [wellQuoted] at quoted
    have goes : ¬(state = .plain ∧ byte = 0x22) := by
      rintro ⟨rfl, rfl⟩
      cases quoted
    rw [cons_append, scanString, if_neg goes]
    cases stepped : state.step byte with
    | none =>
      rw [stepped] at quoted
      cases quoted
    | some next =>
      rw [stepped] at quoted
      simp [ih quoted]

/-- No number goes on with this byte. -/
def endsNumber (byte : UInt8) : Bool :=
  !(isNumeric byte || byte == 0x2E || byte == 0x65 || byte == 0x45 || byte == 0x2B || byte == 0x2D)

/-- What follows a value: nothing that a number could go on with. -/
def Stops (rest : Bytes) : Prop := ∀ byte ∈ rest.head?, endsNumber byte

theorem stops_cons {rest : Bytes} (ends : endsNumber byte) : Stops (byte :: rest) := by
  intro other found
  rw [head?_cons, Option.mem_some_iff] at found
  rwa [← found]

theorem step_eq_none_of_endsNumber (ends : endsNumber byte) (state : Numeral) :
    state.step byte = none := by
  simp only [endsNumber, Bool.not_eq_true', Bool.or_eq_false_iff, beq_eq_false_iff_ne] at ends
  obtain ⟨⟨⟨⟨⟨digit, point⟩, small⟩, large⟩, plus⟩, minus⟩ := ends
  have zero : byte ≠ 0x30 := by
    rintro rfl
    cases digit
  cases state <;>
    simp [Numeral.step, Numeral.first, Numeral.onward, digit, point, small, large, plus, minus, zero]

theorem scanNumber_append {state : Numeral} {number rest : Bytes}
    (written : wellNumbered state number) (stops : Stops rest) :
    scanNumber state (number ++ rest) = some (number, rest) := by
  induction number generalizing state with
  | nil =>
    rw [wellNumbered] at written
    cases rest with
    | nil => simp [scanNumber, written]
    | cons byte rest =>
      simp [scanNumber, step_eq_none_of_endsNumber (stops byte rfl), written]
  | cons byte number ih =>
    rw [wellNumbered] at written
    rw [cons_append, scanNumber]
    cases stepped : state.step byte with
    | none =>
      rw [stepped] at written
      cases written
    | some next =>
      rw [stepped] at written
      simp [ih written]

theorem scanWord_append (word : Word) (rest : Bytes) :
    scanWord (word.text ++ rest) = some (word, rest) := by
  cases word <;> simp [scanWord, Word.text, find?, isPrefixOf]

theorem eq_cons_of_head? {text : Bytes} (starts : text.head? = some byte) :
    text = byte :: text.tail := by
  cases text with
  | nil => cases starts
  | cons other text =>
    rw [head?_cons, Option.some.injEq] at starts
    rw [starts, tail_cons]

theorem scanHeading_append {before name middle space rest : Bytes} (left : Blank before)
    (quoted : wellQuoted .plain name) (inner : Blank middle) (right : Blank space)
    (solid : Solid rest) :
    scanHeading (heading before name middle space ++ rest) =
      some ((before, name, middle, space), rest) := by
  have quote : Solid (0x22 :: (name ++ 0x22 :: (middle ++ 0x3A :: (space ++ rest)))) :=
    solid_cons rfl
  have colon : Solid (0x3A :: (space ++ rest)) := solid_cons rfl
  have shape : heading before name middle space ++ rest =
      before ++ 0x22 :: (name ++ 0x22 :: (middle ++ 0x3A :: (space ++ rest))) := by
    simp [heading, quotes]
  have scanned : scanString .plain (name ++ 0x22 :: (middle ++ 0x3A :: (space ++ rest))) =
      some (name, middle ++ 0x3A :: (space ++ rest)) :=
    scanString_append quoted
  rw [shape, scanHeading, skip_append left quote, blanks_append left quote]
  simp only [head?_cons, if_true, tail_cons, scanned, Option.bind_some]
  rw [skip_append inner colon, blanks_append inner colon]
  simp only [head?_cons, if_true, tail_cons]
  rw [skip_append right solid, blanks_append right solid]

theorem Stops.blank_append {after rest : Bytes} (blank : Blank after) (stops : Stops rest) :
    Stops (after ++ rest) := by
  cases after with
  | nil => exact stops
  | cons byte after =>
    have spaced : isBlank byte := all_eq_true.mp blank byte mem_cons_self
    refine stops_cons ?_
    simp only [isBlank, Bool.or_eq_true, beq_iff_eq] at spaced
    rcases spaced with ((rfl | rfl) | rfl) | rfl <;> rfl

/-- No value starts with white space, a closing bracket, or nothing. -/
structure Opens (text : Bytes) : Prop where
  filled : text ≠ []
  solid : Solid text
  unclosed : text.head? ≠ some 0x5D ∧ text.head? ≠ some 0x7D

theorem opens_cons {rest : Bytes} (ink : isBlank byte = false) (array : byte ≠ 0x5D)
    (object : byte ≠ 0x7D) : Opens (byte :: rest) where
  filled := cons_ne_nil _ _
  solid := solid_cons ink
  unclosed := by simp [array, object]

/-- A number starts with a minus or a digit. -/
theorem wellNumbered_start {number : Bytes} (written : wellNumbered .start number) :
    ∃ byte rest, number = byte :: rest ∧ (byte = 0x2D ∨ isNumeric byte) := by
  cases number with
  | nil => cases written
  | cons byte rest =>
    refine ⟨byte, rest, rfl, ?_⟩
    rw [wellNumbered] at written
    by_cases minus : byte = 0x2D
    · exact .inl minus
    · simp only [Numeral.step, if_neg minus, Numeral.first] at written
      split_ifs at written with zero digit
      · rw [zero]
        exact .inr rfl
      · exact .inr digit

theorem not_numeric {other : UInt8} (starts : byte = 0x2D ∨ isNumeric byte)
    (marked : other ≠ 0x2D) (letter : isNumeric other = false) : byte ≠ other := by
  rintro rfl
  rcases starts with rfl | digit
  · exact marked rfl
  · rw [letter] at digit
    cases digit

theorem isBlank_of_numeric (starts : byte = 0x2D ∨ isNumeric byte) : isBlank byte = false := by
  have other {space : UInt8} (marked : space ≠ 0x2D) (letter : isNumeric space = false) :=
    not_numeric starts marked letter
  simp [isBlank, @other 0x20 (by decide) rfl, @other 0x09 (by decide) rfl,
    @other 0x0A (by decide) rfl, @other 0x0D (by decide) rfl]

variable {phrase : Phrase .value}

theorem Phrase.opens (written : phrase.WellFormed) (rest : Bytes) :
    Opens (phrase.source ++ rest) := by
  cases phrase with
  | word literal => cases literal <;> exact opens_cons rfl (by decide) (by decide)
  | number text =>
    obtain ⟨byte, digits, rfl, starts⟩ := wellNumbered_start written
    exact opens_cons (isBlank_of_numeric starts) (not_numeric starts (by decide) rfl)
      (not_numeric starts (by decide) rfl)
  | string _ | emptyArray _ | array _ | emptyObject _ | object _ =>
    exact opens_cons rfl (by decide) (by decide)

variable {kind : Kind}

theorem close_empty {closer : UInt8} {empty : Bytes → Phrase .value}
    {items : Option (Phrase kind × Bytes)} {whole : Phrase kind → Phrase .value}
    {space rest : Bytes} (blank : Blank space) (ink : isBlank closer = false) :
    close closer empty items whole (space ++ closer :: rest) = some (empty space, rest) := by
  rw [close, skip_append blank (solid_cons ink), blanks_append blank (solid_cons ink)]
  simp

theorem close_items {closer : UInt8} {empty : Bytes → Phrase .value}
    {items : Option (Phrase kind × Bytes)} {whole : Phrase kind → Phrase .value}
    {text rest : Bytes} {inside : Phrase kind} (more : (skip text).head? ≠ some closer)
    (read : items = some (inside, closer :: rest)) :
    close closer empty items whole text = some (whole inside, rest) := by
  rw [close, if_neg more, read]
  simp

theorem proceed_last {last : Bytes → Phrase kind} {more : Bytes → Phrase kind → Phrase kind}
    {items : Bytes → Option (Phrase kind × Bytes)} {after rest : Bytes} (blank : Blank after)
    (solid : Solid rest) (ends : rest.head? ≠ some 0x2C) :
    proceed last more items (after ++ rest) = some (last after, rest) := by
  rw [proceed, skip_append blank solid, blanks_append blank solid, if_neg ends]

theorem proceed_more {last : Bytes → Phrase kind} {more : Bytes → Phrase kind → Phrase kind}
    {items : Bytes → Option (Phrase kind × Bytes)} {after inner rest : Bytes}
    {inside : Phrase kind} (blank : Blank after) (read : items inner = some (inside, rest)) :
    proceed last more items (after ++ 0x2C :: inner) = some (more after inside, rest) := by
  rw [proceed, skip_append blank (solid_cons rfl), blanks_append blank (solid_cons rfl)]
  simp [read]

theorem scanScalar_word (literal : Word) (rest : Bytes) :
    scanScalar (literal.text ++ rest) = some (.word literal, rest) := by
  rw [scanScalar, scanWord_append]

theorem scanScalar_number {number rest : Bytes} (written : wellNumbered .start number)
    (stops : Stops rest) : scanScalar (number ++ rest) = some (.number number, rest) := by
  have unworded : scanWord (number ++ rest) = none := by
    obtain ⟨byte, digits, rfl, starts⟩ := wellNumbered_start written
    have other {letter : UInt8} (marked : letter ≠ 0x2D) (word : isNumeric letter = false) :
        (letter == byte) = false := beq_eq_false_iff_ne.mpr (not_numeric starts marked word).symm
    simp [scanWord, Word.text, find?, isPrefixOf, @other 0x6E (by decide) rfl,
      @other 0x74 (by decide) rfl, @other 0x66 (by decide) rfl]
  rw [scanScalar, unworded]
  simp only [scanNumber_append written stops, Option.map_some]

/-- What may follow a phrase of this kind. -/
def Follows : Kind → Bytes → Prop
  | .value, rest => Stops rest
  | .elements, rest => rest.head? = some 0x5D
  | .members, rest => rest.head? = some 0x7D

theorem Follows.list {rest : Bytes} (follows : Follows kind rest)
    (list : kind = .elements ∨ kind = .members) :
    Stops rest ∧ Solid rest ∧ rest.head? ≠ some 0x2C := by
  rcases list with rfl | rfl
  · rw [eq_cons_of_head? follows]
    exact ⟨stops_cons rfl, solid_cons rfl, by simp⟩
  · rw [eq_cons_of_head? follows]
    exact ⟨stops_cons rfl, solid_cons rfl, by simp⟩

variable {fuel depth : Nat}

theorem parse_bracket {rest : Bytes} (room : 0 < depth) :
    parse (fuel + 1) .value depth (0x5B :: rest) =
      close 0x5D .emptyArray (parse fuel .elements (depth - 1) rest) .array rest := by
  rw [parse]
  simp [Nat.pos_iff_ne_zero.mp room]

theorem parse_brace {rest : Bytes} (room : 0 < depth) :
    parse (fuel + 1) .value depth (0x7B :: rest) =
      close 0x7D .emptyObject (parse fuel .members (depth - 1) rest) .object rest := by
  rw [parse]
  simp [Nat.pos_iff_ne_zero.mp room]

theorem Phrase.height_pos (phrase : Phrase kind) : 0 < phrase.height := by
  cases phrase <;> exact Nat.succ_pos _

/-- Elements start with a value. -/
theorem Phrase.elements_open {items : Phrase .elements} (written : items.WellFormed) (rest : Bytes) :
    (skip (items.source ++ rest)).head? ≠ some 0x5D := by
  cases items with
  | lastElement before value after =>
    obtain ⟨left, inside, -⟩ := written
    have opens := Phrase.opens inside (after ++ rest)
    rw [Phrase.source, append_assoc, append_assoc, skip_append left opens.solid]
    exact opens.unclosed.1
  | element before value after more =>
    obtain ⟨⟨left, inside, -⟩, -⟩ := written
    have opens := Phrase.opens inside (after ++ 0x2C :: (more.source ++ rest))
    have shape : (Phrase.element before value after more).source ++ rest =
        before ++ (value.source ++ (after ++ 0x2C :: (more.source ++ rest))) := by
      simp [Phrase.source]
    rw [shape, skip_append left opens.solid]
    exact opens.unclosed.1

theorem skip_heading {before name middle space rest : Bytes} (left : Blank before) :
    (skip (heading before name middle space ++ rest)).head? = some 0x22 := by
  have shape : heading before name middle space ++ rest =
      before ++ 0x22 :: (name ++ 0x22 :: (middle ++ 0x3A :: (space ++ rest))) := by
    simp [heading, quotes]
  rw [shape, skip_append left (solid_cons rfl)]
  rfl

/-- Members start with a name. -/
theorem Phrase.members_open {items : Phrase .members} (written : items.WellFormed) (rest : Bytes) :
    (skip (items.source ++ rest)).head? ≠ some 0x7D := by
  cases items with
  | lastMember before name middle space value after =>
    obtain ⟨⟨left, -⟩, -⟩ := written
    rw [Phrase.source, append_assoc, skip_heading left]
    simp
  | member before name middle space value after more =>
    obtain ⟨⟨⟨left, -⟩, -⟩, -⟩ := written
    rw [Phrase.source, append_assoc, skip_heading left]
    simp

/-- The text of a phrase is read back. -/
theorem parse_source {phrase : Phrase kind} {rest : Bytes} (written : phrase.WellFormed)
    (shallow : phrase.depth ≤ depth) (tall : phrase.height ≤ fuel) (follows : Follows kind rest) :
    parse fuel kind depth (phrase.source ++ rest) = some (phrase, rest) := by
  obtain ⟨fuel, rfl⟩ : ∃ less, fuel = less + 1 := ⟨fuel - 1, by have := phrase.height_pos; omega⟩
  induction phrase generalizing fuel depth rest with
  | word literal =>
    have scanned := scanScalar_word literal rest
    cases literal <;> simpa [parse, Phrase.source, Word.text] using scanned
  | number text =>
    have scanned := scanScalar_number written follows
    obtain ⟨byte, digits, rfl, starts⟩ := wellNumbered_start written
    rw [Phrase.source, parse, ← scanned]
    simp [not_numeric starts (show (0x5B : UInt8) ≠ 0x2D by decide) rfl,
      not_numeric starts (show (0x7B : UInt8) ≠ 0x2D by decide) rfl,
      not_numeric starts (show (0x22 : UInt8) ≠ 0x2D by decide) rfl]
  | string body =>
    have scanned : scanString .plain (body ++ 0x22 :: rest) = some (body, rest) :=
      scanString_append written
    simp [parse, Phrase.source, quotes, scanned]
  | emptyArray space =>
    have shape : (Phrase.emptyArray space).source ++ rest = 0x5B :: (space ++ 0x5D :: rest) := by
      simp [Phrase.source]
    rw [shape, parse_bracket shallow, close_empty written rfl]
  | array items ih =>
    have shape : (Phrase.array items).source ++ rest = 0x5B :: (items.source ++ 0x5D :: rest) := by
      simp [Phrase.source]
    simp only [Phrase.depth, Phrase.height] at shallow tall
    obtain ⟨fuel, rfl⟩ : ∃ less, fuel = less + 1 := ⟨fuel - 1, by have := items.height_pos; omega⟩
    have read : parse (fuel + 1) .elements (depth - 1) (items.source ++ 0x5D :: rest) =
        some (items, 0x5D :: rest) := ih written (by omega) (head?_cons ..) fuel (by omega)
    rw [shape, parse_bracket (by omega), close_items (Phrase.elements_open written _) read]
  | emptyObject space =>
    have shape : (Phrase.emptyObject space).source ++ rest = 0x7B :: (space ++ 0x7D :: rest) := by
      simp [Phrase.source]
    rw [shape, parse_brace shallow, close_empty written rfl]
  | object items ih =>
    have shape : (Phrase.object items).source ++ rest = 0x7B :: (items.source ++ 0x7D :: rest) := by
      simp [Phrase.source]
    simp only [Phrase.depth, Phrase.height] at shallow tall
    obtain ⟨fuel, rfl⟩ : ∃ less, fuel = less + 1 := ⟨fuel - 1, by have := items.height_pos; omega⟩
    have read : parse (fuel + 1) .members (depth - 1) (items.source ++ 0x7D :: rest) =
        some (items, 0x7D :: rest) := ih written (by omega) (head?_cons ..) fuel (by omega)
    rw [shape, parse_brace (by omega), close_items (Phrase.members_open written _) read]
  | lastElement before value after ih =>
    obtain ⟨left, inside, right⟩ := written
    obtain ⟨stops, solid, ends⟩ := follows.list (.inl rfl)
    have opens := Phrase.opens inside (after ++ rest)
    have shape : (Phrase.lastElement before value after).source ++ rest =
        before ++ (value.source ++ (after ++ rest)) := by
      simp [Phrase.source]
    simp only [Phrase.depth, Phrase.height] at shallow tall
    obtain ⟨fuel, rfl⟩ : ∃ less, fuel = less + 1 := ⟨fuel - 1, by have := value.height_pos; omega⟩
    rw [shape, parse, skip_append left opens.solid, blanks_append left opens.solid,
      ih inside shallow (stops.blank_append right) fuel (by omega), Option.bind_some,
      proceed_last right solid ends]
  | element before value after items ihValue ihItems =>
    obtain ⟨⟨left, inside, right⟩, others⟩ := written
    have opens := Phrase.opens inside (after ++ 0x2C :: (items.source ++ rest))
    have shape : (Phrase.element before value after items).source ++ rest =
        before ++ (value.source ++ (after ++ 0x2C :: (items.source ++ rest))) := by
      simp [Phrase.source]
    simp only [Phrase.depth, Phrase.height] at shallow tall
    obtain ⟨fuel, rfl⟩ : ∃ less, fuel = less + 1 := ⟨fuel - 1, by have := value.height_pos; omega⟩
    have stops : Stops (0x2C :: (items.source ++ rest)) := stops_cons rfl
    have first : parse (fuel + 1) .value depth
        (value.source ++ (after ++ 0x2C :: (items.source ++ rest))) =
          some (value, after ++ 0x2C :: (items.source ++ rest)) :=
      ihValue inside (by omega) (stops.blank_append right) fuel (by omega)
    have more : parse (fuel + 1) .elements depth (items.source ++ rest) = some (items, rest) :=
      ihItems others (by omega) follows fuel (by omega)
    rw [shape, parse, skip_append left opens.solid, blanks_append left opens.solid,
      first, Option.bind_some,
      proceed_more right more]
  | lastMember before name middle space value after ih =>
    obtain ⟨⟨left, quoted, inner, blank⟩, inside, right⟩ := written
    obtain ⟨stops, solid, ends⟩ := follows.list (.inr rfl)
    have opens := Phrase.opens inside (after ++ rest)
    have shape : (Phrase.lastMember before name middle space value after).source ++ rest =
        heading before name middle space ++ (value.source ++ (after ++ rest)) := by
      simp [Phrase.source]
    simp only [Phrase.depth, Phrase.height] at shallow tall
    obtain ⟨fuel, rfl⟩ : ∃ less, fuel = less + 1 := ⟨fuel - 1, by have := value.height_pos; omega⟩
    rw [shape, parse, scanHeading_append left quoted inner blank opens.solid, Option.bind_some]
    simp only
    rw [ih inside shallow (stops.blank_append right) fuel (by omega), Option.bind_some,
      proceed_last right solid ends]
  | member before name middle space value after items ihValue ihItems =>
    obtain ⟨⟨⟨left, quoted, inner, blank⟩, inside, right⟩, others⟩ := written
    have opens := Phrase.opens inside (after ++ 0x2C :: (items.source ++ rest))
    have shape : (Phrase.member before name middle space value after items).source ++ rest =
        heading before name middle space ++
          (value.source ++ (after ++ 0x2C :: (items.source ++ rest))) := by
      simp [Phrase.source]
    simp only [Phrase.depth, Phrase.height] at shallow tall
    obtain ⟨fuel, rfl⟩ : ∃ less, fuel = less + 1 := ⟨fuel - 1, by have := value.height_pos; omega⟩
    have stops : Stops (0x2C :: (items.source ++ rest)) := stops_cons rfl
    have first : parse (fuel + 1) .value depth
        (value.source ++ (after ++ 0x2C :: (items.source ++ rest))) =
          some (value, after ++ 0x2C :: (items.source ++ rest)) :=
      ihValue inside (by omega) (stops.blank_append right) fuel (by omega)
    have more : parse (fuel + 1) .members depth (items.source ++ rest) = some (items, rest) :=
      ihItems others (by omega) follows fuel (by omega)
    rw [shape, parse, scanHeading_append left quoted inner blank opens.solid, Option.bind_some]
    simp only
    rw [first, Option.bind_some,
      proceed_more right more]

theorem Phrase.source_pos (written : phrase.WellFormed) : 0 < phrase.source.length := by
  have filled := (Phrase.opens written []).filled
  rw [append_nil] at filled
  exact length_pos_iff.mpr filled

/-- A list of items takes one more call than its text has room for. -/
def Kind.slack : Kind → Nat
  | .value => 0
  | _ => 1

theorem Phrase.height_le {phrase : Phrase kind} (written : phrase.WellFormed) :
    phrase.height ≤ enough phrase.source + kind.slack := by
  induction phrase with
  | word literal => cases literal <;> simp [Phrase.height, Phrase.source, Word.text, enough, Kind.slack]
  | number text =>
    have filled : 0 < text.length := Phrase.source_pos written
    simp only [Phrase.height, Phrase.source, enough, Kind.slack]
    omega
  | string body =>
    simp only [Phrase.height, Phrase.source, quotes, enough, Kind.slack, length_cons]
    omega
  | emptyArray _ | emptyObject _ =>
    simp only [Phrase.height, Phrase.source, enough, Kind.slack, length_cons]
    omega
  | array _ ih | object _ ih =>
    have inside := ih written
    simp only [Phrase.height, Phrase.source, enough, Kind.slack, length_cons,
      length_append, length_nil] at inside ⊢
    omega
  | lastElement _ _ _ ih | lastMember _ _ _ _ _ _ ih =>
    have inside := ih written.2.1
    simp only [Phrase.height, Phrase.source, enough, Kind.slack, length_append] at inside ⊢
    omega
  | element _ _ _ _ ihValue ihItems | member _ _ _ _ _ _ _ ihValue ihItems =>
    have inside := ihValue written.1.2.1
    have others := ihItems written.2
    simp only [Phrase.height, Phrase.source, enough, Kind.slack, length_cons,
      length_append] at inside others ⊢
    omega

/-- The text of a value is read as that value. -/
theorem document_source (written : phrase.WellFormed) (shallow : phrase.depth ≤ depth) :
    document depth phrase.source = some phrase := by
  have opens := Phrase.opens written []
  have stops : Stops [] := fun byte found => absurd found (by simp)
  have tall : phrase.height ≤ enough phrase.source := Phrase.height_le written
  have solid := opens.solid
  rw [append_nil] at solid
  have read := parse_source written shallow tall stops
  rw [append_nil] at read
  have start := @skip_append [] phrase.source rfl solid
  rw [nil_append] at start
  rw [document, start, read]
  rfl

end Golusoris.Lib.Json
