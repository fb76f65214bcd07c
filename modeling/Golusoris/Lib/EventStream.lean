import Golusoris.Lib.Digits

/-!
# Event streams

The parser of server-sent events that the HTML standard defines: a stream is decoded
as UTF-8, cut into lines, and every line changes the buffers of a source or
dispatches a message. Bytes below 0x80 stand for themselves wherever they stand, so
they also separate what is not UTF-8.
-/

namespace Golusoris.Lib.EventStream

open List
open Utf8

/-- The bounds of the byte after a lead byte, and the number of bytes that follow. -/
def following (lead : UInt8) : Option (UInt8 × UInt8 × Nat) :=
  if 0xC2 ≤ lead ∧ lead ≤ 0xDF then some (0x80, 0xBF, 1)
  else if lead = 0xE0 then some (0xA0, 0xBF, 2)
  else if lead = 0xED then some (0x80, 0x9F, 2)
  else if 0xE1 ≤ lead ∧ lead ≤ 0xEF then some (0x80, 0xBF, 2)
  else if lead = 0xF0 then some (0x90, 0xBF, 3)
  else if lead = 0xF4 then some (0x80, 0x8F, 3)
  else if 0xF1 ≤ lead ∧ lead ≤ 0xF3 then some (0x80, 0xBF, 3)
  else none

def isContinuation (byte : UInt8) : Bool := 0x80 ≤ byte && byte ≤ 0xBF

/-- How many bytes one replacement character stands for, after the lead byte. -/
def faulty (lead : UInt8) (rest : Bytes) : Nat :=
  match following lead with
  | none => 0
  | some (low, high, count) =>
      match rest with
      | [] => 0
      | second :: rest =>
          if low ≤ second ∧ second ≤ high then
            1 + ((rest.take (count - 1)).takeWhile isContinuation).length
          else 0

/-- UTF-8 decoding with replacement, where some bytes have been decoded already. -/
def decodeFrom : Nat → Bytes → List Char
  | _, [] => []
  | skip + 1, _ :: rest => decodeFrom skip rest
  | 0, lead :: rest =>
      match Utf8.decodeRune (lead :: rest) with
      | some rune => rune :: decodeFrom (rune.utf8Size - 1) rest
      | none => '\uFFFD' :: decodeFrom (faulty lead rest) rest

def decode (bytes : Bytes) : List Char := decodeFrom 0 bytes

/-- A byte order mark at the start is dropped. -/
def decodeStream (bytes : Bytes) : List Char :=
  if [0xEF, 0xBB, 0xBF].isPrefixOf bytes then decode (bytes.drop 3) else decode bytes

variable {byte : UInt8}

section Decoding

theorem decodeRune_ascii (ascii : byte < 0x80) (rest : Bytes) :
    decodeRune (byte :: rest) = some (Char.ofNat byte.toNat) := by
  have small : byte.toNat < 128 := UInt8.lt_iff_toNat_lt.mp ascii
  have value : (Char.ofNat byte.toNat).toNat = byte.toNat := by
    rw [Char.ofNat, dif_pos (Or.inl (by omega))]
    rfl
  have encoded : String.utf8EncodeChar (Char.ofNat byte.toNat) = [byte] := by
    rw [encodeChar_ascii (by omega), value, UInt8.ofNat_toNat]
  have decoded := decodeRune_encode (Char.ofNat byte.toNat) rest
  rwa [encoded] at decoded

theorem utf8Size_ascii (ascii : byte < 0x80) : (Char.ofNat byte.toNat).utf8Size = 1 := by
  obtain ⟨rest, whole⟩ := decodeRune_eq_some (decodeRune_ascii ascii [])
  have length := congrArg List.length whole
  rw [length_append, String.length_utf8EncodeChar] at length
  have positive := (Char.ofNat byte.toNat).utf8Size_pos
  simp only [length_singleton] at length
  omega

theorem decodeFrom_append (before after : Bytes) :
    decodeFrom before.length (before ++ after) = decodeFrom 0 after := by
  induction before with
  | nil => rfl
  | cons byte before ih => exact ih

/-- Decoding undoes encoding. -/
theorem decode_encode (text : List Char) : decode (encode text) = text := by
  induction text with
  | nil => rfl
  | cons rune text ih =>
    have decoded := decodeRune_encode rune (encode text)
    have length := String.length_utf8EncodeChar rune
    obtain ⟨lead, more, shape, -⟩ := encodeChar_shape rune
    rw [shape] at decoded length
    rw [encode_cons, shape, cons_append, decode, decodeFrom, ← cons_append, decoded]
    have skipped : rune.utf8Size - 1 = more.length := by
      rw [← length, length_cons, Nat.add_sub_cancel]
    simp only [skipped, decodeFrom_append]
    exact congrArg _ ih

/-- An encoding does not reach over a byte below 0x80. -/
theorem decodeRune_append {before : Bytes} (ascii : byte < 0x80) (after : Bytes)
    (some : before ≠ []) : decodeRune (before ++ byte :: after) = decodeRune before := by
  cases own : decodeRune before with
  | some rune =>
    obtain ⟨rest, rfl⟩ := decodeRune_eq_some own
    rw [append_assoc]
    exact decodeRune_encode rune _
  | none =>
    cases decoded : decodeRune (before ++ byte :: after) with
    | none => rfl
    | some rune =>
      obtain ⟨rest, whole⟩ := decodeRune_eq_some decoded
      obtain ⟨lead, more, shape, high⟩ := encodeChar_shape rune
      -- The encoding is a part of the bytes before, or it holds the byte after its lead.
      obtain ⟨tail, front, back⟩ | ⟨tail, front, -⟩ := append_eq_append_iff.mp whole
      · cases tail with
        | nil =>
          rw [append_nil] at front
          have whole := decodeRune_encode rune []
          rw [append_nil, front, own] at whole
          cases whole
        | cons first tail =>
          obtain rfl : byte = first := (List.cons.inj back).1
          cases before with
          | nil => exact absurd rfl some
          | cons start before =>
            rw [shape, cons_append] at front
            have inner : byte ∈ more := by simp [(List.cons.inj front).2]
            exact absurd (high byte inner).1 (UInt8.not_le.mpr ascii)
      · rw [front, decodeRune_encode] at own
        cases own

theorem takeWhile_take_append {holds : UInt8 → Bool} (stops : holds byte = false) (count : Nat)
    (before after : Bytes) :
    ((before ++ byte :: after).take count).takeWhile holds = (before.take count).takeWhile holds := by
  induction before generalizing count with
  | nil => cases count <;> simp [stops]
  | cons first before ih =>
    cases count with
    | zero => rfl
    | succ count => simp [takeWhile_cons, ih]

theorem faulty_append (ascii : byte < 0x80) (lead : UInt8) (rest after : Bytes) :
    faulty lead (rest ++ byte :: after) = faulty lead rest := by
  have outside : isContinuation byte = false := by
    simp [isContinuation, UInt8.not_le.mpr ascii]
  unfold faulty
  cases found : following lead with
  | none => rfl
  | some bounds =>
    obtain ⟨low, high, count⟩ := bounds
    have above : 0x80 ≤ low := by
      rw [following] at found
      split_ifs at found <;> cases found <;> decide
    cases rest with
    | nil =>
      refine if_neg fun both => ?_
      exact UInt8.not_le.mpr ascii (UInt8.le_trans above both.1)
    | cons second rest =>
      simp only [cons_append, takeWhile_take_append outside]

theorem faulty_le (lead : UInt8) (rest : Bytes) : faulty lead rest ≤ rest.length := by
  unfold faulty
  cases following lead with
  | none => exact Nat.zero_le _
  | some bounds =>
    obtain ⟨low, high, count⟩ := bounds
    cases rest with
    | nil => exact Nat.zero_le _
    | cons second rest =>
      have own : ((rest.take (count - 1)).takeWhile isContinuation).length ≤
          (rest.take (count - 1)).length := ( takeWhile_prefix _).length_le
      have cut : (rest.take (count - 1)).length ≤ rest.length := length_take_le' _ _
      simp only [length_cons]
      split_ifs <;> omega

/-- A byte below 0x80 stands for itself, whatever stands before it. -/
theorem decodeFrom_ascii {skip : Nat} {before : Bytes} (inside : skip ≤ before.length)
    (ascii : byte < 0x80) (after : Bytes) : decodeFrom skip (before ++ byte :: after) =
      decodeFrom skip before ++ Char.ofNat byte.toNat :: decode after := by
  induction before generalizing skip with
  | nil =>
    obtain rfl := Nat.le_zero.mp inside
    show decodeFrom 0 (byte :: after) = Char.ofNat byte.toNat :: decode after
    rw [decodeFrom, decodeRune_ascii ascii]
    simp only [utf8Size_ascii ascii]
    rfl
  | cons lead before ih =>
    cases skip with
    | succ skip => exact ih (Nat.le_of_succ_le_succ inside)
    | zero =>
      have same := decodeRune_append ascii after (cons_ne_nil lead before)
      rw [cons_append] at same
      rw [cons_append, decodeFrom, decodeFrom, same, faulty_append ascii]
      cases decoded : decodeRune (lead :: before) with
      | none => exact congrArg _ (ih (faulty_le lead before))
      | some rune =>
        obtain ⟨rest, whole⟩ := decodeRune_eq_some decoded
        have length := congrArg List.length whole
        rw [length_append, String.length_utf8EncodeChar, length_cons] at length
        exact congrArg _ (ih (by omega))

theorem decode_ascii (before : Bytes) (ascii : byte < 0x80) (after : Bytes) :
    decode (before ++ byte :: after) = decode before ++ Char.ofNat byte.toNat :: decode after :=
  decodeFrom_ascii (Nat.zero_le _) ascii after

/-- What is below 0x80 was there. -/
theorem mem_of_decodeFrom {skip : Nat} {bytes : Bytes} {rune : Char}
    (found : rune ∈ decodeFrom skip bytes) (ascii : rune.toNat < 0x80) :
    UInt8.ofNat rune.toNat ∈ bytes := by
  induction bytes generalizing skip with
  | nil => cases skip <;> cases found
  | cons lead rest ih =>
    cases skip with
    | succ skip => exact mem_cons_of_mem _ (ih found)
    | zero =>
      rw [decodeFrom] at found
      cases decoded : decodeRune (lead :: rest) with
      | none =>
        simp only [decoded, mem_cons] at found
        obtain rfl | found := found
        · exact absurd ascii (by decide)
        · exact mem_cons_of_mem _ (ih found)
      | some first =>
        simp only [decoded, mem_cons] at found
        obtain rfl | found := found
        · obtain ⟨tail, whole⟩ := decodeRune_eq_some decoded
          rw [whole, encodeChar_ascii ascii]
          simp
        · exact mem_cons_of_mem _ (ih found)

end Decoding

/-- The lines of a text that LF, CR or the pair end, where `returned` says that the last
character was CR. What no line end follows is dropped. -/
def linesFrom : Bool → List Char → List Char → List (List Char)
  | _, _, [] => []
  | returned, line, rune :: rest =>
      if rune = '\n' then
        if returned then linesFrom false line rest else line :: linesFrom false [] rest
      else if rune = '\r' then line :: linesFrom true [] rest
      else linesFrom false (line ++ [rune]) rest

def lines (text : List Char) : List (List Char) := linesFrom false [] text

/-- No character of the text ends a line. -/
def Unbroken (text : List Char) : Prop := '\n' ∉ text ∧ '\r' ∉ text

theorem linesFrom_append (line : List Char) {text : List Char} (unbroken : Unbroken text)
    (rest : List Char) :
    linesFrom false line (text ++ '\n' :: rest) = (line ++ text) :: lines rest := by
  induction text generalizing line with
  | nil => simp [linesFrom, lines]
  | cons rune text ih =>
    obtain ⟨noFeed, noReturn⟩ := unbroken
    simp only [mem_cons, not_or] at noFeed noReturn
    rw [cons_append, linesFrom, if_neg (Ne.symm noFeed.1), if_neg (Ne.symm noReturn.1),
      ih (line ++ [rune]) ⟨noFeed.2, noReturn.2⟩, append_assoc, singleton_append]

theorem lines_append {text : List Char} (unbroken : Unbroken text) (rest : List Char) :
    lines (text ++ '\n' :: rest) = text :: lines rest :=
  linesFrom_append [] unbroken rest

/-- A dispatched message, with the reconnection time in force then. -/
structure Message where
  type : List Char
  data : List Char
  lastEventId : List Char
  reconnectionTime : Option Nat
  deriving DecidableEq

/-- The buffers of a source, and the messages it has dispatched. -/
structure Source where
  data : List Char := []
  eventType : List Char := []
  lastEventIdBuffer : List Char := []
  lastEventId : List Char := []
  reconnectionTime : Option Nat := none
  messages : List Message := []
  deriving DecidableEq

def isDigit (rune : Char) : Bool := '0' ≤ rune && rune ≤ '9'

def number (digits : List Char) : Nat :=
  digits.foldl (fun value rune => 10 * value + (rune.toNat - '0'.toNat)) 0

namespace Source

/-- A field is processed; other names are ignored. -/
def field (source : Source) (name value : List Char) : Source :=
  if name = ['e', 'v', 'e', 'n', 't'] then { source with eventType := value }
  else if name = ['d', 'a', 't', 'a'] then { source with data := source.data ++ value ++ ['\n'] }
  else if name = ['i', 'd'] then
    if '\x00' ∈ value then source else { source with lastEventIdBuffer := value }
  else if name = ['r', 'e', 't', 'r', 'y'] then
    if value ≠ [] ∧ value.all isDigit then { source with reconnectionTime := some (number value) }
    else source
  else source

def dispatch (source : Source) : Source :=
  let source := { source with lastEventId := source.lastEventIdBuffer }
  if source.data = [] then { source with eventType := [] }
  else
    let data :=
      if source.data.getLast? = some '\n' then source.data.dropLast else source.data
    let type :=
      if source.eventType = [] then ['m', 'e', 's', 's', 'a', 'g', 'e'] else source.eventType
    { source with
      data := []
      eventType := []
      messages := source.messages ++
        [⟨type, data, source.lastEventId, source.reconnectionTime⟩] }

/-- One space after the colon does not belong to the value. -/
def afterColon : List Char → List Char
  | ' ' :: value => value
  | value => value

def line (source : Source) (line : List Char) : Source :=
  if line = [] then source.dispatch
  else if line.head? = some ':' then source
  else if ':' ∈ line then
    source.field (line.takeWhile (· ≠ ':')) (afterColon ((line.dropWhile (· ≠ ':')).drop 1))
  else source.field line []

/-- A name, a colon, a space and a value make up a field. -/
theorem line_field (source : Source) {name : List Char} (named : name ≠ []) (plain : ':' ∉ name)
    (value : List Char) : source.line (name ++ ':' :: ' ' :: value) = source.field name value := by
  cases name with
  | nil => exact absurd rfl named
  | cons first name =>
    have noColon : first ≠ ':' := fun same => plain (same ▸ mem_cons_self)
    have all : ∀ rune ∈ first :: name, (decide (rune ≠ ':')) = true := fun rune inside =>
      decide_eq_true fun same => plain (same ▸ inside)
    rw [line, if_neg (by simp), if_neg (by simpa using noColon), if_pos (by simp),
      takeWhile_append_of_pos all, dropWhile_append_of_pos all]
    simp [afterColon]

end Source

/-- The source after the lines of a text. -/
def Source.read (source : Source) (text : List Char) : Source :=
  (lines text).foldl Source.line source

/-- The source after a whole stream. -/
def parse (bytes : Bytes) : Source := Source.read {} (decodeStream bytes)

section Written

def feed : UInt8 := 0x0A
def colon : UInt8 := 0x3A
def space : UInt8 := 0x20

theorem unbroken_decode {line : Bytes} (noFeed : feed ∉ line) (noReturn : 0x0D ∉ line) :
    Unbroken (decode line) :=
  ⟨fun found => noFeed (mem_of_decodeFrom found (by decide)),
    fun found => noReturn (mem_of_decodeFrom found (by decide))⟩

/-- A line of bytes changes the source as its text does. -/
theorem Source.read_line (source : Source) {line : Bytes} (noFeed : feed ∉ line)
    (noReturn : 0x0D ∉ line) (rest : Bytes) :
    source.read (decode (line ++ feed :: rest)) = (source.line (decode line)).read (decode rest) := by
  have cut : decode (line ++ feed :: rest) = decode line ++ '\n' :: decode rest :=
    decode_ascii line (by decide) rest
  rw [read, cut, lines_append (unbroken_decode noFeed noReturn)]
  rfl

theorem Source.read_empty (source : Source) (rest : Bytes) :
    source.read (decode (feed :: rest)) = source.dispatch.read (decode rest) :=
  source.read_line not_mem_nil not_mem_nil rest

/-- A field is read as it was written. -/
theorem Source.read_field (source : Source) {name : Bytes} (named : decode name ≠ [])
    (plain : colon ∉ name) (free : feed ∉ name ∧ 0x0D ∉ name) {value : Bytes}
    (noFeed : feed ∉ value) (noReturn : 0x0D ∉ value) (rest : Bytes) :
    source.read (decode (name ++ colon :: space :: value ++ feed :: rest)) =
      (source.field (decode name) (decode value)).read (decode rest) := by
  have text : decode (name ++ colon :: space :: value) = decode name ++ ':' :: ' ' :: decode value := by
    rw [decode_ascii name (by decide : colon < 0x80)]
    exact congrArg _ (congrArg _ (decode_ascii [] (by decide : space < 0x80) value))
  have noColon : ':' ∉ decode name := fun found => plain (mem_of_decodeFrom found (by decide))
  have oneLine {byte : UInt8} (own : byte ∉ name) (other : byte ∉ value) (notColon : byte ≠ colon)
      (notSpace : byte ≠ space) : byte ∉ name ++ colon :: space :: value := by
    simp only [mem_append, mem_cons, not_or]
    exact ⟨own, notColon, notSpace, other⟩
  rw [source.read_line (oneLine free.1 noFeed (by decide) (by decide))
    (oneLine free.2 noReturn (by decide) (by decide)), text, line_field source named noColon]

theorem decode_cons_ascii (ascii : byte < 0x80) (rest : Bytes) :
    decode (byte :: rest) = Char.ofNat byte.toNat :: decode rest :=
  decode_ascii [] ascii rest

theorem decode_ne_nil (lead : UInt8) (rest : Bytes) : decode (lead :: rest) ≠ [] := by
  rw [decode, decodeFrom]
  cases decodeRune (lead :: rest) <;> exact cons_ne_nil _ _

/-- Digits are decoded to the number they write. -/
theorem number_decode {value total : Nat} {digits : Bytes}
    (read : Digits.readNatFrom value digits = some total) :
    (decode digits).all isDigit ∧
      (decode digits).foldl (fun value rune => 10 * value + (rune.toNat - '0'.toNat)) value =
        total := by
  induction digits generalizing value with
  | nil => exact ⟨rfl, Option.some.inj read⟩
  | cons byte digits ih =>
    rw [Digits.readNatFrom] at read
    split_ifs at read with known
    have bounds : 0x30 ≤ byte.toNat ∧ byte.toNat ≤ 0x39 := by
      simpa [Digits.isDigit, UInt8.le_iff_toNat_le] using known
    have ascii : byte < 0x80 := UInt8.lt_iff_toNat_lt.mpr (by
      have small : byte.toNat < 128 := by omega
      exact small)
    have own : (Char.ofNat byte.toNat).toNat = byte.toNat := by
      rw [Char.ofNat, dif_pos (Or.inl (by omega))]
      rfl
    have digit : isDigit (Char.ofNat byte.toNat) := by
      have low : ('0' : Char) ≤ Char.ofNat byte.toNat := Char.le_def.mpr (by
        show 0x30 ≤ (Char.ofNat byte.toNat).toNat
        rw [own]
        exact bounds.1)
      have high : Char.ofNat byte.toNat ≤ ('9' : Char) := Char.le_def.mpr (by
        show (Char.ofNat byte.toNat).toNat ≤ 0x39
        rw [own]
        exact bounds.2)
      simp [isDigit, low, high]
    have next : value * 10 + Digits.digitValue byte =
        10 * value + ((Char.ofNat byte.toNat).toNat - '0'.toNat) := by
      rw [own, Nat.mul_comm]
      rfl
    obtain ⟨others, sum⟩ := ih read
    rw [decode_cons_ascii ascii, all_cons, digit, Bool.true_and, foldl_cons, ← next]
    exact ⟨others, sum⟩

theorem number_natText (value : Nat) : (decode (Digits.natText value)).all isDigit ∧
    number (decode (Digits.natText value)) = value :=
  number_decode (Digits.readNatFrom_natText value)

/-- Lines of bytes joined with line feeds are decoded line by line. -/
theorem decode_intercalate (first : Bytes) (others : List Bytes) :
    decode ([feed].intercalate (first :: others)) =
      decode first ++ others.flatMap fun line => '\n' :: decode line := by
  induction others generalizing first with
  | nil => simp
  | cons second others ih =>
    have joined : [feed].intercalate (first :: second :: others) =
        first ++ feed :: [feed].intercalate (second :: others) := by simp [intercalate]
    rw [joined, decode_ascii first (by decide : feed < 0x80), ih second, flatMap_cons]
    rfl

end Written

end Golusoris.Lib.EventStream
