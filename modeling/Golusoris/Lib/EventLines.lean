import Golusoris.Lib.TextLines
import Mathlib.Data.Nat.Init
import Mathlib.Tactic.SplitIfs

/-!
# Lines and data fields of an event stream

The lines of an event stream as bytes: a line feed, a carriage return or the pair
ends a line, and a byte order mark at the start is dropped. Where every carriage
return stands before a line feed, these are the lines that feeds alone end, each
without its return.
-/

namespace Golusoris.Lib.EventLines

open List

/-- The lines of a text, where `returned` says that the last byte was CR. A line
without an end counts as one. -/
def linesFrom : Bool → Bytes → Bytes → List Bytes
  | _, line, [] => if line = [] then [] else [line]
  | returned, line, byte :: rest =>
      if byte = lineFeed then
        if returned then linesFrom false line rest else line :: linesFrom false [] rest
      else if byte = carriageReturn then line :: linesFrom true [] rest
      else linesFrom false (line ++ [byte]) rest

def byteOrderMark : Bytes := [0xEF, 0xBB, 0xBF]

def lines (stream : Bytes) : List Bytes :=
  linesFrom false [] (if byteOrderMark <+: stream then stream.drop 3 else stream)

def colon : UInt8 := 0x3A

def space : UInt8 := 0x20

/-- One space after the colon does not belong to the value. -/
def afterColon : Bytes → Bytes
  | [] => []
  | byte :: value => if byte = space then value else byte :: value

def data : Bytes := [0x64, 0x61, 0x74, 0x61]

/-- The value of a line with the field `data`; the colon may be missing. -/
def dataValue (line : Bytes) : Option Bytes :=
  if line.takeWhile (· ≠ colon) = data then
    some (afterColon ((line.dropWhile (· ≠ colon)).drop 1))
  else none

/-- The data lines of one event after another: an empty line ends an event, and
the last event may not be ended. -/
def eventsFrom (values : List Bytes) : List Bytes → List (List Bytes)
  | [] => [values]
  | line :: rest =>
      if line = [] then values :: eventsFrom [] rest
      else eventsFrom (values ++ (dataValue line).toList) rest

/-- The data of the events that have some. -/
def payloads (lines : List Bytes) : List Bytes :=
  ((eventsFrom [] lines).filter (· ≠ [])).map (List.intercalate [lineFeed])

theorem eventsFrom_flatten (values lines : List Bytes) :
    (eventsFrom values lines).flatten = values ++ lines.filterMap dataValue := by
  induction lines generalizing values with
  | nil => simp [eventsFrom]
  | cons line rest hyp =>
    rw [eventsFrom, filterMap_cons]
    split_ifs with bare
    · rw [flatten_cons, hyp, bare]
      rfl
    · rw [hyp, append_assoc]
      cases dataValue line <;> rfl

/-- Where no event has two data lines, the data lines are what the events carry. -/
theorem payloads_of_single {lines : List Bytes}
    (single : ∀ values ∈ eventsFrom [] lines, values.length ≤ 1) :
    payloads lines = lines.filterMap dataValue := by
  have flat := eventsFrom_flatten [] lines
  rw [nil_append] at flat
  rw [← flat, payloads]
  generalize eventsFrom [] lines = events at single
  induction events with
  | nil => rfl
  | cons values events hyp =>
    have later := hyp fun other member => single other (.tail _ member)
    have short := single values (.head _)
    rcases values with _ | ⟨value, _ | ⟨second, more⟩⟩
    · simpa using later
    · simpa using later
    · simp at short

/-- Every carriage return stands before a line feed or ends the text. -/
def Paired : Bytes → Prop
  | [] => True
  | [_] => True
  | byte :: next :: rest => (byte = carriageReturn → next = lineFeed) ∧ Paired (next :: rest)

instance decidablePaired : (text : Bytes) → Decidable (Paired text)
  | [] => .isTrue trivial
  | [_] => .isTrue trivial
  | _ :: next :: rest =>
    have := decidablePaired (next :: rest)
    inferInstanceAs (Decidable ((_ → _) ∧ _))

/-- The stream has no byte order mark, and its lines end in LF or CRLF. -/
structure Plain (stream : Bytes) : Prop where
  unmarked : ¬ byteOrderMark <+: stream
  paired : Paired stream

section Splitting

variable {text rest line : Bytes}

theorem Paired.tail {byte : UInt8} (paired : Paired (byte :: rest)) : Paired rest := by
  cases rest with
  | nil => trivial
  | cons next rest => exact paired.2

theorem Paired.after (paired : Paired (text ++ rest)) : Paired rest := by
  induction text with
  | nil => exact paired
  | cons byte text hyp => exact hyp paired.tail

theorem dropReturn_cons {byte : UInt8} (some : text ≠ []) :
    dropReturn (byte :: text) = byte :: dropReturn text :=
  show dropReturn ([byte] ++ text) = [byte] ++ dropReturn text from dropReturn_append some

/-- A line that a feed ends. -/
theorem linesFrom_feed (free : lineFeed ∉ text) (paired : Paired (text ++ lineFeed :: rest)) :
    linesFrom false line (text ++ lineFeed :: rest) =
      (line ++ dropReturn text) :: linesFrom false [] rest := by
  induction text generalizing line with
  | nil => simp [linesFrom, dropReturn]
  | cons byte text hyp =>
    obtain ⟨other, free⟩ := not_or.mp (mem_cons.not.mp free)
    rw [cons_append, linesFrom, if_neg (Ne.symm other)]
    split_ifs with returns
    · have bare : text = [] := by
        cases text with
        | nil => rfl
        | cons next text => exact absurd (paired.1 returns) fun feed => free (by simp [feed])
      subst bare
      simp [linesFrom, dropReturn, returns]
    · rw [hyp free paired.tail, append_assoc, singleton_append]
      by_cases bare : text = []
      · simp [bare, dropReturn, returns]
      · rw [dropReturn_cons bare]

/-- A last line that no feed ends. -/
theorem linesFrom_free (free : lineFeed ∉ text) (paired : Paired text) (some : text ≠ []) :
    linesFrom false line text = [line ++ dropReturn text] := by
  induction text generalizing line with
  | nil => exact absurd rfl some
  | cons byte text hyp =>
    obtain ⟨other, free⟩ := not_or.mp (mem_cons.not.mp free)
    rw [linesFrom, if_neg (Ne.symm other)]
    split_ifs with returns
    · have bare : text = [] := by
        cases text with
        | nil => rfl
        | cons next text => exact absurd (paired.1 returns) fun feed => free (by simp [feed])
      subst bare
      simp [linesFrom, dropReturn, returns]
    · by_cases bare : text = []
      · simp [bare, dropReturn, returns, linesFrom]
      · rw [hyp free paired.tail bare, dropReturn_cons bare, append_assoc, singleton_append]

theorem linesFrom_paired (paired : Paired text) :
    linesFrom false [] text = (textLines text).map fun line => dropReturn line.text := by
  generalize size : text.length = length
  induction length using Nat.strong_induction_on generalizing text with
  | _ length hyp =>
    by_cases found : lineFeed ∈ text
    · obtain ⟨before, after, rfl, free⟩ := eq_append_cons_of_mem found
      have shorter : after.length < length := by
        rw [← size, length_append, length_cons]
        omega
      rw [linesFrom_feed free paired, textLines_append free, hyp _ shorter paired.after.tail rfl]
      rfl
    · by_cases bare : text = []
      · simp [bare, linesFrom, textLines]
      · rw [linesFrom_free found paired bare, textLines_free found bare]
        rfl

theorem Plain.lines_eq (plain : Plain text) :
    lines text = (textLines text).map fun line => dropReturn line.text := by
  rw [lines, if_neg plain.unmarked, linesFrom_paired plain.paired]

end Splitting

end Golusoris.Lib.EventLines
