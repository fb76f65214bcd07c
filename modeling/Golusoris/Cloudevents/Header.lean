import Golusoris.Lib.NetUrl
import Golusoris.Lib.Results
import Mathlib.Data.List.TakeWhile

/-!
# Attribute values in headers

`pubsub/cloudevents/header.go`. A value is percent-encoded, so that its header holds
visible ASCII only. The quoted string that older producers write is read as well.
-/

namespace Golusoris.Cloudevents

open List
open Lib Lib.NetUrl

/-- Each of them wraps `ErrInvalidHeaderValue`. -/
inductive HeaderError where
  | unterminated
  | unescapedQuote
  | danglingEscape
  | escape
  | notUTF8
  deriving DecidableEq

def plain (c : UInt8) : Bool := 0x20 < c && c < 0x7F && c != 0x22 && c != 0x25

def encodeByte (c : UInt8) : Bytes :=
  if plain c then [c] else [0x25, upperHex (c.toNat / 16), upperHex (c.toNat % 16)]

def encodeHeaderValue (value : Bytes) : Bytes := value.flatMap encodeByte

/-- The loop of `unquoteHeaderValue`; the flag is its `escaped`. -/
def unquoteFrom : Bool → Bytes → Except HeaderError Bytes
  | escaped, [] => if escaped then .error .danglingEscape else .ok []
  | true, c :: rest => (unquoteFrom false rest).map (c :: ·)
  | false, c :: rest =>
      if c = 0x5C then unquoteFrom true rest
      else if c = 0x22 then .error .unescapedQuote
      else (unquoteFrom false rest).map (c :: ·)

def unquoteHeaderValue (value : Bytes) : Except HeaderError Bytes :=
  if value.head? ≠ some 0x22 then .ok value
  else if value.length < 2 ∨ value.getLast? ≠ some 0x22 then .error .unterminated
  else unquoteFrom false value.tail.dropLast

def isBlank (c : UInt8) : Bool := c == 0x20 || c == 0x09

def trim (value : Bytes) : Bytes := ((value.dropWhile isBlank).reverse.dropWhile isBlank).reverse

/-- What follows the unquoting. `PathUnescape` reads escapes as in a path, and bytes that
decoding does not replace are valid UTF-8. -/
def decodePercent (unquoted : Bytes) : Except HeaderError Bytes :=
  match unescape .path unquoted with
  | none => .error .escape
  | some decoded => if Utf8.coerce decoded = decoded then .ok decoded else .error .notUTF8

def decodeHeaderValue (value : Bytes) : Except HeaderError Bytes := do
  decodePercent (← unquoteHeaderValue (trim value))

/-- A quoted string as RFC 7230 has it. -/
def quote (text : Bytes) : Bytes :=
  0x22 :: text.flatMap (fun c => if c = 0x22 ∨ c = 0x5C then [0x5C, c] else [c]) ++ [0x22]

def visible (c : UInt8) : Bool := 0x20 < c && c < 0x7F && c != 0x22

variable {value text before after : Bytes}

theorem visible_encode {c : UInt8} (found : c ∈ encodeHeaderValue value) : visible c := by
  obtain ⟨byte, -, own⟩ := mem_flatMap.mp found
  have all := @forall_byte (fun byte => (encodeByte byte).all visible) (by decide +kernel) byte
  exact all_eq_true.mp all c own

theorem unescape_encode (value : Bytes) : unescape .path (encodeHeaderValue value) = some value := by
  induction value with
  | nil => rfl
  | cons c value ih =>
    rw [encodeHeaderValue, flatMap_cons, ← encodeHeaderValue, encodeByte]
    split_ifs with kept
    · have other : c ≠ 0x25 := by
        rintro rfl
        cases kept
      rw [cons_append, nil_append, unescape_cons other, if_neg (by simp), ih]
      rfl
    · exact (unescape_percent c (by simp)).trans (congrArg _ ih)

theorem decodePercent_encode (value : Bytes) : decodePercent (encodeHeaderValue value) =
    if Utf8.coerce value = value then .ok value else .error .notUTF8 := by
  rw [decodePercent, unescape_encode]

theorem dropWhile_blank (blank : ∀ c ∈ before, isBlank c)
    (edge : ∀ c ∈ text.head?, isBlank c = false) : (before ++ text).dropWhile isBlank = text := by
  rw [dropWhile_append_of_pos blank]
  cases text with
  | nil => rfl
  | cons c rest => rw [dropWhile_cons, edge c rfl, if_neg Bool.false_ne_true]

/-- Blanks around a value that begins and ends with other bytes are cut off. -/
theorem trim_blank (blank : ∀ c ∈ before ++ after, isBlank c)
    (first : ∀ c ∈ text.head?, isBlank c = false) (last : ∀ c ∈ text.getLast?, isBlank c = false) :
    trim (before ++ text ++ after) = text := by
  obtain ⟨blankBefore, blankAfter⟩ := forall_mem_append.mp blank
  rw [trim, append_assoc]
  cases text with
  | nil =>
    rw [nil_append, dropWhile_append_of_pos blankBefore, dropWhile_eq_nil_iff.mpr blankAfter]
    rfl
  | cons c rest =>
    rw [dropWhile_blank blankBefore (by simpa using first), reverse_append,
      dropWhile_blank (by simpa using blankAfter) (by rwa [head?_reverse]), reverse_reverse]

theorem not_blank_of_visible {c : UInt8} (seen : visible c) : isBlank c = false := by
  have all := @forall_byte (fun c => !visible c || !isBlank c) (by decide +kernel) c
  simpa [seen] using all

theorem last_quote (text : Bytes) : (quote text).getLast? = some 0x22 :=
  getLast?_concat

theorem unquote_quote (text : Bytes) : unquoteHeaderValue (quote text) = .ok text := by
  have inside : ∀ text, unquoteFrom false
      (text.flatMap fun c => if c = 0x22 ∨ c = 0x5C then [0x5C, c] else [c]) = .ok text := by
    intro text
    induction text with
    | nil => rfl
    | cons c rest ih =>
      rw [flatMap_cons]
      split_ifs with escaped
      · simp [unquoteFrom, ih, Except.map]
      · rw [not_or] at escaped
        simp [unquoteFrom, escaped, ih, Except.map]
  rw [unquoteHeaderValue, if_neg (by simp [quote]), last_quote, if_neg (by simp [quote])]
  simpa [quote, dropLast_append_of_ne_nil] using inside text

/-- A quoted string reads as its text with the escapes resolved, between any blanks. -/
theorem decode_quote (blank : ∀ c ∈ before ++ after, isBlank c) (text : Bytes) :
    decodeHeaderValue (before ++ quote text ++ after) = decodePercent text := by
  rw [decodeHeaderValue, trim_blank blank (by simp [quote, isBlank]) (by simp [last_quote, isBlank]),
    unquote_quote]
  rfl

theorem decode_encode (blank : ∀ c ∈ before ++ after, isBlank c) (value : Bytes) :
    decodeHeaderValue (before ++ encodeHeaderValue value ++ after) =
      decodePercent (encodeHeaderValue value) := by
  have seen : ∀ c ∈ encodeHeaderValue value, visible c := fun c => visible_encode
  have free : (encodeHeaderValue value).head? ≠ some 0x22 := by
    intro starts
    cases seen _ (mem_of_mem_head? starts)
  rw [decodeHeaderValue, trim_blank blank
    (fun c first => not_blank_of_visible (seen c (mem_of_mem_head? first)))
    (fun c last => not_blank_of_visible (seen c (mem_of_mem_getLast? last))), unquoteHeaderValue,
    if_pos free]
  rfl

/-- A value goes into a header as visible ASCII without quotes, and comes back from there,
quoted or not, if it is UTF-8. -/
theorem header_round_trip (blank : ∀ c ∈ before ++ after, isBlank c) (value : Bytes) :
    (∀ c ∈ encodeHeaderValue value, visible c) ∧
      ∀ form ∈ [encodeHeaderValue value, quote (encodeHeaderValue value)],
        decodeHeaderValue (before ++ form ++ after) =
          if Utf8.coerce value = value then .ok value else .error .notUTF8 := by
  refine ⟨fun c => visible_encode, forall_mem_cons.mpr ⟨?_, forall_mem_singleton.mpr ?_⟩⟩
  · rw [decode_encode blank, decodePercent_encode]
  · rw [decode_quote blank, decodePercent_encode]

def words : Bytes := textBytes "two words"

theorem header_round_trip_words : decodeHeaderValue
    (0x20 :: quote (encodeHeaderValue words) ++ [0x09]) =
    .ok words :=
  ((@header_round_trip [0x20] [0x09] (by simp [isBlank]) words).2 _ (.tail _ (.head _))).trans
    (if_pos (by decide +kernel))

/-- What any header value reads as is a value that can be sent again. -/
theorem header_resent {header : Bytes} (read : decodeHeaderValue header = .ok value) :
    decodeHeaderValue (encodeHeaderValue value) = .ok value := by
  obtain ⟨unquoted, -, decoded⟩ := exists_of_bind_eq_ok read
  have valid : Utf8.coerce value = value := by
    rw [decodePercent] at decoded
    split at decoded
    · cases decoded
    · split_ifs at decoded with valid
      cases decoded
      exact valid
  have again := @decode_encode [] [] nofun value
  rwa [nil_append, append_nil, decodePercent_encode, if_pos valid] at again

theorem header_resent_words : decodeHeaderValue (encodeHeaderValue words) = .ok words :=
  @header_resent words (quote words) (by decide +kernel)

end Golusoris.Cloudevents
