import Golusoris.Jcs.Grammar

/-!
# The scanners against the grammar

Each scanner returns exactly the token that the grammar derives, and what is
left after it. Numbers are scanned as far as they go, so the converse asks that
what follows does not continue them.
-/

namespace Golusoris.Jcs

open List
open Lib
open Utf8

variable {byte : UInt8} {value unit fuel : Nat}

theorem hexValue_eq_some_iff : hexValue byte = some value ↔ HexDigit byte value := by
  have bound := byte.toNat_lt
  simp only [hexValue, HexDigit, UInt8.le_iff_toNat_le, UInt8.reduceToNat]
  split_ifs with decimal lower upper
  · simp only [Option.some.injEq]
    omega
  · simp only [Option.some.injEq]
    omega
  · simp only [Option.some.injEq]
    omega
  · simp only [false_iff]
    omega

variable {digits rest tail out text : Bytes}

theorem hex4_append (hex : Hex4 digits unit) (rest : Bytes) :
    hex4 (digits ++ rest) = some unit := by
  obtain ⟨a, b, c, d, w, x, y, z, rfl, first, second, third, fourth, rfl⟩ := hex
  simp [hex4, hexValue_eq_some_iff.mpr first, hexValue_eq_some_iff.mpr second,
    hexValue_eq_some_iff.mpr third, hexValue_eq_some_iff.mpr fourth]

theorem hex4_eq_some (read : hex4 rest = some unit) :
    ∃ digits tail, rest = digits ++ tail ∧ Hex4 digits unit := by
  match rest, read with
  | a :: b :: c :: d :: tail, read =>
    simp only [hex4, bind, Option.bind_eq_some_iff, Option.some.injEq] at read
    obtain ⟨w, first, x, second, y, third, z, fourth, rfl⟩ := read
    exact ⟨[a, b, c, d], tail, rfl, a, b, c, d, w, x, y, z, rfl, hexValue_eq_some_iff.mp first,
      hexValue_eq_some_iff.mp second, hexValue_eq_some_iff.mp third,
      hexValue_eq_some_iff.mp fourth, rfl⟩

theorem Hex4.eq_list (hex : Hex4 digits unit) : ∃ a b c d, digits = [a, b, c, d] := by
  obtain ⟨a, b, c, d, w, x, y, z, rfl, -⟩ := hex
  exact ⟨a, b, c, d, rfl⟩

theorem Hex4.lt (hex : Hex4 digits unit) : unit < 0x10000 := by
  obtain ⟨a, b, c, d, w, x, y, z, rfl, first, second, third, fourth, rfl⟩ := hex
  simp only [HexDigit] at first second third fourth
  omega

theorem shortEscape_eq_some {decoded : UInt8} (known : shortEscape byte = some decoded) :
    ∃ rune, (byte, rune) ∈ shortEscapes ∧ String.utf8EncodeChar rune = [decoded] := by
  simp only [shortEscape] at known
  split_ifs at known with same b f n r t <;> cases known
  · rcases same with rfl | rfl | rfl
    · exact ⟨'"', by decide, by decide⟩
    · exact ⟨'\\', by decide, by decide⟩
    · exact ⟨'/', by decide, by decide⟩
  · exact ⟨'\x08', by rw [b]; decide, by decide⟩
  · exact ⟨'\x0C', by rw [f]; decide, by decide⟩
  · exact ⟨'\n', by rw [n]; decide, by decide⟩
  · exact ⟨'\r', by rw [r]; decide, by decide⟩
  · exact ⟨'\t', by rw [t]; decide, by decide⟩

theorem shortEscape_of_mem : ∀ pair ∈ shortEscapes, pair.1 ≠ 0x75 ∧
    (shortEscape pair.1).map (fun decoded => [decoded]) = some (String.utf8EncodeChar pair.2) := by
  decide

/-- The character of a code point that is no surrogate. -/
theorem exists_char (valid : value.isValidChar) :
    ∃ rune : Char, rune.toNat = value ∧ ∀ out, appendRune out value =
      out ++ String.utf8EncodeChar rune := by
  refine ⟨Char.ofNat value, ?_, fun out => by rw [appendRune, if_pos valid]⟩
  rw [Char.ofNat, dif_pos valid]
  rfl

theorem isValidChar_toNat (rune : Char) : rune.toNat.isValidChar := rune.valid

theorem appendRune_toNat (out : Bytes) (rune : Char) :
    appendRune out rune.toNat = out ++ String.utf8EncodeChar rune := by
  rw [appendRune, if_pos (isValidChar_toNat rune), Char.ofNat_toNat]

/-- The pair of a supplementary character decodes to it. -/
theorem decodePair_surrogates (supplementary : 0x10000 ≤ value) :
    decodePair (0xD800 + (value - 0x10000) / 0x400) (0xDC00 + (value - 0x10000) % 0x400) = value := by
  rw [decodePair]
  omega

theorem lowSurrogate_eq_some {low : Nat} (read : lowSurrogate rest = some low) :
    ∃ digits tail, rest = 0x5C :: 0x75 :: digits ++ tail ∧ Hex4 digits low ∧
      0xDC00 ≤ low ∧ low ≤ 0xDFFF := by
  rw [lowSurrogate.eq_def] at read
  split at read
  · obtain ⟨hexed, bounds⟩ := Option.filter_eq_some_iff.mp read
    obtain ⟨digits, tail, rfl, hex⟩ := hex4_eq_some hexed
    obtain ⟨above, below⟩ := of_decide_eq_true bounds
    exact ⟨digits, tail, rfl, hex, above, below⟩
  · cases read

theorem lowSurrogate_append {low : Nat} (hex : Hex4 digits low)
    (bounds : 0xDC00 ≤ low ∧ low ≤ 0xDFFF) (rest : Bytes) :
    lowSurrogate (0x5C :: 0x75 :: digits ++ rest) = some low := by
  change (hex4 (digits ++ rest)).filter _ = some low
  rw [hex4_append hex, Option.filter_some, if_pos (decide_eq_true bounds)]

/-- A `\u` escape is one unit that is no surrogate, or a pair. -/
theorem unicodeEscape_eq_ok (read : unicodeEscape (0x5C :: 0x75 :: rest) = .ok (value, tail)) :
    (∃ digits, rest = digits ++ tail ∧ Hex4 digits value ∧ value.isValidChar) ∨
      ∃ high low first second, rest = high ++ (0x5C :: 0x75 :: low ++ tail) ∧ Hex4 high first ∧
        Hex4 low second ∧ (0xD800 ≤ first ∧ first ≤ 0xDBFF) ∧
        (0xDC00 ≤ second ∧ second ≤ 0xDFFF) ∧ value = decodePair first second := by
  simp only [unicodeEscape, drop_succ_cons, drop_zero] at read
  cases hexed : hex4 rest with
  | none =>
    rw [hexed] at read
    cases read
  | some unit =>
    obtain ⟨digits, after, rfl, hex⟩ := hex4_eq_some hexed
    obtain ⟨a, b, c, d, rfl⟩ := hex.eq_list
    rw [hexed] at read
    simp only [cons_append, nil_append, drop_succ_cons, drop_zero] at read
    split_ifs at read with low plain
    · cases read
      have small := hex.lt
      refine Or.inl ⟨[a, b, c, d], rfl, hex, ?_⟩
      rw [Nat.isValidChar]
      omega
    · cases paired : lowSurrogate after with
      | none =>
        rw [paired] at read
        cases read
      | some second =>
        obtain ⟨lows, left, rfl, hexLow, bounds⟩ := lowSurrogate_eq_some paired
        rw [paired] at read
        obtain ⟨e, f, g, h, rfl⟩ := hexLow.eq_list
        cases read
        exact Or.inr ⟨[a, b, c, d], [e, f, g, h], unit, second, rfl, hex, hexLow, by omega,
          bounds, rfl⟩

theorem unicodeEscape_unit {rune : Char} (hex : Hex4 digits rune.toNat) (tail : Bytes) :
    unicodeEscape (0x5C :: 0x75 :: digits ++ tail) = .ok (rune.toNat, tail) := by
  have valid := isValidChar_toNat rune
  have small := hex.lt
  have read : hex4 ((0x5C :: 0x75 :: digits ++ tail).drop 2) = some rune.toNat := hex4_append hex tail
  obtain ⟨a, b, c, d, rfl⟩ := hex.eq_list
  rw [Nat.isValidChar] at valid
  rw [unicodeEscape, read]
  change (if _ then _ else if _ then Except.ok (rune.toNat, tail) else _) = _
  rw [if_neg (by omega), if_pos (by omega)]

theorem unicodeEscape_pair {high low : Bytes} {first second : Nat} (hexHigh : Hex4 high first)
    (hexLow : Hex4 low second) (highs : 0xD800 ≤ first ∧ first ≤ 0xDBFF)
    (lows : 0xDC00 ≤ second ∧ second ≤ 0xDFFF) (tail : Bytes) :
    unicodeEscape (0x5C :: 0x75 :: high ++ (0x5C :: 0x75 :: low ++ tail)) =
      .ok (decodePair first second, tail) := by
  have read : hex4 ((0x5C :: 0x75 :: high ++ (0x5C :: 0x75 :: low ++ tail)).drop 2) = some first :=
    hex4_append hexHigh _
  have paired := lowSurrogate_append hexLow lows tail
  obtain ⟨a, b, c, d, rfl⟩ := hexHigh.eq_list
  obtain ⟨e, f, g, h, rfl⟩ := hexLow.eq_list
  rw [unicodeEscape, read]
  simp only [cons_append, nil_append, drop_succ_cons, drop_zero] at paired ⊢
  rw [if_neg (by omega), if_neg (by omega), paired]

/-- What one escape adds to a string. -/
theorem escape_eq_ok {out' : Bytes} (scanned : escape out (0x5C :: rest) = .ok (out', tail)) :
    ∃ text rune, 0x5C :: rest = text ++ tail ∧ out' = out ++ String.utf8EncodeChar rune ∧
      text ≠ [] ∧ ∀ {more runes}, StringBody more runes →
        StringBody (text ++ more) (rune :: runes) := by
  match rest, scanned with
  | byte :: rest, scanned =>
    rw [escape] at scanned
    split_ifs at scanned with unicode
    · subst unicode
      cases read : unicodeEscape (0x5C :: 0x75 :: rest) with
      | error fault => simp [read] at scanned
      | ok result =>
        obtain ⟨value, left⟩ := result
        rw [read] at scanned
        cases scanned
        rcases unicodeEscape_eq_ok read with ⟨digits, rfl, hex, valid⟩ |
          ⟨high, low, first, second, rfl, hexHigh, hexLow, highs, lows, rfl⟩
        · obtain ⟨rune, rfl, appended⟩ := exists_char valid
          exact ⟨0x5C :: 0x75 :: digits, rune, rfl, appended out, by simp,
            fun body => .unit hex body⟩
        · have valid : (decodePair first second).isValidChar := by
            rw [decodePair, Nat.isValidChar]
            omega
          obtain ⟨rune, code, appended⟩ := exists_char valid
          rw [decodePair] at code
          have upper : Hex4 high (0xD800 + (rune.toNat - 0x10000) / 0x400) := by
            convert hexHigh using 1
            omega
          have lower : Hex4 low (0xDC00 + (rune.toNat - 0x10000) % 0x400) := by
            convert hexLow using 1
            omega
          refine ⟨0x5C :: 0x75 :: high ++ (0x5C :: 0x75 :: low), rune, by simp, appended out,
            by simp, fun body => ?_⟩
          simpa using StringBody.pair (by omega) upper lower body
    · cases short : shortEscape byte with
      | none => simp [short] at scanned
      | some decoded =>
        rw [short] at scanned
        cases scanned
        obtain ⟨rune, known, encoded⟩ := shortEscape_eq_some short
        exact ⟨[0x5C, byte], rune, rfl, by rw [encoded], by simp, fun body => .short known body⟩

theorem toNat_ofNat_of_ascii (ascii : byte < 0x80) :
    (Char.ofNat byte.toNat).toNat = byte.toNat := by
  have small : byte.toNat < 0x80 := UInt8.lt_iff_toNat_lt.mp ascii
  rw [Char.ofNat, dif_pos (Or.inl (by omega))]
  rfl

theorem encodeChar_ofNat (ascii : byte < 0x80) :
    String.utf8EncodeChar (Char.ofNat byte.toNat) = [byte] := by
  have code := toNat_ofNat_of_ascii ascii
  rw [encodeChar_ascii (by rw [code]; exact UInt8.lt_iff_toNat_lt.mp ascii), code]
  simp

variable {runes : List Char}

/-- A printable ASCII byte is a character of its own. -/
theorem StringBody.ascii (unquoted : byte ≠ 0x22) (unescaped : byte ≠ 0x5C)
    (printable : ¬byte < 0x20) (ascii : byte < 0x80) (rest : StringBody text runes) :
    StringBody (byte :: text) (Char.ofNat byte.toNat :: runes) := by
  have code := toNat_ofNat_of_ascii ascii
  have other {rune : Char} (same : Char.ofNat byte.toNat = rune) : byte = UInt8.ofNat rune.toNat := by
    rw [← same, code]
    simp
  have whole : StringBody (String.utf8EncodeChar (Char.ofNat byte.toNat) ++ text)
      (Char.ofNat byte.toNat :: runes) := by
    refine .plain ?_ (fun same => unquoted (other same)) (fun same => unescaped (other same)) rest
    rw [code]
    rw [UInt8.lt_iff_toNat_lt] at printable
    exact Nat.le_of_not_lt printable
  rwa [encodeChar_ofNat ascii] at whole

/-- What the loop scans is the body of a string and its closing quote. -/
theorem strLoop_eq_ok {result : Bytes} (scanned : strLoop fuel out rest = .ok (result, tail)) :
    ∃ body runes, rest = body ++ 0x22 :: tail ∧ StringBody body runes ∧
      result = out ++ encode runes := by
  induction fuel generalizing out rest with
  | zero => cases scanned
  | succ fuel ih =>
    cases rest with
    | nil => cases scanned
    | cons byte rest =>
      rw [strLoop] at scanned
      split_ifs at scanned with quote escaped control ascii
      · cases scanned
        exact ⟨[], [], by rw [quote]; rfl, .nil, by simp⟩
      · subst escaped
        cases read : escape out (0x5C :: rest) with
        | error fault => simp [read] at scanned
        | ok escaped =>
          obtain ⟨longer, left⟩ := escaped
          rw [read] at scanned
          obtain ⟨text, rune, same, rfl, -, extend⟩ := escape_eq_ok read
          obtain ⟨body, runes, rfl, inside, rfl⟩ := ih scanned
          exact ⟨text ++ body, rune :: runes, by rw [same, append_assoc], extend inside,
            by simp⟩
      · obtain ⟨body, runes, rfl, inside, rfl⟩ := ih scanned
        refine ⟨byte :: body, Char.ofNat byte.toNat :: runes, rfl,
          .ascii quote escaped control ascii inside, ?_⟩
        rw [encode_cons, encodeChar_ofNat ascii, append_assoc]
      · cases decoded : decodeRune (byte :: rest) with
        | none => simp [decoded] at scanned
        | some rune =>
          rw [decoded] at scanned
          obtain ⟨after, same⟩ := decodeRune_eq_some decoded
          dsimp only at scanned
          rw [same, ← String.length_utf8EncodeChar, take_left, drop_left] at scanned
          obtain ⟨body, runes, rfl, inside, rfl⟩ := ih scanned
          have wide : 0x80 ≤ rune.toNat := by
            by_contra narrow
            rw [encodeChar_ascii (by omega)] at same
            obtain ⟨rfl, -⟩ := List.cons.inj same
            refine ascii (UInt8.lt_iff_toNat_lt.mpr ?_)
            rw [UInt8.toNat_ofNat']
            change _ < 0x80
            omega
          refine ⟨String.utf8EncodeChar rune ++ body, rune :: runes,
            by rw [same, append_assoc], .plain (by omega) ?_ ?_ inside, by simp⟩
          · rintro rfl
            exact absurd wide (by decide)
          · rintro rfl
            exact absurd wide (by decide)

/-- One step of the loop over a character that is written as it is. -/
theorem strLoop_plain {rune : Char} (printable : 0x20 ≤ rune.toNat) (unquoted : rune ≠ '"')
    (unescaped : rune ≠ '\\') :
    strLoop (fuel + 1) out (String.utf8EncodeChar rune ++ rest) =
      strLoop fuel (out ++ String.utf8EncodeChar rune) rest := by
  by_cases ascii : rune.toNat < 0x80
  · have byte : (UInt8.ofNat rune.toNat).toNat = rune.toNat := by
      rw [UInt8.toNat_ofNat', Nat.mod_eq_of_lt (by omega)]
    have notQuote : UInt8.ofNat rune.toNat ≠ 0x22 := fun same =>
      unquoted (Char.toNat_inj.mp (byte.symm.trans (congrArg UInt8.toNat same)))
    have notSlash : UInt8.ofNat rune.toNat ≠ 0x5C := fun same =>
      unescaped (Char.toNat_inj.mp (byte.symm.trans (congrArg UInt8.toNat same)))
    rw [encodeChar_ascii ascii, singleton_append, strLoop, if_neg notQuote,
      if_neg notSlash, if_neg, if_pos]
    · rw [UInt8.lt_iff_toNat_lt, byte]
      exact ascii
    · rw [UInt8.lt_iff_toNat_lt, byte]
      exact Nat.not_lt_of_le printable
  · have wide : 0x80 ≤ rune.toNat := Nat.le_of_not_lt ascii
    have decoded := decodeRune_encode rune rest
    have size := String.length_utf8EncodeChar rune
    cases encoded : String.utf8EncodeChar rune with
    | nil => exact absurd encoded String.utf8EncodeChar_ne_nil
    | cons byte bytes =>
      have high : 0x80 ≤ byte := le_of_mem_encodeChar wide (by rw [encoded]; simp)
      rw [UInt8.le_iff_toNat_le] at high
      change 0x80 ≤ byte.toNat at high
      have other {small : UInt8} (below : small.toNat < 0x80) : byte ≠ small := by
        rintro rfl
        omega
      rw [encoded, cons_append] at decoded
      rw [encoded] at size
      rw [cons_append, strLoop, if_neg (other (by decide)), if_neg (other (by decide)),
        if_neg, if_neg, decoded]
      · dsimp only
        rw [← size, ← cons_append, take_left, drop_left]
      · rw [UInt8.lt_iff_toNat_lt]
        change ¬byte.toNat < 0x80
        omega
      · rw [UInt8.lt_iff_toNat_lt]
        change ¬byte.toNat < 0x20
        omega

theorem strLoop_escape {out' : Bytes} (escaped : escape out (0x5C :: rest) = .ok (out', tail)) :
    strLoop (fuel + 1) out (0x5C :: rest) = strLoop fuel out' tail := by
  rw [strLoop, if_neg (by decide), if_pos rfl, escaped]

theorem strLoop_body {body : Bytes} (inside : StringBody body runes) (tail : Bytes) (fuel : Nat)
    (enough : body.length < fuel) (out : Bytes) :
    strLoop fuel out (body ++ 0x22 :: tail) = .ok (out ++ encode runes, tail) := by
  induction inside generalizing fuel out with
  | nil =>
    cases fuel with
    | zero => cases enough
    | succ fuel => simp [strLoop]
  | @plain rune text runes printable unquoted unescaped rest ih =>
    cases fuel with
    | zero => cases enough
    | succ fuel =>
      have positive := length_pos_iff.mpr (String.utf8EncodeChar_ne_nil (c := rune))
      rw [length_append] at enough
      rw [append_assoc, strLoop_plain printable unquoted unescaped, ih _ (by omega),
        encode_cons, append_assoc]
  | @short byte rune text runes known rest ih =>
    cases fuel with
    | zero => cases enough
    | succ fuel =>
      obtain ⟨notUnicode, decoded⟩ := shortEscape_of_mem _ known
      obtain ⟨plain, found, same⟩ := Option.map_eq_some_iff.mp decoded
      have escaped : escape out (0x5C :: byte :: (text ++ 0x22 :: tail)) =
          .ok (out ++ String.utf8EncodeChar rune, text ++ 0x22 :: tail) := by
        rw [escape, if_neg notUnicode, found, ← same]
      simp only [length_cons] at enough
      rw [cons_append, cons_append, strLoop_escape escaped, ih _ (by omega),
        encode_cons, append_assoc]
  | @unit rune digits text runes hex rest ih =>
    cases fuel with
    | zero => cases enough
    | succ fuel =>
      have escaped : escape out (0x5C :: 0x75 :: (digits ++ (text ++ 0x22 :: tail))) =
          .ok (out ++ String.utf8EncodeChar rune, text ++ 0x22 :: tail) := by
        have read := unicodeEscape_unit hex (text ++ 0x22 :: tail)
        rw [cons_append, cons_append] at read
        rw [escape, if_pos rfl, read, ← appendRune_toNat]
      simp only [length_cons, length_append] at enough
      rw [cons_append, cons_append, cons_append, cons_append,
        append_assoc, strLoop_escape escaped, ih _ (by omega), encode_cons,
        append_assoc]
  | @pair rune high low text runes supplementary first second rest ih =>
    cases fuel with
    | zero => cases enough
    | succ fuel =>
      have escaped : escape out
          (0x5C :: 0x75 :: (high ++ (0x5C :: 0x75 :: (low ++ (text ++ 0x22 :: tail))))) =
          .ok (out ++ String.utf8EncodeChar rune, text ++ 0x22 :: tail) := by
        have code := isValidChar_toNat rune
        rw [Nat.isValidChar] at code
        have read := unicodeEscape_pair first second (by omega) (by omega) (text ++ 0x22 :: tail)
        rw [decodePair_surrogates supplementary] at read
        simp only [cons_append] at read
        rw [escape, if_pos rfl, read, ← appendRune_toNat]
      simp only [length_cons, length_append] at enough
      simp only [cons_append, append_assoc]
      rw [strLoop_escape escaped, ih _ (by omega), encode_cons, append_assoc]

/-- The scanner returns the encoded characters of the literal at the front. -/
theorem str_eq_ok {name : Bytes} (quoted : peek rest = 0x22)
    (scanned : str rest = .ok (name, tail)) :
    ∃ text runes, rest = text ++ tail ∧ StringText text runes ∧ name = encode runes := by
  cases rest with
  | nil => cases quoted
  | cons byte rest =>
    obtain rfl : byte = 0x22 := quoted
    obtain ⟨body, runes, rfl, inside, rfl⟩ := strLoop_eq_ok scanned
    exact ⟨0x22 :: body ++ [0x22], runes, by simp, ⟨body, rfl, inside⟩, rfl⟩

theorem str_text (written : StringText text runes) (tail : Bytes) :
    str (text ++ tail) = .ok (encode runes, tail) := by
  obtain ⟨body, rfl, inside⟩ := written
  have scanned := strLoop_body inside tail (0x22 :: body ++ [0x22] ++ tail).length
    (by simp only [length_append, length_cons, length_nil]; omega) []
  simpa [str] using scanned

theorem StringText.peek (written : StringText text runes) (tail : Bytes) :
    peek (text ++ tail) = 0x22 := by
  obtain ⟨body, rfl, -⟩ := written
  rfl

/-- What follows a number in a text: nothing, white space or a separator. -/
def Stop (tail : Bytes) : Prop :=
  isDigit (peek tail) = false ∧ peek tail ≠ 0x2E ∧ peek tail ≠ 0x65 ∧ peek tail ≠ 0x45

theorem takeWhile_digits (all : ∀ byte ∈ digits, isDigit byte)
    (stops : isDigit (peek tail) = false) :
    (digits ++ tail).takeWhile isDigit = digits ∧ (digits ++ tail).dropWhile isDigit = tail := by
  have taken : tail.takeWhile isDigit = [] ∧ tail.dropWhile isDigit = tail := by
    cases tail with
    | nil => exact ⟨rfl, rfl⟩
    | cons byte tail =>
      have stop : ¬isDigit byte = true := by simpa [Jcs.peek] using stops
      exact ⟨takeWhile_cons_of_neg stop, dropWhile_cons_of_neg stop⟩
  rw [takeWhile_append_of_pos all, dropWhile_append_of_pos all, taken.1, taken.2,
    append_nil]
  exact ⟨rfl, rfl⟩

theorem digits_takeWhile (rest : Bytes) : ∀ byte ∈ rest.takeWhile isDigit, isDigit byte :=
  fun _ found => all_eq_true.mp all_takeWhile _ found

theorem scanFraction_eq_true (scanned : scanFraction rest = (true, tail)) :
    ∃ fraction, rest = fraction ++ tail ∧
      (fraction = [] ∨ ∃ digits, fraction = 0x2E :: digits ∧ Digits digits) := by
  rw [scanFraction.eq_def] at scanned
  split at scanned
  · rename_i rest
    obtain ⟨some, rfl⟩ := Prod.mk.inj scanned
    refine ⟨0x2E :: rest.takeWhile isDigit, by simp, Or.inr ⟨_, rfl, ?_, digits_takeWhile rest⟩⟩
    exact length_pos_iff.mp (of_decide_eq_true some)
  · obtain ⟨-, rfl⟩ := Prod.mk.inj scanned
    exact ⟨[], rfl, Or.inl rfl⟩

theorem scanExponent_eq_true (scanned : scanExponent rest = (true, tail)) :
    ∃ exponent, rest = exponent ++ tail ∧
      (exponent = [] ∨ ∃ mark sign digits, exponent = mark :: sign ++ digits ∧
        (mark = 0x65 ∨ mark = 0x45) ∧ (sign = [] ∨ sign = [0x2B] ∨ sign = [0x2D]) ∧
        Digits digits) := by
  rw [scanExponent] at scanned
  by_cases marked : peek rest = 0x65 ∨ peek rest = 0x45
  · rw [if_pos marked] at scanned
    cases rest with
    | nil => exact absurd marked (by decide)
    | cons mark rest =>
      dsimp only [tail_cons] at scanned
      by_cases signed : peek rest = 0x2B ∨ peek rest = 0x2D
      · rw [if_pos signed] at scanned
        cases rest with
        | nil => exact absurd signed (by decide)
        | cons sign rest =>
          obtain ⟨some, rfl⟩ := Prod.mk.inj scanned
          refine ⟨mark :: [sign] ++ rest.takeWhile isDigit, by simp, Or.inr ⟨mark, [sign], _,
            rfl, marked, Or.inr ?_, length_pos_iff.mp (of_decide_eq_true some),
            digits_takeWhile rest⟩⟩
          exact signed.imp (congrArg fun byte => [byte]) (congrArg fun byte => [byte])
      · rw [if_neg signed] at scanned
        obtain ⟨some, rfl⟩ := Prod.mk.inj scanned
        exact ⟨mark :: [] ++ rest.takeWhile isDigit, by simp, Or.inr ⟨mark, [], _, rfl,
          marked, Or.inl rfl, length_pos_iff.mp (of_decide_eq_true some),
          digits_takeWhile rest⟩⟩
  · rw [if_neg marked] at scanned
    obtain ⟨-, rfl⟩ := Prod.mk.inj scanned
    exact ⟨[], rfl, Or.inl rfl⟩

theorem peek_cons (byte : UInt8) (rest : Bytes) : peek (byte :: rest) = byte := rfl

theorem isDigit_iff : isDigit byte ↔ 0x30 ≤ byte.toNat ∧ byte.toNat ≤ 0x39 := by
  simp [isDigit, UInt8.le_iff_toNat_le]

theorem scanWhole_eq_true (scanned : scanWhole rest = (true, tail)) :
    ∃ whole, rest = whole ++ tail ∧
      (whole = [0x30] ∨ (Digits whole ∧ whole.head? ≠ some 0x30)) := by
  rw [scanWhole] at scanned
  split_ifs at scanned with zero digit
  · obtain ⟨-, rfl⟩ := Prod.mk.inj scanned
    cases rest with
    | nil => exact absurd zero (by decide)
    | cons byte rest => exact ⟨[0x30], by rw [← zero]; rfl, Or.inl rfl⟩
  · obtain ⟨-, rfl⟩ := Prod.mk.inj scanned
    cases rest with
    | nil => exact absurd digit (by decide)
    | cons byte rest =>
      have first : isDigit byte := by
        simp only [peek_cons, UInt8.le_iff_toNat_le] at digit
        change 0x31 ≤ byte.toNat ∧ byte.toNat ≤ 0x39 at digit
        rw [isDigit_iff]
        omega
      have taken : (byte :: rest).takeWhile isDigit = byte :: rest.takeWhile isDigit :=
        takeWhile_cons_of_pos first
      refine ⟨(byte :: rest).takeWhile isDigit, takeWhile_append_dropWhile.symm,
        Or.inr ⟨⟨?_, digits_takeWhile _⟩, ?_⟩⟩
      · rw [taken]
        exact cons_ne_nil _ _
      · rw [taken]
        exact fun same => zero (Option.some.inj same)
  · cases scanned

theorem scanThen_eq_true {scanned : Bool × Bytes} {next : Bytes → Bool × Bytes}
    (both : scanThen scanned next = (true, tail)) :
    ∃ rest, scanned = (true, rest) ∧ next rest = (true, tail) := by
  obtain ⟨matched, rest⟩ := scanned
  cases matched with
  | false => cases both
  | true => exact ⟨rest, rfl, both⟩

/-- What the scanner passes over is a number. -/
theorem scanNumber_eq_true (scanned : scanNumber rest = (true, tail)) :
    ∃ text, rest = text ++ tail ∧ NumberText text := by
  obtain ⟨left, before, exponented⟩ := scanThen_eq_true scanned
  obtain ⟨middle, wholed, fractioned⟩ := scanThen_eq_true before
  obtain ⟨whole, same, digits⟩ := scanWhole_eq_true wholed
  obtain ⟨fraction, rfl, fractional⟩ := scanFraction_eq_true fractioned
  obtain ⟨exponent, rfl, exponential⟩ := scanExponent_eq_true exponented
  obtain ⟨minus, signs, rfl⟩ : ∃ minus, (minus = [] ∨ minus = [0x2D]) ∧
      rest = minus ++ (whole ++ (fraction ++ (exponent ++ tail))) := by
    split_ifs at same with negative
    · cases rest with
      | nil => exact absurd negative (by decide)
      | cons byte rest =>
        obtain rfl : byte = 0x2D := negative
        exact ⟨[0x2D], Or.inr rfl, congrArg (List.cons 0x2D) same⟩
    · exact ⟨[], Or.inl rfl, same⟩
  exact ⟨minus ++ (whole ++ (fraction ++ exponent)), by simp,
    ⟨minus, whole, fraction, exponent, rfl, signs, digits, fractional, exponential⟩⟩

theorem scanFraction_append {fraction : Bytes}
    (written : fraction = [] ∨ ∃ digits, fraction = 0x2E :: digits ∧ Digits digits)
    (stops : isDigit (peek tail) = false) (pointless : peek tail ≠ 0x2E) :
    scanFraction (fraction ++ tail) = (true, tail) := by
  rcases written with rfl | ⟨digits, rfl, some, all⟩
  · rw [nil_append, scanFraction.eq_def]
    split
    · exact absurd rfl pointless
    · rfl
  · obtain ⟨taken, dropped⟩ := takeWhile_digits all stops
    change (decide (0 < ((digits ++ tail).takeWhile isDigit).length),
      (digits ++ tail).dropWhile isDigit) = _
    rw [taken, dropped, decide_eq_true (length_pos_iff.mpr some)]

theorem scanExponent_append {exponent : Bytes}
    (written : exponent = [] ∨ ∃ mark sign digits, exponent = mark :: sign ++ digits ∧
      (mark = 0x65 ∨ mark = 0x45) ∧ (sign = [] ∨ sign = [0x2B] ∨ sign = [0x2D]) ∧ Digits digits)
    (stops : Stop tail) : scanExponent (exponent ++ tail) = (true, tail) := by
  rcases written with rfl | ⟨mark, sign, digits, rfl, marked, signs, some, all⟩
  · rw [nil_append, scanExponent, if_neg (not_or.mpr stops.2.2)]
  · obtain ⟨taken, dropped⟩ := takeWhile_digits all stops.1
    have scanned : (decide (0 < ((digits ++ tail).takeWhile isDigit).length),
        (digits ++ tail).dropWhile isDigit) = (true, tail) := by
      rw [taken, dropped, decide_eq_true (length_pos_iff.mpr some)]
    have unsigned : ¬(peek (digits ++ tail) = 0x2B ∨ peek (digits ++ tail) = 0x2D) := by
      obtain ⟨first, more, rfl⟩ := exists_cons_of_ne_nil some
      have digit := all first mem_cons_self
      rintro (same | same) <;> obtain rfl : first = _ := same <;> exact absurd digit (by decide)
    rw [scanExponent, cons_append, cons_append, peek_cons, if_pos marked]
    rcases signs with rfl | rfl | rfl
    · change (decide (0 < ((if _ then _ else _ : Bytes).takeWhile isDigit).length), _) = _
      rw [nil_append, tail_cons, if_neg unsigned]
      exact scanned
    · exact scanned
    · exact scanned

theorem scanWhole_append {whole : Bytes}
    (written : whole = [0x30] ∨ (Digits whole ∧ whole.head? ≠ some 0x30))
    (stops : isDigit (peek tail) = false) : scanWhole (whole ++ tail) = (true, tail) := by
  rcases written with rfl | ⟨⟨nonempty, all⟩, leading⟩
  · rfl
  · obtain ⟨-, dropped⟩ := takeWhile_digits all stops
    obtain ⟨first, more, rfl⟩ := exists_cons_of_ne_nil nonempty
    have digit := isDigit_iff.mp (all first mem_cons_self)
    have nonzero : first ≠ 0x30 := fun same => leading (congrArg some same)
    have nonzero' : first.toNat ≠ 0x30 := fun same => nonzero (UInt8.toNat_inj.mp same)
    rw [scanWhole, cons_append, peek_cons, if_neg nonzero, if_pos, ← cons_append, dropped]
    rw [UInt8.le_iff_toNat_le, UInt8.le_iff_toNat_le]
    change 0x31 ≤ first.toNat ∧ first.toNat ≤ 0x39
    omega

/-- A number is scanned whole where it stops. -/
theorem scanNumber_append (written : NumberText text) (stops : Stop tail) :
    scanNumber (text ++ tail) = (true, tail) := by
  obtain ⟨minus, whole, fraction, exponent, rfl, signs, digits, fractional, exponential⟩ :=
    written.parts
  have exponentStops : isDigit (peek (exponent ++ tail)) = false ∧
      peek (exponent ++ tail) ≠ 0x2E := by
    rcases exponential with rfl | ⟨mark, sign, more, rfl, rfl | rfl, -⟩
    · exact ⟨stops.1, stops.2.1⟩
    · exact ⟨rfl, show (0x65 : UInt8) ≠ 0x2E by decide⟩
    · exact ⟨rfl, show (0x45 : UInt8) ≠ 0x2E by decide⟩
  have fractionStops : isDigit (peek (fraction ++ (exponent ++ tail))) = false := by
    rcases fractional with rfl | ⟨more, rfl, -⟩
    · exact exponentStops.1
    · rfl
  have unsigned : scanThen (scanThen (scanWhole (whole ++ (fraction ++ (exponent ++ tail))))
      scanFraction) scanExponent = (true, tail) := by
    rw [scanWhole_append digits fractionStops]
    change scanThen (scanFraction (fraction ++ (exponent ++ tail))) scanExponent = _
    rw [scanFraction_append fractional exponentStops.1 exponentStops.2]
    exact scanExponent_append exponential stops
  have positive : peek (whole ++ (fraction ++ (exponent ++ tail))) ≠ 0x2D := by
    rcases digits with rfl | ⟨⟨nonempty, all⟩, -⟩
    · exact show (0x30 : UInt8) ≠ 0x2D by decide
    · obtain ⟨first, more, rfl⟩ := exists_cons_of_ne_nil nonempty
      have digit := all first mem_cons_self
      rintro same
      obtain rfl : first = _ := same
      exact absurd digit (by decide)
  rw [scanNumber]
  rcases signs with rfl | rfl
  · simp only [nil_append, append_assoc, if_neg positive]
    exact unsigned
  · simp only [append_assoc]
    exact unsigned

theorem number_eq_ok {value : ℚ} (scanned : number rest = .ok (value, tail)) :
    ∃ text, rest = text ++ tail ∧ NumberText text ∧ parseFloat text = some value := by
  rw [number] at scanned
  cases run : scanNumber rest with
  | mk matched left =>
    rw [run] at scanned
    cases matched with
    | false => cases scanned
    | true =>
      obtain ⟨text, rfl, written⟩ := scanNumber_eq_true run
      simp only [length_append, Nat.add_sub_cancel, take_left, Bool.not_true,
        Bool.false_eq_true, if_false] at scanned
      cases parsed : parseFloat text with
      | none => simp [parsed] at scanned
      | some double =>
        simp only [parsed, Except.ok.injEq, Prod.mk.injEq] at scanned
        obtain ⟨rfl, rfl⟩ := scanned
        exact ⟨text, rfl, written, parsed⟩

theorem number_append {value : ℚ} (written : NumberText text)
    (finite : parseFloat text = some value) (stops : Stop tail) :
    number (text ++ tail) = .ok (value, tail) := by
  rw [number, scanNumber_append written stops]
  simp [finite]

/-- A number starts with a minus or a digit. -/
theorem NumberText.peek (written : NumberText text) (tail : Bytes) :
    peek (text ++ tail) = 0x2D ∨ isDigit (peek (text ++ tail)) := by
  obtain ⟨minus, whole, fraction, exponent, rfl, signs, digits, -⟩ := written.parts
  rcases signs with rfl | rfl
  · right
    rcases digits with rfl | ⟨⟨nonempty, all⟩, -⟩
    · rfl
    · obtain ⟨first, more, rfl⟩ := exists_cons_of_ne_nil nonempty
      exact all first mem_cons_self
  · exact Or.inl rfl

/-- The value of a literal. -/
def literalValue (text : String) : Json :=
  if text = "true" then .bool true else if text = "false" then .bool false else .null

theorem literal_eq_ok {text : String} (scanned : literal rest = .ok (text, tail)) :
    rest = textBytes text ++ tail ∧ (text = "true" ∨ text = "false" ∨ text = "null") ∧
      Derives (textBytes text) (.value (literalValue text)) := by
  rw [literal] at scanned
  cases found : ["true", "false", "null"].find? fun text => (textBytes text).isPrefixOf rest with
  | none => simp [found] at scanned
  | some text' =>
    rw [found] at scanned
    cases scanned
    have starts := find?_some found
    obtain ⟨left, rfl⟩ := isPrefixOf_iff_prefix.mp starts
    have known := mem_of_find?_eq_some found
    simp only [mem_cons, not_mem_nil, or_false] at known
    refine ⟨by rw [drop_left], known, ?_⟩
    rcases known with rfl | rfl | rfl
    · exact .yes
    · exact .no
    · exact .null

end Golusoris.Jcs
