import Golusoris.Junit.Report
import Golusoris.Lib.Results
import Golusoris.Lib.Words
import Mathlib.Algebra.Order.BigOperators.Group.List

/-!
# Reports are well formed

Every string of a document is made of characters of XML, and every count is the number
of its cases. The times are right as long as no duration reaches `limit`.
-/

namespace Golusoris.Junit

open List
open Lib
open Timestamp
open Digits

/-- The characters of XML 1.0. -/
def XmlChar (r : Char) : Prop :=
  r.toNat = 0x9 ∨ r.toNat = 0xA ∨ r.toNat = 0xD ∨ 0x20 ≤ r.toNat ∧ r.toNat ≤ 0xD7FF ∨
    0xE000 ≤ r.toNat ∧ r.toNat ≤ 0xFFFD ∨ 0x10000 ≤ r.toNat ∧ r.toNat ≤ 0x10FFFF

/-- Valid UTF-8 of characters of XML. -/
def XmlText (s : Bytes) : Prop := ∃ text, Utf8.encode text = s ∧ ∀ r ∈ text, XmlChar r

theorem xmlChar_iff (r : Char) : xmlChar r.toNat ↔ XmlChar r := by
  have scalar := r.valid
  have value : r.val.toNat = r.toNat := rfl
  rw [UInt32.isValidChar, value, Nat.isValidChar] at scalar
  rw [xmlChar, XmlChar]
  split_ifs <;> simp <;> omega

theorem xmlText_nil : XmlText [] := ⟨[], rfl, by simp⟩

variable {s name : Bytes}

theorem XmlText.append {t : Bytes} (first : XmlText s) (second : XmlText t) : XmlText (s ++ t) := by
  obtain ⟨one, rfl, good⟩ := first
  obtain ⟨other, rfl, also⟩ := second
  refine ⟨one ++ other, Utf8.encode_append one other, fun r found => ?_⟩
  exact (mem_append.mp found).elim (good r) (also r)

theorem xmlText_char {r : Char} (good : XmlChar r) : XmlText (String.utf8EncodeChar r) :=
  ⟨[r], append_nil _, by simpa using good⟩

theorem xmlText_byte {byte : UInt8} (low : 0x20 ≤ byte) (high : byte < 0x80) : XmlText [byte] := by
  have all : ∀ value < 0x80, 0x20 ≤ value → (Char.ofNat value).toNat = value := by decide
  have small : byte.toNat < 0x80 := UInt8.lt_iff_toNat_lt.mp high
  have large : 0x20 ≤ byte.toNat := UInt8.le_iff_toNat_le.mp low
  have same := all byte.toNat small large
  have encoded := Utf8.encodeChar_ascii (same.trans_lt small)
  rw [same, UInt8.ofNat_toNat] at encoded
  rw [← encoded]
  exact xmlText_char (by rw [XmlChar, same]; omega)

theorem xmlText_of_all (plain : ∀ byte ∈ s, 0x20 ≤ byte ∧ byte < 0x80) : XmlText s := by
  induction s with
  | nil => exact xmlText_nil
  | cons byte rest ih =>
    obtain ⟨low, high⟩ := plain byte mem_cons_self
    exact (xmlText_byte low high).append (ih fun other found =>
      plain other (mem_cons_of_mem byte found))

/-- The digits of an escape. -/
theorem hexLower_plain {value : ℕ} (small : value < 16) :
    0x20 ≤ Json.hexLower value ∧ Json.hexLower value < 0x80 := by
  have all : ∀ value < 16, 0x20 ≤ Json.hexLower value ∧ Json.hexLower value < 0x80 := by decide
  exact all value small

theorem xmlText_escapeByte {value : ℕ} (small : value < 0x100) : XmlText (escapeByte value) := by
  refine xmlText_of_all ?_
  simp only [escapeByte, forall_mem_cons]
  exact ⟨by decide, by decide, hexLower_plain (by omega), hexLower_plain (by omega), by simp⟩

theorem xmlText_unitEscape {unit : ℕ} (small : unit < 0x10000) : XmlText (Json.unitEscape unit) := by
  refine xmlText_of_all ?_
  simp only [Json.unitEscape, forall_mem_cons]
  exact ⟨by decide, by decide, hexLower_plain (by omega), hexLower_plain (by omega),
    hexLower_plain (by omega), hexLower_plain (by omega), by simp⟩

theorem decodeRune_split {r : Char} (read : Utf8.decodeRune s = some r) :
    s.take r.utf8Size = String.utf8EncodeChar r ∧ s = String.utf8EncodeChar r ++ s.drop r.utf8Size := by
  obtain ⟨rest, rfl⟩ := Utf8.decodeRune_eq_some read
  rw [← String.length_utf8EncodeChar, take_left, drop_left]
  exact ⟨rfl, rfl⟩

theorem xmlText_cleanFrom (fuel : ℕ) (s : Bytes) : XmlText (cleanFrom fuel s) := by
  induction fuel generalizing s with
  | zero => exact xmlText_nil
  | succ fuel ih =>
    cases s with
    | nil => exact xmlText_nil
    | cons byte rest =>
      rw [cleanFrom]
      cases read : Utf8.decodeRune (byte :: rest) with
      | none => exact (xmlText_escapeByte byte.toNat_lt).append (ih rest)
      | some r =>
        refine XmlText.append ?_ (ih _)
        split_ifs with bad narrow
        · exact xmlText_escapeByte narrow
        · -- What is neither a control nor a character of XML is U+FFFE or U+FFFF.
          refine xmlText_unitEscape (Nat.lt_of_not_le fun wide => ?_)
          have scalar := r.valid
          have value : r.val.toNat = r.toNat := rfl
          rw [UInt32.isValidChar, value, Nat.isValidChar] at scalar
          rw [(xmlChar_iff r).mpr (by rw [XmlChar]; omega)] at bad
          cases bad
        · rw [(decodeRune_split read).1]
          exact xmlText_char ((xmlChar_iff r).mp (by simpa using bad))

theorem xmlText_of_safe {fuel : ℕ} (enough : s.length ≤ fuel) (safe : xmlSafeFrom fuel s) :
    XmlText s := by
  induction fuel generalizing s with
  | zero =>
    obtain rfl := length_eq_zero_iff.mp (Nat.le_zero.mp enough)
    exact xmlText_nil
  | succ fuel ih =>
    cases s with
    | nil => exact xmlText_nil
    | cons byte rest =>
      rw [xmlSafeFrom] at safe
      cases read : Utf8.decodeRune (byte :: rest) with
      | none => simp [read] at safe
      | some r =>
        rw [read, Bool.and_eq_true] at safe
        have positive := r.utf8Size_pos
        rw [(decodeRune_split read).2]
        refine (xmlText_char ((xmlChar_iff r).mp safe.1)).append (ih ?_ safe.2)
        rw [length_drop]
        omega

theorem safe_of_xmlText (fuel : ℕ) (plain : XmlText s) : xmlSafeFrom fuel s := by
  obtain ⟨text, rfl, good⟩ := plain
  induction text generalizing fuel with
  | nil => cases fuel <;> rfl
  | cons r text ih =>
    cases fuel with
    | zero => rfl
    | succ fuel =>
      have read := Utf8.decodeRune_encode r (Utf8.encode text)
      have dropped := (decodeRune_split read).2
      have own := (xmlChar_iff r).mpr (good r mem_cons_self)
      have rest := ih fuel fun other found => good other (mem_cons_of_mem r found)
      rw [Utf8.encode_cons]
      rw [append_cancel_left_eq] at dropped
      generalize String.utf8EncodeChar r ++ Utf8.encode text = bytes at read dropped
      cases bytes with
      | nil => rfl
      | cons byte more =>
        rw [xmlSafeFrom, read]
        simp only [own, ← dropped, rest, Bool.and_self]

/-- What `clean` returns is a text of XML, and such texts it leaves alone. -/
structure CleanLaws : Prop where
  xmlText : ∀ s, XmlText (clean s)
  safe : ∀ s, XmlText s → clean s = s
  idempotent : ∀ s, clean (clean s) = clean s

theorem clean_safe (plain : XmlText s) : clean s = s :=
  if_pos (safe_of_xmlText s.length plain)

theorem xmlText_clean (s : Bytes) : XmlText (clean s) := by
  rw [clean]
  split_ifs with safe
  · exact xmlText_of_safe le_rfl safe
  · exact xmlText_cleanFrom s.length s

theorem cleanLaws : CleanLaws where
  xmlText := xmlText_clean
  safe _ := clean_safe
  idempotent s := clean_safe (xmlText_clean s)

/-- From here on a duration is longer than the longest one when it is rounded. -/
def limit : ℤ := 9223372036854500000

/-- The nearest number of milliseconds, and the later one of two. -/
def milliseconds (nanos : ℤ) : ℤ := (nanos + 500000) / 1000000

/-- A decimal number of seconds with three digits for its fraction. -/
def secondsText (ms : ℕ) : Bytes := Digits.natText (ms / 1000) ++ 0x2E :: Digits.fixed 3 (ms % 1000)

/-- The text is the number of seconds, rounded. -/
def ShowsSeconds (text : Bytes) (nanos : ℤ) : Prop := text = secondsText (milliseconds nanos).toNat

theorem lessThanHalf_iff {r : Int64} (positive : 0 ≤ r.toInt) (small : r.toInt < 1000000) :
    lessThanHalf r millisecond ↔ 2 * r.toInt < 1000000 := by
  have word := Words.toNat_toUInt64 positive
  have unit : millisecond.toUInt64.toNat = 1000000 := rfl
  rw [lessThanHalf, decide_eq_true_iff, UInt64.lt_iff_toNat_lt, UInt64.toNat_add, unit,
    Nat.mod_eq_of_lt (by omega)]
  omega

theorem div_millisecond (d : Int64) : (d / millisecond).toInt = d.toInt.tdiv 1000000 :=
  Int64.toInt_div_of_ne_right d millisecond (by decide)

variable {d : Int64}

theorem round_eq (positive : 0 ≤ d.toInt) (short : d.toInt < limit) :
    (round d millisecond / millisecond).toInt = milliseconds d.toInt := by
  have unit : millisecond.toInt = 1000000 := rfl
  have rest : (d % millisecond).toInt = d.toInt % 1000000 := by
    rw [Int64.toInt_mod, unit, Int.tmod_eq_emod_of_nonneg positive]
  have half := lessThanHalf_iff (r := d % millisecond) (by omega) (by omega)
  rw [rest] at half
  rw [limit] at short
  rw [round, if_neg (by decide), if_neg (by rw [Int64.lt_iff_toInt_lt]; exact Int.not_lt.mpr positive),
    div_millisecond, milliseconds]
  split_ifs with less
  · rw [half] at less
    have down : (d - d % millisecond).toInt = d.toInt - d.toInt % 1000000 := by
      rw [Int64.toInt_sub, rest]
      exact Int.bmod_eq_of_le (by omega) (by omega)
    rw [down, Int.tdiv_eq_ediv_of_nonneg (by omega)]
    omega
  · rw [half] at less
    have up : (d + millisecond - d % millisecond).toInt = d.toInt + 1000000 - d.toInt % 1000000 := by
      rw [Int64.toInt_sub, Int64.toInt_add, rest, unit, Int.bmod_sub_bmod]
      exact Int.bmod_eq_of_le (by omega) (by omega)
    rw [if_pos (by rw [gt_iff_lt, Int64.lt_iff_toInt_lt, up]; omega), up, Int.tdiv_eq_ediv_of_nonneg (by omega)]
    omega

theorem secondsText_injective : Function.Injective secondsText := by
  intro one other same
  obtain ⟨whole, fraction⟩ := append_inj' same (by simp)
  have wholes := congrArg readNat whole
  rw [readNat_natText, readNat_natText, Option.some.injEq] at wholes
  have parts := fixed_inj (by omega) (by omega) (List.cons.inj fraction).2
  omega

/-- The text of a number of milliseconds that is not negative. -/
theorem secondsText_eq {ms : Int64} (positive : 0 ≤ ms.toInt) :
    intText (ms / 1000).toInt ++ 0x2E :: threeDigits (ms % 1000).toInt =
      secondsText ms.toInt.toNat := by
  have whole : (ms / 1000).toInt = (ms.toInt.toNat / 1000 : ℕ) := by
    have divided := Int64.toInt_div_of_ne_right ms 1000 (by decide)
    rw [divided, Int.tdiv_eq_ediv_of_nonneg positive]
    change ms.toInt / 1000 = _
    omega
  have fraction : (ms % 1000).toInt = (ms.toInt.toNat % 1000 : ℕ) := by
    rw [Int64.toInt_mod, Int.tmod_eq_emod_of_nonneg positive]
    change ms.toInt % 1000 = _
    omega
  have short : (natText (ms.toInt.toNat % 1000)).length ≤ 2 + 1 :=
    length_natText_le (by omega)
  rw [whole, fraction, secondsText, intText, threeDigits, if_neg (by omega), if_neg (by omega),
    Int.natAbs_natCast, Int.natAbs_natCast, replicate_append_natText short]

theorem not_mem_secondsText (ms : ℕ) : 0x2D ∉ secondsText ms := by
  have digits := all_eq_true.mp (all_natText (ms / 1000))
  have more := all_eq_true.mp (all_fixed 3 (ms % 1000))
  intro found
  simp only [secondsText, mem_append, mem_cons] at found
  obtain found | same | found := found
  · exact absurd (digits _ found) (by decide)
  · exact absurd same (by decide)
  · exact absurd (more _ found) (by decide)

theorem seconds_eq (positive : 0 ≤ d.toInt) (short : d.toInt < limit) :
    ShowsSeconds (seconds d) d.toInt := by
  have rounded := round_eq positive short
  rw [ShowsSeconds, ← rounded]
  refine secondsText_eq ?_
  rw [rounded, milliseconds]
  omega

theorem mem_of_negative {ms : Int64} (negative : ms.toInt < 0) :
    0x2D ∈ intText (ms / 1000).toInt ++ 0x2E :: threeDigits (ms % 1000).toInt := by
  have divided := Int64.toInt_div_of_ne_right ms 1000 (by decide)
  have left := Int64.toInt_mod ms 1000
  have parts := Int.mul_tdiv_add_tmod ms.toInt 1000
  have unit : (1000 : Int64).toInt = 1000 := rfl
  rw [unit] at divided left
  by_cases whole : (ms / 1000).toInt < 0
  · rw [intText, if_pos whole]
    exact mem_append_left _ mem_cons_self
  · rw [threeDigits, if_pos (by omega)]
    exact mem_append_right _ (mem_cons_of_mem _ mem_cons_self)

/-- What a word of nanoseconds is written as stands for fewer milliseconds than a
duration of `limit`. -/
theorem lt_limit_of_seconds {nanos : ℤ} (shows : ShowsSeconds (seconds d) nanos) :
    nanos < limit := by
  by_cases positive : 0 ≤ (round d millisecond / millisecond).toInt
  · have same := secondsText_injective ((secondsText_eq positive).symm.trans shows)
    have small : (round d millisecond / millisecond).toInt ≤ 9223372036854 := by
      have bound : (round d millisecond).toInt ≤ 9223372036854775807 :=
        Int.le_of_lt_add_one (Int64.toInt_lt _)
      rw [div_millisecond]
      exact Int.tdiv_le_tdiv (by decide) bound
    rw [milliseconds] at same
    rw [limit]
    omega
  · rw [ShowsSeconds] at shows
    have minus : 0x2D ∈ seconds d := mem_of_negative (Int.not_le.mp positive)
    rw [shows] at minus
    exact absurd minus (not_mem_secondsText _)

theorem xmlText_of_written (shown : s.all written) : XmlText s := by
  refine xmlText_of_all fun byte found => ?_
  have range := all_eq_true.mp shown byte found
  simp only [written, Bool.and_eq_true, decide_eq_true_eq] at range
  exact ⟨UInt8.le_trans (by decide) range.1, UInt8.lt_of_le_of_lt range.2 (by decide)⟩

theorem xmlText_seconds (d : Int64) : XmlText (seconds d) := by
  have digits (value : ℕ) : (natText value).all written :=
    all_eq_true.mpr fun byte found =>
      written_of_isDigit (all_eq_true.mp (all_natText value) byte found)
  have zero : written 0x30 := by decide
  have minus : written 0x2D := by decide
  have point : written 0x2E := by decide
  refine xmlText_of_written ?_
  rw [seconds, intText, threeDigits]
  split_ifs <;> simp [digits, zero, minus, point]

theorem xmlText_timestamp (time : Timestamp.Time) : XmlText (timestampText time) := by
  have separators : written 0x2D ∧ written 0x3A ∧ written 0x54 := by
    decide
  rw [timestampText]
  split_ifs
  · exact xmlText_nil
  · refine xmlText_of_written ?_
    simp [formatDate, formatClock, written_appendInt, separators]

def XmlResult.strings (r : XmlResult) : List Bytes := [r.message, r.type, r.body]

def XmlCase.strings (c : XmlCase) : List Bytes :=
  [c.name, c.classname, c.time, c.systemOut, c.systemErr] ++
    (c.failure.toList ++ c.error.toList ++ c.skipped.toList).flatMap XmlResult.strings

def XmlSuite.strings (s : XmlSuite) : List Bytes :=
  [s.name, s.time, s.timestamp, s.hostname, s.systemOut, s.systemErr] ++
    (s.properties.getD []).flatMap (fun p => [p.name, p.value]) ++ s.cases.flatMap XmlCase.strings

def XmlSuites.strings (doc : XmlSuites) : List Bytes :=
  [doc.name, doc.time] ++ doc.suites.flatMap XmlSuite.strings

def withStatus (status : Status) (cases : List Case) : ℕ := cases.countP (·.status = status)

def caseNanos (c : Case) : ℤ := c.duration.toInt

/-- The exact duration that a suite stands for. -/
def suiteNanos (s : Suite) : ℤ :=
  if 0 < s.duration.toInt then s.duration.toInt else (s.cases.map caseNanos).sum

structure SuiteCounts (s : Suite) (x : XmlSuite) : Prop where
  tests : x.tests = s.cases.length
  failures : x.failures = withStatus Status.failed s.cases
  errors : x.errors = withStatus Status.errored s.cases
  skipped : x.skipped = withStatus Status.skipped s.cases

structure SuiteFaithful (s : Suite) (x : XmlSuite) : Prop extends SuiteCounts s x where
  time : ShowsSeconds x.time (suiteNanos s)
  cases : List.Forall₂ (fun c y => ShowsSeconds y.time (caseNanos c)) s.cases x.cases

def Report.cases (r : Report) : List Case := r.suites.flatMap Suite.cases

structure WellFormed (r : Report) (doc : XmlSuites) : Prop where
  strings : ∀ s ∈ doc.strings, XmlText s
  tests : doc.tests = r.cases.length
  failures : doc.failures = withStatus Status.failed r.cases
  errors : doc.errors = withStatus Status.errored r.cases
  time : ShowsSeconds doc.time (r.suites.map suiteNanos).sum
  suites : List.Forall₂ SuiteFaithful r.suites doc.suites

/-- No case, and not the whole report, lasts as long as `limit`. -/
structure Fits (r : Report) : Prop where
  cases : ∀ c ∈ r.cases, caseNanos c < limit
  total : (r.suites.map suiteNanos).sum < limit

theorem buildCase_ok {c : Case} {x : XmlCase} (built : buildCase c = .ok x) :
    0 ≤ caseNanos c ∧ x.time = seconds c.duration ∧ ∀ s ∈ x.strings, XmlText s := by
  rw [buildCase] at built
  dsimp only at built
  split_ifs at built with unnamed negative passed failed errored skipped
  all_goals
    cases built
    refine ⟨Int64.le_iff_toInt_le.mp (Int64.not_lt.mp negative), rfl, ?_⟩
    simp [XmlCase.strings, XmlResult.strings, xmlText_clean, xmlText_seconds, xmlText_nil]

theorem buildProperties_ok {props : List Property} {items : Option (List XmlProperty)}
    (built : buildProperties props = .ok items) :
    ∀ item ∈ items.getD [], XmlText item.name ∧ XmlText item.value := by
  rw [buildProperties] at built
  split_ifs at built
  · cases built
    simp
  · obtain ⟨all, folded, rfl⟩ := exists_of_map_eq_ok built
    refine foldlM_invariant (fun _ items => ∀ item ∈ items, XmlText item.name ∧ XmlText item.value)
      ?_ (by simp) folded
    rintro before ⟨p, i⟩ items after - good added
    rw [addProperty] at added
    split_ifs at added
    cases added
    simp only [mem_append, mem_singleton]
    rintro item (found | rfl)
    · exact good item found
    · exact ⟨xmlText_clean _, xmlText_clean _⟩

theorem count_eq (s : XmlSuite) (st : Status) :
    s.count st = { s with
      failures := s.failures + if st = Status.failed then 1 else 0
      errors := s.errors + if st = Status.errored then 1 else 0
      skipped := s.skipped + if st = Status.skipped then 1 else 0 } := by
  rw [XmlSuite.count]
  split_ifs with failed errored skipped <;> subst_vars <;> first | rfl | contradiction

theorem withStatus_snoc (status : Status) (cases : List Case) (c : Case) :
    withStatus status (cases ++ [c]) =
      withStatus status cases + if c.status = status then 1 else 0 := by
  simp [withStatus, countP_append, countP_singleton]

/-- What the loop over the cases has done to a suite. -/
structure Counted (start : XmlSuite) (cases : List Case) (state : XmlSuite × Int64) : Prop where
  same : state.1 = { start with
    cases := state.1.cases
    failures := withStatus Status.failed cases
    errors := withStatus Status.errored cases
    skipped := withStatus Status.skipped cases }
  timed : List.Forall₂ (fun c x => x.time = seconds c.duration) cases state.1.cases
  positive : ∀ c ∈ cases, 0 ≤ caseNanos c
  strings : ∀ s ∈ state.1.cases.flatMap XmlCase.strings, XmlText s
  sum : state.2.toInt = (cases.map caseNanos).sum.bmod (2 ^ 64)

theorem Counted.add {start : XmlSuite} {cases : List Case} {state next : XmlSuite × Int64}
    {c : Case} {i : ℕ} (counted : Counted start cases state)
    (added : addCase name state (c, i) = .ok next) : Counted start (cases ++ [c]) next := by
  obtain ⟨out, sum⟩ := state
  obtain ⟨same, timed, positive, strings, summed⟩ := counted
  rw [addCase] at added
  cases own : buildCase c with
  | error cause => simp [own] at added
  | ok x =>
    rw [own] at added
    cases added
    dsimp only at same timed strings summed
    obtain ⟨long, time, texts⟩ := buildCase_ok own
    rw [count_eq]
    refine ⟨?_, rel_append timed (.cons time .nil), ?_, ?_, ?_⟩
    · rw [withStatus_snoc, withStatus_snoc, withStatus_snoc]
      dsimp only
      rw [same]
    · exact forall_mem_append.mpr ⟨positive, by simpa using long⟩
    · rw [flatMap_append]
      exact forall_mem_append.mpr ⟨strings, by simpa using texts⟩
    · rw [Int64.toInt_add, summed, map_append, sum_append, Int.bmod_add_bmod,
        map_singleton, sum_singleton, caseNanos]

theorem counted_of_folded {start : XmlSuite} {cases : List Case} {state : XmlSuite × Int64}
    (fresh : start = { start with cases := [], failures := 0, errors := 0, skipped := 0 })
    (folded : cases.zipIdx.foldlM (addCase name) (start, 0) = .ok state) :
    Counted start cases state := by
  have counted : Counted start (cases.zipIdx.map Prod.fst) state := by
    refine foldlM_invariant (fun before state => Counted start (before.map Prod.fst) state)
      (fun before item state next _ counted added => ?_) ?_ folded
    · rw [map_append]
      exact counted.add added
    · rw [fresh]
      exact ⟨rfl, .nil, by simp, by simp, by simp⟩
  rwa [zipIdx_map_fst] at counted

/-- What a suite that is built tells of its cases. -/
structure Built (s : Suite) (x : XmlSuite) (d : Int64) : Prop extends SuiteCounts s x where
  positive : 0 ≤ suiteNanos s ∧ ∀ c ∈ s.cases, 0 ≤ caseNanos c
  time : x.time = seconds d
  nanos : d.toInt = (suiteNanos s).bmod (2 ^ 64)
  timed : List.Forall₂ (fun c y => y.time = seconds c.duration) s.cases x.cases
  strings : ∀ t ∈ x.strings, XmlText t

variable {s : Suite}

theorem buildSuite_ok {x : XmlSuite} (built : buildSuite s = .ok (x, d)) : Built s x d := by
  rw [buildSuite] at built
  by_cases unnamed : s.name = []
  · simp [unnamed] at built
  by_cases negative : s.duration < 0
  · simp [unnamed, negative] at built
  rw [if_neg unnamed, if_neg negative] at built
  dsimp only at built
  cases listed : buildProperties s.properties with
  | error cause => simp [listed] at built
  | ok props =>
    rw [listed] at built
    obtain ⟨⟨out, sum⟩, folded, done⟩ := exists_of_bind_eq_ok built
    obtain ⟨same, timed, positive, strings, summed⟩ := counted_of_folded rfl folded
    cases done
    dsimp only at same timed strings summed
    have wall : 0 ≤ s.duration.toInt := Int64.le_iff_toInt_le.mp (Int64.not_lt.mp negative)
    refine ⟨⟨by rw [same], by rw [same], by rw [same], by rw [same]⟩, ⟨?_, positive⟩, rfl, ?_,
      timed, ?_⟩
    · rw [suiteNanos]
      split_ifs
      · exact wall
      · refine sum_nonneg fun nanos found => ?_
        obtain ⟨c, listed, rfl⟩ := mem_map.mp found
        exact positive c listed
    · have explicit : s.duration > 0 ↔ 0 < s.duration.toInt := Int64.lt_iff_toInt_lt
      rw [suiteNanos]
      split_ifs with own wall wall
      · rw [Int.bmod_eq_of_le (Int64.le_toInt _) (Int64.toInt_lt _)]
      · exact absurd (explicit.mp own) wall
      · exact absurd (explicit.mpr wall) own
      · exact summed
    · have items := buildProperties_ok listed
      have shown : ∀ t ∈ (props.getD []).flatMap (fun p => [p.name, p.value]), XmlText t := by
        intro t found
        obtain ⟨p, own, side⟩ := mem_flatMap.mp found
        obtain rfl | rfl : t = p.name ∨ t = p.value := by simpa using side
        · exact (items p own).1
        · exact (items p own).2
      rw [XmlSuite.strings, forall_mem_append, forall_mem_append]
      refine ⟨⟨?_, ?_⟩, strings⟩
      · rw [same]
        simp [xmlText_clean, xmlText_seconds, xmlText_timestamp]
      · rw [same]
        exact shown

/-- What the loop over the suites has done to a document. -/
structure Totalled (name : Bytes) (suites : List Suite) (state : XmlSuites × Int64) : Prop where
  same : state.1 = {
    name := name
    tests := (suites.flatMap Suite.cases).length
    failures := withStatus Status.failed (suites.flatMap Suite.cases)
    errors := withStatus Status.errored (suites.flatMap Suite.cases)
    suites := state.1.suites }
  built : List.Forall₂ (fun s x => ∃ d, Built s x d) suites state.1.suites
  strings : ∀ s ∈ state.1.suites.flatMap XmlSuite.strings, XmlText s
  sum : state.2.toInt = (suites.map suiteNanos).sum.bmod (2 ^ 64)

theorem Totalled.add {suites : List Suite} {state next : XmlSuites × Int64} {i : ℕ}
    (totalled : Totalled name suites state) (added : addSuite state (s, i) = .ok next) :
    Totalled name (suites ++ [s]) next := by
  obtain ⟨doc, total⟩ := state
  obtain ⟨same, built, strings, summed⟩ := totalled
  rw [addSuite] at added
  cases own : buildSuite s with
  | error cause => simp [own] at added
  | ok made =>
    obtain ⟨x, d⟩ := made
    have whole := buildSuite_ok own
    rw [own] at added
    cases added
    dsimp only at same built strings summed
    refine ⟨?_, rel_append built (.cons ⟨d, whole⟩ .nil), ?_, ?_⟩
    · have joined (status : Status) :
          withStatus status ((suites ++ [s]).flatMap Suite.cases) =
            withStatus status (suites.flatMap Suite.cases) + withStatus status s.cases := by
        simp [withStatus]
      rw [joined, joined, whole.tests, whole.failures, whole.errors]
      dsimp only
      rw [same]
      simp
    · rw [flatMap_append]
      exact forall_mem_append.mpr ⟨strings, by simpa using whole.strings⟩
    · rw [Int64.toInt_add, summed, whole.nanos, map_append, sum_append,
        Int.bmod_add_bmod, Int.add_bmod_bmod, map_singleton, sum_singleton]

theorem build_ok {r : Report} {doc : XmlSuites} (built : build r = .ok doc) :
    ∃ before d, Totalled (clean r.name) r.suites (before, d) ∧
      doc = { before with time := seconds d } := by
  obtain ⟨⟨before, d⟩, folded, done⟩ := exists_of_bind_eq_ok built
  have totalled : Totalled (clean r.name) (r.suites.zipIdx.map Prod.fst) (before, d) := by
    refine foldlM_invariant (fun before state => Totalled (clean r.name) (before.map Prod.fst) state)
      (fun before item state next _ totalled added => ?_) ⟨rfl, .nil, by simp, by simp⟩ folded
    rw [map_append]
    exact totalled.add added
  rw [zipIdx_map_fst] at totalled
  exact ⟨before, d, totalled, (Except.ok.inj done).symm⟩

/-- A property of the first items is one of the pairs. -/
theorem forall_left {α β : Type} {p : α → Prop} {related : α → β → Prop} {left : List α}
    {right : List β} (pairs : List.Forall₂ related left right)
    (implied : ∀ a b, related a b → p a) : ∀ a ∈ left, p a :=
  ((forall₂_and_left _ _).mp (pairs.imp fun a b own => ⟨implied a b own, own⟩)).1

/-- A duration below `limit` is exact although the sum wraps. -/
theorem seconds_exact {nanos : ℤ} (wrapped : d.toInt = nanos.bmod (2 ^ 64)) (positive : 0 ≤ nanos)
    (short : nanos < limit) : ShowsSeconds (seconds d) nanos := by
  have exact : d.toInt = nanos := by
    rw [limit] at short
    rw [wrapped]
    exact Int.bmod_eq_of_le (by omega) (by omega)
  rw [← exact] at positive short ⊢
  exact seconds_eq positive short

theorem Built.faithful {x : XmlSuite} (built : Built s x d) (short : suiteNanos s < limit)
    (cases : ∀ c ∈ s.cases, caseNanos c < limit) : SuiteFaithful s x := by
  refine ⟨built.toSuiteCounts, ?_, ?_⟩
  · rw [built.time]
    exact seconds_exact built.nanos built.positive.1 short
  · have bounded : ∀ c ∈ s.cases, 0 ≤ caseNanos c ∧ caseNanos c < limit :=
      fun c listed => ⟨built.positive.2 c listed, cases c listed⟩
    refine ((forall₂_and_left _ _).mpr ⟨bounded, built.timed⟩).imp ?_
    rintro c y ⟨⟨positive, small⟩, time⟩
    rw [time]
    exact seconds_eq positive small

/-- Strings and counts are always right, and so is what `clean` does; the times are as long
as nothing lasts `limit`. -/
theorem wellFormed_iff {r : Report} {doc : XmlSuites} (built : build r = .ok doc) :
    CleanLaws ∧ (WellFormed r doc ↔ Fits r) := by
  refine ⟨cleanLaws, ?_⟩
  obtain ⟨before, d, ⟨same, suites, strings, total⟩, rfl⟩ := build_ok built
  dsimp only at same suites strings total
  constructor
  · intro formed
    refine ⟨fun c listed => ?_, lt_limit_of_seconds formed.time⟩
    obtain ⟨s, own, inside⟩ := List.mem_flatMap.mp listed
    have each : ∀ s ∈ r.suites, ∀ c ∈ s.cases, caseNanos c < limit := by
      refine forall_left (List.Forall₂.mp (fun _ _ => And.intro) suites formed.suites) ?_
      rintro s x ⟨⟨d, whole⟩, faithful⟩
      refine forall_left (List.Forall₂.mp (fun _ _ => And.intro) whole.timed faithful.cases) ?_
      rintro c y ⟨time, shows⟩
      rw [time] at shows
      exact lt_limit_of_seconds shows
    exact each s own c inside
  · intro fits
    have positive : ∀ s ∈ r.suites, 0 ≤ suiteNanos s :=
      forall_left suites fun _ _ ⟨_, whole⟩ => whole.positive.1
    have summands : ∀ nanos ∈ r.suites.map suiteNanos, 0 ≤ nanos := by
      simpa using positive
    have bounded : ∀ s ∈ r.suites, suiteNanos s < limit ∧ ∀ c ∈ s.cases, caseNanos c < limit := by
      refine fun s listed => ⟨?_, fun c inside => fits.cases c (List.mem_flatMap.mpr ⟨s, listed, inside⟩)⟩
      exact (List.single_le_sum summands _ (List.mem_map_of_mem listed)).trans_lt fits.total
    refine ⟨?_, ?_, ?_, ?_, ?_, ?_⟩
    · rw [XmlSuites.strings, List.forall_mem_append]
      refine ⟨?_, strings⟩
      rw [same]
      simp [xmlText_clean, xmlText_seconds]
    · rw [same]
      rfl
    · rw [same]
      rfl
    · rw [same]
      rfl
    · exact seconds_exact total (List.sum_nonneg summands) fits.total
    · refine ((List.forall₂_and_left _ _).mpr ⟨bounded, suites⟩).imp ?_
      rintro s x ⟨⟨short, cases⟩, d, whole⟩
      exact whole.faithful short cases

/-- A report with a case that passed and one that failed with a control in its message. -/
def gateReport : Report where
  suites := [{
    name := textBytes "score-gate"
    cases := [
      { name := textBytes "clip-01", duration := 1499000 },
      { name := textBytes "clip-02", duration := 1500000, status := Status.failed,
        message := textBytes "VMAF 91.2" ++ [0x1B, 0xFF] }] }]

theorem wellFormed_gate : ∃ doc, build gateReport = .ok doc ∧ WellFormed gateReport doc := by
  have accepted : (build gateReport).toBool := by decide +kernel
  cases built : build gateReport with
  | error failure => simp [built, Except.toBool] at accepted
  | ok doc => exact ⟨doc, rfl, (wellFormed_iff built).2.mpr ⟨by decide +kernel, by decide +kernel⟩⟩

/-- Two cases whose durations add up to more than a word holds. -/
def longReport : Report where
  suites := [{
    name := textBytes "s"
    cases := [
      { name := textBytes "a", duration := 4611686018427387904 },
      { name := textBytes "b", duration := 4611686018427387904 }] }]

/-- Their total is written as a number that is negative twice. -/
theorem total_wraps : ∃ doc, build longReport = .ok doc ∧
    doc.time = textBytes "-9223372036.-854" ∧ ¬WellFormed longReport doc := by
  have written : (build longReport).toOption.map XmlSuites.time =
      some (textBytes "-9223372036.-854") := by
    decide +kernel
  cases built : build longReport with
  | error failure => simp [built, Except.toOption] at written
  | ok doc =>
    rw [built] at written
    have time : doc.time = textBytes "-9223372036.-854" := Option.some.inj written
    refine ⟨doc, rfl, time, fun formed => ?_⟩
    have shows := formed.time
    rw [ShowsSeconds, time] at shows
    exact absurd shows (by decide +kernel)

end Golusoris.Junit
