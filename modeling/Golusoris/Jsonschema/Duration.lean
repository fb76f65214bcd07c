import Golusoris.Lib.Regex
import Golusoris.Lib.Results
import Mathlib.Data.Bool.AllAny

/-!
# The pattern of durations

Source: `DurationPattern` and the mapper of `reflectConfig` in `jsonschema/config.go`, and
`time.ParseDuration`, which core/config decodes durations with. The pattern is a
regular expression over characters, the decoder a scanning loop over bytes.
-/

namespace Golusoris.Jsonschema

open List
open Lib
open Lib.Regex (anyOf optional many1)
open Computability
open Regex

def digit : RegularExpression Char := anyOf "0123456789".toList

/-- `[0-9]+(\.[0-9]*)?|\.[0-9]+` -/
def number : RegularExpression Char :=
  many1 digit * optional (.char '.' * digit.star) + .char '.' * many1 digit

/-- Microseconds are written with the micro sign U+00B5 and with the Greek letter U+03BC. -/
def unitNames : List (List Char) :=
  ["ns", "us", "\u00B5s", "\u03BCs", "ms", "s", "m", "h"].map String.toList

/-- Between `^` and `$`: a string matches as a whole. -/
def DurationPattern : RegularExpression Char :=
  optional (anyOf "-+".toList) * (.char '0' + many1 (number * Regex.oneOf unitNames))

/-- What the reflector emits for a type. -/
structure Schema where
  type : Bytes
  pattern : RegularExpression Char

/-- The `Mapper` of the reflector; `none` leaves a type to the reflector. -/
def mapper {T : Type} [DecidableEq T] (durationType t : T) : Option Schema :=
  if t = durationType then some ⟨textBytes "string", DurationPattern⟩ else none

/-- Why `time.ParseDuration` rejects a string. -/
inductive Failure where
  | invalid
  | missingUnit
  | unknownUnit (unit : Bytes)
  | overflow
  deriving DecidableEq

def isDigit (c : UInt8) : Bool := 0x30 ≤ c ∧ c ≤ 0x39

/-- `[0-9.]` -/
def inNumber (c : UInt8) : Bool := c = 0x2E ∨ isDigit c

def inUnit (c : UInt8) : Bool := ¬inNumber c

/-- The nanoseconds of each unit. -/
def unitMap : List (Bytes × UInt64) :=
  [(textBytes "ns", 1), (textBytes "us", 1000), (textBytes "\u00B5s", 1000),
    (textBytes "\u03BCs", 1000), (textBytes "ms", 1000000), (textBytes "s", 1000000000),
    (textBytes "m", 60000000000), (textBytes "h", 3600000000000)]

/-- A test for overflow. Without `checks` none is made. -/
def refuse (checks : Bool) (past : Bool) : Except Failure Unit :=
  if checks && past then .error .overflow else .ok ()

/-- Consumes the leading `[0-9]*`. -/
def leadingInt (checks : Bool) (x : UInt64) : Bytes → Except Failure (UInt64 × Bytes)
  | [] => .ok (x, [])
  | c :: s =>
    if isDigit c then do
      refuse checks (0x8000000000000000 / 10 < x)
      let y := x * 10 + c.toUInt64 - 0x30
      refuse checks (0x8000000000000000 < y)
      leadingInt checks y s
    else .ok (x, c :: s)

/-- Consumes the leading `[0-9]*`, with the digits that fit and the power of ten that scales
them. Digits past an overflow are dropped. -/
def leadingFraction (x : UInt64) (scale : ℕ) (overflow : Bool) : Bytes → UInt64 × ℕ × Bytes
  | [] => (x, scale, [])
  | c :: s =>
    if isDigit c then
      let y := x * 10 + c.toUInt64 - 0x30
      if overflow ∨ 0x7FFFFFFFFFFFFFFF / 10 < x ∨ 0x8000000000000000 < y then
        leadingFraction x scale true s
      else leadingFraction y (scale + 1) false s
    else (x, scale, c :: s)

/-- Consumes `(\.[0-9]*)?`, and whether there were digits. -/
def fraction : Bytes → UInt64 × ℕ × Bytes × Bool
  | [] => (0, 0, [], false)
  | c :: s =>
    if c = 0x2E then
      let (f, scale, rest) := leadingFraction 0 0 false s
      (f, scale, rest, s.length ≠ rest.length)
    else (0, 0, c :: s, false)

section Decoding

-- `scaled f scale unit` is `uint64(float64(f) * (float64(unit) / scale))`, with the
-- scale as a power of ten. What it computes decides no more than the value and overflow.
variable (checks : Bool) (scaled : UInt64 → ℕ → UInt64 → UInt64)

/-- The nanoseconds of `v` and a fraction, in a unit. -/
def amount (v f : UInt64) (scale : ℕ) (unit : UInt64) : Except Failure UInt64 := do
  refuse checks (0x8000000000000000 / unit < v)
  if 0 < f then do
    let v := v * unit + scaled f scale unit
    refuse checks (0x8000000000000000 < v)
    return v
  else return v * unit

/-- Consumes a unit, which goes up to the next period or digit. -/
def scanUnit (v f : UInt64) (scale : ℕ) (s : Bytes) : Except Failure (UInt64 × Bytes) :=
  let u := s.takeWhile inUnit
  if u = [] then .error .missingUnit
  else
    match unitMap.lookup u with
    | none => .error (.unknownUnit u)
    | some unit => do
      let v ← amount checks scaled v f scale unit
      return (v, s.dropWhile inUnit)

/-- One round of the loop: a number and its unit. -/
def element (s : Bytes) : Except Failure (UInt64 × Bytes) :=
  if ¬s.head?.any inNumber then .error .invalid
  else do
    let (v, s') ← leadingInt checks 0 s
    let (f, scale, s'', post) := fraction s'
    if s.length = s'.length ∧ ¬post then .error .invalid
    else scanUnit checks scaled v f scale s''

/-- A computation with its checks, beside the one without. -/
def Agrees {α : Type} (checked unchecked : Except Failure α) : Prop :=
  checked = .error .overflow ∨ checked = unchecked

theorem Agrees.refl {α : Type} (result : Except Failure α) : Agrees result result := .inr rfl

theorem Agrees.bind {α β : Type} {x y : Except Failure α} {f g : α → Except Failure β}
    (first : Agrees x y) (next : ∀ a, y = .ok a → Agrees (f a) (g a)) :
    Agrees (x >>= f) (y >>= g) := by
  rcases first with failed | rfl
  · exact .inl (by rw [failed]; rfl)
  · cases x with
    | error failure => exact .inr rfl
    | ok a => exact next a rfl

theorem agrees_refuse (past : Bool) : Agrees (refuse true past) (refuse false past) := by
  cases past with
  | false => exact .inr rfl
  | true => exact .inl rfl

variable (x : UInt64)

theorem agrees_leadingInt (s : Bytes) : Agrees (leadingInt true x s) (leadingInt false x s) := by
  induction s generalizing x with
  | nil => exact .refl _
  | cons c s ih =>
    rw [leadingInt, leadingInt]
    split
    · exact (agrees_refuse _).bind fun _ _ => (agrees_refuse _).bind fun _ _ => ih _
    · exact .refl _

theorem agrees_amount (v f : UInt64) (scale : ℕ) (unit : UInt64) :
    Agrees (amount true scaled v f scale unit) (amount false scaled v f scale unit) := by
  refine (agrees_refuse _).bind fun _ _ => ?_
  split
  · exact (agrees_refuse _).bind fun _ _ => .refl _
  · exact .refl _

theorem agrees_scanUnit (v f : UInt64) (scale : ℕ) (s : Bytes) :
    Agrees (scanUnit true scaled v f scale s) (scanUnit false scaled v f scale s) := by
  rw [scanUnit, scanUnit]
  split
  · exact .refl _
  · cases unitMap.lookup (s.takeWhile inUnit) with
    | none => exact .refl _
    | some unit => exact (agrees_amount scaled v f scale unit).bind fun _ _ => .refl _

theorem agrees_element (s : Bytes) : Agrees (element true scaled s) (element false scaled s) := by
  rw [element, element]
  split
  · exact .refl _
  · refine (agrees_leadingInt 0 s).bind fun (v, s') _ => ?_
    dsimp only
    split
    · exact .refl _
    · exact agrees_scanUnit scaled _ _ _ _

variable {rest s : Bytes}

/-- The scan of a number stops at `rest`. -/
theorem scan_append {holds : UInt8 → Bool} {front : Bytes} (all : ∀ c ∈ front, holds c)
    (stops : rest.head?.all (!holds ·)) :
    (front ++ rest).takeWhile holds = front ∧ (front ++ rest).dropWhile holds = rest := by
  have clean : rest.takeWhile holds = [] ∧ rest.dropWhile holds = rest := by
    cases rest with
    | nil => exact ⟨rfl, rfl⟩
    | cons c rest =>
      have other : holds c = false := by simpa using stops
      simp [other]
  rw [takeWhile_append_of_pos all, dropWhile_append_of_pos all, clean.1, clean.2]
  exact ⟨append_nil front, rfl⟩

theorem leadingInt_unchecked (s : Bytes) :
    ∃ v, leadingInt false x s = .ok (v, s.dropWhile isDigit) := by
  induction s generalizing x with
  | nil => exact ⟨x, rfl⟩
  | cons c s ih =>
    rw [leadingInt, dropWhile_cons]
    split
    · exact ih _
    · exact ⟨x, rfl⟩

theorem leadingFraction_rest (scale : ℕ) (overflow : Bool) (s : Bytes) :
    ∃ f power, leadingFraction x scale overflow s = (f, power, s.dropWhile isDigit) := by
  induction s generalizing x scale overflow with
  | nil => exact ⟨x, scale, rfl⟩
  | cons c s ih =>
    rw [leadingFraction, dropWhile_cons]
    split
    · dsimp only
      split <;> exact ih ..
    · exact ⟨x, scale, rfl⟩

theorem amount_unchecked (v f : UInt64) (scale : ℕ) (unit : UInt64) :
    ∃ d, amount false scaled v f scale unit = .ok d := by
  rw [amount]
  split <;> exact ⟨_, rfl⟩

theorem scanUnit_unchecked {v f : UInt64} {scale : ℕ} :
    (∃ d, scanUnit false scaled v f scale s = .ok (d, rest)) ↔
      s.takeWhile inUnit ∈ unitMap.map Prod.fst ∧ rest = s.dropWhile inUnit := by
  have filled : [] ∉ unitMap.map Prod.fst := by decide
  rw [scanUnit]
  split_ifs with empty
  · rw [empty]
    simp [filled]
  · cases known : unitMap.lookup (s.takeWhile inUnit) with
    | none =>
      constructor
      · rintro ⟨d, decoded⟩
        cases decoded
      · rintro ⟨listed, -⟩
        obtain ⟨pair, found, same⟩ := mem_map.mp listed
        have some := lookup_isSome_iff.mpr ⟨pair, found, beq_of_eq same.symm⟩
        rw [known] at some
        cases some
    | some unit =>
      obtain ⟨d, computed⟩ := amount_unchecked scaled v f scale unit
      obtain ⟨pair, found, same⟩ := lookup_isSome_iff.mp (Option.isSome_of_eq_some known)
      dsimp only
      rw [computed]
      constructor
      · rintro ⟨d, decoded⟩
        cases decoded
        exact ⟨mem_map.mpr ⟨pair, found, (beq_iff_eq.mp same).symm⟩, rfl⟩
      · rintro ⟨-, rfl⟩
        exact ⟨d, rfl⟩

/-- The digits and the period before a unit. -/
inductive Number : Bytes → Prop
  | whole {w : Bytes} (digits : ∀ c ∈ w, isDigit c) (filled : w ≠ []) : Number w
  | point {w part : Bytes} (digits : ∀ c ∈ w, isDigit c) (more : ∀ c ∈ part, isDigit c)
      (filled : w ≠ [] ∨ part ≠ []) : Number (w ++ 0x2E :: part)

variable (w : Bytes)

theorem mem_digit : w ∈ (utf8 digit).matches' ↔ ∃ c, isDigit c ∧ w = [c] := by
  have coded : ∀ r ∈ "0123456789".toList, isDigit (UInt8.ofNat r.toNat) ∧
      Utf8.encode [r] = [UInt8.ofNat r.toNat] := all_iff_forall_prop.mp (by decide +kernel)
  have read : ∀ n < 256, isDigit (UInt8.ofNat n) →
      "0123456789".toList.any fun r => Utf8.encode [r] = [UInt8.ofNat n] := by decide +kernel
  rw [matches_utf8]
  constructor
  · rintro ⟨text, matched, rfl⟩
    obtain ⟨r, found, rfl⟩ := mem_anyOf.mp matched
    exact ⟨_, coded r found⟩
  · rintro ⟨c, numeral, rfl⟩
    have read := read c.toNat c.toNat_lt
    rw [UInt8.ofNat_toNat] at read
    obtain ⟨r, found, same⟩ := any_iff_exists_prop.mp (read numeral)
    exact ⟨[r], mem_anyOf.mpr ⟨r, found, rfl⟩, same⟩

theorem mem_period : w ∈ (utf8 (.char '.')).matches' ↔ w = [0x2E] := by
  have coded : String.utf8EncodeChar '.' = [0x2E] := by decide
  rw [utf8, matches_text, coded]
  exact Iff.rfl

theorem mem_number : w ∈ (utf8 number).matches' ↔ Number w := by
  have some (w : Bytes) := mem_many_singletons mem_digit (w := w)
  have many (w : Bytes) := mem_kstar_singletons mem_digit (w := w)
  constructor
  · rintro (⟨whole, left, tail, rfl | ⟨period, point, part, right, rfl⟩, rfl⟩ |
      ⟨period, point, part, right, rfl⟩)
    · obtain ⟨filled, digits⟩ := (some whole).mp left
      rw [← append_nil whole] at *
      exact (append_nil whole).symm ▸ .whole digits filled
    · obtain ⟨filled, digits⟩ := (some whole).mp left
      obtain rfl := (mem_period period).mp point
      exact .point digits ((many part).mp right) (.inl filled)
    · obtain rfl := (mem_period period).mp point
      obtain ⟨filled, digits⟩ := (some part).mp right
      exact .point (w := []) (by simp) digits (.inr filled)
  · intro numeral
    cases numeral with
    | whole digits filled =>
      exact .inl ⟨w, (some w).mpr ⟨filled, digits⟩, [], .inl rfl, append_nil w⟩
    | @point whole part digits more filled =>
      have point := (mem_period _).mpr rfl
      rcases eq_or_ne whole [] with rfl | begun
      · have after := filled.resolve_left (not_not_intro rfl)
        exact .inr ⟨[0x2E], point, part, (some part).mpr ⟨after, more⟩, rfl⟩
      · exact .inl ⟨whole, (some whole).mpr ⟨begun, digits⟩, 0x2E :: part,
          .inr ⟨[0x2E], point, part, (many part).mpr more, rfl⟩, rfl⟩

theorem mem_units : w ∈ (utf8 (oneOf unitNames)).matches' ↔ w ∈ unitMap.map Prod.fst := by
  have names : unitMap.map Prod.fst = unitNames.map Utf8.encode := rfl
  rw [matches_utf8, names, mem_map]
  simp only [← mem_oneOf]
  exact Iff.rfl

/-- The bytes of a number and its unit. -/
def Round : Language UInt8 := (Regex.utf8 (number * Regex.oneOf unitNames)).matches'

theorem mem_round {w : Bytes} :
    w ∈ Round ↔ ∃ n u, Number n ∧ u ∈ unitMap.map Prod.fst ∧ n ++ u = w := by
  rw [Round]
  change w ∈ _ * _ ↔ _
  rw [Language.mem_mul]
  simp only [mem_number, mem_units]
  grind

theorem Number.start {n : Bytes} (numeral : Number n) : ∃ c more, n = c :: more ∧ inNumber c := by
  have digit {c : UInt8} (numeral : isDigit c) : inNumber c := by simp [inNumber, numeral]
  cases numeral with
  | whole digits filled =>
    obtain ⟨c, more, rfl⟩ := exists_cons_of_ne_nil filled
    exact ⟨c, more, rfl, digit (digits c mem_cons_self)⟩
  | @point w part digits _ _ =>
    cases w with
    | nil => exact ⟨0x2E, part, rfl, rfl⟩
    | cons c more => exact ⟨c, _, rfl, digit (digits c mem_cons_self)⟩

theorem unit_bytes {u : Bytes} (known : u ∈ unitMap.map Prod.fst) : u ≠ [] ∧ ∀ c ∈ u, inUnit c := by
  have all : ∀ u ∈ unitMap.map Prod.fst, u ≠ [] ∧ u.all inUnit := by decide
  exact ⟨(all u known).1, all_eq_true.mp (all u known).2⟩

theorem leadingInt_digits {w : Bytes} (digits : ∀ c ∈ w, isDigit c)
    (stops : rest.head?.all (!isDigit ·)) :
    ∃ v, leadingInt false x (w ++ rest) = .ok (v, rest) := by
  obtain ⟨v, read⟩ := leadingInt_unchecked x (w ++ rest)
  rw [(scan_append digits stops).2] at read
  exact ⟨v, read⟩

theorem fraction_point (t : Bytes) : ∃ f scale, fraction (0x2E :: t) =
    (f, scale, t.dropWhile isDigit, decide (t.length ≠ (t.dropWhile isDigit).length)) := by
  obtain ⟨f, scale, read⟩ := leadingFraction_rest 0 0 false t
  refine ⟨f, scale, ?_⟩
  rw [fraction, if_pos rfl, read]

theorem fraction_none (other : s.head?.all (· ≠ 0x2E)) : fraction s = (0, 0, s, false) := by
  cases s with
  | nil => rfl
  | cons c s => rw [fraction, if_neg (by simpa using other)]

/-- After a number the scan is at the unit. -/
theorem element_number {n tail : Bytes} (numeral : Number n) (stops : tail.head?.all inUnit) :
    ∃ v f scale, element false scaled (n ++ tail) = scanUnit false scaled v f scale tail := by
  obtain ⟨c, more, shape, starts⟩ := numeral.start
  have begins : (n ++ tail).head?.any inNumber := by rw [shape]; simpa using starts
  have letter : tail.head?.all (!isDigit ·) ∧ tail.head?.all (· ≠ 0x2E) := by
    cases tail with
    | nil => exact ⟨rfl, rfl⟩
    | cons c tail => simpa [inUnit, inNumber, and_comm] using stops
  rw [element, if_neg (not_not_intro begins)]
  cases numeral with
  | whole digits filled =>
    obtain ⟨v, read⟩ := leadingInt_digits 0 digits letter.1
    refine ⟨v, 0, 0, ?_⟩
    rw [read]
    simp [bind, Except.bind, fraction_none letter.2, filled]
  | @point whole part digits also filled =>
    have period : (0x2E :: (part ++ tail) : Bytes).head?.all (!isDigit ·) := rfl
    obtain ⟨v, read⟩ := leadingInt_digits 0 digits period
    obtain ⟨f, scale, cut⟩ := fraction_point (part ++ tail)
    rw [(scan_append also letter.1).2] at cut
    refine ⟨v, f, scale, ?_⟩
    rw [append_assoc, cons_append, read]
    simp only [bind, Except.bind, cut]
    refine if_neg fun empty => ?_
    have one : part = [] := by simpa using empty.2
    have other : whole = [] := by simpa [one] using empty.1
    exact filled.elim (fun some => some other) fun some => some one

theorem exists_digits (s : Bytes) : ∃ w, (∀ c ∈ w, isDigit c) ∧ w ++ s.dropWhile isDigit = s :=
  ⟨s.takeWhile isDigit, all_eq_true.mp all_takeWhile, takeWhile_append_dropWhile⟩

variable {d : UInt64}

/-- What a round reads starts with a number. -/
theorem element_shape (decoded : element false scaled s = .ok (d, rest)) :
    ∃ n tail v f scale, Number n ∧
      s = n ++ tail ∧ scanUnit false scaled v f scale tail = .ok (d, rest) := by
  obtain ⟨v, read⟩ := leadingInt_unchecked 0 s
  obtain ⟨w, digits, whole⟩ := exists_digits s
  rw [element, read] at decoded
  split_ifs at decoded
  generalize s.dropWhile isDigit = tail at *
  subst whole
  simp only [bind, Except.bind] at decoded
  by_cases period : tail.head?.all (· ≠ 0x2E)
  · simp only [fraction_none period] at decoded
    split at decoded
    · cases decoded
    · rename_i filled
      refine ⟨w, tail, v, 0, 0, .whole digits ?_, rfl, decoded⟩
      rintro rfl
      exact filled ⟨rfl, Bool.false_ne_true⟩
  · cases tail with
    | nil => exact absurd rfl period
    | cons c t =>
      obtain rfl : c = 0x2E := by simpa using period
      obtain ⟨f, scale, cut⟩ := fraction_point t
      obtain ⟨part, more, whole⟩ := exists_digits t
      simp only [cut] at decoded
      split at decoded
      · cases decoded
      · rename_i filled
        refine ⟨w ++ 0x2E :: part, _, v, f, scale, .point digits more ?_, ?_, decoded⟩
        · by_contra! none
          have same : t.dropWhile isDigit = t := by simpa [none.2] using whole
          exact filled ⟨by simp [none.1], by simp [same]⟩
        · rw [append_assoc, cons_append, whole]

theorem element_unchecked :
    (∃ d, element false scaled s = .ok (d, rest)) ↔
      ∃ w ∈ Round, s = w ++ rest ∧ rest.head?.all inNumber := by
  constructor
  · rintro ⟨d, decoded⟩
    obtain ⟨n, tail, v, f, scale, numeral, rfl, scanned⟩ := element_shape scaled decoded
    obtain ⟨known, rfl⟩ := (scanUnit_unchecked scaled).mp ⟨d, scanned⟩
    refine ⟨n ++ tail.takeWhile inUnit, mem_round.mpr ⟨n, _, numeral, known, rfl⟩, ?_, ?_⟩
    · rw [append_assoc, takeWhile_append_dropWhile]
    · have stop := head?_dropWhile_not inUnit tail
      cases shape : (tail.dropWhile inUnit).head? with
      | none => rfl
      | some c =>
        rw [shape] at stop
        simpa [inUnit] using stop
  · rintro ⟨w, one, rfl, stops⟩
    obtain ⟨n, u, numeral, known, rfl⟩ := mem_round.mp one
    obtain ⟨filled, letters⟩ := unit_bytes known
    obtain ⟨c, more, rfl⟩ := exists_cons_of_ne_nil filled
    have letter : (c :: more ++ rest).head?.all inUnit := by
      simpa using letters c mem_cons_self
    obtain ⟨v, f, scale, scan⟩ := element_number scaled numeral letter
    have ends : rest.head?.all (!inUnit ·) := by simpa [inUnit] using stops
    have parts := scan_append letters ends
    rw [append_assoc, scan, scanUnit_unchecked, parts.1, parts.2]
    exact ⟨known, rfl⟩

theorem element_shorter {checks : Bool} (decoded : element checks scaled s = .ok (d, rest)) :
    rest.length < s.length := by
  have plain : element false scaled s = .ok (d, rest) := by
    cases checks with
    | false => exact decoded
    | true =>
      rcases agrees_element scaled s with failed | same
      · rw [failed] at decoded
        cases decoded
      · rw [← same, decoded]
  obtain ⟨w, one, rfl, -⟩ := (element_unchecked scaled).mp ⟨d, plain⟩
  obtain ⟨n, u, numeral, -, rfl⟩ := mem_round.mp one
  obtain ⟨c, more, rfl, -⟩ := numeral.start
  simp only [length_append, length_cons]
  omega

/-- Rounds until the string is empty, with the nanoseconds so far. -/
def loop (checks : Bool) (d : UInt64) (s : Bytes) : Except Failure UInt64 :=
  if s = [] then .ok d
  else
    match _read : element checks scaled s with
    | .error failure => .error failure
    | .ok (v, rest) => do
      refuse checks (0x8000000000000000 < d + v)
      loop checks (d + v) rest
termination_by s.length
decreasing_by exact element_shorter scaled _read

/-- Consumes `[-+]?`, and whether it was a minus. -/
def sign : Bytes → Bool × Bytes
  | [] => (false, [])
  | c :: s => if c = 0x2D ∨ c = 0x2B then (c = 0x2D, s) else (false, c :: s)

def ParseDuration (checks : Bool) (s : Bytes) : Except Failure Int64 :=
  let (neg, s) := sign s
  if s = [0x30] then .ok 0
  else if s = [] then .error .invalid
  else do
    let d ← loop scaled checks 0 s
    if neg then return -d.toInt64
    else do
      refuse checks (0x7FFFFFFFFFFFFFFF < d)
      return d.toInt64

theorem loop_eq {checks : Bool} (filled : s ≠ []) :
    loop scaled checks d s = element checks scaled s >>= fun (v, rest) =>
      refuse checks (0x8000000000000000 < d + v) >>= fun _ => loop scaled checks (d + v) rest := by
  rw [loop, if_neg filled]
  cases element checks scaled s <;> rfl

theorem agrees_loop (d : UInt64) (s : Bytes) :
    Agrees (loop scaled true d s) (loop scaled false d s) := by
  induction size : s.length using Nat.strong_induction_on generalizing d s with
  | _ n ih =>
    rcases eq_or_ne s [] with rfl | filled
    · rw [loop, loop]
      exact .refl _
    · rw [loop_eq scaled filled, loop_eq scaled filled]
      refine (agrees_element scaled s).bind fun (v, rest) read => ?_
      refine (agrees_refuse _).bind fun _ _ => ?_
      exact ih _ (size ▸ element_shorter scaled read) _ _ rfl

theorem agrees_parse (s : Bytes) :
    Agrees (ParseDuration scaled true s) (ParseDuration scaled false s) := by
  rw [ParseDuration, ParseDuration]
  dsimp only
  split
  · exact .refl _
  · split
    · exact .refl _
    · refine (agrees_loop scaled 0 _).bind fun d _ => ?_
      split
      · exact .refl _
      · exact (agrees_refuse _).bind fun _ _ => .refl _

/-- A sequence of rounds stops where the next one starts. -/
theorem rounds_start (more : rest ∈ Round∗) : rest.head?.all inNumber := by
  rw [← Language.one_add_self_mul_kstar_eq_kstar] at more
  obtain rfl | ⟨w, one, other, -, rfl⟩ := more
  · rfl
  · obtain ⟨n, u, numeral, -, rfl⟩ := mem_round.mp one
    obtain ⟨c, more, rfl, starts⟩ := numeral.start
    exact starts

theorem loop_unchecked (d : UInt64) (s : Bytes) :
    (∃ total, loop scaled false d s = .ok total) ↔ s ∈ Round∗ := by
  induction size : s.length using Nat.strong_induction_on generalizing d s with
  | _ n ih =>
    rcases eq_or_ne s [] with rfl | filled
    · rw [loop]
      exact ⟨fun _ => Language.nil_mem_kstar _, fun _ => ⟨d, rfl⟩⟩
    · have step {v : UInt64} {rest : Bytes} (read : element false scaled s = .ok (v, rest)) :
          loop scaled false d s = loop scaled false (d + v) rest ∧
            ((∃ total, loop scaled false (d + v) rest = .ok total) ↔ rest ∈ Round∗) := by
        refine ⟨by rw [loop_eq scaled filled, read]; rfl, ?_⟩
        exact ih _ (size ▸ element_shorter scaled read) _ _ rfl
      rw [← Language.one_add_self_mul_kstar_eq_kstar]
      constructor
      · rintro ⟨total, decoded⟩
        cases read : element false scaled s with
        | error failure =>
          rw [loop_eq scaled filled, read] at decoded
          cases decoded
        | ok next =>
          obtain ⟨same, more⟩ := step read
          obtain ⟨w, one, rfl, -⟩ := (element_unchecked scaled).mp ⟨next.1, read⟩
          exact .inr ⟨w, one, next.2, more.mp ⟨total, same ▸ decoded⟩, rfl⟩
      · rintro (empty | ⟨w, one, rest, rounds, rfl⟩)
        · exact absurd empty filled
        · obtain ⟨v, read⟩ := (element_unchecked scaled).mpr ⟨w, one, rfl, rounds_start rounds⟩
          obtain ⟨same, more⟩ := step read
          rw [same]
          exact more.mpr rounds

theorem mem_sign :
    w ∈ (utf8 (optional (anyOf "-+".toList))).matches' ↔ w = [] ∨ w = [0x2D] ∨ w = [0x2B] := by
  have coded : Utf8.encode ['-'] = [0x2D] ∧ Utf8.encode ['+'] = [0x2B] := by decide
  have class_iff (w : Bytes) :
      w ∈ (utf8 (anyOf "-+".toList)).matches' ↔ w = [0x2D] ∨ w = [0x2B] := by
    rw [matches_utf8, ← coded.1, ← coded.2]
    constructor
    · rintro ⟨text, matched, rfl⟩
      obtain ⟨r, found, rfl⟩ := mem_anyOf.mp matched
      simp at found
      rcases found with rfl | rfl
      · exact .inl rfl
      · exact .inr rfl
    · rintro (rfl | rfl)
      · exact ⟨['-'], mem_anyOf.mpr ⟨'-', by decide, rfl⟩, rfl⟩
      · exact ⟨['+'], mem_anyOf.mpr ⟨'+', by decide, rfl⟩, rfl⟩
  rw [← class_iff]
  exact Iff.rfl

/-- What may follow a sign. -/
def Unsigned (body : Bytes) : Prop := body = [0x30] ∨ body ≠ [] ∧ body ∈ Round∗

theorem Unsigned.start {body : Bytes} (unsigned : Unsigned body) : body.head?.all inNumber := by
  rcases unsigned with rfl | ⟨-, rounds⟩
  · rfl
  · exact rounds_start rounds

theorem mem_unsigned (body : Bytes) :
    body ∈ (utf8 (.char '0' + many1 (number * oneOf unitNames))).matches' ↔ Unsigned body := by
  have zero : String.utf8EncodeChar '0' = [0x30] := by decide
  change body ∈ (text _).matches' + Round * Round∗ ↔ _
  rw [Language.mem_add, matches_text, zero]
  refine or_congr Iff.rfl ?_
  constructor
  · rintro ⟨w, one, rest, more, rfl⟩
    obtain ⟨n, u, numeral, -, rfl⟩ := mem_round.mp one
    obtain ⟨c, tail, rfl, -⟩ := numeral.start
    refine ⟨by simp, ?_⟩
    rw [← Language.one_add_self_mul_kstar_eq_kstar]
    exact .inr ⟨_, one, rest, more, rfl⟩
  · rintro ⟨filled, rounds⟩
    rw [← Language.one_add_self_mul_kstar_eq_kstar] at rounds
    exact rounds.resolve_left filled

theorem sign_cut (s : Bytes) : ∃ front, (front = [] ∨ front = [0x2D] ∨ front = [0x2B]) ∧
    front ++ (sign s).2 = s := by
  cases s with
  | nil => exact ⟨[], .inl rfl, rfl⟩
  | cons c s =>
    rw [sign]
    split_ifs with signed
    · refine ⟨[c], .inr ?_, rfl⟩
      exact signed.imp (congrArg ([·])) (congrArg ([·]))
    · exact ⟨[], .inl rfl, rfl⟩

theorem sign_append {front body : Bytes} (signed : front = [] ∨ front = [0x2D] ∨ front = [0x2B])
    (starts : body.head?.all inNumber) : (sign (front ++ body)).2 = body := by
  rcases signed with rfl | rfl | rfl
  · cases body with
    | nil => rfl
    | cons c body =>
      have plain : ¬(c = 0x2D ∨ c = 0x2B) := by rintro (rfl | rfl) <;> cases starts
      rw [nil_append, sign, if_neg plain]
  · rfl
  · rfl

theorem mem_pattern (s : Bytes) : s ∈ (utf8 DurationPattern).matches' ↔ Unsigned (sign s).2 := by
  change s ∈ (utf8 (optional (anyOf "-+".toList))).matches' * _ ↔ _
  constructor
  · rintro ⟨front, signed, body, matched, rfl⟩
    have unsigned := (mem_unsigned body).mp matched
    rwa [sign_append ((mem_sign front).mp signed) unsigned.start]
  · intro unsigned
    obtain ⟨front, signed, whole⟩ := sign_cut s
    exact ⟨front, (mem_sign front).mpr signed, _, (mem_unsigned _).mpr unsigned, whole⟩

theorem parse_unchecked (s : Bytes) :
    (∃ d, ParseDuration scaled false s = .ok d) ↔ Unsigned (sign s).2 := by
  rw [ParseDuration, Unsigned, ← loop_unchecked scaled 0]
  dsimp only
  by_cases zero : (sign s).2 = [0x30]
  · rw [if_pos zero]
    exact ⟨fun _ => .inl zero, fun _ => ⟨0, rfl⟩⟩
  · rw [if_neg zero]
    by_cases empty : (sign s).2 = []
    · simp [empty]
    · rw [if_neg empty]
      cases loop scaled false 0 (sign s).2 with
      | error failure => simp [bind, Except.bind, zero]
      | ok d =>
        refine ⟨fun _ => .inr ⟨empty, d, rfl⟩, fun _ => ?_⟩
        cases (sign s).1 <;> exact ⟨_, rfl⟩

/-- The decoder accepts the bytes of a text. -/
def Loads (s : List Char) : Prop := ∃ d, ParseDuration scaled true (Utf8.encode s) = .ok d

/-- The decoder rejects the text, but without the tests for overflow accepts it. -/
def OnlyOverflows (s : List Char) : Prop :=
  ParseDuration scaled true (Utf8.encode s) = .error .overflow ∧
    ∃ d, ParseDuration scaled false (Utf8.encode s) = .ok d

/-- The schema of a type matches the text. -/
def Admits {T : Type} [DecidableEq T] (durationType t : T) (s : List Char) : Prop :=
  ∀ schema, mapper durationType t = some schema → s ∈ schema.pattern.matches'

theorem pattern_exact (s : List Char) :
    s ∈ DurationPattern.matches' ↔ Loads scaled s ∨ OnlyOverflows scaled s := by
  rw [← encode_mem_utf8, mem_pattern, ← parse_unchecked scaled]
  rcases agrees_parse scaled (Utf8.encode s) with failed | same
  · rw [Loads, OnlyOverflows, failed]
    simp
  · rw [Loads, OnlyOverflows, same]
    exact ⟨.inl, fun read => read.elim id fun ⟨_, plain⟩ => plain⟩

/-- The pattern's language is the decoder's, overflow aside. -/
theorem durations_loadable {T : Type} [DecidableEq T] (durationType : T) (s : List Char) :
    (s ∈ DurationPattern.matches' ↔ Loads scaled s ∨ OnlyOverflows scaled s) ∧
      (Admits durationType durationType s → ¬OnlyOverflows scaled s → Loads scaled s) ∧
      (Loads scaled s → Admits durationType durationType s) := by
  have admits : Admits durationType durationType s ↔ s ∈ DurationPattern.matches' := by
    simp [Admits, mapper]
  rw [admits, pattern_exact scaled]
  exact ⟨Iff.rfl, Or.resolve_right, .inl⟩

end Decoding

end Golusoris.Jsonschema
