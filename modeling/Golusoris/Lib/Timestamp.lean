import Golusoris.Lib.Digits
import Mathlib

/-!
# Points in time and RFC 3339

A point in time is a number of nanoseconds from the Unix epoch shown at an
offset from UTC. Dates are those of the Gregorian calendar, also before its
introduction. `format` writes a time in the layout that Go calls RFC3339Nano.
-/

namespace Golusoris.Lib.Timestamp

open List
open Digits

def isLeap (year : Int) : Bool := year % 4 == 0 && (year % 100 != 0 || year % 400 == 0)

/-- The days from the first of January of year one to the first of January. -/
def daysBefore (year : Int) : Int :=
  365 * (year - 1) + (year - 1) / 4 - (year - 1) / 100 + (year - 1) / 400

/-- Complete years within 400 years, and the days left: 100 years have 36524 days
and the last of them one more, 4 years have 1461, one year has 365. -/
def splitYears (day : Nat) : Nat × Nat :=
  let centuries := min (day / 36524) 3
  let inCentury := day - 36524 * centuries
  let fours := inCentury / 1461
  let inFour := inCentury % 1461
  let ones := min (inFour / 365) 3
  (100 * centuries + 4 * fours + ones, inFour - 365 * ones)

/-- The year of a day counted from the first of January of year one, and the day
counted within it. -/
def yearOf (day : Int) : Int × Nat :=
  let (years, left) := splitYears (day % 146097).toNat
  (400 * (day / 146097) + years + 1, left)

/-- The parts that the years are counted in. -/
theorem splitYears_eq {day : Nat} (inCycle : day < 146097) :
    ∃ centuries fours ones left, splitYears day = (100 * centuries + 4 * fours + ones, left) ∧
      day = 36524 * centuries + 1461 * fours + 365 * ones + left ∧
      centuries ≤ 3 ∧ fours ≤ 24 ∧ ones ≤ 3 ∧ left ≤ 365 ∧
      (left = 365 → ones = 3 ∧ (fours = 24 → centuries = 3)) := by
  have century : day - 36524 * min (day / 36524) 3 ≤ 36524 ∧
      (day - 36524 * min (day / 36524) 3 = 36524 → min (day / 36524) 3 = 3) ∧
      36524 * min (day / 36524) 3 ≤ day ∧ min (day / 36524) 3 ≤ 3 := by omega
  refine ⟨_, _, _, _, rfl, ?_⟩
  generalize min (day / 36524) 3 = centuries at century ⊢
  generalize left : day - 36524 * centuries = inCentury at century ⊢
  omega

variable (day : Int)

theorem daysBefore_yearOf : daysBefore (yearOf day).1 + (yearOf day).2 = day := by
  obtain ⟨centuries, fours, ones, left, split, whole, few, low, small, -⟩ :=
    splitYears_eq (show (day % 146097).toNat < 146097 by omega)
  have cycle : day = 146097 * (day / 146097) + (day % 146097).toNat := by omega
  simp only [yearOf, split, daysBefore]
  omega

theorem yearOf_day_lt : (yearOf day).2 < if isLeap (yearOf day).1 then 366 else 365 := by
  obtain ⟨centuries, fours, ones, left, split, -, few, low, small, short, last⟩ :=
    splitYears_eq (show (day % 146097).toNat < 146097 by omega)
  simp only [yearOf, split, isLeap, Bool.and_eq_true, Bool.or_eq_true, beq_iff_eq, bne_iff_ne]
  split_ifs with leap <;> omega

def monthLengths (leap : Bool) : List Nat :=
  [31, if leap then 29 else 28, 31, 30, 31, 30, 31, 31, 30, 31, 30, 31]

/-- The months before a day, and the day counted within its own. -/
def splitMonths : List Nat → Nat → Nat × Nat
  | [], day => (0, day)
  | length :: rest, day =>
      if day < length then (0, day)
      else ((splitMonths rest (day - length)).1 + 1, (splitMonths rest (day - length)).2)

theorem sum_splitMonths (lengths : List Nat) (day : Nat) :
    (lengths.take (splitMonths lengths day).1).sum + (splitMonths lengths day).2 = day := by
  induction lengths generalizing day with
  | nil => simp [splitMonths]
  | cons length rest ih =>
    rw [splitMonths]
    split_ifs with within
    · simp
    · have further := ih (day - length)
      simp only [take_succ_cons, sum_cons]
      omega

theorem splitMonths_lt {lengths : List Nat} {day : Nat} (within : day < lengths.sum) :
    ∃ length, lengths[(splitMonths lengths day).1]? = some length ∧
      (splitMonths lengths day).2 < length := by
  induction lengths generalizing day with
  | nil => simp at within
  | cons length rest ih =>
    rw [splitMonths]
    split_ifs with early
    · exact ⟨length, rfl, early⟩
    · rw [sum_cons] at within
      obtain ⟨own, found, small⟩ := ih (show day - length < rest.sum by omega)
      exact ⟨own, by simpa using found, small⟩

structure Date where
  year : Int
  month : Nat
  day : Nat
  deriving DecidableEq

namespace Date

/-- The number of days of a month, if there is such a month. -/
def daysIn (year : Int) (month : Nat) : Option Nat :=
  if month = 0 then none else (monthLengths (isLeap year))[month - 1]?

structure Valid (date : Date) : Prop where
  month : 1 ≤ date.month
  day : 1 ≤ date.day
  within : ∃ length, daysIn date.year date.month = some length ∧ date.day ≤ length

/-- The days from the first of January of year one. -/
def days (date : Date) : Int :=
  daysBefore date.year +
    ((monthLengths (isLeap date.year)).take (date.month - 1)).sum + (date.day - 1 : Nat)

end Date

/-- The date of a day counted from the first of January of year one. -/
def dateOf (day : Int) : Date :=
  let (year, left) := yearOf day
  let (months, past) := splitMonths (monthLengths (isLeap year)) left
  ⟨year, months + 1, past + 1⟩

@[simp] theorem days_dateOf (day : Int) : (dateOf day).days = day := by
  have year := daysBefore_yearOf day
  have month := sum_splitMonths (monthLengths (isLeap (yearOf day).1)) (yearOf day).2
  simp only [dateOf, Date.days, Nat.add_sub_cancel]
  omega

theorem valid_dateOf : (dateOf day).Valid := by
  have within : (yearOf day).2 < (monthLengths (isLeap (yearOf day).1)).sum := by
    have small := yearOf_day_lt day
    cases leap : isLeap (yearOf day).1 <;> simpa [leap, monthLengths] using small
  obtain ⟨length, found, small⟩ := splitMonths_lt within
  exact ⟨Nat.succ_pos _, Nat.succ_pos _, length, found, small⟩

theorem Date.Valid.month_le {date : Date} (valid : date.Valid) : date.month ≤ 12 := by
  obtain ⟨length, found, -⟩ := valid.within
  have first := valid.month
  rw [daysIn, if_neg (by omega)] at found
  obtain ⟨inside, -⟩ := List.getElem?_eq_some_iff.mp found
  have twelve : (monthLengths (isLeap date.year)).length = 12 := rfl
  omega

theorem Date.Valid.day_le {date : Date} (valid : date.Valid) : date.day ≤ 31 := by
  obtain ⟨length, found, small⟩ := valid.within
  have long : ∀ leap, ∀ length ∈ monthLengths leap, length ≤ 31 := by decide
  rw [daysIn] at found
  split_ifs at found
  exact small.trans (long _ _ (mem_of_getElem? found))

structure Time where
  /-- Nanoseconds from the Unix epoch. -/
  instant : Int
  /-- Seconds east of UTC. -/
  offset : Int
  deriving DecidableEq

variable (time : Time)

namespace Time

def toUTC (time : Time) : Time := { time with offset := 0 }

/-- Seconds from the first of January of year one, on the clock of the time's zone. -/
def seconds (time : Time) : Int := time.instant / 1000000000 + time.offset + 719162 * 86400

def nanosecond (time : Time) : Nat := (time.instant % 1000000000).toNat

def date (time : Time) : Date := dateOf (time.seconds / 86400)

/-- The second of the day. -/
def clock (time : Time) : Nat := (time.seconds % 86400).toNat

def hour (time : Time) : Nat := time.clock / 3600
def minute (time : Time) : Nat := time.clock % 3600 / 60
def second (time : Time) : Nat := time.clock % 60

theorem hour_lt : time.hour < 24 := by
  unfold hour clock
  omega

theorem minute_lt : time.minute < 60 := by
  unfold minute
  omega

theorem second_lt : time.second < 60 := by
  unfold second
  omega

theorem nanosecond_lt : time.nanosecond < 1000000000 := by
  unfold nanosecond
  omega

/-- A point in time from what its clock shows. -/
def ofClock (date : Date) (hour minute second nanosecond : Nat) (offset : Int) : Time where
  instant := ((date.days - 719162) * 86400 + 3600 * hour + 60 * minute + second - offset) *
    1000000000 + nanosecond
  offset := offset

theorem ofClock_self :
    ofClock time.date time.hour time.minute time.second time.nanosecond time.offset = time := by
  obtain ⟨instant, offset⟩ := time
  simp only [ofClock, date, days_dateOf, hour, minute, second, nanosecond, clock, seconds,
    Time.mk.injEq, and_true]
  omega

end Time

/-- `appendInt`: a number in decimal with zeros in front of it up to a width. -/
def appendInt (value : Int) (width : Nat) : Bytes :=
  let text := Digits.natText value.natAbs
  (if value < 0 then [0x2D] else []) ++ (List.replicate (width - text.length) 0x30 ++ text)

/-- `appendNano`, without the zeros at the end. -/
def fraction (nanosecond : Nat) : Bytes :=
  if nanosecond = 0 then [] else 0x2E :: (appendInt nanosecond 9).rdropWhile (· == 0x30)

def zone (offset : Int) : Bytes :=
  if offset = 0 then [0x5A]
  else
    -- Seconds of an offset are not shown.
    let minutes := offset.tdiv 60
    (if minutes < 0 then 0x2D else 0x2B) ::
      (appendInt (minutes.natAbs / 60 : Nat) 2 ++ 0x3A :: appendInt (minutes.natAbs % 60 : Nat) 2)

def formatDate (date : Date) : Bytes :=
  appendInt date.year 4 ++ 0x2D :: (appendInt date.month 2 ++ 0x2D :: appendInt date.day 2)

def formatClock (hour minute second : Nat) : Bytes :=
  appendInt hour 2 ++ 0x3A :: (appendInt minute 2 ++ 0x3A :: appendInt second 2)

/-- `Time.Format` in the layout `2006-01-02T15:04:05.999999999Z07:00`. -/
def format (time : Time) : Bytes :=
  formatDate time.date ++ 0x54 :: (formatClock time.hour time.minute time.second ++
    (fraction time.nanosecond ++ zone time.offset))

theorem appendInt_eq {width value : Nat} (small : value < 10 ^ (width + 1)) :
    appendInt value (width + 1) = fixed (width + 1) value := by
  rw [appendInt, if_neg (by omega), nil_append, Int.natAbs_natCast]
  exact replicate_append_natText (length_natText_le small)

/-- The bytes that a time is written with. -/
def written (byte : UInt8) : Bool := 0x2B ≤ byte && byte ≤ 0x5A

theorem written_of_isDigit {byte : UInt8} (known : Digits.isDigit byte) : written byte := by
  simp only [Digits.isDigit, written, Bool.and_eq_true, decide_eq_true_eq] at known ⊢
  exact ⟨UInt8.le_trans (by decide) known.1, UInt8.le_trans known.2 (by decide)⟩

theorem written_appendInt (value : Int) (width : Nat) : (appendInt value width).all written := by
  have digits := all_eq_true.mp (all_natText value.natAbs)
  rw [all_eq_true]
  intro byte found
  simp only [appendInt, mem_append, mem_replicate] at found
  obtain minus | ⟨-, rfl⟩ | own := found
  · split_ifs at minus
    · obtain rfl := mem_singleton.mp minus
      decide
    · cases minus
  · decide
  · exact written_of_isDigit (digits byte own)

theorem written_fraction (nanosecond : Nat) : (fraction nanosecond).all written := by
  rw [fraction]
  split_ifs with whole
  · rfl
  · have shown := all_eq_true.mp (written_appendInt nanosecond 9)
    rw [all_cons, Bool.and_eq_true, all_eq_true]
    exact ⟨by decide, fun byte found => shown byte (( rdropWhile_prefix _ _).subset found)⟩

theorem written_zone (offset : Int) : (zone offset).all written := by
  rw [zone]
  split_ifs with utc
  · decide
  · simp only [all_cons, all_append, written_appendInt, Bool.and_true, Bool.true_and]
    split_ifs <;> decide

theorem written_format : (format time).all written := by
  have separators : written 0x2D ∧ written 0x3A ∧ written 0x54 := by decide
  simp [format, formatDate, formatClock, written_appendInt, written_fraction, written_zone,
    separators]

/-- What was trimmed off was zeros. -/
theorem rdropWhile_append_replicate (zero : UInt8) (text : Bytes) :
    text.rdropWhile (· == zero) ++
      List.replicate (text.length - (text.rdropWhile (· == zero)).length) zero = text := by
  have zeros : text.rtakeWhile (· == zero) =
      List.replicate (text.rtakeWhile (· == zero)).length zero :=
    eq_replicate_iff.mpr ⟨rfl, fun byte found => by
      simpa using mem_rtakeWhile_imp found⟩
  have whole : text.rdropWhile (· == zero) ++ text.rtakeWhile (· == zero) = text :=
    rdropWhile_append_rtakeWhile
  have lengths := congrArg List.length whole
  rw [length_append] at lengths
  rw [← lengths, Nat.add_sub_cancel_left, ← zeros, whole]

theorem fraction_inj {first second : Nat} (small : first < 1000000000) (also : second < 1000000000)
    (same : fraction first = fraction second) : first = second := by
  rw [fraction, fraction] at same
  split_ifs at same with whole round
  · rw [whole, round]
  · rw [@appendInt_eq 8 _ small, @appendInt_eq 8 _ also] at same
    have trimmed := (List.cons.inj same).2
    have nine := rdropWhile_append_replicate 0x30 (fixed 9 first)
    rw [trimmed, length_fixed, ← length_fixed 9 second,
      rdropWhile_append_replicate] at nine
    exact (fixed_inj also small nine).symm

theorem appendInt_append_inj (width : Nat) {first second : Nat} {rest more : Bytes}
    (small : first < 10 ^ (width + 1)) (also : second < 10 ^ (width + 1))
    (same : appendInt first (width + 1) ++ rest = appendInt second (width + 1) ++ more) :
    first = second ∧ rest = more := by
  rw [appendInt_eq small, appendInt_eq also] at same
  obtain ⟨digits, rests⟩ := append_inj same (by simp)
  exact ⟨fixed_inj small also digits, rests⟩

/-- A date that is written with a year of four digits. -/
structure Date.Written (date : Date) : Prop extends date.Valid where
  era : 0 ≤ date.year
  year_le : date.year ≤ 9999

theorem formatDate_append_inj {first second : Date} (plain : first.Written) (also : second.Written)
    {rest more : Bytes} (same : formatDate first ++ rest = formatDate second ++ more) :
    first = second ∧ rest = more := by
  obtain ⟨years, early⟩ := Int.eq_ofNat_of_zero_le plain.era
  obtain ⟨others, late⟩ := Int.eq_ofNat_of_zero_le also.era
  have short := plain.year_le
  have brief := also.year_le
  simp only [formatDate, early, late, append_assoc, cons_append] at same
  obtain ⟨year, afterYear⟩ := appendInt_append_inj 3 (by omega) (by omega) same
  obtain ⟨month, afterMonth⟩ := appendInt_append_inj 1
    (plain.month_le.trans_lt (by decide)) (also.month_le.trans_lt (by decide))
    (List.cons.inj afterYear).2
  obtain ⟨day, afterDay⟩ := appendInt_append_inj 1
    (plain.day_le.trans_lt (by decide)) (also.day_le.trans_lt (by decide))
    (List.cons.inj afterMonth).2
  refine ⟨?_, afterDay⟩
  rw [Date.mk.injEq]
  exact ⟨by rw [early, late, year], month, day⟩

theorem formatClock_append_inj {first second : Time} {rest more : Bytes}
    (same : formatClock first.hour first.minute first.second ++ rest =
      formatClock second.hour second.minute second.second ++ more) :
    (first.hour = second.hour ∧ first.minute = second.minute ∧ first.second = second.second) ∧
      rest = more := by
  simp only [formatClock, append_assoc, cons_append] at same
  obtain ⟨hour, afterHour⟩ := appendInt_append_inj 1
    (first.hour_lt.trans (by decide)) (second.hour_lt.trans (by decide)) same
  obtain ⟨minute, afterMinute⟩ := appendInt_append_inj 1
    (first.minute_lt.trans (by decide)) (second.minute_lt.trans (by decide))
    (List.cons.inj afterHour).2
  obtain ⟨second, afterSecond⟩ := appendInt_append_inj 1
    (first.second_lt.trans (by decide)) (second.second_lt.trans (by decide))
    (List.cons.inj afterMinute).2
  exact ⟨⟨hour, minute, second⟩, afterSecond⟩

/-- A time is known from its text if its offset is. -/
theorem format_inj {first second : Time} (plain : first.date.Written) (also : second.date.Written)
    (zones : first.offset = second.offset) (same : format first = format second) :
    first = second := by
  obtain ⟨date, afterDate⟩ := formatDate_append_inj plain also same
  obtain ⟨⟨hour, minute, inMinute⟩, afterClock⟩ := formatClock_append_inj (List.cons.inj afterDate).2
  rw [zones] at afterClock
  have nanosecond := fraction_inj first.nanosecond_lt second.nanosecond_lt
    (append_cancel_right afterClock)
  rw [← Time.ofClock_self first, date, hour, minute, inMinute, nanosecond, zones,
    Time.ofClock_self second]

end Golusoris.Lib.Timestamp
