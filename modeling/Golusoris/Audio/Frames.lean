import Golusoris.Audio.Peaks
import Golusoris.Lib.Words

/-!
# Frame counts and durations

Source: `media/audio/decoder.go`, `analyze.go` and `peaks.go`, on the words that they
compute with. A duration counts nanoseconds. `none` is the panic of a division whose
quotient does not fit into a word.
-/

namespace Golusoris.Audio.Frames

open Lib.Words
open Int64 (le_iff_toInt_le lt_iff_toInt_lt not_le not_lt)

/-- `time.Second`. -/
def second : UInt64 := 1000000000

def maxDuration : Int64 := .maxValue

def durationForUnsignedFrames (frames : UInt64) (sampleRate : Int64) : Option Int64 :=
  if frames = 0 ∨ sampleRate ≤ 0 then some 0
  else
    let rate := sampleRate.toUInt64
    let seconds := frames / rate
    let remainder := frames % rate
    let maxNanos := maxDuration.toUInt64
    if seconds > maxNanos / second then some maxDuration
    else
      let nanos := seconds * second
      let (high, low) := mul64 remainder second
      (div64 high low rate).map fun (fraction, _) =>
        if fraction > maxNanos - nanos then maxDuration else (nanos + fraction).toInt64

def durationForFrames (frames sampleRate : Int64) : Option Int64 :=
  if frames ≤ 0 then some 0 else durationForUnsignedFrames frames.toUInt64 sampleRate

/-- What the analyzer reads of a stream's description here. -/
structure Info where
  duration : Int64
  sampleRate : Int64

def framesFor (info : Info) : Option Int64 :=
  if info.sampleRate ≤ 0 ∨ info.duration ≤ 0 then some 0
  else
    let (high, low) := mul64 info.duration.toUInt64 info.sampleRate.toUInt64
    let divisor := second
    if high ≥ divisor then some .maxValue
    else (div64 high low divisor).map fun (frames, _) =>
      if frames > (~~~0 : UInt64) >>> 1 then .maxValue else frames.toInt64

def peakBucketIndex (frameIdx buckets totalFrames : Int64) : Option Int64 :=
  if frameIdx ≤ 0 ∨ buckets < 1 ∨ totalFrames < 1 then some 0
  else if frameIdx ≥ totalFrames then some (buckets - 1)
  else
    let (high, low) := mul64 frameIdx.toUInt64 buckets.toUInt64
    (div64 high low totalFrames.toUInt64).map fun (index, _) =>
      if index ≥ buckets.toUInt64 then buckets - 1 else index.toInt64

/-- The accumulator that `waveform` chooses. -/
def peakCollector {α : Type} [LinearOrder α] (scale : Scale α) (info : Info) (buckets : ℕ) :
    Option (PeakAccumulator α ⊕ StreamingPeakAccumulator α) :=
  (framesFor info).map fun totalFrames =>
    if totalFrames > 0 then .inl (newPeakAccumulator scale buckets totalFrames.toInt.toNat)
    else .inr (newStreamingPeakAccumulator scale buckets)

theorem second_toNat : second.toNat = 10 ^ 9 := rfl

/-- A whole number of seconds and a rest shorter than one. -/
theorem nanos_eq (frames : ℕ) {rate : ℕ} (moving : 0 < rate) :
    frames * 10 ^ 9 / rate = frames / rate * 10 ^ 9 + frames % rate * 10 ^ 9 / rate := by
  have split : frames * 10 ^ 9 = rate * (frames / rate * 10 ^ 9) + frames % rate * 10 ^ 9 := by
    rw [← Nat.mul_assoc, ← Nat.add_mul, Nat.div_add_mod]
  rw [split, Nat.mul_add_div moving]

theorem durationForUnsignedFrames_eq (frames : UInt64) {sampleRate : Int64}
    (positive : 0 < sampleRate.toInt) :
    ∃ duration, durationForUnsignedFrames frames sampleRate = some duration ∧
      duration.toInt = min (frames.toNat * 10 ^ 9 / sampleRate.toInt) (maxInt64 : ℤ) := by
  have known : ¬sampleRate ≤ 0 := not_le.mpr (lt_iff_toInt_lt.mpr positive)
  have rate := toNat_toUInt64 positive.le
  have moving : 0 < sampleRate.toUInt64.toNat := by omega
  have limit : (maxDuration.toUInt64 / second).toNat = 9223372036 := rfl
  rw [durationForUnsignedFrames, ← rate]
  generalize sampleRate.toUInt64 = divisor at moving
  have whole := nanos_eq frames.toNat moving
  rw [← UInt64.toNat_div, ← UInt64.toNat_mod] at whole
  have rest : (frames % divisor).toNat * 10 ^ 9 / divisor.toNat < 10 ^ 9 := by
    rw [Nat.div_lt_iff_lt_mul moving, Nat.mul_comm, UInt64.toNat_mod]
    exact Nat.mul_lt_mul_of_pos_left (Nat.mod_lt _ moving) (by decide)
  norm_cast
  rw [whole, maxInt64]
  generalize part : (frames % divisor).toNat * 10 ^ 9 / divisor.toNat = fraction at rest
  by_cases empty : frames = 0
  · subst empty
    rw [if_pos (Or.inl rfl)]
    exact ⟨0, rfl, by simp [← part]⟩
  rw [if_neg (not_or.mpr ⟨empty, known⟩)]
  dsimp only
  split_ifs with long
  · rw [gt_iff_lt, UInt64.lt_iff_toNat_lt, limit] at long
    exact ⟨_, rfl, by rw [min_eq_right (by omega)]; rfl⟩
  rw [gt_iff_lt, UInt64.lt_iff_toNat_lt, limit, Nat.not_lt] at long
  have fits : (frames % divisor).toNat * second.toNat < divisor.toNat * 2 ^ 64 := by
    rw [UInt64.toNat_mod, second_toNat]
    exact Nat.mul_lt_mul'' (Nat.mod_lt _ moving) (by decide)
  obtain ⟨_, divided⟩ := div64_mul64 fits
  have nanos : (frames / divisor * second).toNat = (frames / divisor).toNat * 10 ^ 9 := by
    rw [UInt64.toNat_mul, second_toNat, Nat.mod_eq_of_lt (by omega)]
  have most : maxDuration.toUInt64.toNat = 9223372036854775807 := rfl
  have left : (maxDuration.toUInt64 - frames / divisor * second).toNat =
      9223372036854775807 - (frames / divisor).toNat * 10 ^ 9 := by
    rw [UInt64.toNat_sub_of_le _ _ (UInt64.le_iff_toNat_le.mpr (by omega)), most, nanos]
  have exact : (UInt64.ofNat fraction).toNat = fraction :=
    UInt64.toNat_ofNat_of_lt' (rest.trans (by decide))
  have sum : (frames / divisor * second + .ofNat fraction).toNat =
      (frames / divisor).toNat * 10 ^ 9 + fraction := by
    rw [UInt64.toNat_add, exact, nanos, Nat.mod_eq_of_lt (by omega)]
  rw [divided, Option.map_some, second_toNat, part]
  refine ⟨_, rfl, ?_⟩
  dsimp only
  split_ifs with beyond
  · rw [gt_iff_lt, UInt64.lt_iff_toNat_lt, left, exact] at beyond
    rw [min_eq_right (by omega)]
    rfl
  · rw [gt_iff_lt, UInt64.lt_iff_toNat_lt, left, exact] at beyond
    rw [min_eq_left (by omega), toInt_toInt64 (by omega), sum]

theorem framesFor_eq (info : Info) (rate : 0 < info.sampleRate.toInt)
    (long : 0 ≤ info.duration.toInt) :
    ∃ frames, framesFor info = some frames ∧
      frames.toInt = min (info.duration.toInt * info.sampleRate.toInt / 10 ^ 9) (maxInt64 : ℤ) := by
  by_cases empty : info.duration ≤ 0
  · have none : info.duration.toInt = 0 := by
      rw [le_iff_toInt_le] at empty
      exact le_antisymm empty long
    rw [framesFor, if_pos (Or.inr empty), none]
    exact ⟨0, rfl, by simp⟩
  have known : ¬info.sampleRate ≤ 0 := not_le.mpr (lt_iff_toInt_lt.mpr rate)
  rw [framesFor, if_neg (not_or.mpr ⟨known, empty⟩), ← toNat_toUInt64 long,
    ← toNat_toUInt64 rate.le]
  generalize info.duration.toUInt64 = duration
  generalize info.sampleRate.toUInt64 = sampleRate
  norm_cast
  dsimp only
  split_ifs with large
  all_goals rw [ge_iff_le, UInt64.le_iff_toNat_le, mul64_high, second_toNat] at large
  · exact ⟨_, rfl, by rw [min_eq_right (by rw [maxInt64]; omega)]; rfl⟩
  have fits : duration.toNat * sampleRate.toNat < second.toNat * 2 ^ 64 := by
    rw [second_toNat]
    omega
  obtain ⟨_, divided⟩ := div64_mul64 fits
  rw [divided, Option.map_some, second_toNat, maxInt64]
  refine ⟨_, rfl, ?_⟩
  have most : ((~~~0 : UInt64) >>> 1).toNat = 9223372036854775807 := rfl
  have exact : (UInt64.ofNat (duration.toNat * sampleRate.toNat / 10 ^ 9)).toNat =
      duration.toNat * sampleRate.toNat / 10 ^ 9 :=
    UInt64.toNat_ofNat_of_lt' (by rw [UInt64.size]; omega)
  dsimp only
  split_ifs with beyond
  · rw [gt_iff_lt, UInt64.lt_iff_toNat_lt, most, exact] at beyond
    rw [min_eq_right (by omega)]
    rfl
  · rw [gt_iff_lt, UInt64.lt_iff_toNat_lt, most, exact] at beyond
    rw [min_eq_left (by omega), toInt_toInt64 (by omega), exact]

/-- On words the index is the one of the model over the natural numbers. -/
theorem peakBucketIndex_spec (frameIdx : Int64) {buckets totalFrames : Int64}
    (drawn : 1 ≤ buckets.toInt) (total : 1 ≤ totalFrames.toInt) :
    ∃ index, peakBucketIndex frameIdx buckets totalFrames = some index ∧
      index.toInt = Audio.peakBucketIndex frameIdx.toInt.toNat buckets.toInt.toNat
        totalFrames.toInt.toNat := by
  have some : ¬buckets < 1 := not_lt.mpr (le_iff_toInt_le.mpr drawn)
  have long : ¬totalFrames < 1 := not_lt.mpr (le_iff_toInt_le.mpr total)
  have least : (buckets - 1).toInt = buckets.toInt - 1 := by
    have below := buckets.toInt_lt
    rw [Int64.toInt_sub, Int64.toInt_one]
    exact Int.bmod_eq_of_le (by omega) (by omega)
  rw [peakBucketIndex]
  by_cases first : frameIdx ≤ 0
  · have start : frameIdx.toInt.toNat = 0 := by
      rw [le_iff_toInt_le] at first
      exact Int.toNat_of_nonpos first
    rw [if_pos (Or.inl first), Audio.peakBucketIndex, if_pos (Or.inl start)]
    exact ⟨0, rfl, rfl⟩
  have later : 0 < frameIdx.toInt := lt_iff_toInt_lt.mp (not_le.mp first)
  rw [if_neg (not_or.mpr ⟨first, not_or.mpr ⟨some, long⟩⟩)]
  by_cases ended : frameIdx ≥ totalFrames
  · have after : totalFrames.toInt ≤ frameIdx.toInt := le_iff_toInt_le.mp ended
    rw [if_pos ended, Audio.peakBucketIndex, if_neg (by omega), if_pos (by omega)]
    exact ⟨_, rfl, by omega⟩
  have inside : frameIdx.toInt < totalFrames.toInt :=
    lt_iff_toInt_lt.mp (not_le.mp ended)
  rw [if_neg ended]
  have frame := toNat_toUInt64 later.le
  have width := toNat_toUInt64 (drawn.trans' Int.one_nonneg)
  have whole := toNat_toUInt64 (total.trans' Int.one_nonneg)
  rw [Audio.peakBucketIndex_eq (by omega) (by omega), ← frame, ← width, ← whole]
  rw [← frame, ← whole, Nat.cast_lt] at inside
  rw [← width, Nat.one_le_cast] at drawn
  have signed := buckets.toInt_lt
  rw [← width] at signed
  simp only [Int.toNat_natCast]
  generalize frameIdx.toUInt64 = frameIdx at inside
  generalize totalFrames.toUInt64 = totalFrames at inside
  obtain ⟨_, divided⟩ := div64_mul64 (y := buckets.toUInt64)
    (Nat.mul_lt_mul'' inside buckets.toUInt64.toNat_lt)
  have below : frameIdx.toNat * buckets.toUInt64.toNat / totalFrames.toNat <
      buckets.toUInt64.toNat := by
    rw [Nat.div_lt_iff_lt_mul (by omega), Nat.mul_comm]
    exact Nat.mul_lt_mul_of_pos_left inside drawn
  have exact : (UInt64.ofNat (frameIdx.toNat * buckets.toUInt64.toNat / totalFrames.toNat)).toNat =
      frameIdx.toNat * buckets.toUInt64.toNat / totalFrames.toNat :=
    UInt64.toNat_ofNat_of_lt' (below.trans (UInt64.toNat_lt _))
  rw [divided, Option.map_some]
  refine ⟨_, rfl, ?_⟩
  dsimp only
  rw [if_neg, toInt_toInt64 (by omega), exact]
  rw [ge_iff_le, UInt64.le_iff_toNat_le, exact]
  exact Nat.not_le.mpr below

theorem durationForFrames_eq {frames sampleRate : Int64} (counted : 0 ≤ frames.toInt)
    (positive : 0 < sampleRate.toInt) :
    ∃ duration, durationForFrames frames sampleRate = some duration ∧
      duration.toInt = min (frames.toInt * 10 ^ 9 / sampleRate.toInt) (maxInt64 : ℤ) := by
  rw [durationForFrames]
  split_ifs with empty
  · have none : frames.toInt = 0 := le_antisymm (le_iff_toInt_le.mp empty) counted
    exact ⟨0, rfl, by simp [none]⟩
  · rw [← toNat_toUInt64 counted]
    exact durationForUnsignedFrames_eq frames.toUInt64 positive

/-- A duration is the exact quotient, cut off at the longest one. -/
def DurationsExact : Prop :=
  ∀ (frames : UInt64) (sampleRate : Int64), 0 < sampleRate →
    ∃ duration, durationForUnsignedFrames frames sampleRate = some duration ∧
      duration.toInt = min (frames.toNat * 10 ^ 9 / sampleRate.toInt) (maxInt64 : ℤ)

/-- The index of a frame names a bucket, is the exact quotient among the frames that are
counted, and never falls from a frame to a later one. -/
def IndexesExact : Prop :=
  ∀ buckets totalFrames : Int64, 1 ≤ buckets → 1 ≤ totalFrames →
    (∀ frameIdx, ∃ index, peakBucketIndex frameIdx buckets totalFrames = some index ∧
      0 ≤ index ∧ index < buckets ∧ (0 ≤ frameIdx → frameIdx < totalFrames →
        index.toInt = frameIdx.toInt * buckets.toInt / totalFrames.toInt)) ∧
    ∀ first last one other, first ≤ last → peakBucketIndex first buckets totalFrames = some one →
      peakBucketIndex last buckets totalFrames = some other → one ≤ other

def NeverPanics : Prop :=
  (∀ frames sampleRate, durationForUnsignedFrames frames sampleRate ≠ none) ∧
  (∀ info, framesFor info ≠ none) ∧
  ∀ frameIdx buckets totalFrames, peakBucketIndex frameIdx buckets totalFrames ≠ none

/-- Frames at a rate within the supported ones whose duration is not cut off. -/
structure Unsaturated (frames sampleRate : Int64) : Prop where
  counted : 0 ≤ frames
  positive : 0 < sampleRate
  bounded : sampleRate ≤ 1000000000
  fits : frames.toInt * 10 ^ 9 / sampleRate.toInt ≤ maxInt64

/-- The frames are counted again from their duration, and the peaks are collected by
that number. -/
def Inverts {α : Type} [LinearOrder α] (scale : Scale α) (frames sampleRate : Int64) : Prop :=
  ∃ duration, durationForFrames frames sampleRate = some duration ∧
    framesFor ⟨duration, sampleRate⟩ = some frames ∧
    (0 < frames → ∀ buckets, peakCollector scale ⟨duration, sampleRate⟩ buckets =
      some (.inl (newPeakAccumulator scale buckets frames.toInt.toNat)))

theorem durationsExact : DurationsExact := fun frames _ positive =>
  durationForUnsignedFrames_eq frames (lt_iff_toInt_lt.mp positive)

theorem peakBucketIndex_min (frameIdx : ℕ) {buckets totalFrames : ℕ} (drawn : 0 < buckets)
    (total : 0 < totalFrames) : Audio.peakBucketIndex frameIdx buckets totalFrames =
      min (frameIdx * buckets / totalFrames) (buckets - 1) := by
  by_cases inside : frameIdx < totalFrames
  · have below := peakBucketIndex_lt inside drawn
    rw [peakBucketIndex_eq inside drawn] at below ⊢
    rw [min_eq_left (Nat.le_sub_one_of_lt below)]
  · have past : buckets ≤ frameIdx * buckets / totalFrames := by
      rw [Nat.le_div_iff_mul_le total, Nat.mul_comm]
      exact Nat.mul_le_mul_right _ (Nat.le_of_not_lt inside)
    rw [Audio.peakBucketIndex, if_neg (by omega), if_pos (Nat.le_of_not_lt inside),
      min_eq_right (by omega)]

theorem indexesExact : IndexesExact := by
  intro buckets totalFrames drawn total
  have drawn : 1 ≤ buckets.toInt := le_iff_toInt_le.mp drawn
  have total : 1 ≤ totalFrames.toInt := le_iff_toInt_le.mp total
  have spec (frameIdx : Int64) := peakBucketIndex_spec frameIdx drawn total
  simp only [peakBucketIndex_min _ (show 0 < buckets.toInt.toNat by omega)
    (show 0 < totalFrames.toInt.toNat by omega)] at spec
  constructor
  · intro frameIdx
    obtain ⟨index, returned, value⟩ := spec frameIdx
    refine ⟨index, returned, ?_, ?_, fun counted inside => ?_⟩
    · rw [le_iff_toInt_le, value]
      exact Int.natCast_nonneg _
    · rw [lt_iff_toInt_lt, value]
      omega
    · have counted : 0 ≤ frameIdx.toInt := le_iff_toInt_le.mp counted
      have inside : frameIdx.toInt < totalFrames.toInt := lt_iff_toInt_lt.mp inside
      rw [value, ← peakBucketIndex_min _ (by omega) (by omega),
        peakBucketIndex_eq (by omega) (by omega)]
      push_cast
      rw [Int.toNat_of_nonneg counted, Int.toNat_of_nonneg (by omega), Int.toNat_of_nonneg (by omega)]
  · intro first last one other le returned also
    obtain ⟨index, known, value⟩ := spec first
    obtain ⟨later, known', value'⟩ := spec last
    obtain rfl := Option.some.inj (known.symm.trans returned)
    obtain rfl := Option.some.inj (known'.symm.trans also)
    rw [le_iff_toInt_le, value, value', Nat.cast_le]
    have le : first.toInt.toNat ≤ last.toInt.toNat :=
      Int.toNat_le_toNat (le_iff_toInt_le.mp le)
    exact min_le_min_right _ (Nat.div_le_div_right (Nat.mul_le_mul_right _ le))

theorem neverPanics : NeverPanics := by
  refine ⟨fun frames sampleRate => ?_, fun info => ?_, fun frameIdx buckets totalFrames => ?_⟩
  · by_cases still : frames = 0 ∨ sampleRate ≤ 0
    · rw [durationForUnsignedFrames, if_pos still]
      exact Option.some_ne_none 0
    · simp only [not_or, le_iff_toInt_le, Int.not_le] at still
      obtain ⟨duration, returned, -⟩ := durationForUnsignedFrames_eq frames still.2
      exact returned ▸ Option.some_ne_none duration
  · by_cases known : info.sampleRate ≤ 0 ∨ info.duration ≤ 0
    · rw [framesFor, if_pos known]
      exact Option.some_ne_none 0
    · simp only [not_or, le_iff_toInt_le, Int.not_le] at known
      obtain ⟨frames, returned, -⟩ := framesFor_eq info known.1 (le_of_lt known.2)
      exact returned ▸ Option.some_ne_none frames
  · by_cases drawn : frameIdx ≤ 0 ∨ buckets < 1 ∨ totalFrames < 1
    · rw [peakBucketIndex, if_pos drawn]
      exact Option.some_ne_none 0
    · simp only [not_or, lt_iff_toInt_lt, Int.not_lt] at drawn
      obtain ⟨index, returned, -⟩ := peakBucketIndex_spec frameIdx drawn.2.1 drawn.2.2
      exact returned ▸ Option.some_ne_none index

/-- The frames come back from a duration that cut off no part of a nanosecond. -/
theorem roundTrip_iff {frames rate : ℤ} (positive : 0 < rate) :
    frames * 10 ^ 9 / rate * rate / 10 ^ 9 = frames ↔ rate ∣ frames * 10 ^ 9 := by
  constructor
  · intro kept
    have below : frames * 10 ^ 9 ≤ frames * 10 ^ 9 / rate * rate := by
      have reached := Int.ediv_mul_le (frames * 10 ^ 9 / rate * rate) (b := 10 ^ 9) (by decide)
      rwa [kept] at reached
    have above := Int.ediv_mul_le (frames * 10 ^ 9) positive.ne'
    exact Dvd.intro_left _ (le_antisymm above below)
  · intro whole
    rw [Int.ediv_mul_cancel whole, Int.mul_ediv_cancel _ (by decide)]

theorem inverts_iff {α : Type} [LinearOrder α] (scale : Scale α) {frames sampleRate : Int64}
    (unsaturated : Unsaturated frames sampleRate) :
    Inverts scale frames sampleRate ↔ sampleRate.toInt ∣ frames.toInt * 10 ^ 9 := by
  have counted : 0 ≤ frames.toInt := le_iff_toInt_le.mp unsaturated.counted
  have positive : 0 < sampleRate.toInt := lt_iff_toInt_lt.mp unsaturated.positive
  obtain ⟨duration, lasted, nanos⟩ := durationForFrames_eq counted positive
  rw [min_eq_left unsaturated.fits] at nanos
  have long : 0 ≤ duration.toInt := by
    rw [nanos]
    exact Int.ediv_nonneg (by omega) positive.le
  obtain ⟨again, recounted, value⟩ := framesFor_eq ⟨duration, sampleRate⟩ positive long
  have within : duration.toInt * sampleRate.toInt / 10 ^ 9 ≤ (maxInt64 : ℤ) := by
    have most := frames.toInt_lt
    have whole := Int.ediv_mul_le (frames.toInt * 10 ^ 9) positive.ne'
    rw [nanos, maxInt64]
    omega
  rw [min_eq_left within, nanos] at value
  rw [← roundTrip_iff positive, ← value, Int64.toInt_inj]
  constructor
  · rintro ⟨other, also, known, -⟩
    obtain rfl := Option.some.inj (lasted.symm.trans also)
    exact Option.some.inj (recounted.symm.trans known)
  · rintro rfl
    refine ⟨duration, lasted, recounted, fun some buckets => ?_⟩
    rw [peakCollector, recounted, Option.map_some, if_pos some]

/-- Durations and indexes are exact and no division fails; the frames come back from
their duration exactly when it is a whole number of nanoseconds. -/
theorem frames_exact_iff {α : Type} [LinearOrder α] (scale : Scale α) (frames sampleRate : Int64) :
    DurationsExact ∧ IndexesExact ∧ NeverPanics ∧ (Unsaturated frames sampleRate →
      (Inverts scale frames sampleRate ↔ sampleRate.toInt ∣ frames.toInt * 10 ^ 9)) :=
  ⟨durationsExact, indexesExact, neverPanics, inverts_iff scale⟩

/-- A hundred frames at 44.1 kHz come back as ninety-nine. -/
theorem frame_lost : Unsaturated 100 44100 ∧ durationForFrames 100 44100 = some 2267573 ∧
    framesFor ⟨2267573, 44100⟩ = some 99 ∧
    ¬Inverts (⟨0, -1, 1, by decide⟩ : Scale ℤ) 100 44100 := by
  have unsaturated : Unsaturated 100 44100 := ⟨by decide, by decide, by decide, by decide⟩
  refine ⟨unsaturated, by decide, by decide, ?_⟩
  rw [inverts_iff _ unsaturated]
  decide

end Golusoris.Audio.Frames
