import Mathlib.Algebra.BigOperators.Ring.List
import Mathlib.Algebra.Order.Field.Rat
import Mathlib.Data.List.GetD
import Mathlib.Data.Rat.Floor
import Mathlib.Tactic.FieldSimp
import Mathlib.Tactic.Linarith
import Mathlib.Tactic.Ring

/-!
# Resampling in chunks

Source: `media/audio/resample.go`. Positions and samples are rationals. The state
that a call leaves is related to the whole source: the position of the next frame,
counted from the start, is a multiple of the ratio, and the carried frame is the last
one that was consumed.
-/

namespace Golusoris.Audio

open List

def targetRate : ℤ := 48000

structure StereoResampler where
  srcRate : ℤ
  dstRate : ℤ
  ratio : ℚ
  pos : ℚ
  prevL : ℚ
  prevR : ℚ
  havePrev : Bool

/-- The rate a source is taken to have. -/
def sourceRate (srcRate : ℤ) : ℤ := if srcRate ≤ 0 then targetRate else srcRate

def newStereoResampler (srcRate : ℤ) : StereoResampler where
  srcRate := sourceRate srcRate
  dstRate := targetRate
  ratio := sourceRate srcRate / targetRate
  pos := 0
  prevL := 0
  prevR := 0
  havePrev := false

def inputTooLarge : String := "audio: resample: input or decoded size exceeds limit"

def interpolateStereo (left0 right0 left1 right1 fraction : ℚ) : Option (ℚ × ℚ) :=
  some (left0 + (left1 - left0) * fraction, right0 + (right1 - right0) * fraction)

namespace StereoResampler

/-- The next frame, if both of its ends are there. -/
def sampleAtPosition (s : StereoResampler) (left right : List ℚ) : Option (ℚ × ℚ) :=
  let base := ⌊s.pos⌋
  let fraction := s.pos - base
  if base = -1 then
    if !s.havePrev then none
    else interpolateStereo s.prevL s.prevR (left.getD 0 0) (right.getD 0 0) fraction
  else if base < 0 ∨ base ≥ left.length then none
  else
    let left0 := left.getD base.toNat 0
    let right0 := right.getD base.toNat 0
    if fraction = 0 then some (left0, right0)
    else if base + 1 ≥ left.length then none
    else interpolateStereo left0 right0 (left.getD (base.toNat + 1) 0) (right.getD (base.toNat + 1) 0)
      fraction

/-- The loop of `resample`, with room for some frames. -/
def fill (left right : List ℚ) : ℕ → StereoResampler → List ℚ × StereoResampler
  | 0, s => ([], s)
  | room + 1, s =>
      match s.sampleAtPosition left right with
      | none => ([], s)
      | some (leftSample, rightSample) =>
          let (out, s) := fill left right room { s with pos := s.pos + s.ratio }
          (leftSample :: rightSample :: out, s)

/-- The loop of `flush`, with room for some frames. -/
def hold : ℕ → StereoResampler → List ℚ × StereoResampler
  | 0, s => ([], s)
  | room + 1, s =>
      if s.pos < 0 then
        let (out, s') := hold room { s with pos := s.pos + s.ratio }
        (s.prevL :: s.prevR :: out, s')
      else ([], s)

end StereoResampler

def interleave (left right : List ℚ) : List ℚ :=
  (left.zip right).flatMap fun (leftSample, rightSample) => [leftSample, rightSample]

def toStereo (samples : List ℚ) (ch frames : ℕ) : List ℚ × List ℚ :=
  match ch with
  | 1 => ((List.range frames).map fun f => samples.getD f 0,
      (List.range frames).map fun f => samples.getD f 0)
  | 2 => ((List.range frames).map fun f => samples.getD (f * 2) 0,
      (List.range frames).map fun f => samples.getD (f * 2 + 1) 0)
  | ch => ((List.range frames).map fun f => samples.getD (f * ch) 0,
      (List.range frames).map fun f => samples.getD (f * ch + 1) 0)

namespace StereoResampler

def resample (s : StereoResampler) (left right : List ℚ) (maxOutputFrames : ℤ) :
    Except String (List ℚ) × StereoResampler :=
  if s.srcRate = s.dstRate then
    if (left.length : ℤ) > maxOutputFrames then (.error inputTooLarge, s)
    else (.ok (interleave left right), s)
  else
    let (out, s) := s.fill left right maxOutputFrames.toNat
    if (s.sampleAtPosition left right).isSome then (.error inputTooLarge, s)
    else (.ok out, { s with
      pos := s.pos - left.length
      prevL := left.getD (left.length - 1) 0
      prevR := right.getD (left.length - 1) 0
      havePrev := true })

def process (s : StereoResampler) (samples : List ℚ) (ch : ℕ) (maxOutputFrames : ℤ) :
    Except String (List ℚ) × StereoResampler :=
  let frames := samples.length / ch
  if frames = 0 then (.ok [], s)
  else
    let (left, right) := toStereo samples ch frames
    s.resample left right maxOutputFrames

def flush (s : StereoResampler) (maxOutputFrames : ℤ) : Except String (List ℚ) × StereoResampler :=
  if !s.havePrev then (.ok [], s)
  else
    let (out, s) := s.hold maxOutputFrames.toNat
    if s.pos < 0 then (.error inputTooLarge, s)
    else (.ok out, { s with havePrev := false })

/-- The chunks of a stream and the flush after them, as `loudness` makes the calls: what
is left of the limit goes down by the frames of every call. -/
def run (s : StereoResampler) (ch : ℕ) (remaining : ℤ) : List (List ℚ) → Except String (List ℚ)
  | [] => (s.flush remaining).1
  | samples :: rest =>
      match s.process samples ch remaining with
      | (.error failure, _) => .error failure
      | (.ok resampled, s) =>
          match s.run ch (remaining - (resampled.length / 2 : ℕ)) rest with
          | .error failure => .error failure
          | .ok more => .ok (resampled ++ more)

end StereoResampler

/-- Linear between two frames; beyond the end the last frame is held. -/
def held (source : List ℚ) (position : ℚ) : ℚ :=
  let base := ⌊position⌋₊
  if base + 1 < source.length then
    source.getD base 0 + (source.getD (base + 1) 0 - source.getD base 0) * (position - base)
  else source.getD (source.length - 1) 0

/-- The frames of a stretch of the output. -/
def stretch (left right : List ℚ) (ratio : ℚ) (first last : ℕ) : List ℚ :=
  (List.range' first (last - first)).flatMap fun k : ℕ =>
    [held left (k * ratio), held right (k * ratio)]

/-- The number of frames that `frames` of the source become. -/
def outputFrames (srcRate : ℤ) (frames : ℕ) : ℕ := ⌈(frames : ℚ) * targetRate / sourceRate srcRate⌉₊

section Held

variable {source seen left later : List ℚ} {pos : ℚ}

theorem held_add (source : List ℚ) (base : ℕ) {fraction : ℚ} (positive : 0 ≤ fraction)
    (small : fraction < 1) : held source (base + fraction) =
      if base + 1 < source.length then
        source.getD base 0 + (source.getD (base + 1) 0 - source.getD base 0) * fraction
      else source.getD (source.length - 1) 0 := by
  have floor : ⌊(base : ℚ) + fraction⌋₊ = base := by
    rw [Nat.floor_eq_iff (by positivity)]
    constructor <;> linarith
  simp only [held, floor, add_sub_cancel_left]

/-- Between the carried frame and the first one of a chunk. -/
theorem held_carried (after : -1 < pos) (negative : pos < 0) (carried : seen ≠ [])
    (some : left ≠ []) : held (seen ++ left ++ later) (seen.length + pos) =
      seen.getD (seen.length - 1) 0 +
        (left.getD 0 0 - seen.getD (seen.length - 1) 0) * (pos + 1) := by
  obtain ⟨last, length⟩ : ∃ last, seen.length = last + 1 :=
    Nat.exists_eq_succ_of_ne_zero (length_pos_iff.mpr carried).ne'
  have filled : 0 < left.length := length_pos_iff.mpr some
  have position : (seen.length : ℚ) + pos = last + (pos + 1) := by
    rw [length]
    push_cast
    ring
  rw [position, held_add _ last (by linarith) (by linarith), if_pos (by simp; omega)]
  have here : (seen ++ left ++ later).getD last 0 = seen.getD (seen.length - 1) 0 := by
    rw [append_assoc, getD_append _ _ _ _ (by omega), length, Nat.add_sub_cancel]
  have next : (seen ++ left ++ later).getD (last + 1) 0 = left.getD 0 0 := by
    rw [append_assoc, getD_append_right _ _ _ _ (by omega), length, Nat.sub_self,
      getD_append _ _ _ _ filled]
  rw [here, next]

theorem getD_chunk {index : ℕ} (inside : index < left.length) :
    (seen ++ left ++ later).getD (seen.length + index) 0 = left.getD index 0 := by
  rw [append_assoc, getD_append_right _ _ _ _ (by omega), Nat.add_sub_cancel_left,
    getD_append _ _ _ _ inside]

/-- On a frame of a chunk. -/
theorem held_on {base : ℕ} (inside : base < left.length) :
    held (seen ++ left ++ later) (seen.length + base) = left.getD base 0 := by
  have position : (seen.length : ℚ) + base = ((seen.length + base : ℕ) : ℚ) + 0 := by
    push_cast
    ring
  rw [position, held_add _ _ le_rfl one_pos]
  split_ifs with more
  · rw [mul_zero, add_zero, getD_chunk inside]
  · have last : (seen ++ left ++ later).length - 1 = seen.length + base := by
      simp only [length_append] at more ⊢
      omega
    rw [last, getD_chunk inside]

/-- Between two frames of a chunk. -/
theorem held_inside {base : ℕ} (inside : base + 1 < left.length) (low : (base : ℚ) ≤ pos)
    (high : pos < base + 1) : held (seen ++ left ++ later) (seen.length + pos) =
      left.getD base 0 + (left.getD (base + 1) 0 - left.getD base 0) * (pos - base) := by
  have position : (seen.length : ℚ) + pos = ((seen.length + base : ℕ) : ℚ) + (pos - base) := by
    push_cast
    ring
  rw [position, held_add _ _ (by linarith) (by linarith),
    if_pos (by simp only [length_append]; omega), getD_chunk (by omega), add_assoc, getD_chunk inside]

/-- Beyond the last frame. -/
theorem held_end (after : -1 < pos) (negative : pos < 0) (some : source ≠ []) :
    held source (source.length + pos) = source.getD (source.length - 1) 0 := by
  obtain ⟨last, length⟩ : ∃ last, source.length = last + 1 :=
    Nat.exists_eq_succ_of_ne_zero (length_pos_iff.mpr some).ne'
  have position : (source.length : ℚ) + pos = last + (pos + 1) := by
    rw [length]
    push_cast
    ring
  rw [position, held_add _ last (by linarith) (by linarith), if_neg (by omega)]

end Held

/-- The state after the frames that were consumed. -/
structure Carries (s : StereoResampler) (seenL seenR : List ℚ) : Prop where
  same : seenL.length = seenR.length
  after : -1 < s.pos
  first : seenL = [] → 0 ≤ s.pos ∧ s.havePrev = false
  carried : seenL ≠ [] → s.havePrev = true ∧ s.prevL = seenL.getD (seenL.length - 1) 0 ∧
    s.prevR = seenR.getD (seenL.length - 1) 0

variable {ratio : ℚ} {k m ch : ℕ} {left samples : List ℚ}

section Call

variable {s : StereoResampler} {seenL seenR left right : List ℚ}

/-- There is a next frame as far as the last one of the chunk, and it is that of the whole
source. -/
theorem sampleAtPosition_eq (laterL laterR : List ℚ) (carries : Carries s seenL seenR)
    (some : left ≠ [])
    (same : left.length = right.length) : s.sampleAtPosition left right =
      if s.pos ≤ left.length - 1 then
        .some (held (seenL ++ left ++ laterL) (seenL.length + s.pos),
          held (seenR ++ right ++ laterR) (seenL.length + s.pos))
      else none := by
  have filled : 0 < left.length := length_pos_iff.mpr some
  have one : (1 : ℚ) ≤ left.length := by exact_mod_cast filled
  have other : right ≠ [] := length_pos_iff.mp (same ▸ filled)
  obtain negative | positive := lt_or_ge s.pos 0
  · have seen : seenL ≠ [] := fun empty => absurd (carries.first empty).1 (not_le.mpr negative)
    have seen' : seenR ≠ [] := length_pos_iff.mp (carries.same ▸ length_pos_iff.mpr seen)
    obtain ⟨have', prevL, prevR⟩ := carries.carried seen
    have base : ⌊s.pos⌋ = -1 := by
      rw [Int.floor_eq_iff]
      constructor
      · push_cast
        linarith [carries.after]
      · push_cast
        linarith
    rw [if_pos (by linarith), held_carried carries.after negative seen some, carries.same,
      held_carried carries.after negative seen' other]
    simp only [StereoResampler.sampleAtPosition, base, have', prevL, prevR, carries.same]
    simp [interpolateStereo, sub_neg_eq_add]
  · obtain ⟨base, floor⟩ := Int.eq_ofNat_of_zero_le (Int.floor_nonneg.mpr positive)
    have low : (base : ℚ) ≤ s.pos := by
      have := Int.floor_le s.pos
      rw [floor] at this
      exact_mod_cast this
    have high : s.pos < base + 1 := by
      have := Int.lt_floor_add_one s.pos
      rw [floor] at this
      exact_mod_cast this
    simp only [StereoResampler.sampleAtPosition, floor]
    rw [if_neg (by omega)]
    obtain beyond | inside := le_or_gt left.length base
    · have far : (left.length : ℚ) ≤ base := by exact_mod_cast beyond
      rw [if_pos (.inr (by exact_mod_cast beyond)), if_neg (by linarith)]
    · rw [if_neg (by omega), Int.toNat_natCast]
      obtain on | between := eq_or_lt_of_le low
      · have within : (base : ℚ) + 1 ≤ left.length := by exact_mod_cast inside
        rw [if_pos (by rw [← on]; simp), if_pos (by linarith), ← on, held_on inside, carries.same,
          held_on (same ▸ inside)]
      · have fraction : s.pos - ((base : ℤ) : ℚ) ≠ 0 := by
          push_cast
          linarith
        rw [if_neg fraction]
        obtain last | more := le_or_gt left.length (base + 1)
        · have far : (left.length : ℚ) ≤ base + 1 := by exact_mod_cast last
          rw [if_pos (by omega), if_neg (by linarith)]
        · have within : (base : ℚ) + 1 + 1 ≤ left.length := by exact_mod_cast more
          rw [if_neg (by omega), if_pos (by linarith), held_inside more low high, carries.same,
            held_inside (same ▸ more) low high]
          rfl

theorem stretch_self (left right : List ℚ) (ratio : ℚ) (k : ℕ) : stretch left right ratio k k =
    [] := by
  simp [stretch]

theorem stretch_cons (left right : List ℚ) (ratio : ℚ) (more : k < m) :
    stretch left right ratio k m =
      held left (k * ratio) :: held right (k * ratio) :: stretch left right ratio (k + 1) m := by
  obtain ⟨rest, rfl⟩ := Nat.exists_eq_add_of_lt more
  have now : k + rest + 1 - k = rest + 1 := by omega
  have next : k + rest + 1 - (k + 1) = rest := by omega
  rw [stretch, stretch, now, next, range'_succ, flatMap_cons]
  rfl

theorem stretch_append (left right : List ℚ) (ratio : ℚ) {n : ℕ} (one : k ≤ m) (two : m ≤ n) :
    stretch left right ratio k m ++ stretch left right ratio m n = stretch left right ratio k n := by
  obtain ⟨here, rfl⟩ := Nat.exists_eq_add_of_le one
  obtain ⟨rest, rfl⟩ := Nat.exists_eq_add_of_le two
  have all : k + here + rest - k = here + rest := by omega
  rw [stretch, stretch, stretch, Nat.add_sub_cancel_left, Nat.add_sub_cancel_left, all,
    ← flatMap_append, range'_append_1]

theorem length_stretch (left right : List ℚ) (ratio : ℚ) (k m : ℕ) :
    (stretch left right ratio k m).length = 2 * (m - k) := by
  simp [stretch, mul_comm]

/-- A call that moves only the position. -/
theorem Carries.move (carries : Carries s seenL seenR) (ratio : 0 < s.ratio) :
    Carries { s with pos := s.pos + s.ratio } seenL seenR where
  same := carries.same
  after := by
    have := carries.after
    simp only
    linarith
  first empty := ⟨add_nonneg (carries.first empty).1 ratio.le, (carries.first empty).2⟩
  carried := carries.carried

/-- The loop yields the frames up to the first one that needs more than the chunk. -/
theorem fill_eq (laterL laterR : List ℚ) (ratio : 0 < s.ratio) (some : left ≠ [])
    (same : left.length = right.length)
    (next : (seenL.length : ℚ) + left.length - 1 < m * s.ratio) :
    ∀ (room : ℕ) {k : ℕ} (s' : StereoResampler), s'.ratio = s.ratio → Carries s' seenL seenR →
      (seenL.length : ℚ) + s'.pos = k * s.ratio → k ≤ m → m - k ≤ room →
      (∀ j, k ≤ j → j < m → (j : ℚ) * s.ratio ≤ seenL.length + left.length - 1) →
      s'.fill left right room =
        (stretch (seenL ++ left ++ laterL) (seenR ++ right ++ laterR) s.ratio k m,
          { s' with pos := m * s.ratio - seenL.length }) := by
  intro room
  induction room with
  | zero =>
    intro k s' own carries position le enough inside
    obtain rfl : k = m := by omega
    rw [StereoResampler.fill, stretch_self, ← position, add_sub_cancel_left]
  | succ room ih =>
    intro k s' own carries position le enough inside
    rw [StereoResampler.fill,
      sampleAtPosition_eq laterL laterR carries some same]
    obtain rfl | more := eq_or_lt_of_le le
    · rw [if_neg (by linarith), stretch_self, ← position, add_sub_cancel_left]
    · have here := inside k le_rfl more
      rw [if_pos (by linarith), position, stretch_cons _ _ _ more]
      have moved : (seenL.length : ℚ) + (s'.pos + s'.ratio) = ((k + 1 : ℕ) : ℚ) * s.ratio := by
        rw [own, ← add_assoc, position]
        push_cast
        ring
      have rest := ih { s' with pos := s'.pos + s'.ratio } own (carries.move (own ▸ ratio)) moved
        more (by omega) fun j low => inside j (by omega)
      rw [rest]

/-- The frames that a chunk completes. -/
def reached (ratio : ℚ) (consumed k : ℕ) : ℕ := max k (⌊((consumed : ℚ) - 1) / ratio⌋₊ + 1)

theorem reached_spec (positive : 0 < ratio) {consumed : ℕ} (some : 0 < consumed)
    (due : k ≤ ⌈(consumed : ℚ) / ratio⌉₊) : k ≤ reached ratio consumed k ∧
      (consumed : ℚ) - 1 < reached ratio consumed k * ratio ∧
      reached ratio consumed k ≤ ⌈(consumed : ℚ) / ratio⌉₊ ∧
      ∀ j, k ≤ j → j < reached ratio consumed k → (j : ℚ) * ratio ≤ consumed - 1 := by
  have one : (1 : ℚ) ≤ consumed := by exact_mod_cast some
  have back : (⌊((consumed : ℚ) - 1) / ratio⌋₊ : ℚ) * ratio ≤ consumed - 1 := by
    rw [← le_div_iff₀ positive]
    exact Nat.floor_le (div_nonneg (by linarith) positive.le)
  refine ⟨le_max_left _ _, ?_, ?_, ?_⟩
  · rw [← div_lt_iff₀ positive]
    have under : ⌊((consumed : ℚ) - 1) / ratio⌋₊ + 1 ≤ reached ratio consumed k := le_max_right _ _
    exact (Nat.lt_floor_add_one _).trans_le (mod_cast under)
  · refine max_le due (Nat.succ_le_of_lt (Nat.lt_ceil.mpr ?_))
    rw [lt_div_iff₀ positive]
    linarith
  · intro j low high
    have under : j ≤ ⌊((consumed : ℚ) - 1) / ratio⌋₊ := by
      simp only [reached, lt_max_iff] at high
      omega
    refine le_trans (mul_le_mul_of_nonneg_right ?_ positive.le) back
    exact_mod_cast under

/-- The state after some frames of the source, with `k` frames of the output made. -/
structure Tracks (ratio : ℚ) (seenL seenR : List ℚ) (k : ℕ) (s : StereoResampler) : Prop
    extends Carries s seenL seenR where
  own : s.ratio = ratio
  apart : s.srcRate ≠ s.dstRate
  position : (seenL.length : ℚ) + s.pos = k * ratio
  due : k ≤ ⌈(seenL.length : ℚ) / ratio⌉₊

theorem getD_append_last {seen : List ℚ} (some : left ≠ []) :
    (seen ++ left).getD ((seen ++ left).length - 1) 0 = left.getD (left.length - 1) 0 := by
  have filled : 0 < left.length := length_pos_iff.mpr some
  rw [getD_append_right _ _ _ _ (by simp only [length_append]; omega), length_append]
  congr 1
  omega

/-- A chunk yields the frames that it completes, and the state moves on by the chunk. -/
theorem resample_eq (laterL laterR : List ℚ) (positive : 0 < ratio)
    (tracks : Tracks ratio seenL seenR k s) (some : left ≠ []) (same : left.length = right.length)
    {limit : ℤ} (room : ((reached ratio (seenL.length + left.length) k - k : ℕ) : ℤ) ≤ limit) :
    ∃ s', s.resample left right limit =
        (.ok (stretch (seenL ++ left ++ laterL) (seenR ++ right ++ laterR) ratio k
          (reached ratio (seenL.length + left.length) k)), s') ∧
      Tracks ratio (seenL ++ left) (seenR ++ right) (reached ratio (seenL.length + left.length) k)
        s' := by
  obtain ⟨carries, rfl, apart, position, due⟩ := tracks
  have filled : 0 < left.length := length_pos_iff.mpr some
  have later : k ≤ ⌈((seenL.length + left.length : ℕ) : ℚ) / s.ratio⌉₊ := by
    refine due.trans (Nat.ceil_le_ceil ?_)
    gcongr
    omega
  obtain ⟨le, next, ready, inside⟩ := reached_spec positive (by omega) later
  generalize reached s.ratio (seenL.length + left.length) k = m at *
  push_cast at next inside
  have filling := fill_eq laterL laterR positive some same next limit.toNat s rfl
    carries position le (by omega) inside
  have moved : Carries { s with pos := m * s.ratio - seenL.length } seenL seenR := by
    refine ⟨carries.same, ?_, fun empty => ⟨?_, (carries.first empty).2⟩, carries.carried⟩
    · have one : (1 : ℚ) ≤ left.length := by exact_mod_cast filled
      simp only
      linarith
    · subst empty
      simp only [length_nil, Nat.cast_zero, sub_zero]
      positivity
  have stops : ¬(m * s.ratio - seenL.length ≤ (left.length : ℚ) - 1) := by linarith
  refine ⟨{ s with
    pos := m * s.ratio - seenL.length - left.length
    prevL := left.getD (left.length - 1) 0
    prevR := right.getD (left.length - 1) 0
    havePrev := true }, ?_, ?_⟩
  · rw [StereoResampler.resample, if_neg apart, filling]
    simp only
    rw [sampleAtPosition_eq laterL laterR moved some same, if_neg stops]
    rfl
  · refine ⟨⟨?_, ?_, ?_, ?_⟩, rfl, apart, ?_, ?_⟩
    · simp [carries.same, same]
    · simp only
      linarith
    · simp [some]
    · intro _
      refine ⟨rfl, (getD_append_last some).symm, ?_⟩
      have other : right ≠ [] := length_pos_iff.mp (same ▸ filled)
      have lengths : (seenL ++ left).length = (seenR ++ right).length := by simp [carries.same, same]
      rw [lengths, getD_append_last other, same]
    · simp only [length_append]
      push_cast
      ring
    · simpa only [length_append] using ready

/-- The flush holds the last frame up to the end of the source. -/
theorem hold_eq (positive : 0 < ratio) (some : seenL ≠ []) :
    ∀ (room : ℕ) {k : ℕ} (s : StereoResampler), Tracks ratio seenL seenR k s →
      ⌈(seenL.length : ℚ) / ratio⌉₊ - k ≤ room →
      s.hold room = (stretch seenL seenR ratio k ⌈(seenL.length : ℚ) / ratio⌉₊,
        { s with pos := ⌈(seenL.length : ℚ) / ratio⌉₊ * ratio - seenL.length }) := by
  intro room
  induction room with
  | zero =>
    intro k s tracks enough
    obtain rfl : k = ⌈(seenL.length : ℚ) / ratio⌉₊ := by
      have := tracks.due
      omega
    rw [StereoResampler.hold, stretch_self, ← tracks.position, add_sub_cancel_left]
  | succ room ih =>
    intro k s tracks enough
    obtain ⟨⟨same, after, first, carried⟩, rfl, apart, position, due⟩ := tracks
    rw [StereoResampler.hold]
    obtain negative | later := lt_or_ge s.pos 0
    · have more : k < ⌈(seenL.length : ℚ) / s.ratio⌉₊ := by
        rw [Nat.lt_ceil, lt_div_iff₀ positive]
        linarith
      obtain ⟨-, prevL, prevR⟩ := carried some
      have other : seenR ≠ [] := length_pos_iff.mp (same ▸ length_pos_iff.mpr some)
      have moved : Tracks s.ratio seenL seenR (k + 1) { s with pos := s.pos + s.ratio } := by
        refine ⟨Carries.move ⟨same, after, first, carried⟩ positive, rfl, apart, ?_, more⟩
        rw [← add_assoc, position]
        push_cast
        ring
      have rest := ih _ moved (by omega)
      rw [if_pos negative, rest, stretch_cons _ _ _ more, ← position,
        held_end after negative some, same, held_end after negative other, ← same, ← prevL, ← prevR]
    · obtain rfl : k = ⌈(seenL.length : ℚ) / s.ratio⌉₊ := by
        refine le_antisymm due (Nat.ceil_le.mpr ?_)
        rw [div_le_iff₀ positive]
        linarith
      rw [if_neg (not_lt.mpr later), stretch_self, ← position, add_sub_cancel_left]

theorem flush_eq (positive : 0 < ratio) (tracks : Tracks ratio seenL seenR k s)
    (some : seenL ≠ []) {limit : ℤ} (room : ((⌈(seenL.length : ℚ) / ratio⌉₊ - k : ℕ) : ℤ) ≤ limit) :
    (s.flush limit).1 = .ok (stretch seenL seenR ratio k ⌈(seenL.length : ℚ) / ratio⌉₊) := by
  have carried : s.havePrev = true := (tracks.carried some).1
  have done : ¬(⌈(seenL.length : ℚ) / ratio⌉₊ : ℚ) * ratio - seenL.length < 0 := by
    have := Nat.le_ceil ((seenL.length : ℚ) / ratio)
    rw [div_le_iff₀ positive] at this
    linarith
  rw [StereoResampler.flush, carried, hold_eq positive some limit.toNat s tracks (by omega)]
  simp [done]

end Call

/-- One channel of interleaved samples. -/
def channel (samples : List ℚ) (ch index : ℕ) : List ℚ :=
  (List.range (samples.length / ch)).map fun f => samples.getD (f * ch + index) 0

/-- The channel that is taken for the right one. -/
def rightIndex (ch : ℕ) : ℕ := if ch = 1 then 0 else 1

theorem toStereo_eq (samples : List ℚ) (ch : ℕ) : toStereo samples ch (samples.length / ch) =
    (channel samples ch 0, channel samples ch (rightIndex ch)) := by
  match ch with
  | 0 => simp [toStereo, channel, rightIndex]
  | 1 => simp [toStereo, channel, rightIndex]
  | 2 => simp [toStereo, channel, rightIndex]
  | ch + 3 => simp [toStereo, channel, rightIndex]

@[simp] theorem length_channel (samples : List ℚ) (ch index : ℕ) :
    (channel samples ch index).length = samples.length / ch := by
  simp [channel]

/-- A chunk of whole frames, at least one. -/
structure Whole (ch : ℕ) (samples : List ℚ) : Prop where
  some : samples ≠ []
  frames : ch ∣ samples.length

theorem Whole.frames_pos (channels : 0 < ch) (whole : Whole ch samples) : 0 < samples.length / ch :=
  Nat.div_pos (Nat.le_of_dvd (length_pos_iff.mpr whole.some) whole.frames) channels

theorem channel_append {index : ℕ} (channels : 0 < ch) (inside : index < ch)
    (whole : ch ∣ samples.length) (rest : List ℚ) :
    channel (samples ++ rest) ch index = channel samples ch index ++ channel rest ch index := by
  obtain ⟨frames, length⟩ := whole
  have count : (samples ++ rest).length / ch = frames + rest.length / ch := by
    rw [length_append, length, Nat.mul_add_div channels]
  have first : samples.length / ch = frames := by
    rw [length, Nat.mul_div_cancel_left _ channels]
  simp only [channel, count, first, range_add, map_append, map_map]
  congr 1
  · refine map_congr_left fun f early => ?_
    have before : f + 1 ≤ frames := mem_range.mp early
    have bound : (f + 1) * ch ≤ samples.length := by
      rw [length, Nat.mul_comm ch]
      exact Nat.mul_le_mul_right ch before
    rw [getD_append _ _ _ _ (by linarith)]
  · refine map_congr_left fun f _ => ?_
    have here : (frames + f) * ch + index = samples.length + (f * ch + index) := by
      rw [length]
      ring
    simp only [Function.comp_apply]
    rw [here, getD_append_right _ _ _ _ (Nat.le_add_right _ _), Nat.add_sub_cancel_left]

theorem rightIndex_lt (channels : 0 < ch) : rightIndex ch < ch := by
  unfold rightIndex
  split_ifs <;> omega

theorem Whole.flatten {chunks : List (List ℚ)} (some : chunks ≠ [])
    (whole : ∀ samples ∈ chunks, Whole ch samples) : Whole ch chunks.flatten := by
  obtain ⟨samples, rest, rfl⟩ := exists_cons_of_ne_nil some
  refine ⟨by simp [(whole samples mem_cons_self).some], ?_⟩
  rw [length_flatten]
  refine dvd_sum fun length listed => ?_
  obtain ⟨chunk, chunked, rfl⟩ := mem_map.mp listed
  exact (whole chunk chunked).frames

theorem interleave_append {right moreL moreR : List ℚ} (same : left.length = right.length) :
    interleave (left ++ moreL) (right ++ moreR) = interleave left right ++ interleave moreL moreR := by
  rw [interleave, zip_append same, flatMap_append]
  rfl

theorem length_interleave {right : List ℚ} (same : left.length = right.length) :
    (interleave left right).length = 2 * left.length := by
  simp [interleave, same, mul_comm]

theorem interleave_channel (samples : List ℚ) (ch one other : ℕ) :
    interleave (channel samples ch one) (channel samples ch other) =
      (List.range (samples.length / ch)).flatMap fun f =>
        [samples.getD (f * ch + one) 0, samples.getD (f * ch + other) 0] := by
  rw [interleave, channel, channel, zip_map', flatMap_map]

/-- At the ratio one the frames of the output are those of the source. -/
theorem stretch_one (samples : List ℚ) (ch one other : ℕ) :
    stretch (channel samples ch one) (channel samples ch other) 1 0 (samples.length / ch) =
      interleave (channel samples ch one) (channel samples ch other) := by
  have on : ∀ index, ∀ k < samples.length / ch,
      held (channel samples ch index) (k * 1) = samples.getD (k * ch + index) 0 := by
    intro index k inside
    have value : held ([] ++ channel samples ch index ++ []) (([] : List ℚ).length + k) =
        (channel samples ch index).getD k 0 := held_on (by rwa [length_channel])
    rw [nil_append, append_nil, length_nil, Nat.cast_zero, zero_add] at value
    rw [mul_one, value, channel, getD_eq_getElem _ _ (by simpa using inside)]
    simp
  rw [stretch, Nat.sub_zero, ← range_eq_range', interleave_channel]
  refine flatMap_congr fun k listed => ?_
  have inside := mem_range.mp listed
  rw [on one k inside, on other k inside]

/-- The place of a frame in the output. -/
theorem getD_stretch (left right : List ℚ) (ratio : ℚ) : ∀ (place first : ℕ), first + place < m →
    (stretch left right ratio first m).getD (2 * place) 0 = held left ((first + place : ℕ) * ratio) ∧
      (stretch left right ratio first m).getD (2 * place + 1) 0 =
        held right ((first + place : ℕ) * ratio) := by
  intro place
  induction place with
  | zero =>
    intro first inside
    rw [Nat.add_zero] at inside ⊢
    rw [stretch_cons _ _ _ inside]
    exact ⟨rfl, rfl⟩
  | succ place ih =>
    intro first inside
    rw [stretch_cons _ _ _ (by omega), Nat.mul_succ, getD_cons_succ, getD_cons_succ,
      getD_cons_succ, getD_cons_succ, ← Nat.add_assoc, Nat.add_right_comm first]
    exact ih (first + 1) (by omega)

section Stream

variable {ch : ℕ} (channels : 0 < ch)

include channels

theorem process_eq {s : StereoResampler} (whole : Whole ch samples) (limit : ℤ) :
    s.process samples ch limit =
      s.resample (channel samples ch 0) (channel samples ch (rightIndex ch)) limit := by
  have some := whole.frames_pos channels
  simp only [StereoResampler.process, toStereo_eq]
  rw [if_neg (by omega)]

/-- Every way of cutting the rest of the source yields the rest of the output. -/
theorem run_eq (positive : 0 < ratio) : ∀ (chunks : List (List ℚ)) {s : StereoResampler}
    {seenL seenR : List ℚ} {k : ℕ} (limit : ℤ), Tracks ratio seenL seenR k s →
      (∀ samples ∈ chunks, Whole ch samples) →
      seenL ++ channel chunks.flatten ch 0 ≠ [] →
      ((⌈((seenL ++ channel chunks.flatten ch 0).length : ℚ) / ratio⌉₊ - k : ℕ) : ℤ) ≤ limit →
      s.run ch limit chunks = .ok (stretch (seenL ++ channel chunks.flatten ch 0)
        (seenR ++ channel chunks.flatten ch (rightIndex ch)) ratio k
        ⌈((seenL ++ channel chunks.flatten ch 0).length : ℚ) / ratio⌉₊) := by
  intro chunks
  induction chunks with
  | nil =>
    intro s seenL seenR k limit tracks _ some room
    have none : ∀ index, channel [] ch index = [] := fun index => by simp [channel]
    simp only [flatten_nil, none, append_nil] at some room ⊢
    exact flush_eq positive tracks some room
  | cons samples rest ih =>
    intro s seenL seenR k limit tracks whole some room
    obtain ⟨here, whole⟩ := forall_mem_cons.mp whole
    have frames := here.frames_pos channels
    have left : channel samples ch 0 ≠ [] := by
      rw [← length_pos_iff, length_channel]
      exact frames
    have cut : ∀ index < ch, channel (samples :: rest).flatten ch index =
        channel samples ch index ++ channel rest.flatten ch index := fun index inside =>
      channel_append channels inside here.frames _
    rw [cut 0 channels, ← append_assoc] at some room ⊢
    rw [cut _ (rightIndex_lt channels), ← append_assoc]
    have later : k ≤ ⌈((seenL.length + (channel samples ch 0).length : ℕ) : ℚ) / ratio⌉₊ := by
      refine tracks.due.trans (Nat.ceil_le_ceil ?_)
      gcongr
      omega
    obtain ⟨le, -, ready, -⟩ := reached_spec positive (by rw [length_channel]; omega) later
    have ready' : reached ratio (seenL.length + (channel samples ch 0).length) k ≤
        ⌈((seenL ++ channel samples ch 0 ++ channel rest.flatten ch 0).length : ℚ) / ratio⌉₊ := by
      refine ready.trans (Nat.ceil_le_ceil ?_)
      gcongr
      simp only [length_append]
      omega
    have same : (channel samples ch 0).length = (channel samples ch (rightIndex ch)).length := by simp
    have now : ((reached ratio (seenL.length + (channel samples ch 0).length) k - k : ℕ) : ℤ) ≤
        limit := by omega
    obtain ⟨s', made, tracks'⟩ := resample_eq (channel rest.flatten ch 0)
      (channel rest.flatten ch (rightIndex ch)) positive tracks left same now
    have more := ih (limit -
      (reached ratio (seenL.length + (channel samples ch 0).length) k - k : ℕ)) tracks' whole some
      (by omega)
    rw [StereoResampler.run, process_eq channels here, made]
    simp only
    rw [length_stretch, Nat.mul_div_cancel_left _ two_pos, more]
    simp only
    rw [stretch_append _ _ _ le ready']

/-- At the rate of the output every chunk is handed on. -/
theorem run_same : ∀ (chunks : List (List ℚ)) {s : StereoResampler} (limit : ℤ),
    s.srcRate = s.dstRate → s.havePrev = false → (∀ samples ∈ chunks, Whole ch samples) →
      ((chunks.flatten.length / ch : ℕ) : ℤ) ≤ limit →
      s.run ch limit chunks = .ok (interleave (channel chunks.flatten ch 0)
        (channel chunks.flatten ch (rightIndex ch))) := by
  intro chunks
  induction chunks with
  | nil =>
    intro s limit _ fresh _ _
    simp [StereoResampler.run, StereoResampler.flush, fresh, channel, interleave]
  | cons samples rest ih =>
    intro s limit equal fresh whole room
    obtain ⟨here, whole⟩ := forall_mem_cons.mp whole
    have cut : ∀ index < ch, channel (samples :: rest).flatten ch index =
        channel samples ch index ++ channel rest.flatten ch index := fun index inside =>
      channel_append channels inside here.frames _
    rw [← length_channel _ ch 0, cut 0 channels, length_append] at room
    have same : (channel samples ch 0).length = (channel samples ch (rightIndex ch)).length := by simp
    have fits : ¬((channel samples ch 0).length : ℤ) > limit := by omega
    rw [StereoResampler.run, process_eq channels here, StereoResampler.resample, if_pos equal,
      if_neg fits]
    simp only
    rw [length_interleave same, Nat.mul_div_cancel_left _ two_pos,
      ih _ equal fresh whole (by rw [← length_channel _ ch 0]; omega)]
    simp only
    rw [cut 0 channels, cut _ (rightIndex_lt channels), interleave_append same]

/-- A new resampler makes of the chunks the output of the whole source. -/
theorem run_new (srcRate : ℤ) (chunks : List (List ℚ)) (limit : ℤ) (some : chunks ≠ [])
    (whole : ∀ samples ∈ chunks, Whole ch samples)
    (room : (outputFrames srcRate (chunks.flatten.length / ch) : ℤ) ≤ limit) :
    (newStereoResampler srcRate).run ch limit chunks =
      .ok (stretch (channel chunks.flatten ch 0) (channel chunks.flatten ch (rightIndex ch))
        (sourceRate srcRate / targetRate) 0 (outputFrames srcRate (chunks.flatten.length / ch))) := by
  have target : (0 : ℚ) < targetRate := by norm_num [targetRate]
  have rate : (0 : ℚ) < sourceRate srcRate := by
    have : 0 < sourceRate srcRate := by
      unfold sourceRate targetRate
      split_ifs <;> omega
    exact_mod_cast this
  by_cases equal : sourceRate srcRate = targetRate
  · have count : outputFrames srcRate (chunks.flatten.length / ch) = chunks.flatten.length / ch := by
      rw [outputFrames, equal, mul_div_assoc, div_self target.ne', mul_one, Nat.ceil_natCast]
    rw [count] at room ⊢
    rw [run_same channels chunks limit equal rfl whole room, equal, div_self target.ne', stretch_one]
  · have frames := (Whole.flatten some whole).frames_pos channels
    have fresh : Tracks (sourceRate srcRate / targetRate) [] [] 0 (newStereoResampler srcRate) := by
      refine ⟨⟨rfl, ?_, fun _ => ⟨le_rfl, rfl⟩, fun absent => absurd rfl absent⟩, rfl, equal, ?_,
        Nat.zero_le _⟩
      · norm_num [newStereoResampler]
      · simp [newStereoResampler]
    have count : ⌈((channel chunks.flatten ch 0).length : ℚ) / (sourceRate srcRate / targetRate)⌉₊ =
        outputFrames srcRate (chunks.flatten.length / ch) := by
      rw [length_channel, outputFrames, div_div_eq_mul_div]
    have made := run_eq channels (div_pos rate target) chunks limit fresh whole
    rw [nil_append, nil_append, count, Nat.sub_zero] at made
    refine made ?_ room
    rw [← length_pos_iff, length_channel]
    exact frames

end Stream

/-- However the source is cut into chunks, the output is that of one call: as many frames
as the rates ask for, each the value of the source at its position. -/
theorem chunking (srcRate : ℤ) (ch : ℕ) (limit : ℤ) (chunks : List (List ℚ)) (channels : 0 < ch)
    (some : chunks ≠ []) (whole : ∀ samples ∈ chunks, Whole ch samples)
    (room : (outputFrames srcRate (chunks.flatten.length / ch) : ℤ) ≤ limit) :
    ∃ out, (newStereoResampler srcRate).run ch limit chunks = .ok out ∧
      (newStereoResampler srcRate).run ch limit [chunks.flatten] = .ok out ∧
      out.length = 2 * outputFrames srcRate (chunks.flatten.length / ch) ∧
      ∀ k < outputFrames srcRate (chunks.flatten.length / ch),
        out.getD (2 * k) 0 =
          held (channel chunks.flatten ch 0) (k * (sourceRate srcRate / targetRate)) ∧
        out.getD (2 * k + 1) 0 =
          held (channel chunks.flatten ch (rightIndex ch))
          (k * (sourceRate srcRate / targetRate)) := by
  have once := run_new channels srcRate [chunks.flatten] limit (by simp)
    (by simpa using Whole.flatten some whole) (by simpa using room)
  rw [List.flatten_singleton] at once
  refine ⟨_, run_new channels srcRate chunks limit some whole room, once, ?_, fun k inside => ?_⟩
  · rw [length_stretch, Nat.sub_zero]
  · have place := getD_stretch (channel chunks.flatten ch 0) (channel chunks.flatten ch (rightIndex ch))
      (sourceRate srcRate / targetRate) k 0 (by rwa [Nat.zero_add])
    rwa [Nat.zero_add] at place

theorem chunking_halves : ∃ out, (newStereoResampler 24000).run 1 4 [[1], [3]] = .ok out ∧
    (newStereoResampler 24000).run 1 4 [[1, 3]] = .ok out ∧ out.length = 8 := by
  have whole : ∀ samples ∈ ([[1], [3]] : List (List ℚ)), Whole 1 samples := by
    simp only [List.forall_mem_cons]
    exact ⟨⟨by simp, one_dvd _⟩, ⟨by simp, one_dvd _⟩, by simp⟩
  have count : outputFrames 24000 (([[1], [3]] : List (List ℚ)).flatten.length / 1) = 4 := by
    norm_num [outputFrames, sourceRate, targetRate]
  obtain ⟨out, chunked, once, length, -⟩ :=
    chunking 24000 1 4 [[1], [3]] (by decide) (by simp) whole (by rw [count]; rfl)
  rw [count] at length
  exact ⟨out, chunked, once, length⟩

end Golusoris.Audio
