import Mathlib.Data.List.GetD
import Mathlib.Data.List.Induction
import Mathlib.Data.Set.Image
import Mathlib.Order.Bounds.Image
import Mathlib.Tactic.Order

/-!
# Waveform peaks

Source: `media/audio/peaks.go`. Samples are those of a linear order, with the zero of an
empty bucket and the two ends of the unit interval. The accumulator that knows the
number of frames computes the peaks of every bucket.
-/

namespace Golusoris.Audio

open List

/-- What the source uses of its samples beside their order. -/
structure Scale (α : Type) [LinearOrder α] where
  zero : α
  low : α
  high : α
  ordered : low ≤ high

variable {α : Type} [LinearOrder α] (scale : Scale α)

def Scale.clampUnit (v : α) : α :=
  if v > scale.high then scale.high else if v < scale.low then scale.low else v

/-- The peaks of the buckets; the other fields are not used here. -/
structure PeakSet (α : Type) where
  min : List α
  max : List α
  deriving DecidableEq

def peakBucketIndex (frameIdx buckets totalFrames : ℕ) : ℕ :=
  if frameIdx = 0 ∨ buckets < 1 ∨ totalFrames < 1 then 0
  else if frameIdx ≥ totalFrames then buckets - 1
  else
    -- The product has 128 bits in the source.
    let index := frameIdx * buckets / totalFrames
    if index ≥ buckets then buckets - 1 else index

structure PeakAccumulator (α : Type) where
  buckets : ℕ
  totalFrames : ℕ
  curBucket : ℕ
  seen : Bool
  curMin : α
  curMax : α
  min : List α
  max : List α

def newPeakAccumulator (buckets totalFrames : ℕ) : PeakAccumulator α where
  buckets := buckets
  totalFrames := if totalFrames < 1 then 1 else totalFrames
  curBucket := 0
  seen := false
  curMin := scale.zero
  curMax := scale.zero
  min := List.replicate buckets scale.zero
  max := List.replicate buckets scale.zero

/-- The builtin `copy`. -/
def copyInto (target source : List α) : List α := source.take target.length ++ target.drop source.length

namespace PeakAccumulator

def flush (p : PeakAccumulator α) : PeakAccumulator α :=
  if !p.seen then p
  else { p with
    min := p.min.set p.curBucket (scale.clampUnit p.curMin)
    max := p.max.set p.curBucket (scale.clampUnit p.curMax) }

def add (p : PeakAccumulator α) (frameIdx : ℕ) (mono : α) : PeakAccumulator α :=
  let b := peakBucketIndex frameIdx p.buckets p.totalFrames
  let p := if b ≠ p.curBucket then { p.flush scale with curBucket := b, seen := false } else p
  if !p.seen then { p with curMin := mono, curMax := mono, seen := true }
  else { p with
    curMin := if mono < p.curMin then mono else p.curMin
    curMax := if mono > p.curMax then mono else p.curMax }

def finish (p : PeakAccumulator α) (ps : PeakSet α) : PeakSet α :=
  let p := p.flush scale
  ⟨copyInto ps.min p.min, copyInto ps.max p.max⟩

end PeakAccumulator

structure PeakSummary (α : Type) where
  frames : ℕ
  min : α
  max : α
  deriving DecidableEq

structure StreamingPeakAccumulator (α : Type) where
  buckets : ℕ
  maxBins : ℕ
  binFrames : ℕ
  totalFrames : ℕ
  current : PeakSummary α
  bins : List (PeakSummary α)

def newStreamingPeakAccumulator (buckets : ℕ) : StreamingPeakAccumulator α :=
  let buckets := if buckets < 1 then 1 else buckets
  { buckets := buckets
    maxBins := buckets * 2
    binFrames := 1
    totalFrames := 0
    current := ⟨0, scale.zero, scale.zero⟩
    bins := [] }

def maxInt64 : ℕ := 9223372036854775807

/-- Neighbours merged in pairs. -/
def pairs : List (PeakSummary α) → List (PeakSummary α)
  | left :: right :: rest =>
      ⟨left.frames + right.frames, min left.min right.min, max left.max right.max⟩ :: pairs rest
  | _ => []

namespace StreamingPeakAccumulator

def compact (p : StreamingPeakAccumulator α) : StreamingPeakAccumulator α :=
  { p with
    bins := pairs p.bins
    binFrames := if p.binFrames ≤ maxInt64 / 2 then p.binFrames * 2 else maxInt64 }

def appendCurrent (p : StreamingPeakAccumulator α) : StreamingPeakAccumulator α :=
  if p.current.frames = 0 then p
  else
    let p := { p with bins := p.bins ++ [p.current], current := ⟨0, scale.zero, scale.zero⟩ }
    if p.bins.length = p.maxBins then p.compact else p

def add (p : StreamingPeakAccumulator α) (_ : ℕ) (mono : α) : StreamingPeakAccumulator α :=
  let current : PeakSummary α :=
    if p.current.frames = 0 then ⟨p.current.frames + 1, mono, mono⟩
    else ⟨p.current.frames + 1, min p.current.min mono, max p.current.max mono⟩
  let p := { p with current := current, totalFrames := p.totalFrames + 1 }
  if p.current.frames = p.binFrames then p.appendCurrent scale else p

end StreamingPeakAccumulator

/-- A peak set that is written, with the buckets that have been seen. -/
structure Merging (α : Type) where
  ps : PeakSet α
  seen : List Bool

def mergePeakSummary (summary : PeakSummary α) (m : Merging α) (bucket : ℕ) : Merging α :=
  let minimum := scale.clampUnit summary.min
  let maximum := scale.clampUnit summary.max
  if !m.seen.getD bucket false then
    ⟨⟨m.ps.min.set bucket minimum, m.ps.max.set bucket maximum⟩, m.seen.set bucket true⟩
  else
    ⟨⟨m.ps.min.set bucket (min (m.ps.min.getD bucket scale.zero) minimum),
      m.ps.max.set bucket (max (m.ps.max.getD bucket scale.zero) maximum)⟩, m.seen⟩

/-- The loop of `finish` over the summaries. -/
def spread (buckets totalFrames : ℕ) : ℕ → List (PeakSummary α) → Merging α → Merging α
  | _, [], m => m
  | firstFrame, summary :: rest, m =>
      let lastFrame := firstFrame + summary.frames - 1
      let firstBucket := peakBucketIndex firstFrame buckets totalFrames
      let lastBucket := peakBucketIndex lastFrame buckets totalFrames
      spread buckets totalFrames (firstFrame + summary.frames) rest
        ((List.range' firstBucket (lastBucket + 1 - firstBucket)).foldl (mergePeakSummary scale summary) m)

def StreamingPeakAccumulator.finish (p : StreamingPeakAccumulator α) (ps : PeakSet α) : PeakSet α :=
  let p := p.appendCurrent scale
  if p.totalFrames = 0 then ps
  else (spread scale p.buckets p.totalFrames 0 p.bins ⟨ps, List.replicate p.buckets false⟩).ps

/-- The peak set that `waveform` makes. -/
def newPeakSet (buckets : ℕ) : PeakSet α :=
  ⟨List.replicate buckets scale.zero, List.replicate buckets scale.zero⟩

/-- The frames of a stream in turn, for the accumulator that knows their number. -/
def known (buckets totalFrames : ℕ) (samples : List α) : PeakAccumulator α :=
  samples.zipIdx.foldl (fun p (mono, frameIdx) => p.add scale frameIdx mono)
    (newPeakAccumulator scale buckets totalFrames)

def streamed (buckets : ℕ) (samples : List α) : StreamingPeakAccumulator α :=
  samples.zipIdx.foldl (fun p (mono, frameIdx) => p.add scale frameIdx mono)
    (newStreamingPeakAccumulator scale buckets)

def knownPeaks (buckets : ℕ) (samples : List α) : PeakSet α :=
  (known scale buckets samples.length samples).finish scale (newPeakSet scale buckets)

def streamedPeaks (buckets : ℕ) (samples : List α) : PeakSet α :=
  (streamed scale buckets samples).finish scale (newPeakSet scale buckets)

section Buckets

variable {first last bucket buckets totalFrames : ℕ}

theorem peakBucketIndex_eq (inside : first < totalFrames) (some : 0 < buckets) :
    peakBucketIndex first buckets totalFrames = first * buckets / totalFrames := by
  have below : first * buckets / totalFrames < buckets := by
    rw [Nat.div_lt_iff_lt_mul (by omega), Nat.mul_comm]
    exact Nat.mul_lt_mul_of_pos_left inside some
  rw [peakBucketIndex, if_neg (Nat.not_le.mpr inside)]
  split_ifs with early
  · obtain rfl | none | none := early
    · simp
    · omega
    · omega
  · exact if_neg (Nat.not_le.mpr below)

theorem peakBucketIndex_lt (inside : first < totalFrames) (some : 0 < buckets) :
    peakBucketIndex first buckets totalFrames < buckets := by
  rw [peakBucketIndex_eq inside some, Nat.div_lt_iff_lt_mul (by omega), Nat.mul_comm]
  exact Nat.mul_lt_mul_of_pos_left inside some

theorem peakBucketIndex_mono (le : first ≤ last) (inside : last < totalFrames) (some : 0 < buckets) :
    peakBucketIndex first buckets totalFrames ≤ peakBucketIndex last buckets totalFrames := by
  rw [peakBucketIndex_eq (by omega) some, peakBucketIndex_eq inside some]
  exact Nat.div_le_div_right (Nat.mul_le_mul_right _ le)

/-- With no more buckets than frames no bucket is skipped. -/
theorem exists_frame (le : first ≤ last) (inside : last < totalFrames) (some : 0 < buckets)
    (enough : buckets ≤ totalFrames)
    (lower : peakBucketIndex first buckets totalFrames ≤ bucket)
    (upper : bucket ≤ peakBucketIndex last buckets totalFrames) :
    ∃ frame, first ≤ frame ∧ frame ≤ last ∧ peakBucketIndex frame buckets totalFrames = bucket := by
  induction le with
  | refl => exact ⟨first, le_rfl, le_rfl, le_antisymm lower upper⟩
  | @step last le ih =>
    have le : first ≤ last := le
    have inside : last + 1 < totalFrames := inside
    obtain reached | beyond := le_or_gt bucket (peakBucketIndex last buckets totalFrames)
    · obtain ⟨frame, low, high, own⟩ := ih (by omega) reached
      exact ⟨frame, low, by omega, own⟩
    · refine ⟨last + 1, by omega, le_rfl, le_antisymm ?_ upper⟩
      rw [peakBucketIndex_eq inside some]
      rw [peakBucketIndex_eq (by omega) some] at beyond
      have step : (last + 1) * buckets ≤ last * buckets + totalFrames := by
        rw [Nat.succ_mul]
        omega
      have next := Nat.div_le_div_right (c := totalFrames) step
      rw [Nat.add_div_right _ (by omega)] at next
      omega

end Buckets

variable {scale}

theorem Scale.clampUnit_mono : Monotone scale.clampUnit := by
  intro v w le
  have ordered := scale.ordered
  unfold Scale.clampUnit
  split_ifs <;> order

/-- What a bucket shows of the samples it has: their clamped extremes, zero if there are none. -/
structure Shows (scale : Scale α) (values : Set α) (lowest highest : α) : Prop where
  none : values = ∅ → lowest = scale.zero ∧ highest = scale.zero
  least : values.Nonempty → IsLeast (scale.clampUnit '' values) lowest
  greatest : values.Nonempty → IsGreatest (scale.clampUnit '' values) highest

section Shows

variable {values : Set α} {lowest highest : α}

theorem shows_empty : Shows scale ∅ scale.zero scale.zero :=
  ⟨fun _ => ⟨rfl, rfl⟩, fun some => absurd rfl some.ne_empty, fun some => absurd rfl some.ne_empty⟩

theorem shows_clamped (least : IsLeast values lowest) (greatest : IsGreatest values highest) :
    Shows scale values (scale.clampUnit lowest) (scale.clampUnit highest) :=
  ⟨fun empty => absurd empty least.nonempty.ne_empty,
    fun _ => Scale.clampUnit_mono.map_isLeast least,
    fun _ => Scale.clampUnit_mono.map_isGreatest greatest⟩

theorem Shows.unique {lowest' highest' : α} (shows : Shows scale values lowest highest)
    (shows' : Shows scale values lowest' highest') : lowest = lowest' ∧ highest = highest' := by
  obtain rfl | some := values.eq_empty_or_nonempty
  · obtain ⟨rfl, rfl⟩ := shows.none rfl
    obtain ⟨rfl, rfl⟩ := shows'.none rfl
    exact ⟨rfl, rfl⟩
  · exact ⟨(shows.least some).unique (shows'.least some),
      (shows.greatest some).unique (shows'.greatest some)⟩

end Shows

/-- The samples of the first frames that are assigned to a bucket. -/
def assigned {Sample : Type} (buckets totalFrames : ℕ) (samples : List Sample) (bucket : ℕ) :
    Set Sample :=
  {v | ∃ frame, samples[frame]? = some v ∧ peakBucketIndex frame buckets totalFrames = bucket}

section Assigned

variable {Sample : Type} {buckets totalFrames : ℕ}

theorem assigned_append (samples : List Sample) (mono : Sample) (bucket : ℕ) :
    assigned buckets totalFrames (samples ++ [mono]) bucket = assigned buckets totalFrames samples bucket ∪
      {v | v = mono ∧ peakBucketIndex samples.length buckets totalFrames = bucket} := by
  ext v
  constructor
  · rintro ⟨frame, found, own⟩
    obtain early | late := lt_or_ge frame samples.length
    · rw [List.getElem?_append_left early] at found
      exact .inl ⟨frame, found, own⟩
    · have inside := (List.getElem?_eq_some_iff.mp found).1
      rw [length_append, length_singleton] at inside
      obtain rfl : frame = samples.length := by omega
      rw [List.getElem?_concat_length, Option.some.injEq] at found
      exact .inr ⟨found.symm, own⟩
  · rintro (⟨frame, found, own⟩ | ⟨rfl, own⟩)
    · have inside := (List.getElem?_eq_some_iff.mp found).1
      exact ⟨frame, by rw [List.getElem?_append_left inside, found], own⟩
    · exact ⟨samples.length, List.getElem?_concat_length, own⟩

theorem assigned_append_of_ne {samples : List Sample} {mono : Sample} {bucket : ℕ}
    (other : bucket ≠ peakBucketIndex samples.length buckets totalFrames) :
    assigned buckets totalFrames (samples ++ [mono]) bucket = assigned buckets totalFrames samples bucket := by
  rw [assigned_append, Set.union_eq_left]
  exact fun v ⟨_, own⟩ => absurd own.symm other

theorem assigned_append_self {samples : List Sample} {mono : Sample} :
    assigned buckets totalFrames (samples ++ [mono])
    (peakBucketIndex samples.length buckets totalFrames) =
      insert mono (assigned buckets totalFrames samples
        (peakBucketIndex samples.length buckets totalFrames)) := by
  rw [assigned_append, Set.union_comm, Set.insert_eq]
  congr 1
  ext v
  exact ⟨fun ⟨same, _⟩ => same, fun same => ⟨same, rfl⟩⟩

theorem assigned_nil (bucket : ℕ) : assigned buckets totalFrames ([] : List Sample) bucket = ∅ := by
  ext v
  simp [assigned]

end Assigned

theorem getD_set {Value : Type} {values : List Value} {place other : ℕ} {v zero : Value}
    (inside : place < values.length) :
    (values.set place v).getD other zero = if other = place then v else values.getD other zero := by
  rw [getD_eq_getElem?_getD, List.getElem?_set, getD_eq_getElem?_getD]
  split_ifs with same same' other
  · rfl
  · exact absurd same.symm same'
  · exact absurd other.symm same
  · rfl

/-- The state after some frames: the buckets that were left are written, the one at hand is
not. -/
structure Known (scale : Scale α) (buckets totalFrames : ℕ) (samples : List α)
    (p : PeakAccumulator α) : Prop where
  own : p.buckets = buckets ∧ p.totalFrames = totalFrames
  lengths : p.min.length = buckets ∧ p.max.length = buckets
  inside : p.curBucket < buckets
  last : ∀ frame < samples.length, peakBucketIndex frame buckets totalFrames ≤ p.curBucket
  next : ∀ frame, samples.length ≤ frame → frame < totalFrames →
    p.curBucket ≤ peakBucketIndex frame buckets totalFrames
  written : ∀ bucket < buckets, bucket ≠ p.curBucket →
    Shows scale (assigned buckets totalFrames samples bucket) (p.min.getD bucket scale.zero)
      (p.max.getD bucket scale.zero)
  fresh : p.seen = false → samples = [] ∧ p.min.getD p.curBucket scale.zero = scale.zero ∧
    p.max.getD p.curBucket scale.zero = scale.zero
  running : p.seen = true → IsLeast (assigned buckets totalFrames samples p.curBucket) p.curMin ∧
    IsGreatest (assigned buckets totalFrames samples p.curBucket) p.curMax

theorem ite_lt_eq_min (v w : α) : (if v < w then v else w) = min v w := by
  rw [min_def]
  split_ifs <;> order

theorem ite_gt_eq_max (v w : α) : (if v > w then v else w) = max v w := by
  rw [max_def]
  split_ifs <;> order

section Known

variable {buckets totalFrames : ℕ} {samples : List α} {p : PeakAccumulator α}

/-- The buckets that hold no frame yet. -/
theorem Known.assigned_empty (known : Known scale buckets totalFrames samples p) {bucket : ℕ}
    (later : p.curBucket < bucket) : assigned buckets totalFrames samples bucket = ∅ := by
  refine Set.eq_empty_of_forall_notMem ?_
  rintro v ⟨frame, found, own⟩
  have := known.last frame (List.getElem?_eq_some_iff.mp found).1
  omega

theorem known_new (scale : Scale α) (some : 0 < buckets) (frames : 0 < totalFrames) :
    Known scale buckets totalFrames [] (newPeakAccumulator scale buckets totalFrames) where
  own := ⟨rfl, if_neg (by omega)⟩
  lengths := by simp [newPeakAccumulator]
  inside := some
  last := by simp
  next _ _ _ := Nat.zero_le _
  written bucket inside _ := by
    rw [assigned_nil]
    simp only [newPeakAccumulator, getD_replicate _ inside]
    exact shows_empty
  fresh _ := by
    simp only [newPeakAccumulator, getD_replicate _ some]
    exact ⟨trivial, trivial, trivial⟩
  running seen := by cases seen

/-- With the bucket at hand all buckets are written. -/
theorem Known.flush (known : Known scale buckets totalFrames samples p) :
    (p.flush scale).min.length = buckets ∧ (p.flush scale).max.length = buckets ∧
      ∀ bucket < buckets, Shows scale (assigned buckets totalFrames samples bucket)
        ((p.flush scale).min.getD bucket scale.zero) ((p.flush scale).max.getD bucket scale.zero) := by
  have low : p.curBucket < p.min.length := known.lengths.1.symm ▸ known.inside
  have high : p.curBucket < p.max.length := known.lengths.2.symm ▸ known.inside
  cases seen : p.seen with
  | false =>
    obtain ⟨rfl, zeroMin, zeroMax⟩ := known.fresh seen
    simp only [PeakAccumulator.flush, seen, Bool.not_false, if_true]
    refine ⟨known.lengths.1, known.lengths.2, fun bucket inside => ?_⟩
    by_cases here : bucket = p.curBucket
    · rw [here, zeroMin, zeroMax, assigned_nil]
      exact shows_empty
    · exact known.written bucket inside here
  | true =>
    obtain ⟨least, greatest⟩ := known.running seen
    simp only [PeakAccumulator.flush, seen, Bool.not_true, Bool.false_eq_true, if_false, length_set]
    refine ⟨known.lengths.1, known.lengths.2, fun bucket inside => ?_⟩
    rw [getD_set low, getD_set high]
    split_ifs with here
    · rw [here]
      exact shows_clamped least greatest
    · exact known.written bucket inside here

/-- A frame that opens a bucket. -/
theorem known_opens (some : 0 < buckets) (inside : samples.length < totalFrames)
    {q : PeakAccumulator α} (mono : α)
    (own : q.buckets = buckets ∧ q.totalFrames = totalFrames)
    (lengths : q.min.length = buckets ∧ q.max.length = buckets)
    (bucket : q.curBucket = peakBucketIndex samples.length buckets totalFrames)
    (empty : assigned buckets totalFrames samples q.curBucket = ∅)
    (written : ∀ bucket < buckets, bucket ≠ q.curBucket →
      Shows scale (assigned buckets totalFrames samples bucket) (q.min.getD bucket scale.zero)
        (q.max.getD bucket scale.zero))
    (runs : q.seen = true ∧ q.curMin = mono ∧ q.curMax = mono) :
    Known scale buckets totalFrames (samples ++ [mono]) q where
  own := own
  lengths := lengths
  inside := bucket ▸ peakBucketIndex_lt inside some
  last frame early := by
    rw [length_append, length_singleton] at early
    rw [bucket]
    exact peakBucketIndex_mono (by omega) inside some
  next frame late below := by
    rw [length_append, length_singleton] at late
    rw [bucket]
    exact peakBucketIndex_mono (by omega) below some
  written other bound apart := by
    rw [assigned_append_of_ne (bucket ▸ apart)]
    exact written other bound apart
  fresh unseen := by rw [runs.1] at unseen; cases unseen
  running _ := by
    obtain ⟨-, rfl, same⟩ := runs
    rw [same, bucket, assigned_append_self, ← bucket, empty]
    exact ⟨by simp, by simp⟩

/-- A frame keeps the state. -/
theorem Known.add (known : Known scale buckets totalFrames samples p) (some : 0 < buckets)
    (inside : samples.length < totalFrames) (mono : α) :
    Known scale buckets totalFrames (samples ++ [mono]) (p.add scale samples.length mono) := by
  obtain ⟨own, ownFrames⟩ := known.own
  have le := known.next _ le_rfl inside
  unfold PeakAccumulator.add
  rw [own, ownFrames]
  by_cases same : peakBucketIndex samples.length buckets totalFrames = p.curBucket
  · simp only [ne_eq, same, not_true_eq_false, if_false]
    cases seen : p.seen with
    | false =>
      obtain ⟨rfl, -, -⟩ := known.fresh seen
      simp only [Bool.not_false, if_true]
      exact known_opens some inside mono known.own known.lengths same.symm (assigned_nil _) known.written
        ⟨rfl, rfl, rfl⟩
    | true =>
      obtain ⟨least, greatest⟩ := known.running seen
      simp only [Bool.not_true, Bool.false_eq_true, if_false]
      refine ⟨known.own, known.lengths, known.inside, ?_, ?_, ?_, by simp, fun _ => ?_⟩
      · intro frame early
        rw [length_append, length_singleton] at early
        rw [← same]
        exact peakBucketIndex_mono (by omega) inside some
      · intro frame late below
        rw [length_append, length_singleton] at late
        exact known.next frame (by omega) below
      · intro bucket bound apart
        rw [assigned_append_of_ne (same ▸ apart)]
        exact known.written bucket bound apart
      · simp only
        rw [← same] at least greatest ⊢
        rw [assigned_append_self, ite_lt_eq_min, ite_gt_eq_max]
        exact ⟨least.insert mono, greatest.insert mono⟩
  · obtain ⟨low, high, written⟩ := known.flush
    have later : p.curBucket < peakBucketIndex samples.length buckets totalFrames :=
      lt_of_le_of_ne le (Ne.symm same)
    simp only [ne_eq, same, not_false_eq_true, if_true, Bool.not_false]
    exact known_opens some inside mono (by rw [PeakAccumulator.flush]; split <;> exact known.own)
      ⟨low, high⟩ rfl (known.assigned_empty later) (fun bucket bound _ => written bucket bound)
      ⟨rfl, rfl, rfl⟩

theorem known_known (some : 0 < buckets) (inside : samples.length ≤ totalFrames)
    (frames : 0 < totalFrames) :
    Known scale buckets totalFrames samples (known scale buckets totalFrames samples) := by
  induction samples using reverseRecOn with
  | nil => exact known_new scale some frames
  | append_singleton samples mono ih =>
    rw [length_append, length_singleton] at inside
    have before := (ih (by omega)).add some (by omega) mono
    rw [known, zipIdx_append, foldl_append, Nat.zero_add]
    exact before

theorem copyInto_eq {Sample : Type} {target source : List Sample}
    (same : target.length = source.length) :
    copyInto target source = source := by
  rw [copyInto, same, take_length, ← same, drop_length, append_nil]

/-- Every bucket shows the samples of its frames. -/
theorem knownPeaks_shows (scale : Scale α) (some : 0 < buckets) (samples : List α) :
    (knownPeaks scale buckets samples).min.length = buckets ∧
      (knownPeaks scale buckets samples).max.length = buckets ∧
      ∀ bucket < buckets, Shows scale (assigned buckets samples.length samples bucket)
        ((knownPeaks scale buckets samples).min.getD bucket scale.zero)
        ((knownPeaks scale buckets samples).max.getD bucket scale.zero) := by
  have flushed : ((known scale buckets samples.length samples).flush scale).min.length = buckets ∧
      ((known scale buckets samples.length samples).flush scale).max.length = buckets ∧
      ∀ bucket < buckets, Shows scale (assigned buckets samples.length samples bucket)
        (((known scale buckets samples.length samples).flush scale).min.getD bucket scale.zero)
        (((known scale buckets samples.length samples).flush scale).max.getD bucket scale.zero) := by
    obtain none | frames := Nat.eq_zero_or_pos samples.length
    · obtain rfl := length_eq_zero_iff.mp none
      have new := (known_new scale some one_pos).flush
      simp only [assigned_nil] at new ⊢
      exact new
    · exact (known_known some le_rfl frames).flush
  obtain ⟨low, high, written⟩ := flushed
  have lows : (knownPeaks scale buckets samples).min =
      ((known scale buckets samples.length samples).flush scale).min :=
    copyInto_eq (by rw [low, newPeakSet, length_replicate])
  have highs : (knownPeaks scale buckets samples).max =
      ((known scale buckets samples.length samples).flush scale).max :=
    copyInto_eq (by rw [high, newPeakSet, length_replicate])
  rw [lows, highs]
  exact ⟨low, high, written⟩

end Known

end Golusoris.Audio
