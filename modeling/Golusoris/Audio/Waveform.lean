import Golusoris.Audio.Peaks
import Mathlib

/-!
# Waveform peaks of a stream

The accumulator that does not know the number of frames keeps bins, each the extremes of
a stretch of frames, and merges neighbours when it has two for every bucket. What the
buckets show in the end is compared with the peaks of the frames that they have.
-/

namespace Golusoris.Audio

open List
open StreamingPeakAccumulator
open PeakSummary

variable {α : Type} [LinearOrder α] {scale : Scale α}

/-- A summary of a stretch of samples. -/
structure Summarizes (summary : PeakSummary α) (piece : List α) : Prop where
  frames : summary.frames = piece.length
  least : IsLeast {v | v ∈ piece} summary.min
  greatest : IsGreatest {v | v ∈ piece} summary.max

/-- Bins of a stream, one after the other. -/
inductive Covers : List (PeakSummary α) → List α → Prop where
  | nil : Covers [] []
  | cons {summary : PeakSummary α} {rest : List (PeakSummary α)} {piece later : List α}
      (first : Summarizes summary piece) (others : Covers rest later) :
      Covers (summary :: rest) (piece ++ later)

section Bins

variable {summary left right : PeakSummary α} {bins others : List (PeakSummary α)}
variable {piece one two samples more : List α}

theorem Summarizes.frames_pos (summarizes : Summarizes summary piece) : 0 < summary.frames := by
  rw [summarizes.frames]
  exact length_pos_of_mem summarizes.least.1

theorem summarizes_singleton (mono : α) : Summarizes ⟨1, mono, mono⟩ [mono] := by
  refine ⟨rfl, ?_, ?_⟩
  · simp [IsLeast, lowerBounds]
  · simp [IsGreatest, upperBounds]

theorem Summarizes.append (first : Summarizes left one) (second : Summarizes right two) :
    Summarizes ⟨left.frames + right.frames, min left.min right.min, max left.max right.max⟩
      (one ++ two) := by
  have union : {v | v ∈ one ++ two} = {v | v ∈ one} ∪ {v | v ∈ two} := by
    ext v
    exact mem_append
  refine ⟨?_, ?_, ?_⟩
  · rw [length_append, ← first.frames, ← second.frames]
  · rw [union]
    exact first.least.union second.least
  · rw [union]
    exact first.greatest.union second.greatest

theorem Covers.append (first : Covers bins samples) (second : Covers others more) :
    Covers (bins ++ others) (samples ++ more) := by
  induction first with
  | nil => exact second
  | cons summarizes _ ih =>
    rw [append_assoc]
    exact .cons summarizes ih

theorem Covers.snoc (first : Covers bins samples) (last : Summarizes summary piece) :
    Covers (bins ++ [summary]) (samples ++ piece) := by
  have single := Covers.cons last .nil
  rw [append_nil] at single
  exact first.append single

theorem length_pairs : ∀ bins : List (PeakSummary α), (pairs bins).length = bins.length / 2
  | [] => by simp [pairs]
  | [_] => by simp [pairs]
  | _ :: _ :: rest => by
    rw [pairs, length_cons, length_pairs rest, length_cons, length_cons]
    omega

/-- An even number of bins is merged without a loss. -/
theorem covers_pairs : ∀ {bins : List (PeakSummary α)} {samples : List α}, Covers bins samples →
    2 ∣ bins.length → Covers (pairs bins) samples
  | [], _, covers, _ => covers
  | [_], _, _, even => absurd even (by simp)
  | _ :: _ :: _, _, covers, even => by
    cases covers with
    | cons first others =>
      cases others with
      | cons second rest =>
        rw [← append_assoc]
        exact .cons (first.append second) (covers_pairs rest (by simpa using even))

theorem Covers.sum_frames (covers : Covers bins samples) :
    (bins.map frames).sum = samples.length := by
  induction covers with
  | nil => rfl
  | cons first _ ih => rw [map_cons, sum_cons, length_append, first.frames, ih]

end Bins

/-- The state after some samples: the bins, and the one at hand, cover them. -/
structure Streams (buckets : ℕ) (samples : List α) (p : StreamingPeakAccumulator α) : Prop where
  own : p.buckets = buckets ∧ p.maxBins = buckets * 2 ∧ p.totalFrames = samples.length
  few : p.bins.length < buckets * 2
  covers : ∃ before piece, samples = before ++ piece ∧ Covers p.bins before ∧
    p.current.frames = piece.length ∧ (piece ≠ [] → Summarizes p.current piece)
  single : samples.length < buckets * 2 → p.binFrames = 1 ∧ p.current.frames = 0 ∧
    p.bins.length = samples.length ∧ ∀ bin ∈ p.bins, bin.frames = 1

section Streams

variable {buckets : ℕ} {samples : List α} {p : StreamingPeakAccumulator α}

theorem streams_new (some : 0 < buckets) :
    Streams buckets [] (newStreamingPeakAccumulator scale buckets) := by
  have own : (if buckets < 1 then 1 else buckets) = buckets := if_neg (by omega)
  simp only [newStreamingPeakAccumulator, own]
  exact ⟨⟨rfl, rfl, rfl⟩, by simpa using some, ⟨[], [], rfl, .nil, rfl, fun none => absurd rfl none⟩,
    fun _ => ⟨rfl, rfl, rfl, by simp⟩⟩

/-- The bin at hand joins the others, which are merged when there are two for every bucket. -/
theorem appendCurrent_bins (scale : Scale α) (some : 0 < buckets) (bound : p.maxBins = buckets * 2)
    (few : p.bins.length < buckets * 2) {before piece : List α} (covers : Covers p.bins before)
    (frames : p.current.frames = piece.length) (summarizes : piece ≠ [] → Summarizes p.current piece) :
    Covers (p.appendCurrent scale).bins (before ++ piece) ∧
      (p.appendCurrent scale).bins.length < buckets * 2 ∧
      (p.appendCurrent scale).current.frames = 0 := by
  rw [appendCurrent]
  split_ifs with none
  · obtain rfl := length_eq_zero_iff.mp (frames.symm.trans none)
    rw [append_nil]
    exact ⟨covers, few, none⟩
  · have filled : piece ≠ [] := by
      rintro rfl
      exact none frames
    have joined := covers.snoc (summarizes filled)
    simp only [bound]
    split_ifs with full
    · simp only [compact]
      refine ⟨covers_pairs joined (by rw [full]; exact Nat.dvd_mul_left 2 buckets), ?_, trivial⟩
      rw [length_pairs, full]
      omega
    · refine ⟨joined, ?_, rfl⟩
      simp only [length_append, length_singleton] at full ⊢
      omega

/-- What joining the bin at hand leaves as it is. -/
theorem appendCurrent_keeps (scale : Scale α) (p : StreamingPeakAccumulator α) :
    (p.appendCurrent scale).buckets = p.buckets ∧ (p.appendCurrent scale).maxBins = p.maxBins ∧
      (p.appendCurrent scale).totalFrames = p.totalFrames := by
  rw [appendCurrent]
  split_ifs
  · exact ⟨rfl, rfl, rfl⟩
  · dsimp only
    split_ifs <;> exact ⟨rfl, rfl, rfl⟩

/-- A sample joins the bin at hand. -/
theorem summarizes_snoc {current : PeakSummary α} {piece : List α} (mono : α)
    (frames : current.frames = piece.length) (summarizes : piece ≠ [] → Summarizes current piece) :
    Summarizes (if current.frames = 0 then ⟨current.frames + 1, mono, mono⟩
      else ⟨current.frames + 1, min current.min mono, max current.max mono⟩) (piece ++ [mono]) := by
  split_ifs with none
  · obtain rfl := length_eq_zero_iff.mp (frames.symm.trans none)
    rw [none]
    exact summarizes_singleton mono
  · have filled : piece ≠ [] := by
      rintro rfl
      exact none frames
    exact (summarizes filled).append (summarizes_singleton mono)

theorem Streams.add (streams : Streams buckets samples p) (some : 0 < buckets) (frameIdx : ℕ)
    (mono : α) : Streams buckets (samples ++ [mono]) (p.add scale frameIdx mono) := by
  obtain ⟨⟨own, bound, total⟩, few, ⟨before, piece, rfl, covers, frames, summarizes⟩, single⟩ := streams
  have joined := summarizes_snoc mono frames summarizes
  simp only [StreamingPeakAccumulator.add]
  generalize current : (if p.current.frames = 0 then (⟨p.current.frames + 1, mono, mono⟩ : PeakSummary α)
    else ⟨p.current.frames + 1, min p.current.min mono, max p.current.max mono⟩) = summary at *
  have length : summary.frames = p.current.frames + 1 := by
    rw [← current]
    split_ifs <;> rfl
  split_ifs with full
  · obtain ⟨ownAfter, boundAfter, totalAfter⟩ := appendCurrent_keeps scale
      { p with current := summary, totalFrames := p.totalFrames + 1 }
    obtain ⟨coversAfter, fewAfter, noneAfter⟩ := appendCurrent_bins scale
      (p := { p with current := summary, totalFrames := p.totalFrames + 1 }) some bound few covers
      joined.frames fun _ => joined
    refine ⟨⟨ownAfter.trans own, boundAfter.trans bound, totalAfter.trans ?_⟩, fewAfter,
      ⟨before ++ (piece ++ [mono]), [], by simp, coversAfter, noneAfter, fun none => absurd rfl none⟩, ?_⟩
    · simp only [total, length_append, length_singleton, Nat.add_assoc]
    · intro short
      rw [length_append, length_singleton] at short
      obtain ⟨unit, none, count, units⟩ := single (by omega)
      simp only [appendCurrent]
      rw [if_neg (by omega), length_append, length_singleton, count, bound,
        if_neg (by omega)]
      refine ⟨unit, rfl, by simp [count, Nat.add_assoc], ?_⟩
      simp only [mem_append, mem_singleton]
      rintro bin (listed | rfl)
      · exact units bin listed
      · omega
  · refine ⟨⟨own, bound, by simp only [total, length_append, length_singleton]⟩, few,
      ⟨before, piece ++ [mono], by simp, covers, joined.frames, fun _ => joined⟩, ?_⟩
    intro short
    rw [length_append, length_singleton] at short
    obtain ⟨unit, none, -⟩ := single (by omega)
    exact absurd (length.trans (by rw [none, unit])) full

theorem streams_streamed (scale : Scale α) (some : 0 < buckets) (samples : List α) :
    Streams buckets samples (streamed scale buckets samples) := by
  induction samples using reverseRecOn with
  | nil => exact streams_new some
  | append_singleton samples mono ih =>
    rw [streamed, zipIdx_append, foldl_append, Nat.zero_add]
    exact ih.add some samples.length mono

end Streams

/-- The samples of the bins that touch a bucket. -/
def touched (buckets totalFrames : ℕ) (samples : List α) (bucket : ℕ) : ℕ → List
    (PeakSummary α) → Set α
  | _, [] => ∅
  | firstFrame, summary :: rest =>
      {v | peakBucketIndex firstFrame buckets totalFrames ≤ bucket ∧
        bucket ≤ peakBucketIndex (firstFrame + summary.frames - 1) buckets totalFrames ∧
        ∃ frame, firstFrame ≤ frame ∧ frame < firstFrame + summary.frames ∧ samples[frame]? = some v} ∪
      touched buckets totalFrames samples bucket (firstFrame + summary.frames) rest

/-- What is written shows a set of samples for every bucket. -/
structure Merged (scale : Scale α) (buckets : ℕ) (values : ℕ → Set α) (m : Merging α) : Prop where
  lengths : m.ps.min.length = buckets ∧ m.ps.max.length = buckets ∧ m.seen.length = buckets
  seen : ∀ bucket < buckets, m.seen.getD bucket false = true ↔ (values bucket).Nonempty
  shows : ∀ bucket < buckets, Shows scale (values bucket) (m.ps.min.getD bucket scale.zero)
    (m.ps.max.getD bucket scale.zero)

section Spread

variable {buckets totalFrames : ℕ} {values : ℕ → Set α} {m : Merging α} {summary : PeakSummary α}
variable {piece : List α}

theorem Shows.union {some : Set α} {lowest highest : α} (shows : Shows scale some lowest highest)
    (filled : some.Nonempty) (summarizes : Summarizes summary piece) :
    Shows scale (some ∪ {v | v ∈ piece}) (min lowest (scale.clampUnit summary.min))
      (max highest (scale.clampUnit summary.max)) := by
  have joined : (some ∪ {v | v ∈ piece}).Nonempty := filled.inl
  refine ⟨fun empty => absurd empty joined.ne_empty, fun _ => ?_, fun _ => ?_⟩
  · rw [Set.image_union]
    exact (shows.least filled).union (Scale.clampUnit_mono.map_isLeast summarizes.least)
  · rw [Set.image_union]
    exact (shows.greatest filled).union (Scale.clampUnit_mono.map_isGreatest summarizes.greatest)

/-- A summary is merged into one bucket. -/
theorem Merged.merge (merged : Merged scale buckets values m) (summarizes : Summarizes summary piece)
    {bucket : ℕ} (inside : bucket < buckets) :
    Merged scale buckets (fun other => values other ∪ {v | other = bucket ∧ v ∈ piece})
      (mergePeakSummary scale summary m bucket) := by
  obtain ⟨⟨lows, highs, seens⟩, seen, shows⟩ := merged
  have low : bucket < m.ps.min.length := by omega
  have high : bucket < m.ps.max.length := by omega
  have mark : bucket < m.seen.length := by omega
  have here : {v | bucket = bucket ∧ v ∈ piece} = {v | v ∈ piece} := by simp
  have elsewhere : ∀ other, other ≠ bucket → values other ∪ {v | other = bucket ∧ v ∈ piece} =
      values other := by
    intro other apart
    rw [Set.union_eq_left]
    exact fun v ⟨same, _⟩ => absurd same apart
  have filled : {v | v ∈ piece}.Nonempty := ⟨_, summarizes.least.1⟩
  unfold mergePeakSummary
  cases known : m.seen.getD bucket false with
  | false =>
    have empty : values bucket = ∅ := by
      refine Set.not_nonempty_iff_eq_empty.mp fun some => ?_
      rw [(seen bucket inside).mpr some] at known
      cases known
    simp only [Bool.not_false, if_true]
    refine ⟨by simp [lows, highs, seens], fun other bound => ?_, fun other bound => ?_⟩
    · rw [getD_set mark]
      split_ifs with same
      · subst same
        rw [here]
        exact ⟨fun _ => filled.inr, fun _ => rfl⟩
      · rw [elsewhere other same]
        exact seen other bound
    · rw [getD_set low, getD_set high]
      split_ifs with same
      · subst same
        rw [here, empty, Set.empty_union]
        exact shows_clamped summarizes.least summarizes.greatest
      · rw [elsewhere other same]
        exact shows other bound
  | true =>
    have some := (seen bucket inside).mp known
    simp only [Bool.not_true, Bool.false_eq_true, if_false]
    refine ⟨by simp [lows, highs, seens], fun other bound => ?_, fun other bound => ?_⟩
    · by_cases same : other = bucket
      · subst same
        rw [here]
        exact ⟨fun _ => filled.inr, fun _ => known⟩
      · rw [elsewhere other same]
        exact seen other bound
    · rw [getD_set low, getD_set high]
      split_ifs with same
      · subst same
        rw [here]
        exact (shows other bound).union some summarizes
      · rw [elsewhere other same]
        exact shows other bound

/-- A summary is merged into some buckets. -/
theorem Merged.mergeAll (summarizes : Summarizes summary piece) : ∀ (listed : List ℕ)
    {values : ℕ → Set α} {m : Merging α}, Merged scale buckets values m →
      (∀ bucket ∈ listed, bucket < buckets) →
      Merged scale buckets (fun other => values other ∪ {v | other ∈ listed ∧ v ∈ piece})
        (listed.foldl (mergePeakSummary scale summary) m) := by
  intro listed
  induction listed with
  | nil =>
    intro values m merged _
    simpa using merged
  | cons bucket rest ih =>
    intro values m merged inside
    obtain ⟨here, others⟩ := forall_mem_cons.mp inside
    have after := ih (merged.merge summarizes here) others
    have same : ∀ other, values other ∪ {v | other = bucket ∧ v ∈ piece} ∪
        {v | other ∈ rest ∧ v ∈ piece} = values other ∪ {v | other ∈ bucket :: rest ∧ v ∈ piece} := by
      intro other
      ext v
      simp only [Set.mem_union, mem_cons, Set.mem_ofPred_eq]
      tauto
    simp only [same] at after
    exact after

/-- The samples of a piece by their frames. -/
theorem mem_piece {Sample : Type} (before later : List Sample) {piece : List Sample} {v : Sample} :
    v ∈ piece ↔
    ∃ frame, before.length ≤ frame ∧ frame < before.length + piece.length ∧
      (before ++ (piece ++ later))[frame]? = some v := by
  rw [mem_iff_getElem?]
  constructor
  · rintro ⟨index, found⟩
    have inside := (List.getElem?_eq_some_iff.mp found).1
    refine ⟨before.length + index, by omega, by omega, ?_⟩
    rw [List.getElem?_append_right (by omega), Nat.add_sub_cancel_left,
      List.getElem?_append_left inside, found]
  · rintro ⟨frame, low, high, found⟩
    refine ⟨frame - before.length, ?_⟩
    rwa [List.getElem?_append_right low, List.getElem?_append_left (by omega)] at found

/-- All bins are merged into the buckets they touch. -/
theorem Merged.spread {bins : List (PeakSummary α)} {later : List α} (covers : Covers bins later) :
    ∀ (before : List α) {values : ℕ → Set α} {m : Merging α}, Merged scale buckets values m →
      0 < buckets → before.length + later.length = totalFrames →
      Merged scale buckets
        (fun bucket => values bucket ∪
          touched buckets totalFrames (before ++ later) bucket before.length bins)
        (spread scale buckets totalFrames before.length bins m) := by
  induction covers with
  | nil =>
    intro before values m merged _ _
    simpa [touched, Golusoris.Audio.spread] using merged
  | @cons summary rest piece later first others ih =>
    intro before values m merged some total
    have frames := first.frames
    have positive := first.frames_pos
    rw [length_append] at total
    have inside : ∀ bucket ∈ range' (peakBucketIndex before.length buckets totalFrames)
        (peakBucketIndex (before.length + summary.frames - 1) buckets totalFrames + 1 -
          peakBucketIndex before.length buckets totalFrames), bucket < buckets := by
      intro bucket listed
      have last : peakBucketIndex (before.length + summary.frames - 1) buckets totalFrames < buckets :=
        peakBucketIndex_lt (by omega) some
      obtain ⟨low, bound⟩ := mem_range'_1.mp listed
      omega
    have after := ih (before ++ piece) (merged.mergeAll first _ inside) some
      (by rw [length_append]; omega)
    rw [length_append, ← frames, append_assoc] at after
    have same : ∀ bucket, values bucket ∪ {v | bucket ∈
        range' (peakBucketIndex before.length buckets totalFrames)
          (peakBucketIndex (before.length + summary.frames - 1) buckets totalFrames + 1 -
            peakBucketIndex before.length buckets totalFrames) ∧ v ∈ piece} ∪
        touched buckets totalFrames (before ++ (piece ++ later)) bucket
          (before.length + summary.frames) rest =
        values bucket ∪ touched buckets totalFrames (before ++ (piece ++ later)) bucket
          before.length (summary :: rest) := by
      intro bucket
      rw [touched, Set.union_assoc]
      congr 2
      ext v
      rw [Set.mem_ofPred_eq, Set.mem_ofPred_eq, mem_range'_1, mem_piece before later, ← frames]
      constructor
      · rintro ⟨⟨low, bound⟩, frame⟩
        exact ⟨low, by omega, frame⟩
      · rintro ⟨low, bound, frame⟩
        exact ⟨⟨low, by omega⟩, frame⟩
    simp only [same] at after
    exact after

omit [LinearOrder α] in
/-- A sample of a bin that touches a bucket, with the bin. -/
theorem touched_bin {samples : List α} {bucket : ℕ} {v : α} : ∀ {bins : List (PeakSummary α)}
    {first : ℕ},
    v ∈ touched buckets totalFrames samples bucket first bins → ∃ before bin after frame,
      bins = before ++ bin :: after ∧ first + (before.map frames).sum ≤ frame ∧
      frame < first + (before.map frames).sum + bin.frames ∧ samples[frame]? = some v ∧
      peakBucketIndex (first + (before.map frames).sum) buckets totalFrames ≤ bucket ∧
      bucket ≤ peakBucketIndex (first + (before.map frames).sum + bin.frames - 1) buckets
        totalFrames := by
  intro bins
  induction bins with
  | nil => exact fun none => absurd none (Set.notMem_empty v)
  | cons summary rest ih =>
    rintro first (⟨low, high, frame, early, late, found⟩ | later)
    · exact ⟨[], summary, rest, frame, rfl, early, late, found, low, high⟩
    · obtain ⟨before, bin, after, frame, rfl, early, late, found, low, high⟩ := ih later
      have start : first + ((summary :: before).map frames).sum =
          first + summary.frames + (before.map frames).sum := by
        rw [map_cons, sum_cons, Nat.add_assoc]
      exact ⟨summary :: before, bin, after, frame, rfl, start ▸ early, start ▸ late, found,
        start ▸ low, start ▸ high⟩

/-- The samples of a bucket are among those of the bins that touch it. -/
theorem touched_of_frame {bins : List (PeakSummary α)} {later : List α} (covers : Covers bins later) :
    ∀ (before : List α) {frame bucket : ℕ} {v : α}, 0 < buckets →
      before.length + later.length = totalFrames → before.length ≤ frame →
      (before ++ later)[frame]? = some v → peakBucketIndex frame buckets totalFrames = bucket →
      v ∈ touched buckets totalFrames (before ++ later) bucket before.length bins := by
  induction covers with
  | nil =>
    intro before frame bucket v _ _ low found _
    rw [append_nil, List.getElem?_eq_none low] at found
    cases found
  | @cons summary rest piece later first others ih =>
    intro before frame bucket v some total low found own
    have frames := first.frames
    have bound := (List.getElem?_eq_some_iff.mp found).1
    rw [length_append] at total
    simp only [length_append] at bound
    obtain here | further := lt_or_ge frame (before.length + summary.frames)
    · refine .inl ⟨?_, ?_, frame, low, here, found⟩
      · rw [← own]
        exact peakBucketIndex_mono low (by omega) some
      · rw [← own]
        exact peakBucketIndex_mono (by omega) (by omega) some
    · refine .inr ?_
      rw [← append_assoc] at found ⊢
      have start : (before ++ piece).length = before.length + summary.frames := by
        rw [length_append, frames]
      rw [← start] at further ⊢
      exact ih (before ++ piece) some (by rw [length_append]; omega) further found own

end Spread

/-- The bins that `finish` spreads. -/
def finished (scale : Scale α) (buckets : ℕ) (samples : List α) : List (PeakSummary α) :=
  ((streamed scale buckets samples).appendCurrent scale).bins

section Finish

variable {buckets : ℕ} (some : 0 < buckets) (samples : List α)

include some

theorem finished_covers (scale : Scale α) : Covers (finished scale buckets samples) samples ∧
    (finished scale buckets samples).length < buckets * 2 ∧
    (samples.length < buckets * 2 → ∀ bin ∈ finished scale buckets samples, bin.frames = 1) := by
  obtain ⟨⟨-, bound, -⟩, few, ⟨before, piece, same, covers, frames, summarizes⟩, single⟩ :=
    streams_streamed scale some samples
  obtain ⟨joined, fewer, -⟩ := appendCurrent_bins scale some bound few covers frames summarizes
  rw [← same] at joined
  refine ⟨joined, fewer, fun short => ?_⟩
  obtain ⟨-, none, -, units⟩ := single short
  rw [finished, appendCurrent, if_pos none]
  exact units

theorem streamedPeaks_shows (scale : Scale α) :
    (streamedPeaks scale buckets samples).min.length = buckets ∧
    (streamedPeaks scale buckets samples).max.length = buckets ∧
    ∀ bucket < buckets, Shows scale
      (touched buckets samples.length samples bucket 0 (finished scale buckets samples))
      ((streamedPeaks scale buckets samples).min.getD bucket scale.zero)
      ((streamedPeaks scale buckets samples).max.getD bucket scale.zero) := by
  obtain ⟨own, -, total⟩ := (streams_streamed scale some samples).own
  obtain ⟨ownAfter, -, totalAfter⟩ := appendCurrent_keeps scale (streamed scale buckets samples)
  have start : Merged scale buckets (fun _ => ∅)
      ⟨newPeakSet scale buckets, List.replicate buckets false⟩ := by
    refine ⟨by simp [newPeakSet], fun bucket inside => ?_, fun bucket inside => ?_⟩
    · rw [getD_replicate _ inside]
      simp
    · simp only [newPeakSet, getD_replicate _ inside]
      exact shows_empty
  have merged := start.spread (finished_covers some samples scale).1 [] some (Nat.zero_add _)
  have result : streamedPeaks scale buckets samples =
      (spread scale buckets samples.length 0 (finished scale buckets samples)
        ⟨newPeakSet scale buckets, List.replicate buckets false⟩).ps := by
    rw [streamedPeaks, finish, ownAfter, totalAfter, own, total]
    split_ifs with none
    · obtain rfl := length_eq_zero_iff.mp none
      rfl
    · rfl
  rw [result]
  simp only [Set.empty_union, nil_append, length_nil] at merged
  exact ⟨merged.lengths.1, merged.lengths.2.1, merged.shows⟩

end Finish

/-- Two frames of one bin, so less than its frames apart. -/
def SameBin (bins : List (PeakSummary α)) (one other : ℕ) : Prop :=
  ∃ before bin after, bins = before ++ bin :: after ∧
    (before.map PeakSummary.frames).sum ≤ one ∧ (before.map PeakSummary.frames).sum ≤ other ∧
    one < (before.map PeakSummary.frames).sum + bin.frames ∧
    other < (before.map PeakSummary.frames).sum + bin.frames

/-- A value of a bucket is that of a frame in one bin with a frame of the bucket. -/
def Near (scale : Scale α) (buckets : ℕ) (samples : List α) (bucket : ℕ) (value : α) : Prop :=
  ∃ own frame v, peakBucketIndex own buckets samples.length = bucket ∧ own < samples.length ∧
    SameBin (finished scale buckets samples) own frame ∧ samples[frame]? = some v ∧
    value = scale.clampUnit v

/-- The values that a peak set shows for the buckets with frames. -/
def shown (scale : Scale α) (buckets : ℕ) (samples : List α) (values : List α) : Set α :=
  {v | ∃ bucket < buckets, (assigned buckets samples.length samples bucket).Nonempty ∧
    v = values.getD bucket scale.zero}

/-- What the streaming accumulator promises for a stream. -/
structure SoundSummary (scale : Scale α) (buckets : ℕ) (samples : List α) : Prop where
  few : (streamed scale buckets samples).bins.length < buckets * 2
  fewFinished : (finished scale buckets samples).length < buckets * 2
  covers : ∃ before piece, samples = before ++ piece ∧
    Covers (streamed scale buckets samples).bins before ∧
    (streamed scale buckets samples).current.frames = piece.length ∧
    (piece ≠ [] → Summarizes (streamed scale buckets samples).current piece)
  coversFinished : Covers (finished scale buckets samples) samples
  exact : ∀ bucket < buckets, Shows scale (assigned buckets samples.length samples bucket)
    ((knownPeaks scale buckets samples).min.getD bucket scale.zero)
    ((knownPeaks scale buckets samples).max.getD bucket scale.zero)
  contains : ∀ bucket < buckets, (assigned buckets samples.length samples bucket).Nonempty →
    (streamedPeaks scale buckets samples).min.getD bucket scale.zero ≤
        (knownPeaks scale buckets samples).min.getD bucket scale.zero ∧
      (knownPeaks scale buckets samples).max.getD bucket scale.zero ≤
        (streamedPeaks scale buckets samples).max.getD bucket scale.zero
  near : ∀ bucket < buckets, (assigned buckets samples.length samples bucket).Nonempty →
    Near scale buckets samples bucket
        ((streamedPeaks scale buckets samples).min.getD bucket scale.zero) ∧
      Near scale buckets samples bucket
        ((streamedPeaks scale buckets samples).max.getD bucket scale.zero)
  same : samples.length < buckets * 2 →
    streamedPeaks scale buckets samples = knownPeaks scale buckets samples
  lowest : ∀ v, IsLeast (shown scale buckets samples (streamedPeaks scale buckets samples).min) v ↔
    IsLeast (scale.clampUnit '' {v | v ∈ samples}) v
  highest : ∀ v, IsGreatest (shown scale buckets samples (streamedPeaks scale buckets samples).max) v ↔
    IsGreatest (scale.clampUnit '' {v | v ∈ samples}) v
  zero : ∀ bucket < buckets, assigned buckets samples.length samples bucket = ∅ →
    ((streamedPeaks scale buckets samples).min.getD bucket scale.zero = scale.zero ∧
      (streamedPeaks scale buckets samples).max.getD bucket scale.zero = scale.zero) ∧
    (knownPeaks scale buckets samples).min.getD bucket scale.zero = scale.zero ∧
      (knownPeaks scale buckets samples).max.getD bucket scale.zero = scale.zero

section Sound

variable {buckets : ℕ} (some : 0 < buckets) (samples : List α)

include some

theorem assigned_subset_touched (scale : Scale α) (bucket : ℕ) :
    assigned buckets samples.length samples bucket ⊆
      touched buckets samples.length samples bucket 0 (finished scale buckets samples) := by
  rintro v ⟨frame, found, own⟩
  have covers := (finished_covers some samples scale).1
  simpa using touched_of_frame covers [] some (Nat.zero_add _) (Nat.zero_le _)
    (by simpa using found) own

/-- With no more frames than twice the buckets every bin is one frame. -/
theorem touched_eq_assigned (scale : Scale α) (short : samples.length < buckets * 2) (bucket : ℕ) :
    touched buckets samples.length samples bucket 0 (finished scale buckets samples) =
      assigned buckets samples.length samples bucket := by
  refine Set.Subset.antisymm ?_ (assigned_subset_touched some samples scale bucket)
  intro v touches
  obtain ⟨before, bin, after, frame, cut, low, high, found, first, last⟩ := touched_bin touches
  have unit := (finished_covers some samples scale).2.2 short bin (by simp [cut])
  rw [unit] at high last
  rw [Nat.add_sub_cancel] at last
  obtain rfl : frame = 0 + (before.map frames).sum := by omega
  exact ⟨_, found, le_antisymm first last⟩

/-- A sample of a bin that touches a bucket is near it. -/
theorem near_of_touched (scale : Scale α) {bucket : ℕ} {v : α}
    (touches : v ∈ touched buckets samples.length samples bucket 0 (finished scale buckets samples)) :
    Near scale buckets samples bucket (scale.clampUnit v) := by
  obtain ⟨covers, -, units⟩ := finished_covers some samples scale
  obtain ⟨before, bin, after, frame, cut, low, high, found, first, last⟩ := touched_bin touches
  rw [Nat.zero_add] at low high first last
  have total := covers.sum_frames
  simp only [cut, map_append, map_cons, sum_append, sum_cons] at total
  have within : ∃ own, (before.map frames).sum ≤ own ∧
      own ≤ (before.map frames).sum + bin.frames - 1 ∧
      peakBucketIndex own buckets samples.length = bucket := by
    obtain short | enough := lt_or_ge samples.length (buckets * 2)
    · have unit := units short bin (by simp [cut])
      rw [unit, Nat.add_sub_cancel] at last
      exact ⟨_, le_rfl, by omega, le_antisymm first last⟩
    · exact exists_frame (by omega) (by omega) some (by omega) first last
  obtain ⟨own, early, late, here⟩ := within
  exact ⟨own, frame, v, here, by omega, ⟨before, bin, after, cut, early, low, by omega, high⟩, found, rfl⟩

end Sound

/-- The least of the values that are shown is the least of all, if every shown value is that of
a sample, and that of a bucket is below those of its frames. -/
theorem isLeast_shown {β : Type} [PartialOrder β] {all low : Set β}
    (sound : low ⊆ all) (complete : ∀ v ∈ all, ∃ w ∈ low, w ≤ v) (v : β) :
    IsLeast low v ↔ IsLeast all v := by
  constructor
  · rintro ⟨shows, below⟩
    refine ⟨sound shows, fun w listed => ?_⟩
    obtain ⟨bound, shows', le⟩ := complete w listed
    exact (below shows').trans le
  · rintro ⟨listed, below⟩
    obtain ⟨w, shows, le⟩ := complete v listed
    obtain rfl := le_antisymm le (below (sound shows))
    exact ⟨shows, fun w' shows' => below (sound shows')⟩

theorem eq_of_getD {Sample : Type} {one other : List Sample} {zero : Sample}
    (length : one.length = other.length)
    (same : ∀ place < one.length, one.getD place zero = other.getD place zero) : one = other := by
  refine ext_getElem length fun place inside inside' => ?_
  have equal := same place inside
  rwa [getD_eq_getElem _ _ inside, getD_eq_getElem _ _ inside'] at equal

/-- The peaks of a stream are a sound summary of it. -/
theorem soundSummary (scale : Scale α) (buckets : ℕ) (samples : List α) (some : 0 < buckets) :
    SoundSummary scale buckets samples := by
  have streams := streams_streamed scale some samples
  obtain ⟨coversFinished, fewFinished, -⟩ := finished_covers some samples scale
  obtain ⟨lows, highs, exact'⟩ := knownPeaks_shows scale some samples
  obtain ⟨streamedLows, streamedHighs, shows⟩ := streamedPeaks_shows some samples scale
  have subset := assigned_subset_touched some samples scale
  have inside : ∀ bucket, touched buckets samples.length samples bucket 0
      (finished scale buckets samples) ⊆ {v | v ∈ samples} := by
    intro bucket v touches
    obtain ⟨-, -, -, frame, -, -, -, found, -⟩ := touched_bin touches
    exact List.mem_of_getElem? found
  have has : ∀ v ∈ samples, ∃ bucket < buckets,
      v ∈ assigned buckets samples.length samples bucket := by
    intro v listed
    obtain ⟨frame, found⟩ := List.mem_iff_getElem?.mp listed
    have early := (List.getElem?_eq_some_iff.mp found).1
    exact ⟨_, peakBucketIndex_lt early some, frame, found, rfl⟩
  constructor
  case few => exact streams.few
  case fewFinished => exact fewFinished
  case covers => exact streams.covers
  case coversFinished => exact coversFinished
  case exact => exact exact'
  case contains =>
    intro bucket bound filled
    have wide := filled.mono (subset bucket)
    exact ⟨(shows bucket bound).least wide |>.2 (Set.image_mono (subset bucket)
        ((exact' bucket bound).least filled).1),
      (shows bucket bound).greatest wide |>.2 (Set.image_mono (subset bucket)
        ((exact' bucket bound).greatest filled).1)⟩
  case near =>
    intro bucket bound filled
    have wide := filled.mono (subset bucket)
    obtain ⟨v, touches, least⟩ := ((shows bucket bound).least wide).1
    obtain ⟨w, touches', greatest⟩ := ((shows bucket bound).greatest wide).1
    rw [← least, ← greatest]
    exact ⟨near_of_touched some samples scale touches, near_of_touched some samples scale touches'⟩
  case same =>
    intro short
    have equal := fun bucket bound =>
      (touched_eq_assigned some samples scale short bucket ▸ shows bucket bound).unique
        (exact' bucket bound)
    have low := eq_of_getD (streamedLows.trans lows.symm) fun place inside =>
      (equal place (streamedLows ▸ inside)).1
    have high := eq_of_getD (streamedHighs.trans highs.symm) fun place inside =>
      (equal place (streamedHighs ▸ inside)).2
    exact congrArg₂ PeakSet.mk low high
  case lowest =>
    refine isLeast_shown ?_ ?_
    · rintro _ ⟨bucket, bound, filled, rfl⟩
      exact Set.image_mono (inside bucket) ((shows bucket bound).least (filled.mono (subset bucket))).1
    · rintro _ ⟨v, listed, rfl⟩
      obtain ⟨bucket, bound, own⟩ := has v listed
      have touches := subset bucket own
      exact ⟨_, ⟨bucket, bound, ⟨v, own⟩, rfl⟩,
        ((shows bucket bound).least ⟨v, touches⟩).2 ⟨v, touches, rfl⟩⟩
  case highest =>
    refine @isLeast_shown αᵒᵈ _ _ _ ?_ ?_
    · rintro _ ⟨bucket, bound, filled, rfl⟩
      exact Set.image_mono (inside bucket)
        ((shows bucket bound).greatest (filled.mono (subset bucket))).1
    · rintro _ ⟨v, listed, rfl⟩
      obtain ⟨bucket, bound, own⟩ := has v listed
      have touches := subset bucket own
      exact ⟨_, ⟨bucket, bound, ⟨v, own⟩, rfl⟩,
        ((shows bucket bound).greatest ⟨v, touches⟩).2 ⟨v, touches, rfl⟩⟩
  case zero =>
    intro bucket bound empty
    refine ⟨(shows bucket bound).none ?_, (exact' bucket bound).none empty⟩
    refine Set.eq_empty_of_forall_notMem fun v touches => ?_
    obtain ⟨own, -, -, here, early, -⟩ := near_of_touched some samples scale touches
    have held : samples[own] ∈ assigned buckets samples.length samples bucket :=
      ⟨own, List.getElem?_eq_getElem early, here⟩
    rw [empty] at held
    exact held

/-- The samples of a signed unit interval in steps. -/
def steps : Scale ℤ := ⟨0, -100, 100, by decide⟩

theorem soundSummary_steps : SoundSummary steps 2 [3, -5, 120, 7, 9] :=
  soundSummary steps 2 [3, -5, 120, 7, 9] (by decide)

example : streamedPeaks steps 2 [3, -5, 120, 7, 9] = ⟨[-5, 7], [100, 100]⟩ := by decide

end Golusoris.Audio
