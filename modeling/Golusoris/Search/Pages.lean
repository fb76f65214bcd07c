import Golusoris.Lib.Ranking
import Golusoris.Search.Multi
import Mathlib.Data.List.Dedup
import Mathlib.Data.List.Induction
import Mathlib.Data.Nat.Basic

/-!
# Pages of merged hits

A backend pages its own hits before the merge, and the search pages the merged hits
again. The page is the one of the full merged list exactly when the windows that the
backends return hold what the page and everything before it need.
-/

namespace Golusoris.Search

open Golusoris.Lib

variable {Score Other Failure : Type} [LinearOrder Score]

/-- The hit stands for its document: the first of those with the best score. -/
def Leads (hits : List (Hit Score Other)) (hit : Hit Score Other) : Prop :=
  ∃ before after, hits = before ++ hit :: after ∧
    (∀ other ∈ before, hitID other = hitID hit → other.score < hit.score) ∧
    ∀ other ∈ after, hitID other = hitID hit → other.score ≤ hit.score

/-- The hits without an ID. -/
def nameless (hits : List (Hit Score Other)) : List (Hit Score Other) :=
  hits.filter fun hit => hitID hit = []

/-- The IDs of the hits. -/
def ids (hits : List (Hit Score Other)) : List Bytes :=
  ((hits.map hitID).filter (· ≠ [])).dedup

/-- The documents of the hits, in their order. -/
def ranked (hits : List (Hit Score Other)) : List (Hit Score Other) :=
  (newHitMerger.add hits).ranked

/-- All hits merged. -/
def merge (hits : List (Hit Score Other)) : List (Hit Score Other) :=
  (newHitMerger.add hits).sorted

section Merging

variable {hits : List (Hit Score Other)} {hit : Hit Score Other}

theorem Leads.mem (leads : Leads hits hit) : hit ∈ hits := by
  obtain ⟨before, after, rfl, -⟩ := leads
  simp

theorem Leads.le (leads : Leads hits hit) {other : Hit Score Other} (listed : other ∈ hits)
    (same : hitID other = hitID hit) : other.score ≤ hit.score := by
  obtain ⟨before, after, rfl, less, atMost⟩ := leads
  obtain early | listed := List.mem_append.mp listed
  · exact le_of_lt (less other early same)
  obtain rfl | late := List.mem_cons.mp listed
  · exact le_refl _
  · exact atMost other late same

/-- One more hit leads if it beats the others, and leaves those in the lead that it does
not beat. -/
theorem leads_append {last : Hit Score Other} : Leads (hits ++ [last]) hit ↔
    (hit = last ∧ ∀ other ∈ hits, hitID other = hitID last → other.score < last.score) ∨
      (Leads hits hit ∧ (hitID last = hitID hit → last.score ≤ hit.score)) := by
  constructor
  · rintro ⟨before, after, cut, less, atMost⟩
    obtain ⟨rfl, rfl, rfl⟩ | ⟨rest, rfl, rfl⟩ := snoc_eq_append_cons cut
    · exact .inl ⟨rfl, less⟩
    · refine .inr ⟨⟨before, rest, rfl, less, fun other late => ?_⟩, ?_⟩
      · exact atMost other (List.mem_append_left _ late)
      · exact atMost last (by simp)
  · rintro (⟨rfl, less⟩ | ⟨⟨before, after, rfl, less, atMost⟩, beaten⟩)
    · exact ⟨hits, [], rfl, less, fun other none => absurd none List.not_mem_nil⟩
    · refine ⟨before, after ++ [last], by simp, less, fun other late same => ?_⟩
      obtain late | late := List.mem_append.mp late
      · exact atMost other late same
      · obtain rfl := List.mem_singleton.mp late
        exact beaten same

/-- A map holds for every ID the hit that leads. -/
structure Finds (hits : List (Hit Score Other)) (byID : Bytes → Option (Hit Score Other)) : Prop where
  found : ∀ id hit, byID id = some hit ↔ id ≠ [] ∧ hitID hit = id ∧ Leads hits hit
  missing : ∀ id, byID id = none → id ≠ [] → ∀ hit ∈ hits, hitID hit ≠ id

section

variable {merger : HitMerger Score Other} {last : Hit Score Other}

/-- A hit that beats the others takes the place of its ID. -/
theorem Finds.put (finds : Finds hits merger.byID) (named : hitID last ≠ [])
    (beats : ∀ other ∈ hits, hitID other = hitID last → other.score < last.score) :
    Finds (hits ++ [last]) (merger.put (hitID last) last) := by
  constructor
  · intro id hit
    simp only [HitMerger.put, leads_append]
    split_ifs with same
    · subst same
      constructor
      · intro found
        cases found
        exact ⟨named, rfl, .inl ⟨rfl, beats⟩⟩
      · rintro ⟨-, own, ⟨rfl, -⟩ | ⟨leads, beaten⟩⟩
        · rfl
        · exact absurd (beats hit leads.mem own) (not_lt_of_ge (beaten own.symm))
    · rw [finds.found id hit]
      constructor
      · rintro ⟨some, rfl, leads⟩
        exact ⟨some, rfl, .inr ⟨leads, fun equal => absurd equal.symm same⟩⟩
      · rintro ⟨some, rfl, ⟨rfl, -⟩ | ⟨leads, -⟩⟩
        · exact absurd rfl same
        · exact ⟨some, rfl, leads⟩
  · intro id none some other listed
    simp only [HitMerger.put] at none
    split_ifs at none with same
    obtain before | here := List.mem_append.mp listed
    · exact finds.missing id none some other before
    · obtain rfl := List.mem_singleton.mp here
      exact fun equal => same equal.symm

/-- A hit that has no ID or does not beat the one in the lead changes nothing. -/
theorem Finds.keep (finds : Finds hits merger.byID)
    (loses : hitID last ≠ [] → ∃ prev, merger.byID (hitID last) = some prev ∧
      last.score ≤ prev.score) : Finds (hits ++ [last]) merger.byID := by
  constructor
  · intro id hit
    rw [finds.found id hit, leads_append]
    constructor
    · rintro ⟨some, rfl, first⟩
      refine ⟨some, rfl, .inr ⟨first, fun equal => ?_⟩⟩
      obtain ⟨prev, held, most⟩ := loses (equal ▸ some)
      obtain ⟨-, own, leads⟩ := (finds.found _ _).mp held
      exact le_trans most (first.le leads.mem (own.trans equal))
    · rintro ⟨some, rfl, ⟨rfl, beats⟩ | ⟨first, -⟩⟩
      · obtain ⟨prev, held, most⟩ := loses some
        obtain ⟨-, own, leads⟩ := (finds.found _ _).mp held
        exact absurd (beats prev leads.mem own) (not_lt_of_ge most)
      · exact ⟨some, rfl, first⟩
  · intro id none some other listed
    obtain before | here := List.mem_append.mp listed
    · exact finds.missing id none some other before
    · obtain rfl := List.mem_singleton.mp here
      intro equal
      obtain ⟨prev, held, -⟩ := loses (equal ▸ some)
      rw [equal, none] at held
      cases held

/-- What a merger holds after hits. -/
structure Merges (hits : List (Hit Score Other)) (merger : HitMerger Score Other) : Prop where
  noID : merger.noID = nameless hits
  finds : Finds hits merger.byID
  distinct : merger.order.Nodup
  listed : ∀ id, id ∈ merger.order ↔ (merger.byID id).isSome

theorem merges_new : Merges ([] : List (Hit Score Other)) newHitMerger where
  noID := rfl
  finds := by
    refine ⟨fun id hit => ⟨fun found => ?_, ?_⟩, fun _ _ _ _ listed => ?_⟩
    · cases found
    · rintro ⟨-, -, leads⟩
      exact absurd leads.mem List.not_mem_nil
    · exact absurd listed List.not_mem_nil
  distinct := List.nodup_nil
  listed := fun id => by simp [newHitMerger]

omit [LinearOrder Score] in
theorem nameless_append (hits : List (Hit Score Other)) (last : Hit Score Other) :
    nameless (hits ++ [last]) = if hitID last = [] then nameless hits ++
    [last] else nameless hits := by
  by_cases named : hitID last = [] <;> simp [nameless, named]

/-- Adding a hit puts it where it belongs. -/
theorem Merges.addHit (merges : Merges hits merger) (last : Hit Score Other) :
    Merges (hits ++ [last]) (merger.addHit last) := by
  have noID := nameless_append hits last
  rw [HitMerger.addHit]
  by_cases named : hitID last = []
  · rw [if_pos named] at noID ⊢
    exact ⟨by rw [noID, ← merges.noID], merges.finds.keep fun some => absurd named some,
      merges.distinct, merges.listed⟩
  rw [if_neg named] at noID ⊢
  cases held : merger.byID (hitID last) with
  | none =>
    have fresh := merges.finds.missing _ held named
    refine ⟨noID ▸ merges.noID, merges.finds.put named fun other listed same =>
      absurd same (fresh other listed), ?_, fun id => ?_⟩
    · refine List.nodup_append.mpr ⟨merges.distinct, List.nodup_singleton _, ?_⟩
      intro id first other second equal
      obtain rfl := List.mem_singleton.mp second
      have already := (merges.listed id).mp first
      rw [equal, held] at already
      cases already
    · simp only [List.mem_append, List.mem_singleton, HitMerger.put, merges.listed id]
      split_ifs with same <;> simp [same]
  | some prev =>
    obtain ⟨-, own, leads⟩ := (merges.finds.found _ _).mp held
    simp only
    split_ifs with better
    · refine ⟨noID ▸ merges.noID, merges.finds.put named fun other listed same => ?_,
        merges.distinct, fun id => ?_⟩
      · exact lt_of_le_of_lt (leads.le listed (same.trans own.symm)) better
      · simp only [HitMerger.put, merges.listed id]
        split_ifs with same
        · simp [same, held]
        · rfl
    · exact ⟨noID ▸ merges.noID, merges.finds.keep fun _ => ⟨prev, held, le_of_not_gt better⟩,
        merges.distinct, merges.listed⟩

end

theorem merges_add (hits : List (Hit Score Other)) : Merges hits (newHitMerger.add hits) := by
  induction hits using List.reverseRecOn with
  | nil => exact merges_new
  | append_singleton hits last ih =>
    rw [HitMerger.add, List.foldl_append]
    exact ih.addHit last

/-- Every document has a hit in the lead. -/
theorem exists_leads (listed : hit ∈ hits) (named : hitID hit ≠ []) :
    ∃ leader, hitID leader = hitID hit ∧ Leads hits leader := by
  have finds := (merges_add hits).finds
  cases held : (newHitMerger.add hits).byID (hitID hit) with
  | none => exact absurd rfl (finds.missing _ held named hit listed)
  | some leader =>
    obtain ⟨-, own, leads⟩ := (finds.found _ leader).mp held
    exact ⟨leader, own, leads⟩

end Merging

section Order

variable {first second third hit : Hit Score Other} {hits : List (Hit Score Other)}

theorem less_iff : less first second ↔ second.score < first.score ∨
    first.score = second.score ∧ hitID first < hitID second := by
  rw [less]
  split_ifs with differ
  · simp [differ]
  · simp only [ne_eq, not_not] at differ
    simp [differ]

theorem less_irrefl (hit : Hit Score Other) : ¬less hit hit := by
  rw [less_iff]
  rintro (smaller | ⟨-, smaller⟩)
  · exact lt_irrefl _ smaller
  · exact List.lt_irrefl _ smaller

theorem less_trans (one : less first second) (other : less second third) : less first third := by
  rw [less_iff] at one other ⊢
  rcases one with one | ⟨same, one⟩ <;> rcases other with other | ⟨equal, other⟩
  · exact .inl (lt_trans other one)
  · exact .inl (equal ▸ one)
  · exact .inl (same ▸ other)
  · exact .inr ⟨same.trans equal, List.lt_trans one other⟩

instance isStrictOrder_less :
    IsStrictOrder (Hit Score Other) fun first second => less first second where
  irrefl := less_irrefl
  trans _ _ _ := less_trans

theorem less_total (first second : Hit Score Other) : less first second ∨ less second first ∨
    first.score = second.score ∧ hitID first = hitID second := by
  simp only [less_iff]
  rcases lt_trichotomy first.score second.score with smaller | equal | greater
  · exact .inr (.inl (.inl smaller))
  · by_cases before : hitID first < hitID second
    · exact .inl (.inr ⟨equal, before⟩)
    by_cases after : hitID second < hitID first
    · exact .inr (.inl (.inr ⟨equal.symm, after⟩))
    · exact .inr (.inr ⟨equal, List.le_antisymm (List.not_lt.mp after) (List.not_lt.mp before)⟩)
  · exact .inl (.inl greater)

/-- A better hit of the same document is before all that a worse one is before. -/
theorem less_of_better (same : hitID first = hitID second) (better : second.score ≤ first.score)
    (before : less second third) : less first third := by
  rw [less_iff] at before ⊢
  obtain smaller | ⟨equal, before⟩ := before
  · exact .inl (lt_of_lt_of_le smaller better)
  · obtain more | level := lt_or_eq_of_le better
    · exact .inl (equal ▸ more)
    · exact .inr ⟨level.symm.trans equal, same ▸ before⟩

theorem not_less_trans (one : !less second first) (other : !less third second) :
    !less third first := by
  simp only [Bool.not_eq_true', ← Bool.not_eq_true] at one other ⊢
  intro before
  obtain less | less | ⟨score, id⟩ := less_total second third
  · exact one (less_trans less before)
  · exact other less
  · exact one (less_of_better id (le_of_eq score.symm) before)

theorem mem_ranked : hit ∈ ranked hits ↔ hitID hit ≠ [] ∧ Leads hits hit := by
  have merges := merges_add hits
  rw [ranked, HitMerger.ranked, List.mem_mergeSort, List.mem_filterMap]
  constructor
  · rintro ⟨id, -, held⟩
    obtain ⟨some, rfl, leads⟩ := (merges.finds.found id hit).mp held
    exact ⟨some, leads⟩
  · rintro ⟨some, leads⟩
    have held := (merges.finds.found _ hit).mpr ⟨some, rfl, leads⟩
    exact ⟨_, (merges.listed _).mpr (by simp [held]), held⟩

/-- The documents before they are sorted. -/
theorem map_found {merger : HitMerger Score Other} (merges : Merges hits merger) {order : List Bytes}
    (listed : ∀ id ∈ order, (merger.byID id).isSome) :
    (order.filterMap merger.byID).map hitID = order := by
  induction order with
  | nil => rfl
  | cons id order ih =>
    obtain ⟨hit, held⟩ := Option.isSome_iff_exists.mp (listed id List.mem_cons_self)
    have own := ((merges.finds.found id hit).mp held).2.1
    rw [List.filterMap_cons_some held, List.map_cons, own,
      ih fun other inside => listed other (List.mem_cons_of_mem _ inside)]

theorem map_ranked (hits : List (Hit Score Other)) :
    ((ranked hits).map hitID).Perm (newHitMerger.add hits).order := by
  have merges := merges_add hits
  have found := map_found merges fun id inside => (merges.listed id).mp inside
  have sorted := (List.mergeSort_perm ((newHitMerger.add hits).order.filterMap
    (newHitMerger.add hits).byID) fun first second => !less second first).map hitID
  rwa [found] at sorted

/-- Every document is there once. -/
theorem nodup_ranked (hits : List (Hit Score Other)) : ((ranked hits).map hitID).Nodup :=
  (map_ranked hits).nodup_iff.mpr (merges_add hits).distinct

/-- Documents are in the order of their scores, and of their IDs where these are equal. -/
theorem pairwise_ranked (hits : List (Hit Score Other)) :
    (ranked hits).Pairwise fun first second => less first second := by
  have sorted : (ranked hits).Pairwise fun first second => !less second first :=
    List.pairwise_mergeSort (fun _ _ _ => not_less_trans) (fun first second => by
      by_cases before : less second first
      · have after : ¬less first second := fun after => less_irrefl _ (less_trans before after)
        simp [after]
      · simp [before]) _
  have distinct : (ranked hits).Pairwise fun first second => hitID first ≠ hitID second :=
    List.pairwise_map.mp (nodup_ranked hits)
  refine (sorted.and distinct).imp fun {first second} both => ?_
  obtain before | after | ⟨-, same⟩ := less_total first second
  · exact before
  · simp [after] at both
  · exact absurd same both.2

theorem length_ranked (hits : List (Hit Score Other)) : (ranked hits).length = (ids hits).length := by
  have perm : ((ranked hits).map hitID).Perm (ids hits) := by
    rw [ids, List.perm_ext_iff_of_nodup (nodup_ranked hits) (List.nodup_dedup _)]
    intro id
    simp only [List.mem_map, mem_ranked, List.mem_dedup, List.mem_filter, decide_eq_true_eq]
    constructor
    · rintro ⟨hit, ⟨some, leads⟩, rfl⟩
      exact ⟨⟨hit, leads.mem, rfl⟩, some⟩
    · rintro ⟨⟨hit, listed, rfl⟩, some⟩
      obtain ⟨leader, own, leads⟩ := exists_leads listed some
      exact ⟨leader, ⟨own ▸ some, leads⟩, own⟩
  simpa using perm.length_eq

theorem merge_eq (hits : List (Hit Score Other)) : merge hits = ranked hits ++ nameless hits := by
  rw [merge, HitMerger.sorted, (merges_add hits).noID]
  rfl

end Order

/-- The items of one page. -/
def window {α : Type} (offset limit : Nat) (items : List α) : List α := (items.drop offset).take limit

/-- What the backends return of their lists. -/
def windows (offset limit : Nat) (lists : List (List (Hit Score Other))) : List (Hit Score Other) :=
  (lists.map (window offset limit)).flatten

/-- The hits without an ID that a page of the merged hits shows, after the documents. -/
def tail (offset limit : Nat) (hits : List (Hit Score Other)) : List (Hit Score Other) :=
  ((nameless hits).drop (offset - (ids hits).length)).take (limit - ((ids hits).length - offset))

/-- The windows hold what a page of all hits needs. -/
structure WindowsSuffice (offset limit : Nat) (lists : List (List (Hit Score Other))) : Prop where
  /-- Every document on the page has its hit in a window, and whatever is before it has
  one that is before it. -/
  documents : ∀ place hit, offset ≤ place → place < offset + limit →
    (ranked lists.flatten)[place]? = some hit → Leads (windows offset limit lists) hit ∧
      ∀ other ∈ ranked lists.flatten, less other hit →
        ∃ same ∈ windows offset limit lists, hitID same = hitID other ∧ less same hit
  /-- The hits without an ID fall on the page as they do in the full lists. -/
  tail : tail offset limit (windows offset limit lists) = tail offset limit lists.flatten

section Windows

variable {lists : List (List (Hit Score Other))} {offset limit place : Nat} {hit : Hit Score Other}

omit [LinearOrder Score] in
theorem windows_sublist (offset limit : Nat) (lists : List (List (Hit Score Other))) :
    (windows offset limit lists).Sublist lists.flatten := by
  induction lists with
  | nil => exact List.Sublist.refl _
  | cons list lists ih =>
    have own : (window offset limit list).Sublist list :=
      (List.take_sublist _ _).trans (List.drop_sublist _ _)
    exact own.append ih

theorem standsFor (offset limit : Nat) (lists : List (List (Hit Score Other))) :
    StandsFor (fun first second : Hit Score Other => less first second) hitID
      (ranked (windows offset limit lists)) (ranked lists.flatten) where
  ranked := pairwise_ranked _
  rankedOuter := pairwise_ranked _
  innerKeys := nodup_ranked _
  outerKeys := nodup_ranked _
  behind := by
    intro hit inside
    obtain ⟨named, leads⟩ := mem_ranked.mp inside
    have listed := (windows_sublist offset limit lists).subset leads.mem
    obtain ⟨leader, own, first⟩ := exists_leads listed named
    refine ⟨leader, mem_ranked.mpr ⟨own ▸ named, first⟩, own, fun third before => ?_⟩
    exact less_of_better own (first.le listed own.symm) before

/-- A document keeps its place if it is in the windows with all that is before it. -/
theorem ranked_windows_iff (found : (ranked lists.flatten)[place]? = some hit) :
    (ranked (windows offset limit lists))[place]? = some hit ↔
      Leads (windows offset limit lists) hit ∧
      ∀ other ∈ ranked lists.flatten, less other hit →
        ∃ same ∈ windows offset limit lists, hitID same = hitID other ∧ less same hit := by
  have named := (mem_ranked.mp (List.mem_of_getElem? found)).1
  rw [(standsFor offset limit lists).getElem?_iff found]
  refine and_congr ⟨fun inside => (mem_ranked.mp inside).2, fun leads =>
    mem_ranked.mpr ⟨named, leads⟩⟩ ?_
  refine forall_congr' fun other => imp_congr_right fun listed => imp_congr_right fun before => ?_
  constructor
  · rintro ⟨same, inside, own, before⟩
    exact ⟨same, (mem_ranked.mp inside).2.mem, own, before⟩
  · rintro ⟨same, inside, own, before⟩
    have some : hitID same ≠ [] := own ▸ (mem_ranked.mp listed).1
    obtain ⟨leader, equal, leads⟩ := exists_leads inside some
    exact ⟨leader, mem_ranked.mpr ⟨equal ▸ some, leads⟩, equal.trans own,
      less_of_better equal (leads.le inside equal.symm) before⟩

/-- A page of merged hits shows documents and then hits without an ID. -/
theorem window_merge (offset limit : Nat) (hits : List (Hit Score Other)) :
    window offset limit (merge hits) = window offset limit
    (ranked hits) ++ tail offset limit hits := by
  rw [window, merge_eq, List.drop_append, List.take_append, List.length_drop, length_ranked]
  rfl

/-- The two parts of a page can be told apart. -/
theorem window_merge_inj {hits others : List (Hit Score Other)} :
    window offset limit (merge hits) = window offset limit (merge others) ↔
      window offset limit (ranked hits) = window offset limit (ranked others) ∧
      tail offset limit hits = tail offset limit others := by
  have documents (hits : List (Hit Score Other)) : (window offset limit (merge hits)).filter
      (fun hit => hitID hit ≠ []) = window offset limit (ranked hits) := by
    have all : ∀ hit ∈ window offset limit (ranked hits), decide (hitID hit ≠ []) = true := by
      intro hit inside
      have listed := List.mem_of_mem_drop (List.mem_of_mem_take inside)
      exact decide_eq_true (mem_ranked.mp listed).1
    have none : ∀ hit ∈ tail offset limit hits, ¬decide (hitID hit ≠ []) = true := by
      intro hit inside
      have listed := List.mem_of_mem_drop (List.mem_of_mem_take inside)
      simpa [nameless] using (List.mem_filter.mp listed).2
    rw [window_merge, List.filter_append, List.filter_eq_self.mpr all, List.filter_eq_nil_iff.mpr none,
      List.append_nil]
  constructor
  · intro same
    have first := congrArg (List.filter fun hit => decide (hitID hit ≠ [])) same
    rw [documents, documents] at first
    rw [window_merge, window_merge, first] at same
    exact ⟨first, List.append_cancel_left same⟩
  · rintro ⟨first, second⟩
    rw [window_merge, window_merge, first, second]

/-- The documents of a page are all in their places, or the page is a different one. -/
theorem window_ranked_iff : window offset limit (ranked (windows offset limit lists)) =
      window offset limit (ranked lists.flatten) ↔
    ∀ place hit, offset ≤ place → place < offset + limit →
      (ranked lists.flatten)[place]? = some hit →
        (ranked (windows offset limit lists))[place]? = some hit := by
  have at_ (items : List (Hit Score Other)) (index : Nat) : (window offset limit items)[index]? =
      if index < limit then items[offset + index]? else none := by
    rw [window, List.getElem?_take, List.getElem?_drop]
  constructor
  · intro same place hit above below found
    obtain ⟨index, rfl⟩ := Nat.exists_eq_add_of_le above
    have here := congrArg (fun items => items[index]?) same
    simp only [at_, if_pos (show index < limit by omega)] at here
    exact here.trans found
  · intro kept
    apply List.ext_getElem?
    intro index
    rw [at_, at_]
    split_ifs with inside
    · cases found : (ranked lists.flatten)[offset + index]? with
      | some hit => exact kept _ hit (by omega) (by omega) found
      | none =>
        have short := (standsFor offset limit lists).length_le
        rw [List.getElem?_eq_none_iff] at found ⊢
        omega
    · rfl

/-- The page of the windows is that of the full lists exactly when the windows suffice. -/
theorem window_windows_iff : window offset limit (merge (windows offset limit lists)) =
    window offset limit (merge lists.flatten) ↔ WindowsSuffice offset limit lists := by
  rw [window_merge_inj, window_ranked_iff]
  constructor
  · rintro ⟨documents, tail⟩
    exact ⟨fun place hit above below found =>
      (ranked_windows_iff found).mp (documents place hit above below found), tail⟩
  · intro suffice_
    exact ⟨fun place hit above below found =>
      (ranked_windows_iff found).mpr (suffice_.documents place hit above below found),
      suffice_.tail⟩

theorem length_merge_le (hits : List (Hit Score Other)) : (merge hits).length ≤ hits.length := by
  have once : (ids hits).length ≤ ((hits.map hitID).filter (· ≠ [])).length :=
    (List.dedup_sublist _).length_le
  have apart := List.length_eq_length_filter_add (l := hits) fun hit => decide (hitID hit ≠ [])
  have other : hits.filter (fun hit => !decide (hitID hit ≠ [])) = nameless hits := by
    simp [nameless]
  rw [List.filter_map, List.length_map] at once
  rw [other] at apart
  rw [merge_eq, List.length_append, length_ranked]
  exact apart ▸ Nat.add_le_add_right once _

/-- A single backend that has every document once, under an ID, never pages right after
the first page. -/
theorem not_suffice_single {list : List (Hit Score Other)} (named : ∀ hit ∈ list, hitID hit ≠ [])
    (distinct : (list.map hitID).Nodup) (later : 0 < offset) (inside : offset < list.length)
    (some : 0 < limit) : ¬WindowsSuffice offset limit [list] := by
  intro suffices_
  have same := congrArg List.length (window_windows_iff.mpr suffices_)
  have few := length_merge_le (windows offset limit [list])
  have all : (merge [list].flatten).length = list.length := by
    have kept : (list.map hitID).filter (· ≠ []) = list.map hitID := by
      rw [List.filter_eq_self]
      intro id listed
      obtain ⟨hit, own, rfl⟩ := List.mem_map.mp listed
      exact decide_eq_true (named hit own)
    have none : nameless list = [] := by
      rw [nameless, List.filter_eq_nil_iff]
      intro hit listed
      simpa using named hit listed
    rw [List.flatten_singleton, merge_eq, none, List.append_nil, length_ranked, ids, kept,
      distinct.dedup, List.length_map]
  have cut : (windows offset limit [list]).length ≤ min limit (list.length - offset) := by
    simp [windows, window]
  simp only [window, List.length_take, List.length_drop, all] at same
  omega

end Windows

/-- A backend answers every page of its list, which is in descending order of scores. -/
structure Answers (backend : Searcher Score Other Failure) (list : List (Hit Score Other)) : Prop where
  descending : list.Pairwise fun first second => second.score ≤ first.score
  answers : ∀ query : Query, 0 ≤ query.offset → 0 < query.limit → (backend query).2 = none ∧
    (backend query).1.hits = window query.offset.toNat query.limit.toNat list

/-- Every backend answers once, in any order. -/
def Complete (backends : List (Searcher Score Other Failure)) (arrivals : List (Arrival Failure)) :
    Prop :=
  arrivals.Perm ((List.range backends.length).map .answer)

section FanOut

variable {backends : List (Searcher Score Other Failure)} {query : Query}
  {arrivals : List (Arrival Failure)} {out : List (BackendResult Score Other Failure)}

/-- The result of a backend that answers. -/
def resultOf (query : Query) (idx : Nat) (backend : Searcher Score Other Failure) :
    BackendResult Score Other Failure :=
  ⟨idx, (backend query).1, none⟩

omit [LinearOrder Score] in
/-- The result of a backend is written when it answers and stays. -/
theorem getElem?_fanOutAll (answering : ∀ backend ∈ backends, (backend query).2 = none)
    (full : out.length = backends.length) :
    (fanOutAll backends query arrivals out).length = backends.length ∧
      ∀ idx backend, backends[idx]? = some backend →
        .answer idx ∈ arrivals ∨ out[idx]? = some (resultOf query idx backend) →
        (fanOutAll backends query arrivals out)[idx]? = some (resultOf query idx backend) := by
  induction arrivals generalizing out with
  | nil => exact ⟨full, fun idx backend _ written => written.resolve_left List.not_mem_nil⟩
  | cons arrival arrivals ih =>
    cases arrival with
    | cancelled cause =>
      obtain ⟨length, rest⟩ := ih full
      refine ⟨length, fun idx backend known written => rest idx backend known ?_⟩
      simpa using written
    | answer first =>
      cases here : backends[first]? with
      | none =>
        have skipped : fanOutAll backends query (.answer first :: arrivals) out =
            fanOutAll backends query arrivals out := by
          rw [fanOutAll, here]
        obtain ⟨length, rest⟩ := ih full
        rw [skipped]
        refine ⟨length, fun idx backend known written => rest idx backend known ?_⟩
        obtain listed | written := written
        · obtain same | listed := List.mem_cons.mp listed
          · rw [Arrival.answer.inj same, here] at known
            cases known
          · exact .inl listed
        · exact .inr written
      | some own =>
        have quiet := answering own (List.mem_of_getElem? here)
        have stored : fanOutAll backends query (.answer first :: arrivals) out =
            fanOutAll backends query arrivals (out.set first (resultOf query first own)) := by
          rw [fanOutAll, here, resultOf, ← quiet]
        obtain ⟨length, rest⟩ :=
          @ih (out.set first (resultOf query first own)) (by rw [List.length_set, full])
        rw [stored]
        refine ⟨length, fun idx backend known written => rest idx backend known ?_⟩
        by_cases same : first = idx
        · subst same
          obtain rfl := Option.some.inj (here.symm.trans known)
          have inside := (List.getElem?_eq_some_iff.mp here).1
          exact .inr (List.getElem?_set_self (full ▸ inside))
        · rw [List.getElem?_set_ne same]
          refine written.imp_left fun listed => ?_
          obtain equal | listed := List.mem_cons.mp listed
          · exact absurd (Arrival.answer.inj equal).symm same
          · exact listed

omit [LinearOrder Score] in
/-- Without errors and cancellations, failing fast makes no difference. -/
theorem fanOutFailFast_eq (answering : ∀ backend ∈ backends, (backend query).2 = none)
    (calm : ∀ cause, .cancelled cause ∉ arrivals) :
    fanOutFailFast backends query arrivals out = fanOutAll backends query arrivals out := by
  induction arrivals generalizing out with
  | nil => rfl
  | cons arrival arrivals ih =>
    have rest := fun cause listed => calm cause (List.mem_cons_of_mem arrival listed)
    cases arrival with
    | cancelled cause => exact absurd List.mem_cons_self (calm cause)
    | answer first =>
      rw [fanOutFailFast, fanOutAll]
      cases here : backends[first]? with
      | none => exact ih rest
      | some own =>
        have quiet := answering own (List.mem_of_getElem? here)
        cases answered : own query with
        | mk results err =>
          rw [answered] at quiet
          obtain rfl : err = none := quiet
          simp only [answered]
          exact ih rest

omit [LinearOrder Score] in
/-- When all backends answer, their results stand in the order of the backends. -/
theorem fanOut_eq {searcher : MultiSearcher Score Other Failure}
    (answering : ∀ backend ∈ searcher.backends, (backend query).2 = none)
    (complete : Complete searcher.backends arrivals) :
    searcher.fanOut query arrivals = searcher.backends.mapIdx (resultOf query) := by
  have calm : ∀ cause, .cancelled cause ∉ arrivals := by
    intro cause listed
    have listed := complete.mem_iff.mp listed
    simp at listed
  have all : searcher.fanOut query arrivals = fanOutAll searcher.backends query arrivals
      (List.replicate searcher.backends.length ⟨0, {}, none⟩) := by
    rw [MultiSearcher.fanOut]
    split_ifs
    · exact fanOutFailFast_eq answering calm
    · rfl
  have empty : (List.replicate searcher.backends.length
      (⟨0, {}, none⟩ : BackendResult Score Other Failure)).length = searcher.backends.length :=
    List.length_replicate
  obtain ⟨length, written⟩ := @getElem?_fanOutAll _ _ _ _ query arrivals _ answering empty
  rw [all]
  apply List.ext_getElem?
  intro idx
  rw [List.getElem?_mapIdx]
  cases known : searcher.backends[idx]? with
  | some backend =>
    have inside := (List.getElem?_eq_some_iff.mp known).1
    have listed : .answer idx ∈ arrivals := complete.mem_iff.mpr (by simpa using inside)
    exact written idx backend known (.inl listed)
  | none =>
    rw [List.getElem?_eq_none_iff] at known
    exact List.getElem?_eq_none_iff.mpr (Nat.le_trans (Nat.le_of_eq length) known)

end FanOut

section Search

variable {searcher : MultiSearcher Score Other Failure} {lists : List (List (Hit Score Other))}
  {query : Query} {arrivals : List (Arrival Failure)}

omit [LinearOrder Score] in
theorem paginate_eq (hits : List (Hit Score Other)) {offset limit : Int} (some : 0 < limit) :
    paginate hits offset limit = window offset.toNat limit.toNat hits := by
  have rest : (if 0 < offset then hits.drop offset.toNat else hits) = hits.drop offset.toNat := by
    split_ifs with skips
    · rfl
    · rw [Int.toNat_of_nonpos (Int.not_lt.mp skips), List.drop_zero]
  simp only [paginate, rest, window]
  split_ifs with long
  · rfl
  · rw [List.take_of_length_le (by omega)]

/-- The hits that the backends return are the windows of their lists. -/
theorem answered {backends : List (Searcher Score Other Failure)}
    (answering : List.Forall₂ Answers backends lists)
    (from_ : 0 ≤ query.offset) (some : 0 < query.limit) :
    (∀ backend ∈ backends, (backend query).2 = none) ∧
      backends.map (fun backend => (backend query).1.hits) =
        lists.map (window query.offset.toNat query.limit.toNat) := by
  induction answering with
  | nil => exact ⟨fun backend none => absurd none List.not_mem_nil, rfl⟩
  | cons answers _ ih =>
    obtain ⟨quiet, hits⟩ := answers.answers query from_ some
    constructor
    · intro backend listed
      obtain rfl | listed := List.mem_cons.mp listed
      · exact quiet
      · exact ih.1 backend listed
    · rw [List.map_cons, List.map_cons, hits, ih.2]

/-- A search returns the page of what the backends return, in whatever order they do. -/
theorem search_eq (answering : List.Forall₂ Answers searcher.backends lists)
    (from_ : 0 ≤ query.offset) (some : 0 < query.limit)
    (complete : Complete searcher.backends arrivals) :
    (searcher.search query arrivals).map Results.hits =
      .ok (window query.offset.toNat query.limit.toNat
        (merge (windows query.offset.toNat query.limit.toNat lists))) := by
  obtain ⟨quiet, hits⟩ := answered answering from_ some
  rw [MultiSearcher.search]
  split_ifs with none
  · rw [List.isEmpty_iff] at none
    rw [none] at answering
    cases answering
    simp [merge, windows, window, HitMerger.add, HitMerger.sorted, HitMerger.ranked, newHitMerger,
      Except.map]
  · have all : (searcher.backends.mapIdx (resultOf query)).filter (fun result => result.err.isNone) =
        searcher.backends.mapIdx (resultOf query) := by
      rw [List.filter_eq_self]
      intro result listed
      obtain ⟨idx, inside, rfl⟩ := List.mem_mapIdx.mp listed
      rfl
    have occupied : (searcher.backends.mapIdx (resultOf query)).isEmpty = false := by
      simpa [List.isEmpty_iff] using none
    have merged : (searcher.backends.mapIdx (resultOf query)).foldl
        (fun merger result => merger.add result.results.hits) newHitMerger =
        newHitMerger.add (windows query.offset.toNat query.limit.toNat lists) := by
      have returned : (searcher.backends.mapIdx (resultOf query)).map
          (fun result => result.results.hits) =
          searcher.backends.map fun backend => (backend query).1.hits := by
        apply List.ext_getElem?
        intro idx
        simp [resultOf, Function.comp_def]
      rw [windows, ← hits, ← returned, HitMerger.add, List.foldl_flatten, List.foldl_map]
      rfl
    simp only [fanOut_eq quiet complete, all, occupied, merged]
    exact congrArg Except.ok (paginate_eq _ some)

/-- A search returns the page of the merged full lists exactly when the windows suffice. -/
theorem search_page_iff (answering : List.Forall₂ Answers searcher.backends lists)
    (from_ : 0 ≤ query.offset) (some : 0 < query.limit)
    (complete : Complete searcher.backends arrivals) :
    (searcher.search query arrivals).map Results.hits =
        .ok (window query.offset.toNat query.limit.toNat (merge lists.flatten)) ↔
      WindowsSuffice query.offset.toNat query.limit.toNat lists := by
  rw [search_eq answering from_ some complete, Except.ok.injEq]
  exact window_windows_iff

/-- Through a search of one backend, no page after the first is that of its documents. -/
theorem search_later_page {backend : Searcher Score Other Failure} {failFast : Bool}
    {list : List (Hit Score Other)} (answers : Answers backend list)
    (named : ∀ hit ∈ list, hitID hit ≠ []) (distinct : (list.map hitID).Nodup)
    (later : 0 < query.offset) (inside : query.offset < list.length) (some : 0 < query.limit) :
    ((MultiSearcher.mk [backend] failFast).search query [.answer 0]).map Results.hits ≠
      .ok (window query.offset.toNat query.limit.toNat (merge list)) := by
  have answering : List.Forall₂ Answers (MultiSearcher.mk [backend] failFast).backends [list] :=
    .cons answers .nil
  have complete : Complete (MultiSearcher.mk [backend] failFast).backends [.answer 0] := .refl _
  rw [search_eq answering later.le some complete, Ne, Except.ok.injEq]
  intro same
  refine not_suffice_single named distinct (by omega) (by omega) (by omega)
    (window_windows_iff.mp (same.trans ?_))
  rw [List.flatten_singleton]

/-- A backend that pages a list. -/
def paging (list : List (Hit Score Other)) : Searcher Score Other Failure := fun query =>
  ({ hits := window query.offset.toNat query.limit.toNat list }, none)

theorem answers_paging {list : List (Hit Score Other)}
    (descending : list.Pairwise fun first second => second.score ≤ first.score) :
    Answers (paging list : Searcher Score Other Failure) list :=
  ⟨descending, fun _ _ _ => ⟨rfl, rfl⟩⟩

/-- A hit for the document with the ID. -/
def found (id : String) (score : Nat) : Hit Nat Empty :=
    ⟨[(textBytes "id", .text (textBytes id))], score, []⟩

theorem search_page_first : ((MultiSearcher.mk
      [paging [found "a" 9, found "b" 5], (paging [found "c" 7] : Searcher Nat Empty Empty)] false).search
      ⟨2, 0⟩ [.answer 1, .answer 0]).map Results.hits =
        .ok (window 0 2 (merge [[found "a" 9, found "b" 5], [found "c" 7]].flatten)) ↔
    WindowsSuffice 0 2 [[found "a" 9, found "b" 5], [found "c" 7]] :=
  search_page_iff
    (.cons (answers_paging (by simp [found])) (.cons (answers_paging (by simp)) .nil))
    (by decide) (by decide) (List.Perm.swap _ _ _)

/-- The second page of a single backend is empty, although it lists a second document. -/
theorem second_page_empty : Answers (paging [found "a" 9, found "b" 5] : Searcher Nat Empty Empty)
      [found "a" 9, found "b" 5] ∧
    ((MultiSearcher.mk [(paging [found "a" 9, found "b" 5] : Searcher Nat Empty Empty)] false).search
      ⟨1, 1⟩ [.answer 0]).map Results.hits = .ok [] ∧
    window 1 1 (merge [[found "a" 9, found "b" 5]].flatten) = [found "b" 5] := by
  refine ⟨answers_paging (by simp [found]), ?_, ?_⟩
  · decide +kernel
  · have sorted : merge [[found "a" 9, found "b" 5]].flatten = [found "a" 9, found "b" 5] := by
      rw [merge, HitMerger.sorted, HitMerger.ranked, List.mergeSort_of_pairwise (by decide +kernel)]
      decide +kernel
    rw [sorted]
    rfl

theorem search_later_page_second :
    ((MultiSearcher.mk [(paging [found "a" 9, found "b" 5] : Searcher Nat Empty Empty)] false).search
      ⟨1, 1⟩ [.answer 0]).map Results.hits ≠
        .ok (window 1 1 (merge [found "a" 9, found "b" 5])) :=
  search_later_page (answers_paging (by simp [found])) (by decide +kernel) (by decide +kernel)
    (by decide) (by decide) (by decide)

end Search

end Golusoris.Search
