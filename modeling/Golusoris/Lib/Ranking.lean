import Mathlib.Data.List.Nodup
import Mathlib.Data.List.Perm.Subperm
import Mathlib.Order.Defs.Unbundled
import Mathlib.Tactic.Common

/-!
# Places in a ranking

A ranking is a list in a strict order; the place of an item is the number of items
before it. When the items of one ranking stand for items of another that rank no
later, an item keeps its place if and only if nothing before it is lost.
-/

namespace Golusoris.Lib

open List

variable {α κ : Type*} {before : α → α → Prop} [DecidableRel before]

section Places

variable [IsStrictOrder α before] {items : List α} {item : α} {place : Nat}

theorem getElem?_countP (ranked : items.Pairwise before) (listed : item ∈ items) :
    items[items.countP fun other => before other item]? = some item := by
  induction items with
  | nil => cases listed
  | cons head items ih =>
    obtain ⟨leads, ranked⟩ := pairwise_cons.mp ranked
    obtain rfl | listed := mem_cons.mp listed
    · have none : (item :: items).countP (fun other => before other item) = 0 := by
        rw [countP_eq_zero]
        intro other found earlier
        obtain rfl | found := mem_cons.mp found
        · exact irrefl_of before other (of_decide_eq_true earlier)
        · exact asymm_of before (leads other found) (of_decide_eq_true earlier)
      rw [none]
      rfl
    · have one : (head :: items).countP (fun other => before other item) =
          items.countP (fun other => before other item) + 1 :=
        countP_cons_of_pos (decide_eq_true (leads item listed))
      rw [one]
      exact ih ranked listed

theorem countP_of_getElem? (ranked : items.Pairwise before) (found : items[place]? = some item) :
    items.countP (fun other => before other item) = place := by
  have again := getElem?_countP ranked (mem_of_getElem? found)
  have distinct : items.Nodup := ranked.imp fun {first second} earlier same => by
    subst same
    exact irrefl_of before first earlier
  obtain ⟨inside, -⟩ := List.getElem?_eq_some_iff.mp found
  exact ((List.getElem?_inj inside distinct).mp (found.trans again.symm)).symm

end Places

/-- One ranking stands for another: an item of the first has the key of an item of the
second that is before everything it is before. -/
structure StandsFor (before : α → α → Prop) (key : α → κ) (inner outer : List α) : Prop where
  ranked : inner.Pairwise before
  rankedOuter : outer.Pairwise before
  innerKeys : (inner.map key).Nodup
  outerKeys : (outer.map key).Nodup
  behind : ∀ item ∈ inner, ∃ other ∈ outer, key other = key item ∧
    ∀ third, before item third → before other third

namespace StandsFor

variable {key : α → κ} {inner outer : List α} {item : α} {place : Nat}

/-- The keys of what ranks before an item. -/
def earlierKeys (before : α → α → Prop) [DecidableRel before] (key : α → κ) (items : List α)
    (item : α) : List κ :=
  (items.filter fun other => before other item).map key

theorem length_earlierKeys (items : List α) :
    (earlierKeys before key items item).length = items.countP fun other => before other item := by
  rw [earlierKeys, length_map, countP_eq_length_filter]

theorem nodup_earlierKeys {items : List α} (keys : (items.map key).Nodup) :
    (earlierKeys before key items item).Nodup :=
  keys.sublist (filter_sublist.map key)

section

variable [IsStrictOrder α before]

omit [IsStrictOrder α before] in
/-- What ranks before an item in the inner ranking does so in the outer. -/
theorem earlierKeys_subset (stands : StandsFor before key inner outer) :
    earlierKeys before key inner item ⊆ earlierKeys before key outer item := by
  intro found listed
  obtain ⟨other, earlier, rfl⟩ := mem_map.mp listed
  obtain ⟨inside, earlier⟩ := mem_filter.mp earlier
  obtain ⟨same, outside, key, ahead⟩ := stands.behind other inside
  have also := ahead item (of_decide_eq_true earlier)
  exact mem_map.mpr ⟨same, mem_filter.mpr ⟨outside, decide_eq_true also⟩, key⟩

/-- An item of the outer ranking has the same place in the inner one if and only if it is
there, and for everything before it something before it. -/
theorem getElem?_iff (stands : StandsFor before key inner outer) (found : outer[place]? = some item) :
    inner[place]? = some item ↔ item ∈ inner ∧
      ∀ other ∈ outer, before other item →
        ∃ same ∈ inner, key same = key other ∧ before same item := by
  have own := countP_of_getElem? stands.rankedOuter found
  have subset : earlierKeys before key inner item ⊆ earlierKeys before key outer item :=
    stands.earlierKeys_subset
  have keys : (earlierKeys before key inner item).Nodup := nodup_earlierKeys stands.innerKeys
  constructor
  · intro same
    refine ⟨mem_of_getElem? same, fun other outside earlier => ?_⟩
    have inside := countP_of_getElem? stands.ranked same
    have perm := (subperm_of_subset keys subset).perm_of_length_le
      (by simp only [length_earlierKeys, own, inside, Nat.le_refl])
    have listed : key other ∈ earlierKeys before key inner item := perm.mem_iff.mpr
      (mem_map_of_mem (mem_filter.mpr ⟨outside, decide_eq_true earlier⟩))
    obtain ⟨same, inside, key⟩ := mem_map.mp listed
    obtain ⟨inside, earlier⟩ := mem_filter.mp inside
    exact ⟨same, inside, key, of_decide_eq_true earlier⟩
  · rintro ⟨inside, kept⟩
    have back : earlierKeys before key outer item ⊆ earlierKeys before key inner item := by
      intro found listed
      obtain ⟨other, earlier, rfl⟩ := mem_map.mp listed
      obtain ⟨outside, earlier⟩ := mem_filter.mp earlier
      obtain ⟨same, inside, key, earlier⟩ := kept other outside (of_decide_eq_true earlier)
      exact mem_map.mpr ⟨same, mem_filter.mpr ⟨inside, decide_eq_true earlier⟩, key⟩
    have less := (subperm_of_subset keys subset).length_le
    have more := (subperm_of_subset (nodup_earlierKeys stands.outerKeys) back).length_le
    rw [length_earlierKeys, length_earlierKeys, own] at less more
    have again := getElem?_countP stands.ranked inside
    rwa [Nat.le_antisymm less more] at again

end

omit [DecidableRel before] in
theorem length_le (stands : StandsFor before key inner outer) : inner.length ≤ outer.length := by
  have subset : inner.map key ⊆ outer.map key := by
    intro found listed
    obtain ⟨item, inside, rfl⟩ := mem_map.mp listed
    obtain ⟨other, outside, same, -⟩ := stands.behind item inside
    exact mem_map.mpr ⟨other, outside, same⟩
  simpa using (subperm_of_subset stands.innerKeys subset).length_le

end StandsFor

end Golusoris.Lib
