import Mathlib.Algebra.GroupWithZero.Nat
import Mathlib.Data.List.Nodup
import Mathlib.Tactic.Common

/-! Cuts of lists: at a selected value that occurs once, around the last item, and
between lists that were joined; and lists without their repeated items. -/

namespace Golusoris.Lib

open List

/-- When the values selected from a list are distinct, an occurrence of one of
them cuts the list in only one way. -/
theorem cut_unique {α β : Type*} {select : α → Option β} {value : β} {first second : α} :
    ∀ {before before' after after' : List α},
      ((before ++ first :: after).filterMap select).Nodup →
      before ++ first :: after = before' ++ second :: after' →
      select first = some value → select second = some value →
      before = before' ∧ first = second ∧ after = after'
  | [], [], _, _, _, same, _, _ => by
    obtain ⟨rfl, rfl⟩ := List.cons.inj same
    exact ⟨rfl, rfl, rfl⟩
  | [], head :: before', after, after', distinct, same, atFirst, atSecond => by
    obtain ⟨rfl, rfl⟩ := List.cons.inj same
    exfalso
    simp [atFirst, atSecond] at distinct
  | head :: before, [], after, after', distinct, same, atFirst, atSecond => by
    obtain ⟨rfl, rfl⟩ := List.cons.inj same
    exfalso
    simp [atFirst, atSecond] at distinct
  | head :: before, head' :: before', after, after', distinct, same, atFirst, atSecond => by
    rw [cons_append, cons_append, List.cons.injEq] at same
    obtain ⟨rfl, same⟩ := same
    have rest : ((before ++ first :: after).filterMap select).Nodup := by
      cases selected : select head with
      | none => simpa [selected] using distinct
      | some other =>
        rw [cons_append, filterMap_cons_some selected] at distinct
        exact (nodup_cons.mp distinct).2
    obtain ⟨rfl, rfl, rfl⟩ := cut_unique rest same atFirst atSecond
    exact ⟨rfl, rfl, rfl⟩

theorem nodup_eraseDups {α : Type*} [BEq α] [LawfulBEq α] (items : List α) :
    items.eraseDups.Nodup := by
  match items with
  | [] => exact nodup_nil
  | item :: items =>
    rw [eraseDups_cons]
    refine nodup_cons.mpr ⟨fun again => ?_, nodup_eraseDups _⟩
    simpa using (mem_filter.mp (mem_eraseDups.mp again)).2
termination_by items.length
decreasing_by exact Nat.lt_succ_of_le (length_filter_le _ _)

/-- A cut of a list with one more item is at that item or cuts the list. -/
theorem snoc_eq_append_cons {α : Type*} {items before after : List α} {last item : α}
    (same : items ++ [last] = before ++ item :: after) :
    (after = [] ∧ items = before ∧ last = item) ∨
      ∃ rest, after = rest ++ [last] ∧ items = before ++ item :: rest := by
  rcases eq_nil_or_concat' after with rfl | ⟨rest, final, rfl⟩
  · obtain ⟨rfl, rfl⟩ := append_singleton_inj.1 same
    exact .inl ⟨rfl, rfl, rfl⟩
  · rw [← cons_append, ← append_assoc] at same
    obtain ⟨rfl, rfl⟩ := append_singleton_inj.1 same
    exact .inr ⟨rest, rfl, rfl⟩

/-- A prefix of a list with one more item is all of it or a prefix of the list. -/
theorem snoc_eq_append {α : Type*} {items before after : List α} {last : α}
    (same : items ++ [last] = before ++ after) :
    (after = [] ∧ before = items ++ [last]) ∨ ∃ rest, items = before ++ rest := by
  rcases eq_nil_or_concat' after with rfl | ⟨rest, final, rfl⟩
  · exact .inl ⟨rfl, by simpa using same.symm⟩
  · rw [← append_assoc] at same
    exact .inr ⟨rest, (append_singleton_inj.1 same).1⟩

section Joined

variable {α : Type*} [DecidableEq α] (separator : α)

/-- A separator stands in one of the joined lists or between two of them. -/
theorem count_intercalate {items : List (List α)} (some : items ≠ []) :
    ([separator].intercalate items).count separator + 1 =
      items.length + (items.map (List.count separator)).sum := by
  induction items with
  | nil => exact absurd rfl some
  | cons item rest ih =>
    cases rest with
    | nil => simp [Nat.add_comm]
    | cons next rest =>
      have further := ih (cons_ne_nil next rest)
      rw [intercalate_cons_cons, count_append, count_append,
        count_singleton_self, length_cons, map_cons, sum_cons]
      omega

/-- Lists without the separator are known from what they are joined to and from how
many they are. -/
theorem intercalate_inj {items others : List (List α)} (free : ∀ item ∈ items, separator ∉ item)
    (number : items.length = others.length)
    (same : [separator].intercalate items = [separator].intercalate others) : items = others := by
  cases items with
  | nil => exact (length_eq_zero_iff.mp number.symm).symm
  | cons item rest =>
    have some : others ≠ [] := by
      rintro rfl
      cases number
    have none : ((item :: rest).map (List.count separator)).sum = 0 := by
      rw [List.sum_eq_zero_iff_forall_eq_nat]
      intro count found
      obtain ⟨own, listed, rfl⟩ := mem_map.mp found
      exact count_eq_zero.mpr (free own listed)
    have own := count_intercalate separator (cons_ne_nil item rest)
    have theirs := count_intercalate separator some
    -- The others are joined by all the separators that are there.
    have also : (others.map (List.count separator)).sum = 0 := by
      rw [same] at own
      omega
    rw [← splitOn_intercalate separator free (cons_ne_nil item rest), same]
    apply splitOn_intercalate separator _ some
    intro other listed
    rw [List.sum_eq_zero_iff_forall_eq_nat] at also
    exact count_eq_zero.mp (also _ (mem_map_of_mem listed))

/-- A part between separators has none, and only what the list has. -/
theorem of_mem_splitOn {items part : List α} (listed : part ∈ items.splitOn separator) :
    separator ∉ part ∧ part ⊆ items := by
  induction items generalizing part with
  | nil =>
    rw [splitOn_nil, mem_singleton] at listed
    subst listed
    exact ⟨not_mem_nil, List.Subset.refl _⟩
  | cons item items ih =>
    rw [splitOn_cons_eq_if_modifyHead] at listed
    split_ifs at listed with found
    · obtain rfl | listed := mem_cons.mp listed
      · exact ⟨not_mem_nil, nil_subset _⟩
      · exact ⟨(ih listed).1, subset_cons_of_subset _ (ih listed).2⟩
    · have other : separator ≠ item := fun same => found (by simp [same])
      cases parts : items.splitOn separator with
      | nil => exact absurd parts (splitOn_ne_nil separator items)
      | cons first others =>
        rw [parts] at listed ih
        obtain rfl | listed := mem_cons.mp listed
        · obtain ⟨free, inside⟩ := ih mem_cons_self
          refine ⟨?_, cons_subset_cons item inside⟩
          simp only [mem_cons, not_or]
          exact ⟨other, free⟩
        · obtain ⟨free, inside⟩ := ih (mem_cons_of_mem first listed)
          exact ⟨free, subset_cons_of_subset item inside⟩

end Joined

end Golusoris.Lib
