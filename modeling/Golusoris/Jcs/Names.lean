import Golusoris.Jcs.Layout

/-!
# Member names by code units

Names are compared by their UTF-16 code units, and no two texts have the same
ones. So the sorted members of an object have neighbours with equal units
exactly when two members have one name.
-/

namespace Golusoris.Jcs

open List
open Lib

/-- The units of a name. -/
def nameUnits (name : List Char) : List Nat := name.flatMap utf16Units

theorem units_encode (name : List Char) : units (Utf8.encode name) = nameUnits name := by
  rw [units, Utf8.decodeLossy_encode name _ (Nat.le_refl _), nameUnits]

theorem utf16Units_injective {first second : Char} {left right : List Nat}
    (same : utf16Units first ++ left = utf16Units second ++ right) :
    first = second ∧ left = right := by
  have validFirst := isValidChar_toNat first
  have validSecond := isValidChar_toNat second
  rw [Nat.isValidChar] at validFirst validSecond
  simp only [utf16Units] at same
  -- A unit of the basic plane is no surrogate, so the two runes have as many units.
  split_ifs at same with basic other other
  · obtain ⟨value, rest⟩ := List.cons.inj same
    exact ⟨Char.toNat_inj.mp value, rest⟩
  · obtain ⟨value, -⟩ := List.cons.inj same
    omega
  · obtain ⟨value, -⟩ := List.cons.inj same
    omega
  · obtain ⟨high, rest⟩ := List.cons.inj same
    obtain ⟨low, rest⟩ := List.cons.inj rest
    exact ⟨Char.toNat_inj.mp (by omega), rest⟩

theorem utf16Units_ne_nil (rune : Char) : utf16Units rune ≠ [] := by
  rw [utf16Units]
  split_ifs
  · exact cons_ne_nil _ _
  · exact cons_ne_nil _ _

theorem nameUnits_injective : Function.Injective nameUnits := by
  intro left
  induction left with
  | nil =>
    intro right same
    cases right with
    | nil => rfl
    | cons rune right =>
      exact absurd (append_eq_nil_iff.mp same.symm).1 (utf16Units_ne_nil rune)
  | cons rune left ih =>
    intro right same
    cases right with
    | nil => exact absurd (append_eq_nil_iff.mp same).1 (utf16Units_ne_nil rune)
    | cons other right =>
      obtain ⟨rfl, rest⟩ := utf16Units_injective same
      rw [ih rest]

/-- The members sort as their units do. -/
theorem pairwise_sortMembers (members : List Member) :
    (sortMembers members).Pairwise fun first second => first.units ≤ second.units :=
  pairwise_insertionSort _ _

theorem perm_sortMembers (members : List Member) : (sortMembers members).Perm members :=
  perm_insertionSort _ _

/-- In sorted members, no neighbours agree exactly when no two members do. -/
theorem repeatedMember_eq_none_iff {members : List Member}
    (sorted : members.Pairwise fun first second => first.units ≤ second.units) :
    repeatedMember members = none ↔ (members.map Member.units).Nodup := by
  induction members with
  | nil => simp [repeatedMember]
  | cons first members ih =>
    cases members with
    | nil => simp [repeatedMember]
    | cons second members =>
      obtain ⟨least, sorted⟩ := pairwise_cons.mp sorted
      have fresh : first.units ∉ (second :: members).map Member.units ↔
          first.units ≠ second.units := by
        rw [map_cons, mem_cons, not_or]
        refine ⟨And.left, fun differs => ⟨differs, fun found => ?_⟩⟩
        obtain ⟨member, among, same⟩ := mem_map.mp found
        have above := (pairwise_cons.mp sorted).1 member among
        have below := least second mem_cons_self
        exact differs (le_antisymm below (same ▸ above))
      rw [repeatedMember, map_cons, nodup_cons, fresh, ← ih sorted]
      by_cases same : first.units = second.units
      · simp [same]
      · simp [same]

theorem map_units_membersAt (base : Nat) (members : List (List Char × Json)) :
    (membersAt base members).map Member.units = (members.map Prod.fst).map nameUnits := by
  induction members generalizing base with
  | nil => rfl
  | cons member members ih => simp [membersAt, newMember, units_encode, ih]

/-- The check on closing an object fails exactly when two members have one name. -/
theorem repeatedMember_membersAt (base : Nat) (members : List (List Char × Json)) :
    repeatedMember (sortMembers (membersAt base members)) = none ↔
      (members.map Prod.fst).Nodup := by
  rw [repeatedMember_eq_none_iff (pairwise_sortMembers _),
    ((perm_sortMembers _).map Member.units).nodup_iff, map_units_membersAt,
    nodup_map_iff nameUnits_injective]

end Golusoris.Jcs
