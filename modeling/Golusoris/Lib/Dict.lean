import Mathlib.Data.List.Pairwise
import Mathlib.Order.Defs.Unbundled
import Mathlib.Tactic.SplitIfs

/-!
# Maps as sorted lists

A dict is a finite map as the list of its entries with the keys in strict order,
so that equal maps are equal lists and a walk over the keys in order is a walk
over the list.
-/

namespace Golusoris.Lib

open List

structure Dict (Key Value : Type) [LT Key] where
  entries : List (Key × Value)
  sorted : entries.Pairwise fun first second => first.1 < second.1

namespace Dict

section Operations

variable {Key Value : Type} [LT Key]

theorem entries_inj {left right : Dict Key Value} : left.entries = right.entries ↔ left = right := by
  constructor
  · intro same
    cases left
    cases right
    cases same
    rfl
  · intro same
    rw [same]

instance decidableEq_dict [DecidableEq Key] [DecidableEq Value] : DecidableEq (Dict Key Value) :=
  fun _ _ => decidable_of_iff _ entries_inj

theorem sorted_nil : ([] : List (Key × Value)).Pairwise fun first second => first.1 < second.1 :=
  .nil

def empty : Dict Key Value := ⟨[], sorted_nil⟩

def get? [DecidableEq Key] (dict : Dict Key Value) (key : Key) : Option Value :=
  (dict.entries.find? fun entry => entry.1 = key).map Prod.snd

variable [DecidableLT Key]

/-- Put an entry in its place, instead of the one that has the key. -/
def place (key : Key) (value : Value) : List (Key × Value) → List (Key × Value)
  | [] => [(key, value)]
  | entry :: entries =>
      if key < entry.1 then (key, value) :: entry :: entries
      else if entry.1 < key then entry :: place key value entries
      else (key, value) :: entries

theorem mem_place {key : Key} {value : Value} {entries : List (Key × Value)} {entry : Key × Value}
    (found : entry ∈ place key value entries) : entry = (key, value) ∨ entry ∈ entries := by
  induction entries with
  | nil => exact .inl (mem_singleton.mp found)
  | cons first entries ih =>
    rw [place] at found
    split_ifs at found
    · exact mem_cons.mp found
    · rcases mem_cons.mp found with rfl | found
      · exact .inr mem_cons_self
      · exact (ih found).imp_right (mem_cons_of_mem _)
    · exact (mem_cons.mp found).imp_right (mem_cons_of_mem _)

variable [IsTrans Key (· < ·)] [@Std.Trichotomous Key (· < ·)]

theorem sorted_place (key : Key) (value : Value) {entries : List (Key × Value)}
    (sorted : entries.Pairwise fun first second => first.1 < second.1) :
    (place key value entries).Pairwise fun first second => first.1 < second.1 := by
  induction entries with
  | nil => exact pairwise_singleton _ _
  | cons first entries ih =>
    obtain ⟨above, rest⟩ := pairwise_cons.mp sorted
    rw [place]
    split_ifs with before after
    · refine pairwise_cons.mpr ⟨fun entry found => ?_, sorted⟩
      rcases mem_cons.mp found with rfl | found
      · exact before
      · exact IsTrans.trans _ _ _ before (above entry found)
    · refine pairwise_cons.mpr ⟨fun entry found => ?_, ih rest⟩
      rcases mem_place found with rfl | found
      · exact after
      · exact above entry found
    · have same : first.1 = key := Std.Trichotomous.trichotomous _ _ after before
      exact pairwise_cons.mpr ⟨fun entry found => same ▸ above entry found, rest⟩

def insert (key : Key) (value : Value) (dict : Dict Key Value) : Dict Key Value :=
  ⟨place key value dict.entries, sorted_place key value dict.sorted⟩

/-- The map of a list of entries, where a later one replaces an earlier one. -/
def ofList (entries : List (Key × Value)) : Dict Key Value :=
  entries.foldl (fun dict entry => dict.insert entry.1 entry.2) empty

end Operations

section Laws

variable {Key Value : Type} [LT Key] [DecidableEq Key]

@[simp] theorem get?_empty (key : Key) : (empty : Dict Key Value).get? key = none := rfl

variable [@Std.Irrefl Key (· < ·)]

/-- An entry is what its key has. -/
theorem get?_eq_some {dict : Dict Key Value} {key : Key} {value : Value} :
    dict.get? key = some value ↔ (key, value) ∈ dict.entries := by
  obtain ⟨entries, sorted⟩ := dict
  rw [get?]
  induction entries with
  | nil => simp
  | cons entry entries ih =>
    obtain ⟨above, rest⟩ := pairwise_cons.mp sorted
    obtain ⟨first, held⟩ := entry
    by_cases same : first = key
    · subst same
      have absent : (first, value) ∉ entries := fun found =>
        Std.Irrefl.irrefl first (above _ found)
      simp [absent, eq_comm]
    · have later := ih rest
      simpa [same, Ne.symm same] using later

theorem ext_get? [IsTrans Key (· < ·)] {left right : Dict Key Value}
    (same : ∀ key, left.get? key = right.get? key) : left = right := by
  have members : ∀ entry, entry ∈ left.entries ↔ entry ∈ right.entries := by
    rintro ⟨key, value⟩
    rw [← get?_eq_some, same key, get?_eq_some]
  have asymm : ∀ first second : Key × Value, first ∈ left.entries → second ∈ right.entries →
      first.1 < second.1 → second.1 < first.1 → first = second := by
    intro first second _ _ below above
    exact absurd (IsTrans.trans _ _ _ below above) (Std.Irrefl.irrefl _)
  have nodup : ∀ dict : Dict Key Value, dict.entries.Nodup := fun dict =>
    dict.sorted.imp fun below same => by
      rw [same] at below
      exact Std.Irrefl.irrefl _ below
  exact entries_inj.mp (((perm_ext_iff_of_nodup (nodup left) (nodup right)).mpr members).eq_of_pairwise
    asymm left.sorted right.sorted)

variable [DecidableLT Key] [IsTrans Key (· < ·)] [@Std.Trichotomous Key (· < ·)]

@[simp] theorem get?_insert (dict : Dict Key Value) (key other : Key) (value : Value) :
    (dict.insert key value).get? other = if other = key then some value else dict.get? other := by
  obtain ⟨entries, sorted⟩ := dict
  rw [get?, insert, get?]
  induction entries with
  | nil =>
    by_cases same : other = key
    · simp [place, same]
    · simp [place, same, Ne.symm same]
  | cons entry entries ih =>
    obtain ⟨above, rest⟩ := pairwise_cons.mp sorted
    have later := ih rest
    simp only [place] at later ⊢
    by_cases same : other = key
    · subst same
      rw [if_pos rfl] at later ⊢
      split_ifs with before after
      · simp
      · have differ : entry.1 ≠ other := fun same => Std.Irrefl.irrefl _ (same ▸ after)
        simpa [differ] using later
      · simp
    · rw [if_neg same] at later ⊢
      split_ifs with before after
      · simp [Ne.symm same]
      · by_cases here : entry.1 = other
        · simp [here]
        · simpa [here] using later
      · have equal : entry.1 = key := Std.Trichotomous.trichotomous _ _ after before
        have differ : entry.1 ≠ other := fun here => same (here.symm.trans equal)
        simp [Ne.symm same, differ]

/-- What a key has comes from the list. -/
theorem mem_of_get?_ofList {entries : List (Key × Value)} {key : Key} {value : Value}
    (found : (ofList entries).get? key = some value) : (key, value) ∈ entries := by
  have fold : ∀ dict : Dict Key Value,
      (entries.foldl (fun dict entry => dict.insert entry.1 entry.2) dict).get? key = some value →
        dict.get? key = some value ∨ (key, value) ∈ entries := by
    clear found
    induction entries with
    | nil => exact fun dict held => .inl held
    | cons entry entries ih =>
      intro dict held
      rcases ih _ held with inside | inside
      · rw [get?_insert] at inside
        split_ifs at inside with same
        · cases inside
          exact .inr (same ▸ mem_cons_self)
        · exact .inl inside
      · exact .inr (mem_cons_of_mem _ inside)
  rcases fold empty found with absent | inside
  · cases absent
  · exact inside

theorem get?_ofList {entries : List (Key × Value)} (distinct : (entries.map Prod.fst).Nodup)
    {key : Key} {value : Value} :
    (ofList entries).get? key = some value ↔ (key, value) ∈ entries := by
  have fold : ∀ dict : Dict Key Value, (∀ entry ∈ entries, dict.get? entry.1 = none) →
      ((entries.foldl (fun dict entry => dict.insert entry.1 entry.2) dict).get? key = some value ↔
        dict.get? key = some value ∨ (key, value) ∈ entries) := by
    intro dict absent
    induction entries generalizing dict with
    | nil => simp
    | cons entry entries ih =>
      obtain ⟨fresh, rest⟩ := nodup_cons.mp distinct
      rw [foldl_cons, ih rest]
      · obtain ⟨first, held⟩ := entry
        have unknown : dict.get? first = none := absent (first, held) mem_cons_self
        rw [get?_insert, mem_cons]
        by_cases same : key = first
        · subst same
          simp [unknown, eq_comm]
        · simp [same]
      · intro other found
        have differ : other.1 ≠ entry.1 := fun same =>
          fresh (same ▸ mem_map_of_mem found)
        rw [get?_insert, if_neg differ]
        exact absent other (mem_cons_of_mem _ found)
  rw [ofList, fold empty fun entry _ => get?_empty entry.1]
  simp

/-- The entries of a dict are its list. -/
theorem ofList_entries (dict : Dict Key Value) : ofList dict.entries = dict := by
  have distinct : (dict.entries.map Prod.fst).Nodup := pairwise_map.mpr (dict.sorted.imp
    fun below same => by
      rw [same] at below
      exact Std.Irrefl.irrefl _ below)
  apply ext_get?
  intro key
  apply Option.ext
  intro value
  exact (get?_ofList distinct).trans get?_eq_some.symm

end Laws

end Dict

end Golusoris.Lib
