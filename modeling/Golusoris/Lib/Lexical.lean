import Mathlib.Data.List.Infix
import Mathlib.Data.List.Sort
import Mathlib.Order.Defs.Unbundled
import Mathlib.Tactic.Common

/-!
# Strings in dictionary order

`Precedes` is the strict order that compares strings letter by letter. A string
precedes all its proper extensions, and what lies between a string and one of
its extensions extends it too. Two strings of which the first does not begin the
second keep their order whatever is appended to them.

`Leading` says that an ascending list is how the ascending listing of a set of
strings begins; `Leading.isPrefix` recovers the plain statement.
-/

namespace Golusoris.Lib

open List

variable {α : Type*} [LT α] {first second third : List α}

/-- Dictionary order. -/
def Precedes : List α → List α → Prop
  | _, [] => False
  | [], _ :: _ => True
  | head :: first, other :: second => head < other ∨ head = other ∧ Precedes first second

instance Precedes.decide [DecidableEq α] [DecidableLT α] : (first second : List α) → Decidable
    (Precedes first second)
  | [], [] => .isFalse nofun
  | _ :: _, [] => .isFalse nofun
  | [], _ :: _ => .isTrue trivial
  | _ :: first, _ :: second =>
    have := Precedes.decide first second
    inferInstanceAs (Decidable (_ ∨ _ ∧ _))

instance isStrictTotalOrder_uint8 : IsStrictTotalOrder UInt8 (· < ·) where
  irrefl := UInt8.lt_irrefl
  trans _ _ _ := UInt8.lt_trans
  trichotomous left right notLess notMore := by
    rw [UInt8.not_lt] at notLess notMore
    exact UInt8.le_antisymm notMore notLess

theorem Precedes.nil_left (before : Precedes first second) : Precedes [] second := by
  cases second with
  | nil => simp [Precedes] at before
  | cons => trivial

/-- The extensions of a string lie side by side. -/
theorem prefix_of_between (leads : first <+: third) (above : ¬ Precedes second first)
    (below : Precedes second third) : first <+: second := by
  induction first generalizing second third with
  | nil => exact nil_prefix
  | cons head first ih =>
    obtain ⟨rest, rfl⟩ := leads
    cases second with
    | nil => exact absurd trivial above
    | cons other second =>
      rcases below with less | ⟨rfl, below⟩
      · exact absurd (.inl less) above
      · refine cons_prefix_cons.mpr ⟨rfl, ih (prefix_append first rest) ?_ below⟩
        exact fun later => above (.inr ⟨rfl, later⟩)

/-- Strings that differ before the first one ends keep their order. -/
theorem Precedes.append (before : Precedes first second) (differs : ¬ first <+: second)
    (left right : List α) : Precedes (first ++ left) (second ++ right) := by
  induction first generalizing second with
  | nil => exact absurd nil_prefix differs
  | cons head first ih =>
    cases second with
    | nil => cases before
    | cons other second =>
      rcases before with less | ⟨rfl, before⟩
      · exact .inl less
      · refine .inr ⟨rfl, ih before fun leads => differs ?_⟩
        exact cons_prefix_cons.mpr ⟨rfl, leads⟩

variable [IsStrictTotalOrder α (· < ·)]

theorem Precedes.irrefl (text : List α) : ¬ Precedes text text := by
  induction text with
  | nil => exact nofun
  | cons head text ih =>
    rintro (less | ⟨-, later⟩)
    · exact irrefl_of (· < ·) head less
    · exact ih later

theorem Precedes.trans (before : Precedes first second) (after : Precedes second third) :
    Precedes first third := by
  induction first generalizing second third with
  | nil =>
    cases second with
    | nil => cases before
    | cons other second =>
      cases third with
      | nil => cases after
      | cons last third => trivial
  | cons head first ih =>
    cases second with
    | nil => cases before
    | cons other second =>
      cases third with
      | nil => cases after
      | cons last third =>
        rcases before with less | ⟨rfl, before⟩
        · rcases after with less' | ⟨rfl, -⟩
          · exact .inl (trans_of (· < ·) less less')
          · exact .inl less
        · rcases after with less' | ⟨rfl, after⟩
          · exact .inl less'
          · exact .inr ⟨rfl, ih before after⟩

theorem Precedes.total (first second : List α) :
    Precedes first second ∨ first = second ∨ Precedes second first := by
  induction first generalizing second with
  | nil =>
    cases second with
    | nil => exact .inr (.inl rfl)
    | cons other second => exact .inl trivial
  | cons head first ih =>
    cases second with
    | nil => exact .inr (.inr trivial)
    | cons other second =>
      rcases trichotomous_of (· < ·) head other with less | rfl | more
      · exact .inl (.inl less)
      · rcases ih second with before | rfl | after
        · exact .inl (.inr ⟨rfl, before⟩)
        · exact .inr (.inl rfl)
        · exact .inr (.inr (.inr ⟨rfl, after⟩))
      · exact .inr (.inr (.inl more))

theorem Precedes.asymm (before : Precedes first second) : ¬ Precedes second first :=
  fun after => Precedes.irrefl _ (before.trans after)

/-- An extension does not precede what it extends. -/
theorem not_precedes_of_isPrefix (leads : first <+: second) : ¬ Precedes second first := by
  induction first generalizing second with
  | nil =>
    cases second with
    | nil => exact nofun
    | cons => exact nofun
  | cons head first ih =>
    obtain ⟨rest, rfl⟩ := leads
    rintro (less | ⟨-, later⟩)
    · exact irrefl_of (· < ·) head less
    · exact ih (prefix_append first rest) later

theorem precedes_of_isPrefix (leads : first <+: second) (proper : first ≠ second) :
    Precedes first second := by
  rcases Precedes.total first second with before | same | after
  · exact before
  · exact absurd same proper
  · exact absurd after (not_precedes_of_isPrefix leads)

/-- What precedes a string precedes its extensions. -/
theorem Precedes.extend (before : Precedes first second) (leads : second <+: third) :
    Precedes first third := by
  by_cases proper : second = third
  · exact proper ▸ before
  · exact before.trans (precedes_of_isPrefix leads proper)

section Sorting

variable {β : Type*} [DecidableEq α] [DecidableLT α]

/-- The items with no one behind an item whose key comes later. -/
def sortBy (key : β → List α) (items : List β) : List β :=
  items.insertionSort fun left right => ¬ Precedes (key right) (key left)

variable {key : β → List α} {items : List β}

omit [IsStrictTotalOrder α (· < ·)] in
theorem mem_sortBy {item : β} : item ∈ sortBy key items ↔ item ∈ items := mem_insertionSort _

omit [IsStrictTotalOrder α (· < ·)] in
theorem length_sortBy : (sortBy key items).length = items.length := length_insertionSort _ items

/-- Items with different keys are in the order of their keys. -/
theorem pairwise_sortBy (different : items.Pairwise fun left right => key left ≠ key right) :
    (sortBy key items).Pairwise fun left right => Precedes (key left) (key right) := by
  have total : Std.Total fun left right => ¬ Precedes (key right) (key left) := by
    refine ⟨fun left right => ?_⟩
    by_cases before : Precedes (key right) (key left)
    · exact .inr before.asymm
    · exact .inl before
  have trans : IsTrans β fun left right => ¬ Precedes (key right) (key left) := by
    refine ⟨fun left middle right first second before => ?_⟩
    rcases Precedes.total (key left) (key middle) with less | same | more
    · exact second (before.trans less)
    · exact second (same ▸ before)
    · exact first more
  have sorted := pairwise_insertionSort (fun left right => ¬ Precedes (key right) (key left)) items
  have apart : (sortBy key items).Pairwise fun left right => key left ≠ key right :=
    (perm_insertionSort _ items).symm.pairwise different fun differ => differ.symm
  refine (sorted.and apart).imp ?_
  rintro left right ⟨behind, differ⟩
  rcases Precedes.total (key left) (key right) with less | same | more
  · exact less
  · exact absurd same differ
  · exact absurd more behind

end Sorting

/-- The list begins the ascending listing of the strings with a property. -/
structure Leading (Wanted : List α → Prop) (out : List (List α)) : Prop where
  ascending : out.Pairwise Precedes
  wanted : ∀ text ∈ out, Wanted text
  rest : ∀ text, Wanted text → text ∈ out ∨ ∀ earlier ∈ out, Precedes earlier text

variable {Wanted : List α → Prop} {out full : List (List α)}

theorem Leading.isPrefix (leading : Leading Wanted out) (ascending : full.Pairwise Precedes)
    (complete : ∀ text, text ∈ full ↔ Wanted text) : out <+: full := by
  induction out generalizing full Wanted with
  | nil => exact nil_prefix
  | cons text out ih =>
    obtain ⟨sorted, wanted, rest⟩ := leading
    obtain ⟨below, tail⟩ := pairwise_cons.mp sorted
    cases full with
    | nil =>
      have found := (complete text).mpr (wanted text mem_cons_self)
      cases found
    | cons least full =>
      obtain ⟨leastBelow, ascending⟩ := pairwise_cons.mp ascending
      -- The least string with the property comes first in both lists.
      have same : least = text := by
        have found := (complete text).mpr (wanted text mem_cons_self)
        rcases mem_cons.mp found with same | member
        · exact same.symm
        · have before := leastBelow text member
          rcases rest least ((complete least).mp mem_cons_self) with member | above
          · rcases mem_cons.mp member with same | member
            · exact same
            · exact absurd (below least member) before.asymm
          · exact absurd (above text mem_cons_self) before.asymm
      subst same
      refine cons_prefix_cons.mpr ⟨rfl, ?_⟩
      have apart : ∀ other ∈ full, other ≠ least :=
        fun other member equal => Precedes.irrefl _ (equal ▸ leastBelow other member)
      have apart' : ∀ other ∈ out, other ≠ least :=
        fun other member equal => Precedes.irrefl _ (equal ▸ below other member)
      have later : Leading (fun other => Wanted other ∧ other ≠ least) out := by
        refine ⟨tail, fun other member => ?_, ?_⟩
        · exact ⟨wanted other (mem_cons_of_mem _ member), apart' other member⟩
        · rintro other ⟨wantedOther, different⟩
          rcases rest other wantedOther with member | above
          · rcases mem_cons.mp member with same | member
            · exact absurd same different
            · exact .inl member
          · exact .inr fun earlier member => above earlier (mem_cons_of_mem _ member)
      refine ih later ascending fun other => ?_
      rw [← complete, mem_cons]
      constructor
      · intro member
        exact ⟨.inr member, apart other member⟩
      · rintro ⟨rfl | member, different⟩
        · exact absurd rfl different
        · exact member

/-- A listing that has everything is the whole listing. -/
theorem Leading.eq (leading : Leading Wanted out) (ascending : full.Pairwise Precedes)
    (complete : ∀ text, text ∈ full ↔ Wanted text) (all : ∀ text, Wanted text → text ∈ out) :
    out = full := by
  obtain ⟨rest, rfl⟩ := leading.isPrefix ascending complete
  cases rest with
  | nil => rw [append_nil]
  | cons text rest =>
    have wanted := (complete text).mp (by simp)
    have before := (pairwise_append.mp ascending).2.2 text (all text wanted) text mem_cons_self
    exact absurd before (Precedes.irrefl text)

end Golusoris.Lib
