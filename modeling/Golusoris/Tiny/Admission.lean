import Golusoris.Lib.EventStream
import Golusoris.Lib.Results
import Golusoris.Tiny.InputSize
import Mathlib.Algebra.Order.BigOperators.Group.List
import Mathlib.Algebra.Order.Group.Nat

/-!
# What a node admits

A node checks an input again after it was encoded and read back. The walk counts a
value when it is taken from the stack, but asks for room for its elements when they
are pushed, nil or not; so it can fail in one order of the maps and pass in another.
`peak` is what it needs in the worst order: the values counted before, and the room.
-/

namespace Golusoris.Tiny.Admission

open List
open Lib (Bytes textBytes)
open Lib.Json (marshalString quote quoteAscii quoteBytes quoteRune quotes unitEscape)
open Tiny.Json (marshalMembers length_marshalItems length_marshalMembers length_member)

variable {Number : Type}

theorem sizeOf_lt_of_mem {child value : Input Number} (inside : child ∈ value.children) :
    sizeOf child < sizeOf value :=
  Nat.lt_of_le_of_lt (le_sum_of_mem (mem_map_of_mem inside)) (sizes_children value)

/-- What holds of a value when it holds of the values inside holds of every value. -/
theorem Input.rec_children {Holds : Input Number → Prop}
    (step : ∀ value : Input Number, (∀ child ∈ value.children, Holds child) → Holds value)
    (value : Input Number) : Holds value :=
  step value fun child _ => Input.rec_children step child
termination_by sizeOf value
decreasing_by exact sizeOf_lt_of_mem ‹_›

def isNull : Input Number → Bool
  | .null => true
  | _ => false

def largest (items : List ℕ) : ℕ := items.foldr max 0

theorem largest_le {items : List ℕ} {bound : ℕ} :
    largest items ≤ bound ↔ ∀ item ∈ items, item ≤ bound := by
  induction items with
  | nil => simp [largest]
  | cons item items ih =>
    rw [forall_mem_cons, ← ih]
    exact Nat.max_le

theorem le_largest {items : List ℕ} {item : ℕ} (listed : item ∈ items) : item ≤ largest items :=
  largest_le.mp (Nat.le_refl _) item listed

/-- The values that the walk counts. -/
def counted (value : Input Number) : ℕ :=
  if isNull value then 0 else 1 + (value.children.attach.map fun child => counted child.1).sum
termination_by sizeOf value
decreasing_by exact sizeOf_lt_of_mem child.2

/-- How many values lie inside each other. -/
def levels (value : Input Number) : ℕ :=
  if isNull value then 0 else 1 + largest (value.children.attach.map fun child => levels child.1)
termination_by sizeOf value
decreasing_by exact sizeOf_lt_of_mem child.2

/-- The room that a value asks for its elements. -/
def asked : Input Number → ℕ
  | .slice items => items.length
  | .map entries => 2 * entries.length
  | _ => 0

/-- What a stack of values needs, the last one first, from what each counts and needs. -/
def stacked : List (ℕ × ℕ) → ℕ
  | [] => 0
  | (_, needed) :: rest => max (stacked rest) ((rest.map Prod.fst).sum + needed)

/-- What the walk needs in the worst order: of the elements of a map, the one that needs
most above what it counts comes last. -/
def peak (value : Input Number) : ℕ :=
  match value with
  | .null => 0
  | .slice items =>
      1 + max items.length (stacked (items.attach.map fun item => (counted item.1, peak item.1)))
  | .map entries =>
      1 + max (2 * entries.length) (((Input.map entries).children.map counted).sum +
        largest (entries.attach.map fun entry => peak entry.1.2 - counted entry.1.2 - 1))
  | _ => 1
termination_by sizeOf value
decreasing_by
  · exact sizeOf_lt_of_mem item.2
  · exact sizeOf_lt_of_mem (List.mem_flatMap.mpr ⟨entry.1, entry.2, by simp⟩)

theorem counted_eq {value : Input Number} (some : isNull value = false) :
    counted value = 1 + (value.children.map counted).sum := by
  rw [counted, some, attach_map_val (f := counted)]
  rfl

theorem levels_eq {value : Input Number} (some : isNull value = false) :
    levels value = 1 + largest (value.children.map levels) := by
  rw [levels, some, attach_map_val (f := levels)]
  rfl

theorem eq_null {value : Input Number} (null : isNull value = true) : value = .null := by
  cases value with
  | null => rfl
  | _ => cases null

@[simp] theorem counted_null : counted (.null : Input Number) = 0 := by
  rw [counted]
  rfl

@[simp] theorem levels_null : levels (.null : Input Number) = 0 := by
  rw [levels]
  rfl

@[simp] theorem peak_null : peak (.null : Input Number) = 0 := by rw [peak]

/-- What a value counts, and what it needs. -/
def measure (need : Input Number → ℕ) (value : Input Number) : ℕ × ℕ := (counted value, need value)

/-- What a value needs above what it and a key count. -/
def gap (value : Input Number) : ℕ := peak value - counted value - 1

variable (items : List (Input Number))

theorem peak_slice :
    peak (.slice items) = 1 + max items.length (stacked (items.map (measure peak))) := by
  have same : items.attach.map (fun item => (counted item.1, peak item.1)) = items.map (measure peak) :=
    attach_map_val (f := measure peak)
  rw [peak, same]

variable (entries : List (Bytes × Input Number))

theorem peak_map :
    peak (.map entries) = 1 + max (2 * entries.length)
      (((Input.map entries).children.map counted).sum +
        largest (entries.map fun entry => gap entry.2)) := by
  have same : entries.attach.map (fun entry => peak entry.1.2 - counted entry.1.2 - 1) =
      entries.map fun entry => gap entry.2 :=
    attach_map_val (f := fun entry : Bytes × Input Number => gap entry.2)
  rw [peak, same]

theorem map_fst_measure (need : Input Number → ℕ) (items : List (Input Number)) :
    (items.map (measure need)).map Prod.fst = items.map counted := by
  rw [map_map]
  rfl

variable {items : List (Input Number)}

/-- Counting all of them is part of what a stack needs. -/
theorem sum_le_stacked {need : Input Number → ℕ} (each : ∀ item ∈ items, counted item ≤ need item) :
    (items.map counted).sum ≤ stacked (items.map (measure need)) := by
  induction items with
  | nil => exact Nat.zero_le _
  | cons item items ih =>
    have own := each item mem_cons_self
    have last : (items.map counted).sum + need item ≤ stacked ((item :: items).map (measure need)) := by
      rw [map_cons, stacked, map_fst_measure]
      exact Nat.le_max_right _ _
    rw [map_cons, sum_cons]
    omega

theorem counted_le_peak (value : Input Number) : counted value ≤ peak value := by
  induction value using Input.rec_children with
  | step value ih =>
    cases value with
    | null => simp
    | slice items =>
      have all := sum_le_stacked ih
      rw [counted_eq rfl, peak_slice]
      exact Nat.add_le_add_left (Nat.le_trans all (Nat.le_max_right _ _)) 1
    | map entries =>
      rw [counted_eq rfl, peak_map]
      exact Nat.add_le_add_left (Nat.le_trans (Nat.le_add_right _ _) (Nat.le_max_right _ _)) 1
    | _ =>
      rw [counted_eq rfl, peak]
      · exact Nat.le_refl 1
      all_goals simp

/-- The entries with the largest gap are pushed first, so that they are counted last. -/
def hardest : RangeOrder Number where
  arrange _ entries := entries.mergeSort fun left right => decide (gap right.2 ≤ gap left.2)
  perm _ entries := List.mergeSort_perm entries _

/-- What the entries of a map need in their order. -/
def stackedEntries (entries : List (Bytes × Input Number)) : ℕ :=
  stacked ((Input.map entries).children.map (measure peak))

variable (entry : Bytes × Input Number)

theorem children_cons (entries : List (Bytes × Input Number)) :
    (Input.map (entry :: entries)).children =
      .string entry.1 :: entry.2 :: (Input.map entries).children := rfl

theorem measure_key (key : Bytes) : measure peak (.string key : Input Number) = (1, 1) := by
  rw [measure, counted_eq rfl, peak]
  · rfl
  all_goals simp

theorem sum_counted_cons (entries : List (Bytes × Input Number)) :
    ((Input.map (entry :: entries)).children.map counted).sum =
      1 + (counted entry.2 + ((Input.map entries).children.map counted).sum) := by
  have key := congrArg Prod.fst (@measure_key Number entry.1)
  rw [children_cons, map_cons, sum_cons, map_cons, sum_cons]
  exact congrArg (· + _) key

theorem stackedEntries_cons (entries : List (Bytes × Input Number)) :
    stackedEntries (entry :: entries) = max (max (stackedEntries entries)
      (((Input.map entries).children.map counted).sum + peak entry.2))
      (counted entry.2 + ((Input.map entries).children.map counted).sum + 1) := by
  rw [stackedEntries, children_cons, map_cons, map_cons, measure_key, stacked, stacked,
    map_fst_measure, map_cons, sum_cons, map_fst_measure]
  rfl

/-- No order needs more than the counted values and the largest gap. -/
theorem stackedEntries_le {entries : List (Bytes × Input Number)} {bound : ℕ}
    (each : ∀ entry ∈ entries, gap entry.2 ≤ bound) :
    stackedEntries entries ≤ ((Input.map entries).children.map counted).sum + bound := by
  induction entries with
  | nil => exact Nat.zero_le _
  | cons entry entries ih =>
    obtain ⟨own, each⟩ := forall_mem_cons.mp each
    have rest := ih each
    have above : peak entry.2 ≤ counted entry.2 + 1 + bound := by
      rw [gap] at own
      omega
    rw [stackedEntries_cons, sum_counted_cons]
    omega

/-- An order that starts with the largest gap needs that much. -/
theorem le_stackedEntries {entry : Bytes × Input Number} {entries : List (Bytes × Input Number)} :
    ((Input.map (entry :: entries)).children.map counted).sum + gap entry.2 ≤
      stackedEntries (entry :: entries) := by
  rw [stackedEntries_cons, sum_counted_cons, gap]
  omega

variable (order : RangeOrder Number) (values : ℕ)

theorem sum_ranged (value : Input Number) :
    ((order.ranged values value).children.map counted).sum = (value.children.map counted).sum :=
  ((children_ranged order values value).map counted).sum_eq

/-- In no order a value needs more than its peak. -/
theorem stacked_ranged_le {value : Input Number} (some : isNull value = false) :
    1 + max (asked value) (stacked ((order.ranged values value).children.map (measure peak))) ≤
      peak value := by
  cases value with
  | null => cases some
  | slice items =>
    rw [peak_slice]
    exact Nat.le_refl _
  | map entries =>
    have gaps : ∀ entry ∈ order.arrange values entries, gap entry.2 ≤
        largest (entries.map fun entry => gap entry.2) := fun entry listed =>
      le_largest (mem_map_of_mem ((order.perm values entries).subset listed))
    have bound := stackedEntries_le gaps
    rw [show Input.map (order.arrange values entries) = order.ranged values (.map entries) from rfl,
      sum_ranged] at bound
    rw [peak_map]
    exact Nat.add_le_add_left (max_le_max (Nat.le_refl _) bound) 1
  | _ =>
    rw [peak]
    · exact Nat.le_refl 1
    all_goals simp

/-- In the hardest order it needs all of it. -/
theorem peak_le_hardest {value : Input Number} (some : isNull value = false) :
    peak value ≤
      1 + max (asked value) (stacked ((hardest.ranged values value).children.map (measure peak))) := by
  cases value with
  | null => cases some
  | slice items =>
    rw [peak_slice]
    exact Nat.le_refl _
  | map entries =>
    have same := sum_ranged hardest values (.map entries)
    have order : (hardest.arrange values entries).Pairwise fun left right =>
        gap right.2 ≤ gap left.2 := by
      have sorted := @pairwise_mergeSort _
        (fun left right : Bytes × Input Number => decide (gap right.2 ≤ gap left.2))
        (fun first second third => by simpa using fun front back => Nat.le_trans back front)
        (fun first second => by simpa using Nat.le_total _ _) entries
      exact sorted.imp of_decide_eq_true
    have listed := hardest.perm values entries
    have enough : ((Input.map entries).children.map counted).sum +
        largest (entries.map fun entry => gap entry.2) ≤
          stacked ((hardest.ranged values (.map entries)).children.map (measure peak)) := by
      rw [← same]
      change _ + _ ≤ stackedEntries (hardest.arrange values entries)
      rw [show hardest.ranged values (.map entries) = .map (hardest.arrange values entries) from rfl]
      generalize hardest.arrange values entries = arranged at order listed
      cases arranged with
      | nil =>
        rw [listed.symm.eq_nil]
        exact Nat.zero_le _
      | cons first rest =>
        have most : largest (entries.map fun entry => gap entry.2) ≤ gap first.2 := by
          rw [largest_le, forall_mem_map]
          intro entry member
          rcases mem_cons.mp (listed.symm.subset member) with rfl | later
          · exact Nat.le_refl _
          · exact rel_of_pairwise_cons order later
        exact Nat.le_trans (Nat.add_le_add_left most _) le_stackedEntries
    rw [peak_map]
    exact Nat.add_le_add_left (max_le_max (Nat.le_refl _) enough) 1
  | _ =>
    rw [peak]
    · exact Nat.le_refl 1
    all_goals simp

/-- In an order a value needs that much at least. -/
structure Needs (order : RangeOrder Number) (need : Input Number → ℕ) : Prop where
  null : need .null = 0
  counted_le : ∀ value, counted value ≤ need value
  le_stacked : ∀ values {value}, isNull value = false → need value ≤
    1 + max (asked value) (stacked ((order.ranged values value).children.map (measure need)))

theorem needs_hardest : Needs (@hardest Number) peak :=
  ⟨peak_null, counted_le_peak, peak_le_hardest⟩

/-- No scalar in the value is over the limit. -/
inductive Small (maxBytes : ℕ) : Input Number → Prop
  | mk {value : Input Number} (own : scalarExceeds maxBytes value = false)
      (inside : ∀ child ∈ value.children, Small maxBytes child) : Small maxBytes value

/-- There is room for what a value at a depth needs, after so many values. -/
structure Fits (need : Input Number → ℕ) (maxBytes values depth : ℕ) (value : Input Number) :
    Prop where
  room : values + need value ≤ maxInputJSONValues
  shallow : depth + levels value ≤ maxInputJSONDepth + 1
  small : Small maxBytes value

section Walking

variable {order : RangeOrder Number} {need : Input Number → ℕ} {maxBytes values depth : ℕ}

def frames (depth : ℕ) (items : List (Input Number)) : List (Frame Number) :=
  (items.map fun item => ⟨item, depth⟩).reverse

variable {stack : List (Frame Number)}

theorem walk_null :
    walk order maxBytes values (⟨.null, depth⟩ :: stack) = walk order maxBytes values stack := by
  rw [walk]

theorem walk_cons {value : Input Number} (some : isNull value = false) :
    walk order maxBytes values (⟨value, depth⟩ :: stack) =
      (visit order maxBytes (values + 1) depth value).bind fun pushed =>
        walk order maxBytes (values + 1) (pushed ++ stack) := by
  have other (level : ℕ) : (⟨value, depth⟩ : Frame Number) = ⟨.null, level⟩ → False := by
    rintro ⟨⟩
    cases some
  rw [walk]
  · split
    · rename_i failed
      rw [failed]
      rfl
    · rename_i pushed visited
      rw [visited]
      rfl
  · exact other

theorem roomy_iff {value : Input Number} (within : values ≤ maxInputJSONValues) :
    roomy (maxInputJSONValues - values) value ↔ values + asked value ≤ maxInputJSONValues := by
  cases value with
  | _ =>
    simp only [roomy, asked, decide_eq_true_eq, true_iff]
    omega

/-- A visit passes if there is room for the value and its elements. -/
theorem visit_ok {value : Input Number} {pushed : List (Frame Number)} :
    visit order maxBytes values depth value = .ok pushed ↔
      (values + asked value ≤ maxInputJSONValues ∧ depth ≤ maxInputJSONDepth ∧
        scalarExceeds maxBytes value = false) ∧
      frames (depth + 1) (order.ranged values value).children = pushed := by
  rw [visit_eq_ok]
  refine and_congr_left' ⟨?_, ?_⟩
  · rintro ⟨within, shallow, small, room⟩
    exact ⟨(roomy_iff within).mp room, shallow, small⟩
  · rintro ⟨room, shallow, small⟩
    have within : values ≤ maxInputJSONValues := by omega
    exact ⟨within, shallow, small, (roomy_iff within).mpr room⟩

/-- Values that pass one by one pass together, if there is room for the stack. -/
theorem walk_frames
    (each : ∀ item ∈ items, ∀ (values : ℕ) (stack : List (Frame Number)),
      values + peak item ≤ maxInputJSONValues →
        walk order maxBytes values (⟨item, depth⟩ :: stack) =
          walk order maxBytes (values + counted item) stack)
    (room : values + stacked (items.map (measure peak)) ≤ maxInputJSONValues) :
    walk order maxBytes values (frames depth items ++ stack) =
      walk order maxBytes (values + (items.map counted).sum) stack := by
  induction items generalizing stack with
  | nil => rfl
  | cons item items ih =>
    obtain ⟨own, each⟩ := forall_mem_cons.mp each
    rw [map_cons, measure, stacked, map_fst_measure] at room
    have split : frames depth (item :: items) ++ stack =
        frames depth items ++ ⟨item, depth⟩ :: stack := by simp [frames]
    rw [split, ih each (by omega), own _ _ (by omega), map_cons, sum_cons,
      Nat.add_assoc, Nat.add_comm (counted item)]

/-- In every order a value passes for which there is room in the worst one. -/
theorem walk_of_fits {value : Input Number} (fits : Fits peak maxBytes values depth value) :
    walk order maxBytes values (⟨value, depth⟩ :: stack) =
      walk order maxBytes (values + counted value) stack := by
  induction value using Input.rec_children generalizing values depth stack with
  | step value ih =>
    cases null : isNull value with
    | true => rw [eq_null null, walk_null, counted_null, Nat.add_zero]
    | false =>
      obtain ⟨room, shallow, ⟨own, inside⟩⟩ := fits
      have need := stacked_ranged_le order (values + 1) null
      rw [levels_eq null] at shallow
      have visited : visit order maxBytes (values + 1) depth value =
          .ok (frames (depth + 1) (order.ranged (values + 1) value).children) :=
        visit_ok.mpr ⟨⟨by omega, by omega, own⟩, rfl⟩
      have listed := (children_ranged order (values + 1) value).subset
      rw [walk_cons null, visited]
      change walk order maxBytes _ _ = _
      rw [walk_frames _ (by omega), sum_ranged, counted_eq null, ← Nat.add_assoc]
      intro child member values stack room
      have deep := le_largest (mem_map_of_mem (f := levels) (listed member))
      exact ih child (listed member) ⟨room, by omega, inside child (listed member)⟩

theorem fits_of_frames (needs : Needs order need)
    (each : ∀ item ∈ items, ∀ (values : ℕ) (stack : List (Frame Number)),
      values ≤ maxInputJSONValues → walk order maxBytes values (⟨item, depth⟩ :: stack) = .ok () →
        Fits need maxBytes values depth item ∧
          walk order maxBytes (values + counted item) stack = .ok ())
    (within : values ≤ maxInputJSONValues)
    (passed : walk order maxBytes values (frames depth items ++ stack) = .ok ()) :
    (values + stacked (items.map (measure need)) ≤ maxInputJSONValues ∧
      ∀ item ∈ items, depth + levels item ≤ maxInputJSONDepth + 1 ∧ Small maxBytes item) ∧
      walk order maxBytes (values + (items.map counted).sum) stack = .ok () := by
  induction items generalizing stack with
  | nil => exact ⟨⟨by simpa [stacked] using within, by simp⟩, passed⟩
  | cons item items ih =>
    obtain ⟨own, each⟩ := forall_mem_cons.mp each
    have split : frames depth (item :: items) ++ stack =
        frames depth items ++ ⟨item, depth⟩ :: stack := by simp [frames]
    rw [split] at passed
    obtain ⟨⟨room, rest⟩, passed⟩ := ih each passed
    have sum := sum_le_stacked fun item (_ : item ∈ items) => needs.counted_le item
    obtain ⟨fits, passed⟩ := own _ _ (by omega) passed
    have last := fits.room
    refine ⟨⟨?_, forall_mem_cons.mpr ⟨⟨fits.shallow, fits.small⟩, rest⟩⟩, ?_⟩
    · rw [map_cons, measure, stacked, map_fst_measure]
      omega
    · rwa [map_cons, sum_cons, Nat.add_comm (counted item), ← Nat.add_assoc]

/-- Where a value passes there was room for what it needs in that order. -/
theorem fits_of_walk (needs : Needs order need) {value : Input Number}
    (within : values ≤ maxInputJSONValues) (shallow : depth ≤ maxInputJSONDepth + 1)
    (passed : walk order maxBytes values (⟨value, depth⟩ :: stack) = .ok ()) :
    Fits need maxBytes values depth value ∧
      walk order maxBytes (values + counted value) stack = .ok () := by
  induction value using Input.rec_children generalizing values depth stack with
  | step value ih =>
    cases null : isNull value with
    | true =>
      rw [eq_null null] at passed ⊢
      rw [walk_null] at passed
      refine ⟨⟨by simpa [needs.null] using within, by simpa using shallow, ⟨rfl, by simp [Input.children]⟩⟩, ?_⟩
      rwa [counted_null]
    | false =>
      rw [walk_cons null] at passed
      obtain ⟨pushed, visited, passed⟩ := Lib.exists_of_bind_eq_ok passed
      obtain ⟨⟨room, deep, own⟩, rfl⟩ := visit_ok.mp visited
      have listed := children_ranged order (values + 1) value
      obtain ⟨⟨inner, inside⟩, passed⟩ := fits_of_frames needs
        (fun child member values stack within passed =>
          ih child (listed.subset member) within (by omega) passed) (by omega) passed
      have enough := needs.le_stacked (values + 1) null
      rw [sum_ranged, Nat.add_assoc, ← counted_eq null] at passed
      refine ⟨⟨by omega, ?_, ⟨own, fun child member =>
        (inside child (listed.symm.subset member)).2⟩⟩, passed⟩
      have below : largest (value.children.map levels) ≤ maxInputJSONDepth - depth := by
        rw [largest_le, forall_mem_map]
        intro child member
        have one := (inside child (listed.symm.subset member)).1
        omega
      rw [levels_eq null]
      omega

end Walking

theorem asciiJSONWidth_eq (char : UInt8) : asciiJSONWidth char = (quoteAscii char).length := by
  have all : ∀ n < 256, asciiJSONWidth (UInt8.ofNat n) = (quoteAscii (UInt8.ofNat n)).length := by
    decide +kernel
  simpa using all char.toNat char.toNat_lt

theorem quoteBytes_ascii {char : UInt8} (ascii : char < 0x80) (rounds : ℕ) (rest : Bytes) :
    quoteBytes (rounds + 1) (char :: rest) = quoteAscii char ++ quoteBytes rounds rest := by
  have small : char.toNat < 0x80 := UInt8.lt_iff_toNat_lt.mp ascii
  have value : (Char.ofNat char.toNat).toNat = char.toNat := by
    rw [Char.ofNat, dif_pos (Or.inl (by omega))]
    rfl
  rw [quoteBytes, Lib.EventStream.decodeRune_ascii ascii]
  simp only [Lib.EventStream.utf8Size_ascii ascii, drop_one, tail_cons]
  rw [quoteRune, value, if_pos small, UInt8.ofNat_toNat]

/-- A character counts for what is written for it at most. -/
theorem charWidths_quote (rounds : ℕ) (char : UInt8) (rest : Bytes) :
    ∃ head, quoteBytes (rounds + 1) (char :: rest) =
        head ++ quoteBytes rounds ((char :: rest).drop (charWidths (char :: rest)).2) ∧
      (charWidths (char :: rest)).1 ≤ head.length := by
  by_cases ascii : char < 0x80
  · rw [charWidths, if_pos ascii]
    exact ⟨_, quoteBytes_ascii ascii rounds rest, Nat.le_of_eq (asciiJSONWidth_eq char)⟩
  · rw [quoteBytes, charWidths, if_neg ascii]
    cases read : Lib.Utf8.decodeRune (char :: rest) with
    | none => exact ⟨_, rfl, by simp [runeJSONWidth, unitEscape]⟩
    | some rune =>
      obtain ⟨more, whole⟩ := Lib.Utf8.decodeRune_eq_some read
      have wide : ¬rune.toNat < 0x80 := by
        intro small
        rw [Lib.Utf8.encodeChar_ascii small] at whole
        obtain ⟨rfl, -⟩ := List.cons.inj whole
        exact ascii (UInt8.lt_iff_toNat_lt.mpr (by
          rw [UInt8.toNat_ofNat', Nat.mod_eq_of_lt (by omega)]
          exact small))
      refine ⟨_, rfl, ?_⟩
      simp only [runeJSONWidth, quoteRune, if_neg wide]
      split_ifs
      · exact Nat.le_refl _
      · exact Nat.le_of_eq (String.length_utf8EncodeChar rune).symm

theorem exceedsFrom_eq_false {limit rounds encodedBytes : ℕ} {text : Bytes}
    (room : encodedBytes + (quoteBytes rounds text).length ≤ limit) :
    exceedsFrom limit rounds encodedBytes text = false := by
  induction rounds generalizing encodedBytes text with
  | zero => simpa [exceedsFrom, quoteBytes] using room
  | succ rounds ih =>
    cases text with
    | nil => simpa [exceedsFrom, quoteBytes] using room
    | cons char rest =>
      obtain ⟨head, written, width⟩ := charWidths_quote rounds char rest
      rw [written, length_append] at room
      rw [exceedsFrom, if_neg (by omega)]
      exact ih (by omega)

theorem length_marshalString (value : Bytes) :
    (marshalString value).length = 2 + (quote value).length := by
  rw [marshalString, quotes, length_cons, length_append, length_singleton]
  omega

theorem jsonStringExceeds_eq_false {value : Bytes} {limit : ℕ}
    (room : (marshalString value).length ≤ limit) : jsonStringExceeds value limit = false :=
  exceedsFrom_eq_false (by rwa [← quote, ← length_marshalString])

section Encoding

variable (codec : Codec Number)

theorem encodeAll_eq : encodeAll codec items = items.map (encode codec) := by
  induction items with
  | nil => rfl
  | cons item items ih => rw [encodeAll, ih, map_cons]

theorem encodeEntries_eq :
    encodeEntries codec entries = entries.map fun entry => (entry.1, encode codec entry.2) := by
  induction entries with
  | nil => rfl
  | cons entry entries ih =>
    obtain ⟨key, value⟩ := entry
    rw [encodeEntries, ih, map_cons]

theorem decodedAll_eq : decodedAll codec items = items.map (decoded codec) := by
  induction items with
  | nil => rfl
  | cons item items ih => rw [decodedAll, ih, map_cons]

theorem decodedEntries_eq :
    decodedEntries codec entries = entries.map fun entry => (entry.1, decoded codec entry.2) := by
  induction entries with
  | nil => rfl
  | cons entry entries ih =>
    obtain ⟨key, value⟩ := entry
    rw [decodedEntries, ih, map_cons]

theorem length_encode_slice :
    (encode codec (.slice items)).length = Tiny.Json.frame items.length +
      (items.map fun item => (encode codec item).length).sum := by
  rw [encode, encodeAll_eq, length_marshalItems, length_map, map_map]
  rfl

theorem length_encode_map :
    (encode codec (.map entries)).length = Tiny.Json.frame entries.length + (entries.map fun entry =>
      (marshalString entry.1).length + 1 + (encode codec entry.2).length).sum := by
  rw [encode, encodeEntries_eq, length_marshalMembers, length_map, map_map]
  simp only [length_member, Function.comp_def]

variable {codec}

/-- A value that is read back has no scalar longer than its text. -/
theorem small_of_encode {maxBytes : ℕ} {value : Input Number} (untyped : Untyped value)
    (room : (encode codec value).length ≤ maxBytes) : Small maxBytes value := by
  have key {value : Bytes} (room : (marshalString value).length ≤ maxBytes) :
      Small maxBytes (.string value : Input Number) :=
    ⟨jsonStringExceeds_eq_false room, fun child inside => absurd inside (not_mem_nil)⟩
  induction untyped with
  | string value => exact key (by rwa [encode] at room)
  | @slice items each ih =>
    rw [length_encode_slice] at room
    refine ⟨rfl, fun child (inside : child ∈ items) => ih child inside ?_⟩
    have part := le_sum_of_mem (mem_map_of_mem (f := fun item =>
      (encode codec item).length) inside)
    omega
  | map each ih =>
    rw [length_encode_map] at room
    refine ⟨rfl, fun child inside => ?_⟩
    obtain ⟨entry, listed, inside⟩ := mem_flatMap.mp inside
    have part := le_sum_of_mem (mem_map_of_mem (f := fun entry : Bytes × Input Number =>
      (marshalString entry.1).length + 1 + (encode codec entry.2).length) listed)
    simp only [mem_cons, not_mem_nil, or_false] at inside
    rcases inside with rfl | rfl
    · exact key (by omega)
    · exact ih entry listed (by omega)
  | _ => exact ⟨rfl, fun child inside => absurd inside (not_mem_nil)⟩

theorem lastMembers_sublist {Value : Type} (entries : List (Bytes × Value)) :
    (lastMembers entries).Sublist entries := by
  induction entries with
  | nil => exact .slnil
  | cons entry entries ih =>
    rw [lastMembers]
    split_ifs
    · exact ih.cons entry
    · exact ih.cons_cons entry

/-- A member that is read back was written. -/
theorem of_mem_readMembers {Value : Type} {entries : List (Bytes × Value)} {entry : Bytes × Value}
    (listed : entry ∈ readMembers entries) :
    ∃ written ∈ entries, entry = (Lib.Utf8.coerce written.1, written.2) := by
  obtain ⟨written, member, rfl⟩ := mem_map.mp ((lastMembers_sublist _).subset listed)
  exact ⟨written, (mergeSort_perm entries _).subset member, rfl⟩

theorem untyped_decoded (codec : Codec Number) (value : Input Number) :
    Untyped (decoded codec value) := by
  induction value using Input.rec_children with
  | step value ih =>
    cases value with
    | null | nilSlice | nilMap => exact .null
    | bool value => exact .bool value
    | number value => exact .number _
    | string value => exact .string _
    | bytes value =>
      cases value with
      | none => exact .null
      | some value => exact .string _
    | raw text => exact codec.untyped_untyped text
    | slice items =>
      rw [decoded, decodedAll_eq]
      exact .slice (forall_mem_map.mpr ih)
    | map entries =>
      rw [decoded, decodedEntries_eq]
      refine .map fun entry listed => ?_
      obtain ⟨written, member, rfl⟩ := of_mem_readMembers listed
      obtain ⟨entry, inside, rfl⟩ := mem_map.mp member
      exact ih entry.2 (mem_flatMap.mpr ⟨entry, inside, by simp⟩)

end Encoding

section Check

variable {codec : Codec Number} {order : RangeOrder Number} {maxInputBytes : ℤ}

/-- A writer takes pieces as long as they fit together. -/
theorem isSome_write_iff {pieces : List Bytes} {w : JsonLimitWriter} (within : w.written ≤ w.limit) :
    (pieces.foldlM JsonLimitWriter.write w).isSome ↔
      w.written + pieces.flatten.length ≤ w.limit := by
  induction pieces generalizing w with
  | nil => simpa using within
  | cons piece pieces ih =>
    rw [foldlM_cons, JsonLimitWriter.write, flatten_cons, length_append]
    split_ifs with large
    · simp only [Option.bind_eq_bind, Option.bind_none, Option.isSome_none, Bool.false_eq_true,
        false_iff]
      omega
    · rw [Option.bind_eq_bind, Option.bind_some, ih (by simp only; omega), Nat.add_assoc]

theorem checkInputSize_ok_iff {input : Input Number} :
    checkInputSize codec order input maxInputBytes = .ok () ↔ 0 < maxInputBytes ∧
      validateJSONInputMemory order input maxInputBytes.toNat = .ok () ∧
        (encode codec input).length ≤ maxInputBytes.toNat := by
  have written := @isSome_write_iff (codec.pieces (encode codec input))
    ⟨maxInputBytes.toNat, 0⟩ (Nat.zero_le _)
  rw [codec.flatten_pieces, Nat.zero_add] at written
  rw [checkInputSize]
  split_ifs with cap
  · simp only [false_iff]
    omega
  · rw [← written]
    cases validateJSONInputMemory order input maxInputBytes.toNat with
    | error failure => exact ⟨fun failed => (by cases failed), fun passed => nomatch passed.2.1⟩
    | ok passed =>
      cases (codec.pieces (encode codec input)).foldlM JsonLimitWriter.write
          ⟨maxInputBytes.toNat, 0⟩ with
      | none => exact ⟨fun failed => (by cases failed), fun passed => nomatch passed.2.2⟩
      | some w => exact ⟨fun _ => ⟨by omega, rfl, rfl⟩, fun _ => rfl⟩

variable (codec) in
/-- The value that a node gets is short enough as a text, shallow enough, and small
enough in the worst order. -/
structure Carried (maxBytes : ℕ) (value : Input Number) : Prop where
  bytes : (encode codec value).length ≤ maxBytes
  shallow : levels value ≤ maxInputJSONDepth + 1
  room : peak value ≤ maxInputJSONValues

theorem checkInputSize_of_carried {value : Input Number} (untyped : Untyped value)
    (positive : 0 < maxInputBytes) (carried : Carried codec maxInputBytes.toNat value)
    (order : RangeOrder Number) : checkInputSize codec order value maxInputBytes = .ok () := by
  have fits : Fits peak maxInputBytes.toNat 0 0 value :=
    ⟨by rw [Nat.zero_add]; exact carried.room, by rw [Nat.zero_add]; exact carried.shallow,
      small_of_encode untyped carried.bytes⟩
  refine checkInputSize_ok_iff.mpr ⟨positive, ?_, carried.bytes⟩
  rw [validateJSONInputMemory, walk_of_fits fits, walk]

theorem fits_of_checkInputSize {need : Input Number → ℕ} (needs : Needs order need)
    {value : Input Number} (passed : checkInputSize codec order value maxInputBytes = .ok ()) :
    Fits need maxInputBytes.toNat 0 0 value :=
  (fits_of_walk needs (Nat.zero_le _) (Nat.zero_le _) (checkInputSize_ok_iff.mp passed).2.1).1

end Check

/-! Numbers as their texts, and the one `float64` whose text differs from the integer's. -/

def nines : Bytes := textBytes "9999999999999999"

def sampleCodec : Codec Bytes where
  numberText text := text
  float64 text := if text = nines then textBytes "10000000000000000" else text
  compact text := text
  untyped _ := .null
  untyped_untyped _ := .null
  pieces text := [text]
  flatten_pieces text := by simp

theorem carried_number {text : Bytes} {maxBytes : ℕ} (short : text.length ≤ maxBytes) :
    Carried sampleCodec maxBytes (.number text) where
  bytes := by simpa [encode, sampleCodec] using short
  shallow := by
    rw [levels_eq rfl]
    exact Nat.le_add_left 1 _
  room := by simp [peak, maxInputJSONValues]

end Golusoris.Tiny.Admission
