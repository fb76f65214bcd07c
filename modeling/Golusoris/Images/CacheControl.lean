import Golusoris.Lib.Digits
import Golusoris.Lib.Lists
import Golusoris.Lib.NetUrl
import Golusoris.Lib.Spaces
import Mathlib

/-!
# Freshness within the lifetime of a token

`cacheControlUntil` of `media/img/pipeline` rewrites a configured `Cache-Control` header.
The ages in what it writes are bounded whatever was configured: repeated directives,
quoted values, and names in any letters and with any space around them.
-/

namespace Golusoris.Images

open List
open Lib
open Lib.Digits (natText intText readInt)
open Lib.NetUrl (cut cut_append cut_eq_none_iff cut_eq_some lower)
open Lib.Spaces (trimSpace trim trimSpace_cons_space trimSpace_subset)

def comma : UInt8 := 0x2C
def equals : UInt8 := 0x3D

def second : Int := 1000000000

/-- Letters as `EqualFold` compares them to small letters of ASCII; the long s and the
Kelvin sign are letters too. -/
def foldText : Bytes → Bytes
  | 0xC5 :: 0xBF :: rest => 0x73 :: foldText rest
  | 0xE2 :: 0x84 :: 0xAA :: rest => 0x6B :: foldText rest
  | byte :: rest => lower byte :: foldText rest
  | [] => []

/-- `strings.EqualFold` with a word in small letters. -/
def equalFold (text word : Bytes) : Bool := foldText text = word

def maxAgeName : Bytes := textBytes "max-age"
def sharedName : Bytes := textBytes "s-maxage"

def inInt64 (value : Int) : Bool := -2 ^ 63 ≤ value ∧ value < 2 ^ 63

/-- `strconv.ParseInt` in base ten. -/
def parseInt (text : Bytes) : Option Int := (readInt text).filter inInt64

def boundedCacheAge (name : Bytes) (value : Option Bytes) (ceiling : Int) : Bytes :=
  let want :=
    match value.bind fun value => parseInt (trim [0x22] (trimSpace value)) with
    | some configured => if configured ≥ 0 then min ceiling configured else ceiling
    | none => ceiling
  name ++ equals :: intText want

/-- The name of a directive, and what follows its equals sign. -/
def nameValue (directive : Bytes) : Bytes × Option Bytes :=
  match cut equals directive with
  | some (name, value) => (trimSpace name, some value)
  | none => (trimSpace directive, none)

structure Rewriting where
  out : List Bytes := []
  hasMaxAge : Bool := false
  hasSharedMaxAge : Bool := false

def Rewriting.step (maxAge : Int) (state : Rewriting) (raw : Bytes) : Rewriting :=
  let directive := trimSpace raw
  let (name, value) := nameValue directive
  if equalFold name maxAgeName then
    if state.hasMaxAge then state
    else
      { state with out := state.out ++ [boundedCacheAge maxAgeName value maxAge], hasMaxAge := true }
  else if equalFold name sharedName then
    if state.hasSharedMaxAge then state
    else
      { state with
        out := state.out ++ [boundedCacheAge sharedName value maxAge], hasSharedMaxAge := true }
  else { state with out := state.out ++ [directive] }

/-- The directives that `cacheControlUntil` joins. -/
def rewritten (configured : Bytes) (maxAge : Int) : List Bytes :=
  let state := (configured.splitOn comma).foldl (Rewriting.step maxAge) {}
  if state.hasMaxAge then state.out else state.out ++ [maxAgeName ++ equals :: intText maxAge]

def cacheControlUntil (configured : Bytes) (remaining : Int) : Bytes :=
  [comma, 0x20].intercalate (rewritten configured (max (remaining.tdiv second) 0))

/-- A directive that is an age says a number of seconds within the lifetime. -/
def Within (remaining : Int) (directive : Bytes) : Prop :=
  equalFold (nameValue directive).1 maxAgeName ∨ equalFold (nameValue directive).1 sharedName →
    ∃ age : Nat, (nameValue directive).2 = some (natText age) ∧ age * second ≤ max remaining 0

theorem nameValue_cons_space (directive : Bytes) : nameValue
    (0x20 :: directive) = nameValue directive := by
  rw [nameValue, nameValue, cut, if_neg (by decide)]
  obtain _ | ⟨name, value⟩ := cut equals directive
  · rw [Option.map_none, trimSpace_cons_space]
  · rw [Option.map_some]
    dsimp only
    rw [trimSpace_cons_space]

variable {remaining : Int} {name : Bytes}

/-- What a generated directive says, for an age within the lifetime. -/
theorem within_age (free : equals ∉ name) {age : Nat} (short : age * second ≤ max remaining 0) :
    Within remaining (name ++ equals :: natText age) := by
  intro _
  rw [nameValue, cut_append free]
  exact ⟨age, rfl, short⟩

theorem comma_age (free : comma ∉ name) (age : Nat) : comma ∉ name ++ equals :: natText age := by
  rw [mem_append, mem_cons, not_or, not_or]
  refine ⟨free, by decide, fun found => ?_⟩
  have digit := all_eq_true.mp (Digits.all_natText age) comma found
  exact absurd digit (by decide)

theorem intText_natCast (value : Nat) : intText value = natText value := by
  rw [intText, if_neg (by omega), Int.natAbs_natCast]

/-- A bounded age is not above its ceiling. -/
theorem exists_boundedCacheAge (name : Bytes) (value : Option Bytes) (ceiling : Nat) :
    ∃ age ≤ ceiling, boundedCacheAge name value ceiling = name ++ equals :: natText age := by
  rw [boundedCacheAge]
  cases value.bind fun value => parseInt (trim [0x22] (trimSpace value)) with
  | none => exact ⟨ceiling, Nat.le_refl _, by rw [intText_natCast]⟩
  | some configured =>
    dsimp only
    split_ifs with positive
    · obtain ⟨configured, rfl⟩ := Int.eq_ofNat_of_zero_le positive
      have least : min (ceiling : Int) configured = (min ceiling configured : Nat) := by omega
      exact ⟨min ceiling configured, Nat.min_le_left _ _, by rw [least, intText_natCast]⟩
    · exact ⟨ceiling, Nat.le_refl _, by rw [intText_natCast]⟩

/-- A directive that stays one when it is joined to others, and does not exceed. -/
def Sound (remaining : Int) (directive : Bytes) :
    Prop := comma ∉ directive ∧ Within remaining directive

variable {ceiling : Nat}

theorem sound_bounded (free : comma ∉ name ∧ equals ∉ name) (value : Option Bytes)
    (short : ceiling * second ≤ max remaining 0) :
    Sound remaining (boundedCacheAge name value ceiling) := by
  obtain ⟨age, below, shape⟩ := exists_boundedCacheAge name value ceiling
  have less : (age : Int) * second ≤ ceiling * second :=
    Int.mul_le_mul_of_nonneg_right (Int.ofNat_le.mpr below) (by decide)
  rw [shape]
  exact ⟨comma_age free.1 age, within_age free.2 (Int.le_trans less short)⟩

/-- Every directive that a step adds is sound. -/
theorem sound_step {state : Rewriting} {raw : Bytes} (short : ceiling * second ≤ max remaining 0)
    (free : comma ∉ raw) (sound : ∀ directive ∈ state.out, Sound remaining directive) :
    ∀ directive ∈ (state.step ceiling raw).out, Sound remaining directive := by
  have snoc {last : Bytes} (own : Sound remaining last) :
      ∀ directive ∈ state.out ++ [last], Sound remaining directive := by
    intro directive found
    obtain found | found := mem_append.mp found
    · exact sound directive found
    · exact mem_singleton.mp found ▸ own
  rw [Rewriting.step]
  dsimp only
  split_ifs with first seen shared again
  · exact sound
  · exact snoc (sound_bounded (by decide +kernel) _ short)
  · exact sound
  · exact snoc (sound_bounded (by decide +kernel) _ short)
  · exact snoc ⟨fun found => free (trimSpace_subset raw found), fun named => (named.elim first shared).elim⟩

theorem intercalate_cons (separator first : Bytes) (rest : List Bytes) :
    separator.intercalate (first :: rest) = first ++ rest.flatMap (separator ++ ·) := by
  induction rest generalizing first with
  | nil => simp
  | cons next rest ih =>
    rw [intercalate_cons_cons, ih, flatMap_cons, append_assoc, append_assoc]

/-- Directives joined by a comma and a space are read back, each after its space. -/
theorem splitOn_joined {out : List Bytes} (free : ∀ directive ∈ out, comma ∉ directive) {piece : Bytes}
    (found : piece ∈ ([comma, 0x20].intercalate out).splitOn comma) :
    piece = [] ∨ piece ∈ out ∨ ∃ directive ∈ out, piece = 0x20 :: directive := by
  cases out with
  | nil =>
    rw [intercalate_nil, splitOn_nil] at found
    exact .inl (mem_singleton.mp found)
  | cons first rest =>
    have joined : [comma, 0x20].intercalate (first :: rest) =
        [comma].intercalate (first :: rest.map (0x20 :: ·)) := by
      rw [intercalate_cons, intercalate_cons, flatMap_map]
      rfl
    obtain ⟨here, later⟩ := forall_mem_cons.mp free
    have apart : ∀ item ∈ first :: rest.map (0x20 :: ·), comma ∉ item := by
      refine forall_mem_cons.mpr ⟨here, fun item listed => ?_⟩
      obtain ⟨directive, inside, rfl⟩ := mem_map.mp listed
      rw [mem_cons, not_or]
      exact ⟨by decide, later directive inside⟩
    rw [joined, splitOn_intercalate comma apart (cons_ne_nil _ _)] at found
    obtain rfl | found := mem_cons.mp found
    · exact .inr (.inl mem_cons_self)
    · obtain ⟨directive, inside, rfl⟩ := mem_map.mp found
      exact .inr (.inr ⟨directive, mem_cons_of_mem _ inside, rfl⟩)

/-- The ceiling is the whole seconds of the lifetime that is left. -/
theorem exists_ceiling (remaining : Int) :
    ∃ ceiling : Nat, max (remaining.tdiv second) 0 = ceiling ∧ ceiling * second ≤ max remaining 0 := by
  have positive : (0 : Int) < second := by decide
  rcases Int.le_total 0 remaining with left | gone
  · have least : 0 ≤ remaining.tdiv second := Int.tdiv_nonneg left (Int.le_of_lt positive)
    refine ⟨(remaining.tdiv second).toNat, ?_, ?_⟩
    · rw [Int.max_eq_left least, Int.toNat_of_nonneg least]
    · rw [Int.max_eq_left left, Int.toNat_of_nonneg least, Int.tdiv_eq_ediv_of_nonneg left]
      exact Int.ediv_mul_le remaining (Int.ne_of_gt positive)
  · have most : remaining.tdiv second ≤ 0 := Int.tdiv_le_tdiv positive gone
    refine ⟨0, Int.max_eq_right most, ?_⟩
    rw [Int.natCast_zero, Int.zero_mul]
    exact Int.le_max_right _ _

theorem sound_foldl {directives : List Bytes} {state : Rewriting}
    (short : ceiling * second ≤ max remaining 0) (free : ∀ raw ∈ directives, comma ∉ raw)
    (sound : ∀ directive ∈ state.out, Sound remaining directive) :
    ∀ directive ∈ (directives.foldl (Rewriting.step ceiling) state).out, Sound remaining directive := by
  induction directives generalizing state with
  | nil => exact sound
  | cons raw directives ih =>
    obtain ⟨here, later⟩ := forall_mem_cons.mp free
    exact ih later (sound_step short here sound)

theorem sound_rewritten (configured : Bytes) (short : ceiling * second ≤ max remaining 0) :
    ∀ directive ∈ rewritten configured ceiling, Sound remaining directive := by
  have free (raw) (listed : raw ∈ configured.splitOn comma) : comma ∉ raw :=
    (of_mem_splitOn comma listed).1
  have sound : ∀ directive ∈ ((configured.splitOn comma).foldl (Rewriting.step ceiling) {}).out,
      Sound remaining directive := sound_foldl short free nofun
  rw [rewritten]
  split_ifs
  · exact sound
  · intro directive listed
    obtain listed | listed := mem_append.mp listed
    · exact sound directive listed
    · rw [mem_singleton.mp listed, intText_natCast]
      exact ⟨comma_age (by decide +kernel) ceiling, within_age (by decide +kernel) short⟩

/-- No age in the header exceeds the lifetime that is left, whatever was configured. -/
theorem cacheControlUntil_within (configured : Bytes) (remaining : Int) :
    ∀ piece ∈ (cacheControlUntil configured remaining).splitOn comma, Within remaining piece := by
  obtain ⟨ceiling, whole, short⟩ := exists_ceiling remaining
  have sound := sound_rewritten configured short
  intro piece found
  rw [cacheControlUntil, whole] at found
  obtain rfl | listed | ⟨directive, listed, rfl⟩ :=
    splitOn_joined (fun directive listed => (sound directive listed).1) found
  · exact fun named => absurd named (by decide +kernel)
  · exact (sound piece listed).2
  · rw [Within, nameValue_cons_space]
    exact (sound directive listed).2

end Golusoris.Images
