import Golusoris.Tiny.JsonSize

/-!
# The accounting is exact

`Charged` says what an operation on the budget is worth: so many bytes and values,
added exactly if they fit, and refused for one of the two limits if they do not.
Operations in a row are worth their sum. What is added for a field is the length of its
encoding; the list of waiting values never outgrows the rounds of its loop,
because each value in it was counted against the limit before.
-/

namespace Golusoris.Tiny.Json

open List
open Lib (Bytes textBytes)
open Lib.Json (Word marshalString quote quoteBytes quoteRune quoteAscii unitEscape quotes)

namespace JsonByteBudget

/-- The budget with bytes and values added. -/
def charge (b : JsonByteBudget) (bytes values : ℕ) : JsonByteBudget :=
  { b with used := b.used + bytes, values := b.values + values }

/-- Nothing is over its limit. -/
structure Sound (b : JsonByteBudget) : Prop where
  used : b.used ≤ b.limit
  values : b.values ≤ b.valueLimit

@[simp] theorem charge_charge (b : JsonByteBudget) (bytes values more others : ℕ) :
    (b.charge bytes values).charge more others = b.charge (bytes + more) (values + others) := by
  simp [charge, Nat.add_assoc]

end JsonByteBudget

open JsonByteBudget

/-- The operation is worth so many bytes and values: they are added, or they are
over one of the limits and refused for it. -/
inductive Charged (b : JsonByteBudget) (bytes values : ℕ) : Except SizeErr JsonByteBudget → Prop
  | added (fits : b.used + bytes ≤ b.limit) (within : b.values + values ≤ b.valueLimit) :
      Charged b bytes values (.ok (b.charge bytes values))
  | refusedBytes (above : b.limit < b.used + bytes) :
      Charged b bytes values (.error (.encodedBytes b.scope b.limit))
  | refusedValues (above : b.valueLimit < b.values + values) :
      Charged b bytes values (.error (.values b.scope b.valueLimit))

section Charging

variable {b : JsonByteBudget} {bytes values more others : ℕ}
variable {out : Except SizeErr JsonByteBudget}

theorem Charged.congr (charged : Charged b bytes values out) (sameBytes : bytes = more)
    (sameValues : values = others) : Charged b more others out := by
  rwa [← sameBytes, ← sameValues]

/-- Operations in a row are worth their sum. -/
theorem Charged.bind {next : JsonByteBudget → Except SizeErr JsonByteBudget}
    (first : Charged b bytes values out)
    (second : ∀ after, after = b.charge bytes values → after.Sound →
      Charged after more others (next after)) :
    Charged b (bytes + more) (values + others) (out >>= next) := by
  cases first with
  | refusedBytes above => exact .refusedBytes (by omega)
  | refusedValues above => exact .refusedValues (by omega)
  | added fits within =>
    have later := second (b.charge bytes values) rfl ⟨fits, within⟩
    change Charged b _ _ (next (b.charge bytes values))
    generalize next (b.charge bytes values) = last at later
    cases later with
    | added fits within =>
      rw [charge_charge]
      exact .added (by rwa [← Nat.add_assoc]) (by rwa [← Nat.add_assoc])
    | refusedBytes above => exact .refusedBytes (by rwa [← Nat.add_assoc])
    | refusedValues above => exact .refusedValues (by rwa [← Nat.add_assoc])

theorem Charged.ok (sound : b.Sound) : Charged b 0 0 (.ok b) := .added sound.used sound.values

/-- Within the values, a refusal is for the bytes. -/
theorem Charged.refused_iff (charged : Charged b bytes values out)
    (within : b.values + values ≤ b.valueLimit) :
    out = .error (.encodedBytes b.scope b.limit) ↔ b.limit < b.used + bytes := by
  cases charged with
  | added fits _ =>
    simp only [reduceCtorEq, false_iff]
    omega
  | refusedBytes above => exact ⟨fun _ => above, fun _ => rfl⟩
  | refusedValues above => omega

/-- What fits is accepted, and nothing else. -/
theorem Charged.accepted_iff (charged : Charged b bytes values out) :
    (∃ after, out = .ok after) ↔ b.used + bytes ≤ b.limit ∧ b.values + values ≤ b.valueLimit := by
  cases charged with
  | added fits within => exact ⟨fun _ => ⟨fits, within⟩, fun _ => ⟨_, rfl⟩⟩
  | refusedBytes _ | refusedValues _ =>
    simp only [reduceCtorEq, exists_false, false_iff]
    omega

theorem charged_add (sound : b.Sound) (count : ℕ) : Charged b count 0 (add b count) := by
  have used := sound.used
  rw [add]
  split_ifs with above
  · exact .refusedBytes (by omega)
  · exact .added (by omega) sound.values

theorem charged_addValues (sound : b.Sound) (count : ℕ) : Charged b 0 count (addValues b count) := by
  have values := sound.values
  rw [addValues]
  split_ifs with above
  · exact .refusedValues (by omega)
  · exact .added sound.used (by omega)

theorem charged_addContainer (sound : b.Sound) (count : ℕ) :
    Charged b (frame count) 0 (addContainer b count) := by
  have commas {after : JsonByteBudget} (sound : after.Sound) :
      Charged after (count - 1) 0 (if count > 1 then add after (count - 1) else .ok after) := by
    split_ifs with several
    · exact charged_add sound (count - 1)
    · rw [Nat.sub_eq_zero_of_le (by omega)]
      exact .ok sound
  have whole := (charged_add sound 2).bind fun _ _ sound => commas sound
  exact whole

/-- The bytes that the loop of `addString` adds. -/
def escapes : ℕ → Bytes → ℕ
  | 0, _ => 0
  | _ + 1, [] => 0
  | rounds + 1, char :: rest =>
      (jsonStringEscapeBytes (char :: rest)).1 +
        escapes rounds ((char :: rest).drop (jsonStringEscapeBytes (char :: rest)).2)

theorem charged_addEscapes (rounds : ℕ) (sound : b.Sound) (text : Bytes) :
    Charged b (escapes rounds text) 0 (addEscapes rounds b text) := by
  induction rounds generalizing b text with
  | zero => exact .ok sound
  | succ rounds hyp =>
    cases text with
    | nil => exact .ok sound
    | cons char rest => exact (charged_add sound _).bind fun after _ sound => hyp sound _

/-- An escape is as long as its character and what that gains. -/
theorem length_quoteAscii {byte : UInt8} (ascii : byte < 0x80) (rest : Bytes) :
    jsonStringEscapeBytes (byte :: rest) = ((quoteAscii byte).length - 1, 1) ∧
      0 < (quoteAscii byte).length := by
  have all : ∀ n < 128, jsonStringEscapeBytes [UInt8.ofNat n] = ((quoteAscii (UInt8.ofNat n)).length - 1, 1) ∧
      0 < (quoteAscii (UInt8.ofNat n)).length := by decide +kernel
  have own := all byte.toNat ascii
  rw [UInt8.ofNat_toNat] at own
  simpa only [jsonStringEscapeBytes, if_pos ascii] using own

/-- The same of any rune, and of a byte that starts none. -/
theorem length_quoteRune {rune : Char} {text rest : Bytes}
    (whole : text = String.utf8EncodeChar rune ++ rest) :
    (quoteRune rune).length = rune.utf8Size + (jsonStringEscapeBytes text).1 ∧
      (jsonStringEscapeBytes text).2 = rune.utf8Size := by
  obtain ⟨lead, more, shape, _⟩ := Lib.Utf8.encodeChar_shape rune
  have start : text = lead :: (more ++ rest) := by rw [whole, shape, cons_append]
  by_cases ascii : rune.toNat < 0x80
  · have single := Lib.Utf8.encodeChar_ascii ascii
    have one : rune.utf8Size = 1 := by
      rw [← String.length_utf8EncodeChar, single, length_singleton]
    rw [single, List.cons.injEq] at shape
    have small : lead < 0x80 := by
      rw [← shape.1, UInt8.lt_iff_toNat_lt, UInt8.toNat_ofNat', Nat.mod_eq_of_lt (by omega)]
      exact ascii
    obtain ⟨step, positive⟩ := length_quoteAscii small (more ++ rest)
    rw [quoteRune, if_pos ascii, start, step, one, shape.1]
    exact ⟨by omega, rfl⟩
  · have wide : ¬ lead < 0x80 := by
      have high := Lib.Utf8.le_of_mem_encodeChar (Nat.le_of_not_lt ascii)
        (by rw [shape]; exact mem_cons_self)
      exact UInt8.not_lt.mpr high
    have read := Lib.Utf8.decodeRune_encode rune rest
    rw [← whole, start] at read
    rw [quoteRune, if_neg ascii, start, jsonStringEscapeBytes, if_neg wide, read]
    simp only []
    split_ifs with ends
    · have three : rune.utf8Size = 3 := by
        have value : rune = Char.ofNat 0x2028 ∨ rune = Char.ofNat 0x2029 :=
          ends.imp (fun same => by rw [← same, Char.ofNat_toNat])
            fun same => by rw [← same, Char.ofNat_toNat]
        rcases value with rfl | rfl <;> decide
      exact ⟨by simp [unitEscape, three], rfl⟩
    · exact ⟨by rw [String.length_utf8EncodeChar]; rfl, rfl⟩

theorem length_quoteBytes {rounds : ℕ} {text : Bytes} (enough : text.length ≤ rounds) :
    (quoteBytes rounds text).length = text.length + escapes rounds text := by
  induction rounds generalizing text with
  | zero =>
    rw [eq_nil_of_length_eq_zero (Nat.le_zero.mp enough)]
    rfl
  | succ rounds hyp =>
    cases text with
    | nil => rfl
    | cons char rest =>
      rw [length_cons] at enough
      rw [quoteBytes, escapes]
      rcases read : Lib.Utf8.decodeRune (char :: rest) with _ | rune
      · have wide : ¬ char < 0x80 := fun ascii => by
          rw [Lib.EventStream.decodeRune_ascii ascii] at read
          cases read
        have step : jsonStringEscapeBytes (char :: rest) = (5, 1) := by
          rw [jsonStringEscapeBytes, if_neg wide, read]
        rw [step, length_append, hyp (by omega), drop_one, tail_cons, length_cons]
        simp only [unitEscape, length_cons, length_nil]
        omega
      · obtain ⟨more, whole⟩ := Lib.Utf8.decodeRune_eq_some read
        obtain ⟨length, width⟩ := length_quoteRune whole
        have positive := rune.utf8Size_pos
        have total := congrArg List.length whole
        rw [length_append, String.length_utf8EncodeChar, length_cons] at total
        rw [width, length_append, length, hyp (by rw [length_drop, length_cons]; omega),
          length_drop, length_cons]
        omega

/-- A valid string adds the length of its encoding. -/
theorem charged_addString (sound : b.Sound) {text : Bytes} (valid : isValidUTF8 text) :
    Charged b (marshalString text).length 0 (addString b text) := by
  have size : (marshalString text).length = text.length + (2 + escapes text.length text) := by
    rw [marshalString, quotes, length_cons, length_append, quote,
      length_quoteBytes (Nat.le_refl _), length_singleton]
    omega
  have whole := (charged_add sound text.length).bind fun _ _ sound =>
    (charged_add sound 2).bind fun _ _ sound => charged_addEscapes text.length sound text
  rw [addString, if_neg (by simp [valid]), size]
  exact whole

section Containers

variable {Item : Type} {addItem : JsonByteBudget → Item → Except SizeErr JsonByteBudget}
variable (cost : Item → ℕ) {items : List Item}

theorem charged_addEach (sound : b.Sound)
    (each : ∀ item ∈ items, ∀ before : JsonByteBudget, before.Sound →
      Charged before (cost item) 0 (addItem before item)) :
    Charged b (items.map cost).sum 0 (addEach addItem b items) := by
  induction items generalizing b with
  | nil => exact .ok sound
  | cons item rest hyp =>
    rw [map_cons, sum_cons]
    exact (each item (.head _) b sound).bind fun _ _ sound =>
      hyp sound fun other member => each other (.tail _ member)

/-- The items with their frame, and as many values. -/
theorem charged_addFlat (sound : b.Sound)
    (each : ∀ item ∈ items, ∀ before : JsonByteBudget, before.Sound →
      Charged before (cost item) 0 (addItem before item)) :
    Charged b (frame items.length + (items.map cost).sum) items.length
      (addFlat addItem b (some items)) := by
  have whole := (charged_addValues sound items.length).bind fun _ _ sound =>
    (charged_addContainer sound items.length).bind fun _ _ sound => charged_addEach cost sound each
  exact whole.congr (by omega) (by omega)

end Containers

/-- What an entry of a map adds: its name, a colon and its value. -/
theorem charged_addEntry {Item : Type} {addItem : JsonByteBudget → Item → Except SizeErr JsonByteBudget}
    (sound : b.Sound) {key : Bytes} (valid : isValidUTF8 key) {item : Item}
    (value : ∀ before : JsonByteBudget, before.Sound → Charged before bytes 0 (addItem before item)) :
    Charged b ((marshalString key).length + 1 + bytes) 0 (do
      let b ← addString b key
      let b ← add b 1
      addItem b item) := by
  have whole := (charged_addString sound valid).bind fun _ _ sound =>
    (charged_add sound 1).bind fun after _ sound => value after sound
  exact whole.congr (by omega) (by omega)

section Fields

variable {F : Type} (floats : Floats F)

/-- The float can be written. -/
def Finite (value : F) : Prop := floats.isInf value = false ∧ floats.isNaN value = false

theorem hasPaddedNegativeExponent_iff (text : Bytes) :
    hasPaddedNegativeExponent text ↔ PaddedExponent text := by
  rw [hasPaddedNegativeExponent, PaddedExponent]
  split_ifs with short
  · simp only [false_iff, not_and]
    omega
  · simp [Nat.le_of_not_lt short]

theorem jsonFloatFormat_eq (value : F) : jsonFloatFormat floats value =
    if ¬ floats.absIsZero value ∧ (floats.absBelowMicro value ∨ floats.absFromSextillion value)
    then formatE else formatF := by
  rw [jsonFloatFormat]
  cases floats.absIsZero value <;> cases floats.absBelowMicro value <;>
    cases floats.absFromSextillion value <;> rfl

theorem charged_addFloat (sound : b.Sound) {value : F} (finite : Finite floats value) :
    Charged b (marshalFloat floats value).length 0 (addFloat floats b value) := by
  have proper : ¬ (floats.isInf value ∨ floats.isNaN value) := by
    simp [finite.1, finite.2]
  rw [addFloat, if_neg proper, marshalFloat, jsonFloatFormat_eq]
  simp only [hasPaddedNegativeExponent_iff]
  by_cases large : ¬ floats.absIsZero value ∧
      (floats.absBelowMicro value ∨ floats.absFromSextillion value)
  · simp only [if_pos large, true_and, length_cleanExponent]
    split_ifs <;> exact charged_add sound _
  · have other : ¬ (formatF = formatE) := by decide
    simp only [if_neg large, other, false_and, if_false]
    exact charged_add sound _

/-- The values that wait once a value is sized. -/
def children : Value F → List (Value F)
  | .array items => items
  | .map entries => entries.map Prod.snd
  | _ => []

/-- Of the stored kinds, with finite floats and valid strings throughout. -/
inductive Canonical : Value F → Prop
  | null : Canonical .null
  | bool (value : Bool) : Canonical (.bool value)
  | number {value : F} (finite : Finite floats value) : Canonical (.number value)
  | string {value : Bytes} (valid : isValidUTF8 value) : Canonical (.string value)
  | nilArray : Canonical .nilArray
  | array {items : List (Value F)} (each : ∀ item ∈ items, Canonical item) : Canonical (.array items)
  | nilMap : Canonical .nilMap
  | map {entries : List (Bytes × Value F)} (keys : ∀ entry ∈ entries, isValidUTF8 entry.1)
      (each : ∀ entry ∈ entries, Canonical entry.2) : Canonical (.map entries)

mutual

/-- The values inside a value. -/
def nested : Value F → ℕ
  | .array items => items.length + nestedAll items
  | .map entries => entries.length + nestedEntries entries
  | .null | .bool _ | .number _ | .string _ | .nilArray | .nilMap | .other _ => 0

def nestedAll : List (Value F) → ℕ
  | [] => 0
  | item :: rest => nested item + nestedAll rest

def nestedEntries : List (Bytes × Value F) → ℕ
  | [] => 0
  | (_, value) :: rest => nested value + nestedEntries rest

end

theorem nestedAll_eq (items : List (Value F)) : nestedAll items = (items.map nested).sum := by
  induction items with
  | nil => simp [nestedAll]
  | cons item rest hyp => simp [nestedAll, hyp]

theorem nestedEntries_eq (entries : List (Bytes × Value F)) :
    nestedEntries entries = ((entries.map Prod.snd).map nested).sum := by
  induction entries with
  | nil => simp [nestedEntries]
  | cons entry rest hyp => simp [nestedEntries, hyp]

theorem marshalAll_eq (items : List (Value F)) :
    marshalAll floats items = items.map (marshal floats) := by
  induction items with
  | nil => simp [marshalAll]
  | cons item rest hyp => simp [marshalAll, hyp]

theorem marshalEntries_eq (entries : List (Bytes × Value F)) :
    marshalEntries floats entries = entries.map fun entry => (entry.1, marshal floats entry.2) := by
  induction entries with
  | nil => simp [marshalEntries]
  | cons entry rest hyp => simp [marshalEntries, hyp]

/-- The values inside a value are its children and those inside them. -/
theorem nested_eq (value : Value F) :
    nested value = (children value).length + ((children value).map nested).sum := by
  cases value with
  | array items => rw [nested, nestedAll_eq, children]
  | map entries => rw [nested, nestedEntries_eq, children, length_map]
  | _ => simp [nested, children]

/-- The bytes of a value without its children. -/
def own : Value F → ℕ
  | .array items => frame items.length
  | .map entries =>
      frame entries.length + (entries.map fun entry => (marshalString entry.1).length + 1).sum
  | value => (marshal floats value).length

theorem length_marshal (value : Value F) : (marshal floats value).length =
    own floats value + ((children value).map fun child => (marshal floats child).length).sum := by
  cases value with
  | array items =>
    rw [marshal, length_marshalItems, marshalAll_eq, own, children, length_map, map_map]
    rfl
  | map entries =>
    have each (entries : List (Bytes × Value F)) :
        (entries.map fun entry => (member (entry.1, marshal floats entry.2)).length).sum =
          (entries.map fun entry => (marshalString entry.1).length + 1).sum +
            (entries.map fun entry => (marshal floats entry.2).length).sum := by
      rw [← sum_map_add]
      simp only [length_member]
    rw [marshal, length_marshalMembers, marshalEntries_eq, own, children, length_map,
      map_map, map_map]
    have split := each entries
    simp only [Function.comp_def]
    omega
  | _ => simp [own, children]

/-- One value without its children. -/
def sizeOne (b : JsonByteBudget) : Value F → Except SizeErr JsonByteBudget
  | .null | .bool true | .nilArray | .nilMap => add b 4
  | .bool false => add b 5
  | .number value => addFloat floats b value
  | .string value => addString b value
  | .array items => addFlat (fun b _ => .ok b) b (some items)
  | .map entries => addFlat (fun b entry => do
      let b ← addString b entry.1
      add b 1) b (some entries)
  | .other type => .error (.nonCanonical type)

theorem addKeys_eq (pending : List (Value F)) (entries : List (Bytes × Value F)) :
    addKeys b pending entries = (addEach (fun b (entry : Bytes × Value F) => do
      let b ← addString b entry.1
      add b 1) b entries).map fun b => (b, pending ++ entries.map Prod.snd) := by
  induction entries generalizing b pending with
  | nil => simp [addKeys, addEach, Except.map]
  | cons entry rest hyp =>
    obtain ⟨key, value⟩ := entry
    rw [addKeys, addEach]
    rcases addString b key with err | keyed
    · rfl
    change (add keyed 1 >>= fun b => addKeys b (pending ++ [value]) rest) =
      (add keyed 1 >>= fun b => addEach _ b rest).map _
    rcases add keyed 1 with err | after
    · rfl
    change addKeys after (pending ++ [value]) rest = (addEach _ after rest).map _
    rw [hyp, append_assoc, map_cons, singleton_append]

theorem addEach_ok {Item : Type} (items : List Item) :
    addEach (fun b _ => .ok b) b items = .ok b := by
  induction items with
  | nil => rfl
  | cons item rest hyp => exact hyp

theorem addJSONValue_eq (pending : List (Value F)) (value : Value F) :
    addJSONValue floats b pending value =
      (sizeOne floats b value).map fun b => (b, pending ++ children value) := by
  have scalar (out : Except SizeErr JsonByteBudget) :
      (do return (← out, pending)) = out.map fun b => (b, pending ++ ([] : List (Value F))) := by
    cases out <;> simp [Except.map]
  cases value with
  | bool value => cases value <;> exact scalar _
  | array items =>
    change addArray b items pending = _
    rw [addArray, sizeOne, addFlat, children]
    rcases addValues b items.length with err | counted
    · rfl
    change (addContainer counted items.length >>= fun b => pure (b, pending ++ items)) =
      (addContainer counted items.length >>= fun b => addEach _ b items).map _
    rcases addContainer counted items.length with err | framed
    · rfl
    change _ = (addEach _ framed items).map _
    rw [addEach_ok]
    rfl
  | map entries =>
    change addMap b entries pending = _
    rw [addMap, sizeOne, addFlat, children]
    rcases addValues b entries.length with err | counted
    · rfl
    change (addContainer counted entries.length >>= fun b => addKeys b pending entries) =
      (addContainer counted entries.length >>= fun b => addEach _ b entries).map _
    rcases addContainer counted entries.length with err | framed
    · rfl
    exact addKeys_eq pending entries
  | other type => rfl
  | null | number _ | string _ | nilArray | nilMap => exact scalar _

theorem Canonical.children {value : Value F} (canonical : Canonical floats value) :
    ∀ child ∈ children value, Canonical floats child := by
  intro child member
  cases canonical with
  | array each => exact each child member
  | map keys each =>
    obtain ⟨entry, found, rfl⟩ := mem_map.mp member
    exact each entry found
  | _ => cases member

theorem charged_sizeOne (sound : b.Sound) {value : Value F} (canonical : Canonical floats value) :
    Charged b (own floats value) (Json.children value).length (sizeOne floats b value) := by
  cases canonical with
  | bool value => cases value <;> exact charged_add sound _
  | number finite => exact charged_addFloat floats sound finite
  | string valid => exact charged_addString sound valid
  | array each =>
    rw [sizeOne]
    refine (charged_addFlat (fun _ => 0) sound fun _ _ _ sound => .ok sound).congr ?_ rfl
    simp [own]
  | map keys each =>
    rw [sizeOne]
    refine (charged_addFlat (fun entry => (marshalString entry.1).length + 1) sound ?_).congr rfl ?_
    · exact fun entry member _ sound =>
        (charged_addString sound (keys entry member)).bind fun _ _ sound => charged_add sound 1
    · rw [Json.children, length_map]
  | _ => exact charged_add sound _

/-- The list is worked off: it has as many rounds as values that wait or may still
be added. -/
theorem charged_addPending (rounds : ℕ) (sound : b.Sound) {pending : List (Value F)}
    (canonical : ∀ value ∈ pending, Canonical floats value)
    (enough : pending.length + (b.valueLimit - b.values) ≤ rounds) :
    Charged b (pending.map fun value => (marshal floats value).length).sum
      (pending.map nested).sum (addPending floats rounds b pending) := by
  induction rounds generalizing b pending with
  | zero =>
    have none : pending = [] := eq_nil_of_length_eq_zero (by omega)
    rw [none]
    exact .ok sound
  | succ rounds hyp =>
    cases pending with
    | nil => exact .ok sound
    | cons value rest =>
      have here := canonical value (.head _)
      have all : ∀ next ∈ rest ++ Json.children value, Canonical floats next := by
        intro next member
        rcases mem_append.mp member with later | child
        · exact canonical next (.tail _ later)
        · exact here.children floats next child
      have room {after : JsonByteBudget}
          (same : after = b.charge (own floats value) (Json.children value).length) (sound :
            after.Sound) :
          (rest ++ Json.children value).length + (after.valueLimit - after.values) ≤ rounds := by
        have within := sound.values
        simp only [same, charge, length_append] at within ⊢
        rw [length_cons] at enough
        omega
      have step := (charged_sizeOne floats sound here).bind fun _ same sound =>
        hyp sound all (room same sound)
      have run : addPending floats (rounds + 1) b (value :: rest) =
          sizeOne floats b value >>= fun b => addPending floats rounds b (rest ++ Json.children value) := by
        rw [addPending, addJSONValue_eq]
        cases sizeOne floats b value <;> rfl
      rw [run]
      refine step.congr ?_ ?_
      · rw [map_append, sum_append, map_cons, sum_cons, length_marshal]
        omega
      · rw [map_append, sum_append, map_cons, sum_cons, nested_eq value]
        omega

/-- The texts of the fields: nil is written as `null`. -/
def mapText (value : Option (List (Bytes × Value F))) : Bytes :=
  marshal floats (value.elim .nilMap .map)

def stringMapText (value : Option (List (Bytes × Bytes))) : Bytes :=
  value.elim Word.null.text fun entries =>
    marshalMembers (entries.map fun entry => (entry.1, marshalString entry.2))

def stringSliceText (value : Option (List Bytes)) : Bytes :=
  value.elim Word.null.text fun items => marshalItems (items.map marshalString)

def floatMapText (value : Option (List (Bytes × F))) : Bytes :=
  value.elim Word.null.text fun entries =>
    marshalMembers (entries.map fun entry => (entry.1, marshalFloat floats entry.2))

/-- The values in a field. -/
def mapValues (value : Option (List (Bytes × Value F))) : ℕ := nested (value.elim .nilMap .map)

def flatValues {Item : Type} (value : Option (List Item)) : ℕ := (value.getD []).length

theorem charged_addJSONMap (sound : b.Sound) (bounded : b.valueLimit ≤ maxJSONValues)
    {value : Option (List (Bytes × Value F))}
    (canonical : Canonical floats (value.elim .nilMap .map)) :
    Charged b (mapText floats value).length (mapValues value) (addJSONMap floats b value) := by
  cases value with
  | none => exact (charged_add sound 4).congr rfl (by simp [mapValues, nested])
  | some entries =>
    have room {after : JsonByteBudget}
        (same : after = b.charge (own floats (.map entries)) (Json.children (.map entries)).length)
        (sound : after.Sound) :
        (Json.children (.map entries)).length + (after.valueLimit - after.values) ≤
          maxJSONValues := by
      have within := sound.values
      simp only [same, charge] at within ⊢
      omega
    have whole := (charged_sizeOne floats sound canonical).bind fun _ same sound =>
      charged_addPending floats maxJSONValues sound (canonical.children floats) (room same sound)
    have run : addJSONMap floats b (some entries) =
        sizeOne floats b (.map entries) >>= fun b =>
          addPending floats maxJSONValues b (Json.children (.map entries)) := by
      have first : addMap b entries [] = _ := addJSONValue_eq floats [] (.map entries)
      rw [addJSONMap, first]
      cases sizeOne floats b (.map entries) <;> rfl
    rw [run]
    exact whole.congr (length_marshal floats (.map entries)).symm (nested_eq (.map entries)).symm

/-- The common form of the two maps without nesting. -/
theorem charged_addEntries {Item : Type} {text : Item → Bytes}
    {addItem : JsonByteBudget → Item → Except SizeErr JsonByteBudget} (sound : b.Sound)
    (value : Option (List (Bytes × Item)))
    (each : ∀ entry ∈ value.getD [], isValidUTF8 entry.1 ∧ ∀ before : JsonByteBudget,
      before.Sound → Charged before (text entry.2).length 0 (addItem before entry.2)) :
    Charged b (value.elim Word.null.text fun entries =>
        marshalMembers (entries.map fun entry => (entry.1, text entry.2))).length
      (flatValues value) (addFlat (fun b entry => do
        let b ← addString b entry.1
        let b ← add b 1
        addItem b entry.2) b value) := by
  cases value with
  | none => exact charged_add sound 4
  | some entries =>
    refine (charged_addFlat
      (fun entry => (marshalString entry.1).length + 1 + (text entry.2).length) sound ?_).congr ?_ rfl
    · intro entry found _ sound
      exact charged_addEntry sound (each entry found).1 fun before => (each entry found).2 before
    · rw [Option.elim_some, length_marshalMembers, length_map, map_map]
      congr 3
      funext entry
      exact (length_member (entry.1, text entry.2)).symm

theorem charged_addStringMap (sound : b.Sound) {value : Option (List (Bytes × Bytes))}
    (valid : ∀ entry ∈ value.getD [], isValidUTF8 entry.1 ∧ isValidUTF8 entry.2) :
    Charged b (stringMapText value).length (flatValues value) (addStringMap b value) :=
  charged_addEntries sound value fun entry found =>
    ⟨(valid entry found).1, fun _ sound => charged_addString sound (valid entry found).2⟩

theorem charged_addFloatMap (sound : b.Sound) {value : Option (List (Bytes × F))}
    (valid : ∀ entry ∈ value.getD [], isValidUTF8 entry.1 ∧ Finite floats entry.2) :
    Charged b (floatMapText floats value).length (flatValues value) (addFloatMap floats b value) :=
  charged_addEntries sound value fun entry found =>
    ⟨(valid entry found).1, fun _ sound => charged_addFloat floats sound (valid entry found).2⟩

theorem charged_addStringSlice (sound : b.Sound) {value : Option (List Bytes)}
    (valid : ∀ item ∈ value.getD [], isValidUTF8 item) :
    Charged b (stringSliceText value).length (flatValues value) (addStringSlice b value) := by
  cases value with
  | none => exact charged_add sound 4
  | some items =>
    refine (charged_addFlat (fun item => (marshalString item).length) sound ?_).congr ?_ rfl
    · exact fun item found _ sound => charged_addString sound (valid item found)
    · rw [stringSliceText, Option.elim_some, length_marshalItems, length_map, map_map]
      rfl

/-- The strings of a job are valid, and its maps hold stored values. -/
structure CanonicalJob (job : Job F) : Prop where
  strings : ∀ text ∈ job.serializedStrings, isValidUTF8 text
  schemaHint : Canonical floats (job.dataset.schemaHint.elim .nilMap .map)
  hyperparams : Canonical floats (job.hyperparams.elim .nilMap .map)
  tags : ∀ entry ∈ job.tags.getD [], isValidUTF8 entry.1 ∧ isValidUTF8 entry.2

structure CanonicalModel (model : ModelFields F) : Prop where
  labels : ∀ item ∈ model.labels.getD [], isValidUTF8 item
  metrics : ∀ entry ∈ model.metrics.getD [], isValidUTF8 entry.1 ∧ Finite floats entry.2
  metadata : ∀ entry ∈ model.metadata.getD [], isValidUTF8 entry.1 ∧ isValidUTF8 entry.2

/-- The encoded lengths of a job's fields. -/
def jobBytes (job : Job F) : ℕ :=
  (job.serializedStrings.map fun text => (marshalString text).length).sum +
    ((mapText floats job.dataset.schemaHint).length + ((mapText floats job.hyperparams).length +
      (stringMapText job.tags).length))

def jobValues (job : Job F) : ℕ :=
  mapValues job.dataset.schemaHint + (mapValues job.hyperparams + flatValues job.tags)

/-- The encoded lengths of a model's fields, as they are stored. -/
def modelBytes (model : ModelFields F) : ℕ :=
  (stringSliceText (orEmpty model.labels)).length +
    ((floatMapText floats (orEmpty model.metrics)).length +
      (stringMapText (orEmpty model.metadata)).length)

def modelValues (model : ModelFields F) : ℕ :=
  flatValues model.labels + (flatValues model.metrics + flatValues model.metadata)

theorem sound_new (scope : String) : (newJSONByteBudget scope).Sound :=
  ⟨Nat.zero_le _, Nat.zero_le _⟩

theorem charged_job {job : Job F} (canonical : CanonicalJob floats job) :
    Charged (newJSONByteBudget "job serialized fields") (jobBytes floats job) (jobValues job)
      (validateJobMetadataSize floats job) := by
  have limit {b after : JsonByteBudget} {bytes values : ℕ} (same : after = b.charge bytes values) :
      after.valueLimit = b.valueLimit := by
    rw [same]
    rfl
  have whole := (charged_addEach (fun text => (marshalString text).length)
      (sound_new "job serialized fields")
      fun text found _ sound => charged_addString sound (canonical.strings text found)).bind
    fun _ first sound => (charged_addJSONMap floats sound (Nat.le_of_eq (limit first))
        canonical.schemaHint).bind
      fun _ second sound =>
        (charged_addJSONMap floats sound (Nat.le_of_eq ((limit second).trans (limit first)))
          canonical.hyperparams).bind fun _ _ sound => charged_addStringMap sound canonical.tags
  exact whole.congr rfl (Nat.zero_add _)

theorem charged_model {model : ModelFields F} (canonical : CanonicalModel floats model) :
    Charged (newJSONByteBudget "model JSON fields") (modelBytes floats model) (modelValues model)
      (validateModelJSONSize floats model) := by
  have labels : ∀ item ∈ (orEmpty model.labels).getD [], isValidUTF8 item := canonical.labels
  have metrics : ∀ entry ∈ (orEmpty model.metrics).getD [],
      isValidUTF8 entry.1 ∧ Finite floats entry.2 := canonical.metrics
  have metadata : ∀ entry ∈ (orEmpty model.metadata).getD [],
      isValidUTF8 entry.1 ∧ isValidUTF8 entry.2 := canonical.metadata
  exact (charged_addStringSlice (sound_new _) labels).bind fun _ _ sound =>
    (charged_addFloatMap floats sound metrics).bind fun _ _ sound =>
      charged_addStringMap sound metadata

/-- The accounting of `jsonByteBudget` is exact: each field adds the length of its
encoding and its number of values, and a job or a model within the limit on values
is refused for its size exactly when its fields are longer than the limit. -/
theorem accounting_exact :
    (∀ (b : JsonByteBudget) (text : Bytes), b.Sound → isValidUTF8 text →
      Charged b (marshalString text).length 0 (addString b text)) ∧
    (∀ (b : JsonByteBudget) (value : Option (List (Bytes × Value F))), b.Sound →
      b.valueLimit ≤ maxJSONValues → Canonical floats (value.elim .nilMap .map) →
      Charged b (mapText floats value).length (mapValues value) (addJSONMap floats b value)) ∧
    (∀ (b : JsonByteBudget) (value : Option (List (Bytes × Bytes))), b.Sound →
      (∀ entry ∈ value.getD [], isValidUTF8 entry.1 ∧ isValidUTF8 entry.2) →
      Charged b (stringMapText value).length (flatValues value) (addStringMap b value)) ∧
    (∀ (b : JsonByteBudget) (value : Option (List Bytes)), b.Sound →
      (∀ item ∈ value.getD [], isValidUTF8 item) →
      Charged b (stringSliceText value).length (flatValues value) (addStringSlice b value)) ∧
    (∀ (b : JsonByteBudget) (value : Option (List (Bytes × F))), b.Sound →
      (∀ entry ∈ value.getD [], isValidUTF8 entry.1 ∧ Finite floats entry.2) →
      Charged b (floatMapText floats value).length (flatValues value)
        (addFloatMap floats b value)) ∧
    (∀ job : Job F, CanonicalJob floats job →
      ((∃ b, validateJobMetadataSize floats job = .ok b) ↔
        jobBytes floats job ≤ maxRegistryJSONBytes ∧ jobValues job ≤ maxJSONValues) ∧
      (jobValues job ≤ maxJSONValues →
        (validateJobMetadataSize floats job =
            .error (.encodedBytes (textBytes "job serialized fields") maxRegistryJSONBytes) ↔
          maxRegistryJSONBytes < jobBytes floats job))) ∧
    ∀ model : ModelFields F, CanonicalModel floats model →
      ((∃ b, validateModelJSONSize floats model = .ok b) ↔
        modelBytes floats model ≤ maxRegistryJSONBytes ∧ modelValues model ≤ maxJSONValues) ∧
      (modelValues model ≤ maxJSONValues →
        (validateModelJSONSize floats model =
            .error (.encodedBytes (textBytes "model JSON fields") maxRegistryJSONBytes) ↔
          maxRegistryJSONBytes < modelBytes floats model)) := by
  refine ⟨fun b text sound valid => charged_addString sound valid,
    fun b value sound bounded canonical => charged_addJSONMap floats sound bounded canonical,
    fun b value sound valid => charged_addStringMap sound valid,
    fun b value sound valid => charged_addStringSlice sound valid,
    fun b value sound valid => charged_addFloatMap floats sound valid, ?_, ?_⟩
  · intro job canonical
    have charged := charged_job floats canonical
    refine ⟨by simpa [newJSONByteBudget] using charged.accepted_iff, fun within => ?_⟩
    have refused := charged.refused_iff (by simpa [newJSONByteBudget] using within)
    simpa [newJSONByteBudget] using refused
  · intro model canonical
    have charged := charged_model floats canonical
    refine ⟨by simpa [newJSONByteBudget] using charged.accepted_iff, fun within => ?_⟩
    have refused := charged.refused_iff (by simpa [newJSONByteBudget] using within)
    simpa [newJSONByteBudget] using refused

end Fields

end Charging

/-- One-digit floats. -/
def digits : Floats (Fin 10) where
  isInf _ := false
  isNaN _ := false
  absIsZero value := value.val = 0
  absBelowMicro _ := false
  absFromSextillion _ := false
  appendFloat value _ := [0x30 + UInt8.ofNat value.val]

/-- A job with one hyperparameter, `{"lr":9}`. -/
def smallJob : Job (Fin 10) where
  id := [0x6A]
  name := [0x6E]
  tenantID := []
  baseModel := [0x62]
  dataset := ⟨[0x64], [0x75], [], [0x6D], [0x74], none⟩
  hyperparams := some [([0x6C, 0x72], .number (.last 9))]
  tags := none

theorem canonical_smallJob : CanonicalJob digits smallJob where
  strings := by decide +kernel
  schemaHint := .nilMap
  hyperparams := .map (by decide +kernel) fun entry found => by
    rw [mem_singleton.mp found]
    exact .number ⟨rfl, rfl⟩
  tags := by decide +kernel

/-- The small job is within the limits. -/
theorem smallJob_accepted : ∃ b, validateJobMetadataSize digits smallJob = .ok b := by
  have accounting := accounting_exact digits
  refine ((accounting.2.2.2.2.2.1 smallJob canonical_smallJob).1).mpr ⟨?_, ?_⟩
  · have strings : (smallJob.serializedStrings.map
        fun text => (marshalString text).length).sum = 25 := by decide +kernel
    have key : (marshalString [0x6C, 0x72]).length = 4 := by decide +kernel
    have hyperparams : (mapText digits smallJob.hyperparams).length = 8 := by
      simp [mapText, smallJob, marshal, length_marshalMembers, marshalEntries, length_member, key,
        frame, marshalFloat, digits]
    have schemaHint : (mapText digits smallJob.dataset.schemaHint).length = 4 := rfl
    have tags : (stringMapText smallJob.tags).length = 4 := rfl
    rw [jobBytes, strings, schemaHint, hyperparams, tags]
    decide
  · simp [jobValues, mapValues, flatValues, smallJob, nested, nestedEntries, maxJSONValues]

end Golusoris.Tiny.Json
