import Golusoris.Lib.JsonValue
import Golusoris.Lib.Lists
import Golusoris.Lib.NetUrl
import Mathlib

/-!
# Queries

`QueryEscape`, `QueryUnescape`, `ParseQuery` and `Values.Encode` of the package `net/url`
of Go. A map of values is known from its encoding, whatever the order of the pairs was
that it was read from.
-/

namespace Golusoris.Lib.Query

open List
open Json (hexValue)
open NetUrl (upperHex isAlphanumeric unreservedBytes cut cut_append hexValue_upperHex)

def plain (byte : UInt8) : Bool := isAlphanumeric byte || unreservedBytes.contains byte

def escapeByte (byte : UInt8) : Bytes :=
  if plain byte then [byte]
  else if byte = 0x20 then [0x2B]
  else [0x25, upperHex (byte.toNat / 16), upperHex (byte.toNat % 16)]

/-- `QueryEscape`. -/
def escape (text : Bytes) : Bytes := text.flatMap escapeByte

/-- `QueryUnescape`. -/
def unescape : Bytes → Option Bytes
  | [] => some []
  | byte :: rest =>
      if byte = 0x25 then
        match rest with
        | high :: low :: rest =>
            match hexValue high, hexValue low with
            | some first, some second => (unescape rest).map (UInt8.ofNat (16 * first + second) :: ·)
            | _, _ => none
        | _ => none
      else (unescape rest).map ((if byte = 0x2B then 0x20 else byte) :: ·)

/-- What an escaped text is made of. -/
def escapedByte (byte : UInt8) : Bool := plain byte || byte == 0x2B || byte == 0x25

theorem plain_upperHex {value : Nat} (small : value < 16) : plain (upperHex value) := by
  have all : ∀ value < 16, plain (upperHex value) := by decide
  exact all value small

theorem of_mem_escape {text : Bytes} {byte : UInt8} (found : byte ∈ escape text) :
    escapedByte byte := by
  obtain ⟨own, -, inside⟩ := mem_flatMap.mp found
  have small := own.toNat_lt
  rw [escapeByte] at inside
  split_ifs at inside with kept space
  · rw [mem_singleton.mp inside, escapedByte, kept, Bool.true_or, Bool.true_or]
  · rw [mem_singleton.mp inside]
    decide
  · simp only [mem_cons, not_mem_nil, or_false] at inside
    obtain rfl | rfl | rfl := inside
    · decide
    · rw [escapedByte, plain_upperHex (by omega), Bool.true_or, Bool.true_or]
    · rw [escapedByte, plain_upperHex (by omega), Bool.true_or, Bool.true_or]

theorem not_mem_escape {byte : UInt8} (other : escapedByte byte = false) (text : Bytes) :
    byte ∉ escape text := by
  intro found
  rw [of_mem_escape found] at other
  cases other

theorem unescape_plain {byte : UInt8} (kept : plain byte) (rest : Bytes) :
    unescape (byte :: rest) = (unescape rest).map (byte :: ·) := by
  have percent : byte ≠ 0x25 := by
    rintro rfl
    exact absurd kept (by decide)
  have plus : byte ≠ 0x2B := by
    rintro rfl
    exact absurd kept (by decide)
  rw [unescape.eq_def]
  simp only
  rw [if_neg percent, if_neg plus]

theorem unescape_plus (rest : Bytes) : unescape (0x2B :: rest) = (unescape rest).map (0x20 :: ·) := by
  rw [unescape.eq_def]
  rfl

theorem unescape_escape (text : Bytes) : unescape (escape text) = some text := by
  induction text with
  | nil => rfl
  | cons byte rest ih =>
    have small := byte.toNat_lt
    rw [escape, flatMap_cons, ← escape, escapeByte]
    split_ifs with kept space
    · rw [singleton_append, unescape_plain kept, ih, Option.map_some]
    · rw [singleton_append, unescape_plus, ih, space, Option.map_some]
    · have whole : UInt8.ofNat (16 * (byte.toNat / 16) + byte.toNat % 16) = byte := by
        rw [Nat.div_add_mod, UInt8.ofNat_toNat]
      simp only [cons_append, nil_append]
      rw [unescape, if_pos rfl]
      simp only [hexValue_upperHex (show byte.toNat / 16 < 16 by omega),
        hexValue_upperHex (show byte.toNat % 16 < 16 by omega)]
      rw [ih, whole, Option.map_some]

theorem escape_inj {text other : Bytes} : escape text = escape other ↔ text = other := by
  refine ⟨fun same => ?_, congrArg escape⟩
  rw [← Option.some_inj, ← unescape_escape, same, unescape_escape]

/-- `Values`: the values of each key in their order. -/
abbrev Values := Dict Bytes (List Bytes)

def Values.values (map : Values) (key : Bytes) : List Bytes := (map.get? key).getD []

def Values.add (map : Values) (key value : Bytes) : Values := map.insert key
    (map.values key ++ [value])

/-- One setting of a query; none if it is empty or malformed. -/
def setting (text : Bytes) : Option (Bytes × Bytes) :=
  if 0x3B ∈ text ∨ text = [] then none
  else do
    let (key, value) := (cut 0x3D text).getD (text, [])
    let key ← unescape key
    let value ← unescape value
    some (key, value)

/-- What `Query` returns; `withinMax` is the limit on the number of settings. -/
def parse (withinMax : Nat → Bool) (query : Bytes) : Values :=
  if withinMax (query.count 0x26 + 1) then
    ((query.splitOn 0x26).filterMap setting).foldl (fun map (key, value) => map.add key value) .empty
  else .empty

/-- The pairs in the order of the keys. -/
def Values.pairs (map : Values) : List (Bytes × Bytes) :=
  map.entries.flatMap fun (key, values) => values.map fun value => (key, value)

def encodePair (pair : Bytes × Bytes) : Bytes := escape pair.1 ++ 0x3D :: escape pair.2

/-- `Values.Encode`. -/
def Values.encode (map : Values) : Bytes := [0x26].intercalate (map.pairs.map encodePair)

/-- No key is without values. -/
def Values.Filled (map : Values) : Prop := ∀ entry ∈ map.entries, entry.2 ≠ []

theorem filled_add {map : Values} (filled : map.Filled) (key value : Bytes) :
    (map.add key value).Filled := by
  intro entry found
  obtain rfl | found := Dict.mem_place found
  · simp
  · exact filled entry found

theorem filled_parse (withinMax : Nat → Bool) (query : Bytes) : (parse withinMax query).Filled := by
  have empty : Values.Filled .empty := nofun
  rw [parse]
  split_ifs
  · generalize (query.splitOn 0x26).filterMap setting = settings
    induction settings using reverseRecOn with
    | nil => exact empty
    | append_singleton settings last ih =>
      rw [foldl_append]
      exact filled_add ih _ _
  · exact empty

theorem encodePair_inj {pair other : Bytes × Bytes} (same : encodePair pair = encodePair other) :
    pair = other := by
  have free (text : Bytes) : 0x3D ∉ escape text := not_mem_escape (by decide) text
  have cuts := congrArg (cut 0x3D) same
  rw [encodePair, encodePair, cut_append (free _), cut_append (free _)] at cuts
  obtain ⟨keys, values⟩ := Prod.mk.inj (Option.some.inj cuts)
  exact Prod.ext (escape_inj.mp keys) (escape_inj.mp values)

theorem not_mem_encodePair (pair : Bytes × Bytes) : 0x26 ∉ encodePair pair := by
  rw [encodePair, mem_append, mem_cons, not_or, not_or]
  exact ⟨not_mem_escape (by decide) _, by decide, not_mem_escape (by decide) _⟩

/-- The pairs are known from the encoding. -/
theorem pairs_of_encode {map other : Values} (same : map.encode = other.encode) :
    map.pairs = other.pairs := by
  have shown (pair : Bytes × Bytes) : encodePair pair ≠ [] := by simp [encodePair]
  have free (pairs : List (Bytes × Bytes)) : ∀ item ∈ pairs.map encodePair, 0x26 ∉ item := by
    intro item found
    obtain ⟨pair, -, rfl⟩ := mem_map.mp found
    exact not_mem_encodePair pair
  have split {pairs : List (Bytes × Bytes)} (some : pairs ≠ []) :
      ([0x26].intercalate (pairs.map encodePair)).splitOn 0x26 = pairs.map encodePair :=
    splitOn_intercalate 0x26 (free pairs) (by simpa using some)
  have empty {pairs : List (Bytes × Bytes)} (none : [] = [0x26].intercalate (pairs.map encodePair)) :
      pairs = [] := by
    by_contra some
    have parts := split some
    rw [← none, splitOn_nil] at parts
    obtain ⟨pair, -, same⟩ := mem_map.mp (parts ▸ mem_cons_self : [] ∈ pairs.map encodePair)
    exact shown pair same
  rw [Values.encode, Values.encode] at same
  by_cases first : map.pairs = []
  · rw [first, map_nil, intercalate_nil] at same
    rw [first, empty same]
  · by_cases second : other.pairs = []
    · rw [second, map_nil, intercalate_nil] at same
      exact absurd (empty same.symm) first
    · have parts := split first
      rw [same, split second] at parts
      exact map_injective_iff.mpr (fun _ _ => encodePair_inj) parts.symm

/-- The values of a key are those of its pairs. -/
theorem values_eq (map : Values) (key : Bytes) :
    map.values key = (map.pairs.filter fun pair => pair.1 = key).map Prod.snd := by
  obtain ⟨entries, sorted⟩ := map
  rw [Values.values, Values.pairs, Dict.get?]
  induction entries with
  | nil => rfl
  | cons entry entries ih =>
    obtain ⟨above, rest⟩ := pairwise_cons.mp sorted
    obtain ⟨first, held⟩ := entry
    have later := ih rest
    dsimp only at later ⊢
    by_cases same : first = key
    · subst same
      have none : (entries.flatMap fun (key, values) => values.map fun value => (key, value)).filter
          (fun pair => pair.1 = first) = [] := by
        refine filter_eq_nil_iff.mpr fun pair found => ?_
        obtain ⟨entry, listed, inside⟩ := mem_flatMap.mp found
        obtain ⟨value, -, rfl⟩ := mem_map.mp inside
        rw [decide_eq_true_iff]
        intro same
        exact Std.Irrefl.irrefl first (same ▸ above entry listed)
      rw [flatMap_cons, filter_append, none, find?_cons_of_pos (by simp)]
      simp [filter_map, Function.comp_def]
    · rw [flatMap_cons, filter_append, find?_cons_of_neg (by simpa using same)]
      simpa [filter_map, Function.comp_def, same] using later

/-- The map is known from its encoding. -/
theorem encode_inj {map other : Values} (filled : map.Filled) (filled' : other.Filled) :
    map.encode = other.encode ↔ map = other := by
  refine ⟨fun same => Dict.ext_get? fun key => ?_, congrArg Values.encode⟩
  have values : map.values key = other.values key := by
    rw [values_eq, values_eq, pairs_of_encode same]
  rw [Values.values, Values.values] at values
  cases left : map.get? key with
  | none =>
    cases right : other.get? key with
    | none => rfl
    | some held =>
      rw [left, right] at values
      exact absurd values.symm (filled' _ (Dict.get?_eq_some.mp right))
  | some held =>
    cases right : other.get? key with
    | none =>
      rw [left, right] at values
      exact absurd values (filled _ (Dict.get?_eq_some.mp left))
    | some held' =>
      rw [left, right] at values
      exact congrArg some values

end Golusoris.Lib.Query
