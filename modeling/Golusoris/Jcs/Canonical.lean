import Golusoris.Jcs.Numbers
import Golusoris.Jcs.Unambiguous

/-!
# The canonical form as a key

`Json.Same` is equality of values with objects as finite maps. The canonical
text of a value is a text of the value with sorted members, provided that the
formatter's digits parse back; so canonicalising twice changes nothing, and two
texts have one canonical form exactly when they denote the same value.
-/

namespace Golusoris.Jcs

open List
open Lib
open Json

/-- Equality of values: arrays element by element, objects as finite maps. -/
inductive Json.Same : Json → Json → Prop where
  | null : Json.Same .null .null
  | bool (value : Bool) : Json.Same (.bool value) (.bool value)
  | number (value : ℚ) : Json.Same (.number value) (.number value)
  | string (text : List Char) : Json.Same (.string text) (.string text)
  | array {elements others : List Json} (count : elements.length = others.length)
      (each : ∀ (index : Nat) (element other : Json), elements[index]? = some element →
        others[index]? = some other → Json.Same element other) :
      Json.Same (.array elements) (.array others)
  | object {members others : List (List Char × Json)}
      (names : ∀ name, name ∈ members.map Prod.fst ↔ name ∈ others.map Prod.fst)
      (each : ∀ (name : List Char) (value other : Json), (name, value) ∈ members →
        (name, other) ∈ others → Json.Same value other) :
      Json.Same (.object members) (.object others)

mutual

/-- The numbers of a value. -/
def Json.numbers : Json → List ℚ
  | .number value => [value]
  | .array elements => numbersAll elements
  | .object members => numbersMembers members
  | _ => []

def numbersAll : List Json → List ℚ
  | [] => []
  | element :: elements => element.numbers ++ numbersAll elements

def numbersMembers : List (List Char × Json) → List ℚ
  | [] => []
  | (_, value) :: members => value.numbers ++ numbersMembers members

end

/-- The formatter's digits parse back for every number of the value. -/
def Json.RoundTrips (shortest : Formatter) (json : Json) : Prop :=
  ∀ value ∈ json.numbers, Jcs.RoundTrips shortest value

theorem numbersAll_eq_flatMap (elements : List Json) :
    numbersAll elements = elements.flatMap numbers := by
  induction elements with
  | nil => rfl
  | cons element elements ih => rw [numbersAll, ih, flatMap_cons]

theorem numbersMembers_eq_flatMap (members : List (List Char × Json)) :
    numbersMembers members = members.flatMap fun member => member.2.numbers := by
  induction members with
  | nil => rfl
  | cons member members ih => rw [numbersMembers, ih, flatMap_cons]

variable {elements : List Json} {members : List (List Char × Json)}

section

variable {shortest : Formatter}

theorem roundTrips_array :
    (array elements).RoundTrips shortest ↔ ∀ element ∈ elements, element.RoundTrips shortest := by
  simp only [Json.RoundTrips, numbers, numbersAll_eq_flatMap, mem_flatMap]
  constructor
  · exact fun trips element among value found => trips value ⟨element, among, found⟩
  · rintro trips value ⟨element, among, found⟩
    exact trips element among value found

theorem roundTrips_object :
    (object members).RoundTrips shortest ↔ ∀ member ∈ members, member.2.RoundTrips shortest := by
  simp only [Json.RoundTrips, numbers, numbersMembers_eq_flatMap, mem_flatMap]
  constructor
  · exact fun trips member among value found => trips value ⟨member, among, found⟩
  · rintro trips value ⟨member, among, found⟩
    exact trips member among value found

example : (array [.number 1, .object [(['a'], .number 2)]]).numbers = [1, 2] := by
  decide +kernel

end

theorem mem_sorted_members {member : List Char × Json} :
    member ∈ sortByUnits (sortedMembers members) ↔
      ∃ source ∈ members, (source.1, source.2.sorted) = member := by
  rw [(perm_sortByUnits _).mem_iff, sortedMembers_eq_map, mem_map]

theorem names_sorted_members (members : List (List Char × Json)) :
    ((sortByUnits (sortedMembers members)).map Prod.fst).Perm (members.map Prod.fst) := by
  have perm := (perm_sortByUnits (sortedMembers members)).map Prod.fst
  rw [sortedMembers_eq_map, map_map] at perm
  rw [sortedMembers_eq_map]
  exact perm

variable (json : Json)

theorem Json.roundTrips_sorted {shortest : Formatter} (trips : json.RoundTrips shortest) :
    json.sorted.RoundTrips shortest := by
  induction json using induct with
  | null | bool _ | number _ | string _ => exact trips
  | array elements ih =>
    rw [sorted, roundTrips_array, sortedAll_eq_map]
    rw [roundTrips_array] at trips
    intro element found
    obtain ⟨source, among, rfl⟩ := mem_map.mp found
    exact ih source among (trips source among)
  | object members ih =>
    rw [sorted, roundTrips_object]
    rw [roundTrips_object] at trips
    intro member found
    obtain ⟨source, among, rfl⟩ := mem_sorted_members.mp found
    exact ih source among (trips source among)

theorem Json.distinct_sorted (distinct : json.Distinct) : json.sorted.Distinct := by
  induction json using induct with
  | null | bool _ | number _ | string _ => exact distinct
  | array elements ih =>
    rw [sorted, Json.Distinct, distinctAll_iff, sortedAll_eq_map]
    rw [Json.Distinct, distinctAll_iff] at distinct
    intro element found
    obtain ⟨source, among, rfl⟩ := mem_map.mp found
    exact ih source among (distinct source among)
  | object members ih =>
    obtain ⟨names, inner⟩ := distinct
    refine ⟨(names_sorted_members members).nodup_iff.mpr names, distinctMembers_iff.mpr ?_⟩
    intro member found
    obtain ⟨source, among, rfl⟩ := mem_sorted_members.mp found
    exact ih source among (distinctMembers_iff.mp inner source among)

variable {bound : Nat}

theorem depthAll_le_iff :
    depthAll elements ≤ bound ↔ ∀ element ∈ elements, element.depth ≤ bound := by
  induction elements with
  | nil => simp [depthAll]
  | cons element elements ih => rw [depthAll, max_le_iff, ih, forall_mem_cons]

theorem depthMembers_le_iff :
    depthMembers members ≤ bound ↔ ∀ member ∈ members, member.2.depth ≤ bound := by
  induction members with
  | nil => simp [depthMembers]
  | cons member members ih => rw [depthMembers, max_le_iff, ih, forall_mem_cons]

theorem Json.depth_sorted (shallow : json.depth ≤ bound) : json.sorted.depth ≤ bound := by
  induction json using induct generalizing bound with
  | null | bool _ | number _ | string _ => exact shallow
  | array elements ih =>
    rw [depth] at shallow
    obtain ⟨less, rfl⟩ := Nat.exists_eq_add_of_le' (Nat.le_of_add_left_le shallow)
    rw [sorted, depth, Nat.add_le_add_iff_right, depthAll_le_iff, sortedAll_eq_map]
    rw [Nat.add_le_add_iff_right, depthAll_le_iff] at shallow
    intro element found
    obtain ⟨source, among, rfl⟩ := mem_map.mp found
    exact ih source among (shallow source among)
  | object members ih =>
    rw [depth] at shallow
    obtain ⟨less, rfl⟩ := Nat.exists_eq_add_of_le' (Nat.le_of_add_left_le shallow)
    rw [sorted, depth, Nat.add_le_add_iff_right, depthMembers_le_iff]
    rw [Nat.add_le_add_iff_right, depthMembers_le_iff] at shallow
    intro member found
    obtain ⟨source, among, rfl⟩ := mem_sorted_members.mp found
    exact ih source among (shallow source among)

example : (object [(['b'], .array []), (['a'], .null)]).sorted.depth = 2 := by decide +kernel

/-- Sorting a sorted value changes nothing. -/
theorem Json.sorted_sorted : json.sorted.sorted = json.sorted := by
  induction json using induct with
  | null | bool _ | number _ | string _ => rfl
  | array elements ih =>
    simp only [sorted, sortedAll_eq_map, map_map, array.injEq]
    exact map_congr_left ih
  | object members ih =>
    have same : sortedMembers (sortByUnits (sortedMembers members)) =
        sortByUnits (sortedMembers members) := by
      rw [sortedMembers_eq_map]
      conv_rhs => rw [← map_id (sortByUnits (sortedMembers members))]
      refine map_congr_left fun member found => ?_
      obtain ⟨source, among, rfl⟩ := mem_sorted_members.mp found
      exact Prod.ext rfl (ih source among)
    have increasing : (sortByUnits (sortedMembers members)).Pairwise fun first second =>
        nameUnits first.1 ≤ nameUnits second.1 := pairwise_insertionSort _ _
    rw [sorted, sorted, same, sortByUnits, increasing.insertionSort_eq]

theorem Json.same_sorted (distinct : json.Distinct) : json.sorted.Same json := by
  induction json using induct with
  | null => exact .null
  | bool value => exact .bool value
  | number value => exact .number value
  | string text => exact .string text
  | array elements ih =>
    rw [Json.Distinct, distinctAll_iff] at distinct
    rw [sorted, sortedAll_eq_map]
    refine .array (by simp) fun index element other found found' => ?_
    rw [List.getElem?_map, found', Option.map_some, Option.some.injEq] at found
    subst found
    have among := mem_of_getElem? found'
    exact ih other among (distinct other among)
  | object members ih =>
    obtain ⟨names, inner⟩ := distinct
    rw [distinctMembers_iff] at inner
    rw [sorted]
    refine .object (fun name => (names_sorted_members members).mem_iff) ?_
    intro name value other found found'
    obtain ⟨⟨name, source⟩, among, same⟩ := mem_sorted_members.mp found
    obtain ⟨rfl, rfl⟩ := Prod.mk.inj same
    obtain rfl := (Prod.mk.inj (inj_on_of_nodup_map names among found' rfl)).2
    exact ih _ among (inner _ among)

variable {json other : Json}

/-- Two values that are the same have one sorted form. -/
theorem Json.Same.sorted_eq (same : json.Same other) (distinct : json.Distinct)
    (distinct' : other.Distinct) : json.sorted = other.sorted := by
  induction same with
  | null | bool _ | number _ | string _ => rfl
  | @array elements others count each ih =>
    rw [Json.Distinct, distinctAll_iff] at distinct distinct'
    rw [sorted, sorted, sortedAll_eq_map, sortedAll_eq_map]
    congr 1
    apply ext_getElem?
    intro index
    rw [List.getElem?_map, List.getElem?_map]
    cases found : elements[index]? with
    | none =>
      rw [List.getElem?_eq_none_iff, count, ← List.getElem?_eq_none_iff] at found
      rw [found]
    | some element =>
      have below : index < others.length := count ▸ (List.getElem?_eq_some_iff.mp found).1
      have found' : others[index]? = some others[index] := List.getElem?_eq_getElem below
      rw [found']
      exact congrArg some (ih index _ _ found found'
        (distinct _ (mem_of_getElem? found)) (distinct' _ (mem_of_getElem? found')))
  | @object members others names each ih =>
    obtain ⟨nodup, inner⟩ := distinct
    obtain ⟨nodup', inner'⟩ := distinct'
    rw [distinctMembers_iff] at inner inner'
    have keys {fields : List (List Char × Json)} (nodup : (fields.map Prod.fst).Nodup) :
        ((sortedMembers fields).map Prod.fst).Nodup := by
      rw [sortedMembers_eq_map, map_map]
      exact nodup
    -- Both lists of members hold the same pairs, and none of them twice.
    have perm : (sortedMembers members).Perm (sortedMembers others) := by
      refine (perm_ext_iff_of_nodup (.of_map _ (keys nodup)) (.of_map _ (keys nodup'))).mpr ?_
      rintro ⟨name, value⟩
      rw [sortedMembers_eq_map, sortedMembers_eq_map, mem_map, mem_map]
      constructor
      · rintro ⟨⟨name', source⟩, among, same⟩
        obtain ⟨rfl, rfl⟩ := Prod.mk.inj same
        obtain ⟨⟨name', source'⟩, among', rfl⟩ :=
          mem_map.mp ((names name').mp (mem_map_of_mem among))
        exact ⟨_, among', Prod.ext rfl (ih _ _ _ among among' (inner _ among)
          (inner' _ among')).symm⟩
      · rintro ⟨⟨name', source⟩, among, same⟩
        obtain ⟨rfl, rfl⟩ := Prod.mk.inj same
        obtain ⟨⟨name', source'⟩, among', rfl⟩ :=
          mem_map.mp ((names name').mpr (mem_map_of_mem among))
        exact ⟨_, among', Prod.ext rfl (ih _ _ _ among' among (inner _ among') (inner' _ among))⟩
    rw [sorted, sorted]
    congr 1
    have ordered := pairwise_sortByUnits (keys nodup)
    have ordered' := pairwise_sortByUnits (keys nodup')
    refine Perm.eq_of_pairwise ?_ ordered ordered'
      ((perm_sortByUnits _).trans (perm.trans (perm_sortByUnits _).symm))
    intro first second _ _ below above
    exact absurd (below.trans above) (lt_irrefl _)

theorem Json.Same.symm (same : json.Same other) : other.Same json := by
  induction same with
  | null => exact .null
  | bool value => exact .bool value
  | number value => exact .number value
  | string text => exact .string text
  | array count each ih =>
    exact .array count.symm fun index element other found found' => ih index other element found' found
  | object names each ih =>
    exact .object (fun name => (names name).symm) fun name value other found found' =>
      ih name other value found' found

theorem Json.Same.trans {third : Json} (same : json.Same other) (same' : other.Same third) :
    json.Same third := by
  induction same generalizing third with
  | null | bool _ | number _ | string _ => exact same'
  | @array elements others count each ih =>
    cases same' with
    | array count' each' =>
      refine .array (count.trans count') fun index element last found found' => ?_
      have below : index < others.length := count ▸ (List.getElem?_eq_some_iff.mp found).1
      have middle : others[index]? = some others[index] := List.getElem?_eq_getElem below
      exact ih index _ _ found middle (each' index _ _ middle found')
  | @object members others names each ih =>
    cases same' with
    | object names' each' =>
      refine .object (fun name => (names name).trans (names' name)) ?_
      intro name value last found found'
      obtain ⟨⟨name', middle⟩, among, rfl⟩ := mem_map.mp ((names name).mp (mem_map_of_mem found))
      exact ih _ _ _ found among (each' _ _ _ among found')

theorem Json.same_iff_sorted_eq (distinct : json.Distinct) (distinct' : other.Distinct) :
    json.Same other ↔ json.sorted = other.sorted := by
  constructor
  · exact fun same => same.sorted_eq distinct distinct'
  · intro equal
    have left := (json.same_sorted distinct).symm
    rw [equal] at left
    exact left.trans (other.same_sorted distinct')

theorem hex4_control : ∀ value < 0x20, Hex4 [0x30, 0x30, hexLower (value / 16), hexLower (value % 16)]
    value := by
  intro value small
  refine ⟨0x30, 0x30, _, _, 0, 0, value / 16, value % 16, rfl, Or.inl ⟨by decide, rfl⟩,
    Or.inl ⟨by decide, rfl⟩, ?_, ?_, by omega⟩
  · have below : value / 16 < 10 := by omega
    left
    refine ⟨below, ?_⟩
    rw [hexLower, if_pos below, UInt8.toNat_ofNat']
    omega
  · by_cases below : value % 16 < 10
    · left
      refine ⟨below, ?_⟩
      rw [hexLower, if_pos below, UInt8.toNat_ofNat']
      omega
    · right
      refine ⟨by omega, by omega, Or.inl ?_⟩
      rw [hexLower, if_neg below, UInt8.toNat_ofNat']
      omega

theorem stringBody_escapeRune (rune : Char) {text : Bytes} {runes : List Char}
    (rest : StringBody text runes) : StringBody (escapeRune rune ++ text) (rune :: runes) := by
  rw [escapeRune]
  split
  case isTrue quoted => exact .short (by rw [quoted]; decide) rest
  rename_i quoted
  split
  case isTrue slash => exact .short (by rw [slash]; decide) rest
  rename_i slash
  split
  case isTrue backspace => exact .short (by rw [backspace]; decide) rest
  rename_i backspace
  split
  case isTrue tab => exact .short (by rw [tab]; decide) rest
  rename_i tab
  split
  case isTrue newline => exact .short (by rw [newline]; decide) rest
  rename_i newline
  split
  case isTrue feed => exact .short (by rw [feed]; decide) rest
  rename_i feed
  split
  case isTrue carriage => exact .short (by rw [carriage]; decide) rest
  rename_i carriage
  split
  case isTrue control => exact .unit (hex4_control rune.toNat control) rest
  exact .plain (by omega) quoted slash rest

theorem stringText_quote (runes : List Char) : StringText (quote runes) runes := by
  refine ⟨runes.flatMap escapeRune, rfl, ?_⟩
  induction runes with
  | nil => exact .nil
  | cons rune runes ih => exact stringBody_escapeRune rune ih

theorem space_nil : Space [] := fun _ found => absurd found not_mem_nil

theorem joinComma_cons (first second : Bytes) (rest : List Bytes) :
    joinComma (first :: second :: rest) = first ++ 0x2C :: joinComma (second :: rest) := by
  simp [joinComma]

section

variable {shortest : Formatter}

theorem derives_elements
    (each : ∀ element ∈ elements, Derives (element.write shortest) (.value element))
    (some : elements ≠ []) :
    Derives (joinComma (writeAll shortest elements)) (.elements elements) := by
  induction elements with
  | nil => exact absurd rfl some
  | cons first elements ih =>
    have derives := each first mem_cons_self
    cases elements with
    | nil =>
      have written := Derives.lastElement space_nil derives space_nil
      simpa [joinComma, writeAll] using written
    | cons second elements =>
      have rest := ih (fun element among => each element (mem_cons_of_mem first among))
        (cons_ne_nil _ _)
      rw [writeAll, writeAll, joinComma_cons]
      exact Derives.element space_nil derives space_nil rest

theorem derives_members
    (each : ∀ member ∈ members, Derives (member.2.write shortest) (.value member.2))
    (some : members ≠ []) :
    Derives (joinComma (writeMembers shortest members)) (.members members) := by
  induction members with
  | nil => exact absurd rfl some
  | cons first members ih =>
    obtain ⟨name, value⟩ := first
    have derives := each _ mem_cons_self
    have named := stringText_quote name
    cases members with
    | nil =>
      have written := Derives.lastMember space_nil named space_nil space_nil derives space_nil
      simpa [joinComma, writeMembers] using written
    | cons second members =>
      have rest := ih (fun member among => each member (mem_cons_of_mem _ among)) (cons_ne_nil _ _)
      have written := Derives.member space_nil named space_nil space_nil derives space_nil rest
      rw [writeMembers, writeMembers, joinComma_cons]
      simpa [writeMembers] using written

/-- What is written for a value is a text of it. -/
theorem Json.derives_write (trips : json.RoundTrips shortest) :
    Derives (json.write shortest) (.value json) := by
  induction json using induct with
  | null => exact .null
  | bool value =>
    cases value with
    | true => exact .yes
    | false => exact .no
  | number value =>
    obtain ⟨written, finite⟩ := appendNumber_parses (trips value mem_cons_self)
    exact .number written finite
  | string text => exact .string (stringText_quote text)
  | array elements ih =>
    rw [roundTrips_array] at trips
    have each : ∀ element ∈ elements, Derives (element.write shortest) (.value element) :=
      fun element among => ih element among (trips element among)
    by_cases empty : elements = []
    · subst empty
      exact .emptyArray space_nil
    · exact .array (derives_elements each empty)
  | object members ih =>
    rw [roundTrips_object] at trips
    have each : ∀ member ∈ members, Derives (member.2.write shortest) (.value member.2) :=
      fun member among => ih member among (trips member among)
    by_cases empty : members = []
    · subst empty
      exact .emptyObject space_nil
    · exact .object (derives_members each empty)

theorem Json.denotes_write (trips : json.RoundTrips shortest) :
    Denotes (json.write shortest) json :=
  ⟨[], _, [], by simp, space_nil, space_nil, json.derives_write trips⟩

/-- The canonical text of an admissible value is its own canonical form. -/
theorem canonicalize_write (admissible : json.Admissible maxDepth)
    (trips : json.RoundTrips shortest) :
    canonicalize shortest (json.sorted.write shortest) = .ok (json.sorted.write shortest) := by
  have denotes := json.sorted.denotes_write (json.roundTrips_sorted trips)
  have accepted := (canonicalize_accepts_iff shortest (json.sorted.write shortest)).mpr
    ⟨json.sorted, denotes, json.distinct_sorted admissible.1, json.depth_sorted admissible.2⟩
  obtain ⟨out, canonical⟩ := accepted
  obtain ⟨-, same⟩ := (canonicalize_eq canonical).2 _ denotes
  rw [canonical, same, sorted_sorted]

/-- The canonical form is a key for values: it is its own canonical form, it
denotes the value of the input, and two inputs have the same one exactly when
they denote the same value. -/
theorem canonicalize_key {x y out out' : Bytes} {json json' : Json}
    (accepted : canonicalize shortest x = .ok out) (accepted' : canonicalize shortest y = .ok out')
    (denotes : Denotes x json) (denotes' : Denotes y json') (trips : json.RoundTrips shortest)
    (trips' : json'.RoundTrips shortest) :
    canonicalize shortest out = .ok out ∧
      (∀ value, Denotes out value ↔ value = json.sorted) ∧ json.sorted.Same json ∧
      (out = out' ↔ json.Same json') := by
  obtain ⟨admissible, rfl⟩ := (canonicalize_eq accepted).2 json denotes
  obtain ⟨admissible', rfl⟩ := (canonicalize_eq accepted').2 json' denotes'
  have written := json.sorted.denotes_write (json.roundTrips_sorted trips)
  have written' := json'.sorted.denotes_write (json'.roundTrips_sorted trips')
  refine ⟨canonicalize_write admissible trips, fun value => ⟨fun read => read.unique written, ?_⟩,
    json.same_sorted admissible.1, ?_⟩
  · rintro rfl
    exact written
  · rw [Json.same_iff_sorted_eq admissible.1 admissible'.1]
    constructor
    · intro same
      rw [same] at written
      exact written.unique written'
    · exact congrArg _

end

def firstOrder : Json := .object [(['b'], .number 1), (['a'], .array [.number 1])]

def secondOrder : Json := .object [(['a'], .array [.number 1]), (['b'], .number 1)]

theorem roundTrips_one : RoundTrips formatOne 1 := fun _ => by decide +kernel

/-- Two orders of the members have one canonical form. -/
theorem canonicalize_key_reordered :
    canonicalize formatOne (textBytes "\x7b\"a\":[1],\"b\":1\x7d") =
        .ok (textBytes "\x7b\"a\":[1],\"b\":1\x7d") ∧
      firstOrder.Same secondOrder := by
  have ones : ∀ value ∈ firstOrder.numbers, RoundTrips formatOne value := by
    intro value found
    rw [List.eq_of_mem_replicate (show value ∈ List.replicate 2 (1 : ℚ) from found)]
    exact roundTrips_one
  have ones' : ∀ value ∈ secondOrder.numbers, RoundTrips formatOne value := by
    intro value found
    rw [List.eq_of_mem_replicate (show value ∈ List.replicate 2 (1 : ℚ) from found)]
    exact roundTrips_one
  have accepted : canonicalize formatOne (firstOrder.write formatOne) =
      .ok (textBytes "\x7b\"a\":[1],\"b\":1\x7d") := by decide +kernel
  have accepted' : canonicalize formatOne (secondOrder.write formatOne) =
      .ok (textBytes "\x7b\"a\":[1],\"b\":1\x7d") := by decide +kernel
  have key := canonicalize_key accepted accepted'
    (firstOrder.denotes_write ones) (secondOrder.denotes_write ones') ones ones'
  exact ⟨key.1, key.2.2.2.mp rfl⟩

end Golusoris.Jcs
