import Golusoris.Jcs.Acceptance

/-!
# The canonical serialisation

`Json.write` is the text of a value without white space, in the order in which
the value has its members; `Json.sorted` orders the members of every object by
the code units of their names. The emitter walks the node table and writes the
sorted value, and its step bound leaves room for every node.
-/

namespace Golusoris.Jcs

open List
open Lib
open Json

/-- A character in its minimal form: quote, backslash and control characters are
escaped, all others stand for themselves. -/
def escapeRune (rune : Char) : Bytes :=
  if rune = '"' then [0x5C, 0x22]
  else if rune = '\\' then [0x5C, 0x5C]
  else if rune = '\x08' then [0x5C, 0x62]
  else if rune = '\t' then [0x5C, 0x74]
  else if rune = '\n' then [0x5C, 0x6E]
  else if rune = '\x0C' then [0x5C, 0x66]
  else if rune = '\r' then [0x5C, 0x72]
  else if rune.toNat < 0x20 then
    [0x5C, 0x75, 0x30, 0x30, hexLower (rune.toNat / 16), hexLower (rune.toNat % 16)]
  else String.utf8EncodeChar rune

def quote (text : List Char) : Bytes := 0x22 :: text.flatMap escapeRune ++ [0x22]

def joinComma : List Bytes → Bytes
  | [] => []
  | first :: rest => first ++ rest.flatMap fun item => 0x2C :: item

section

variable (shortest : Formatter)

mutual

/-- The text of a value in its own order, without white space. -/
def Json.write : Json → Bytes
  | .null => textBytes "null"
  | .bool value => textBytes (literalText value)
  | .number value => appendNumber shortest value
  | .string text => quote text
  | .array elements => 0x5B :: joinComma (writeAll elements) ++ [0x5D]
  | .object members => 0x7B :: joinComma (writeMembers members) ++ [0x7D]

def writeAll : List Json → List Bytes
  | [] => []
  | element :: elements => element.write :: writeAll elements

def writeMembers : List (List Char × Json) → List Bytes
  | [] => []
  | (name, value) :: members => (quote name ++ 0x3A :: value.write) :: writeMembers members

end

end

/-- The members in the order of the code units of their names. -/
def sortByUnits (members : List (List Char × Json)) : List (List Char × Json) :=
  members.insertionSort fun first second => nameUnits first.1 ≤ nameUnits second.1

mutual

/-- The value with the members of every object in canonical order. -/
def Json.sorted : Json → Json
  | .array elements => .array (sortedAll elements)
  | .object members => .object (sortByUnits (sortedMembers members))
  | json => json

def sortedAll : List Json → List Json
  | [] => []
  | element :: elements => element.sorted :: sortedAll elements

def sortedMembers : List (List Char × Json) → List (List Char × Json)
  | [] => []
  | (name, value) :: members => (name, value.sorted) :: sortedMembers members

end

mutual

/-- The names of every object are strictly increasing by code units. -/
def Json.Ordered : Json → Prop
  | .array elements => OrderedAll elements
  | .object members =>
      (members.Pairwise fun first second => nameUnits first.1 < nameUnits second.1) ∧
        OrderedMembers members
  | _ => True

def OrderedAll : List Json → Prop
  | [] => True
  | element :: elements => element.Ordered ∧ OrderedAll elements

def OrderedMembers : List (List Char × Json) → Prop
  | [] => True
  | (_, value) :: members => value.Ordered ∧ OrderedMembers members

end

variable (elements : List Json)

section

variable {shortest : Formatter}

theorem writeAll_eq_map : writeAll shortest elements = elements.map (write shortest) := by
  induction elements with
  | nil => rfl
  | cons element elements ih => rw [writeAll, ih, map_cons]

theorem writeMembers_eq_map (members : List (List Char × Json)) :
    writeMembers shortest members =
      members.map fun member => quote member.1 ++ 0x3A :: member.2.write shortest := by
  induction members with
  | nil => rfl
  | cons member members ih => rw [writeMembers, ih, map_cons]

end

theorem sortedAll_eq_map : sortedAll elements = elements.map sorted := by
  induction elements with
  | nil => rfl
  | cons element elements ih => rw [sortedAll, ih, map_cons]

theorem sortedMembers_eq_map (members : List (List Char × Json)) :
    sortedMembers members = members.map fun member => (member.1, member.2.sorted) := by
  induction members with
  | nil => rfl
  | cons member members ih => rw [sortedMembers, ih, map_cons]

theorem distinctAll_iff {elements : List Json} :
    DistinctAll elements ↔ ∀ element ∈ elements, element.Distinct := by
  induction elements with
  | nil => simp [DistinctAll]
  | cons element elements ih => rw [DistinctAll, ih, forall_mem_cons]

variable {members : List (List Char × Json)}

theorem distinctMembers_iff : DistinctMembers members ↔ ∀ member ∈ members, member.2.Distinct := by
  induction members with
  | nil => simp [DistinctMembers]
  | cons member members ih => rw [DistinctMembers, ih, forall_mem_cons]

theorem orderedAll_iff {elements : List Json} :
    OrderedAll elements ↔ ∀ element ∈ elements, element.Ordered := by
  induction elements with
  | nil => simp [OrderedAll]
  | cons element elements ih => rw [OrderedAll, ih, forall_mem_cons]

theorem orderedMembers_iff : OrderedMembers members ↔ ∀ member ∈ members, member.2.Ordered := by
  induction members with
  | nil => simp [OrderedMembers]
  | cons member members ih => rw [OrderedMembers, ih, forall_mem_cons]

theorem perm_sortByUnits (members : List (List Char × Json)) : (sortByUnits members).Perm members :=
  perm_insertionSort _ _

/-- Sorted members whose names differ are strictly increasing. -/
theorem pairwise_sortByUnits (distinct : (members.map Prod.fst).Nodup) :
    (sortByUnits members).Pairwise fun first second => nameUnits first.1 < nameUnits second.1 := by
  have increasing : (sortByUnits members).Pairwise fun first second =>
      nameUnits first.1 ≤ nameUnits second.1 := pairwise_insertionSort _ _
  have differ : (sortByUnits members).Pairwise fun first second => first.1 ≠ second.1 :=
    pairwise_map.mp (((perm_sortByUnits members).map Prod.fst).nodup_iff.mpr distinct)
  refine (increasing.and differ).imp ?_
  rintro first second ⟨below, other⟩
  exact lt_of_le_of_ne below (nameUnits_injective.ne other)

variable (json : Json)

/-- The canonical order of a value whose objects repeat no name is strict. -/
theorem Json.ordered_sorted (distinct : json.Distinct) : json.sorted.Ordered := by
  induction json using induct with
  | null | bool _ | number _ | string _ => trivial
  | array elements ih =>
    rw [sorted, Json.Ordered, orderedAll_iff, sortedAll_eq_map]
    intro element found
    obtain ⟨source, among, rfl⟩ := mem_map.mp found
    exact ih source among (distinctAll_iff.mp distinct source among)
  | object members ih =>
    obtain ⟨names, inner⟩ := distinct
    have same : (sortedMembers members).map Prod.fst = members.map Prod.fst := by
      rw [sortedMembers_eq_map, map_map]
      rfl
    rw [sorted, Json.Ordered, orderedMembers_iff]
    refine ⟨pairwise_sortByUnits (same ▸ names), ?_⟩
    intro member found
    rw [(perm_sortByUnits _).mem_iff, sortedMembers_eq_map] at found
    obtain ⟨source, among, rfl⟩ := mem_map.mp found
    exact ih source among (distinctMembers_iff.mp inner source among)

theorem escapeByte_ascii :
    ∀ value < 128, escapeByte (UInt8.ofNat value) = escapeRune (Char.ofNat value) := by
  decide

theorem escapeByte_encodeChar (rune : Char) :
    (String.utf8EncodeChar rune).flatMap escapeByte = escapeRune rune := by
  by_cases ascii : rune.toNat < 0x80
  · have same := escapeByte_ascii rune.toNat ascii
    rw [Char.ofNat_toNat] at same
    rw [Utf8.encodeChar_ascii ascii, flatMap_singleton, same]
  · have wide : 0x80 ≤ rune.toNat := Nat.le_of_not_lt ascii
    have plain : ∀ byte ∈ String.utf8EncodeChar rune, escapeByte byte = [byte] := by
      intro byte found
      have high := Utf8.le_of_mem_encodeChar wide found
      rw [UInt8.le_iff_toNat_le] at high
      change 0x80 ≤ byte.toNat at high
      have other : ¬(byte = 0x22 ∨ byte = 0x5C) := by
        rintro (rfl | rfl) <;> exact absurd high (by decide)
      rw [escapeByte, if_neg other, if_pos]
      rw [UInt8.le_iff_toNat_le]
      change 0x20 ≤ byte.toNat
      omega
    have same : escapeRune rune = String.utf8EncodeChar rune := by
      have other {small : Char} (below : small.toNat < 0x80) : rune ≠ small := by
        rintro rfl
        omega
      rw [escapeRune, if_neg (other (by decide)), if_neg (other (by decide)),
        if_neg (other (by decide)), if_neg (other (by decide)), if_neg (other (by decide)),
        if_neg (other (by decide)), if_neg (other (by decide)), if_neg (by omega)]
    rw [same, flatMap_congr plain, flatMap_singleton']

/-- The byte loop of the source escapes characters. -/
theorem appendString_encode (text : List Char) : appendString (Utf8.encode text) = quote text := by
  rw [appendString, quote, Utf8.encode, flatMap_assoc]
  simp only [escapeByte_encodeChar]

/-- Writing the value at an index takes so many steps and appends a text. -/
def Emits (nodes : List Node) (index : Nat) (text : Bytes) (cost : Nat) : Prop :=
  ∀ (bound : Nat) (stack : List Cursor) (out : Bytes),
    emitLoop nodes (cost + bound) (⟨index, none⟩ :: stack) out =
      emitLoop nodes bound stack (out ++ text)

/-- A child of a container: what is written before it, where it is, its text and
the steps it takes. -/
structure Item where
  lead : Bytes
  child : Nat
  text : Bytes
  cost : Nat

/-- What a container writes before its children, and where they are. -/
def Node.children (node : Node) : List (Bytes × Nat) :=
  if node.kind = .object then
    node.members.map fun member => (member.enc ++ [0x3A], member.child)
  else node.elems.map fun child => ([], child)

theorem nextChild_eq (node : Node) (next : Nat) :
    nextChild node next = node.children[next]?.map fun child =>
      ((if 0 < next then [0x2C] else []) ++ child.1, child.2) := by
  rw [nextChild, Node.children]
  split_ifs <;> simp [Function.comp_def]

section

variable {nodes : List Node} {index : Nat} {node : Node}

/-- The steps that writing the children takes, with the push of each. -/
def costs (items : List Item) : Nat := (items.map fun item => item.cost + 1).sum

theorem costs_cons (item : Item) (items : List Item) :
    costs (item :: items) = item.cost + 1 + costs items := by
  simp [costs]

/-- One child is pushed and written. -/
theorem emitLoop_child (found : nodes[index]? = some node) (container : node.kind ≠ .scalar)
    (before : List Item) {after : List Item} {item : Item}
    (children : node.children = (before ++ item :: after).map fun item => (item.lead, item.child))
    (emits : Emits nodes item.child item.text item.cost) (bound : Nat) (stack : List Cursor)
    (out : Bytes) :
    emitLoop nodes (item.cost + 1 + bound) (⟨index, some before.length⟩ :: stack) out =
      emitLoop nodes bound (⟨index, some (before.length + 1)⟩ :: stack)
        (out ++ ((if 0 < before.length then [0x2C] else []) ++ (item.lead ++ item.text))) := by
  have next : nextChild node before.length =
      some ((if 0 < before.length then [0x2C] else []) ++ item.lead, item.child) := by
    rw [nextChild_eq, children]
    simp
  rw [Nat.add_right_comm, emitLoop.eq_def]
  simp only [found, if_neg container, reduceCtorEq, if_false, Option.getD_some, next]
  rw [emits]
  simp only [append_assoc]

/-- The children that are left are written, and then the closer. -/
theorem emitLoop_children (found : nodes[index]? = some node) (container : node.kind ≠ .scalar)
    (after : List Item) : ∀ before : List Item, before ≠ [] →
      node.children = (before ++ after).map (fun item => (item.lead, item.child)) →
      (∀ item ∈ after, Emits nodes item.child item.text item.cost) →
      ∀ (bound : Nat) (stack : List Cursor) (out : Bytes),
      emitLoop nodes (costs after + 1 + bound) (⟨index, some before.length⟩ :: stack) out =
        emitLoop nodes bound stack (out ++ ((after.map fun item => item.lead ++ item.text).flatMap
          (fun text => 0x2C :: text) ++ [closer node.kind])) := by
  induction after with
  | nil =>
    intro before _ children _ bound stack out
    have next : nextChild node before.length = none := by
      rw [nextChild_eq, children]
      simp
    rw [costs, map_nil, sum_nil, Nat.zero_add, Nat.add_comm 1, emitLoop.eq_def]
    simp [found, container, next]
  | cons item after ih =>
    intro before nonempty children emits bound stack out
    have comma : 0 < before.length := length_pos_iff.mpr nonempty
    have rest := ih (before ++ [item]) (by simp) (by simpa using children)
      (fun other among => emits other (mem_cons_of_mem item among)) bound stack
    rw [length_append, length_singleton] at rest
    rw [costs_cons, Nat.add_assoc, Nat.add_assoc, ← Nat.add_assoc (costs after),
      emitLoop_child found container before children (emits item mem_cons_self), rest,
      if_pos comma]
    simp

/-- A container is written if its children are. -/
theorem emits_container (found : nodes[index]? = some node) (container : node.kind ≠ .scalar)
    {items : List Item}
    (children : node.children = items.map fun item => (item.lead, item.child))
    (emits : ∀ item ∈ items, Emits nodes item.child item.text item.cost) :
    Emits nodes index (opener node.kind :: joinComma (items.map fun item => item.lead ++ item.text) ++
      [closer node.kind]) (costs items + 1) := by
  intro bound stack out
  -- The opener is written with the first child or with the closer.
  have opened : ∀ steps, emitLoop nodes (steps + 1) (⟨index, none⟩ :: stack) out =
      emitLoop nodes (steps + 1) (⟨index, some 0⟩ :: stack) (out ++ [opener node.kind]) := by
    intro steps
    rw [emitLoop.eq_def, emitLoop.eq_def nodes (steps + 1)]
    simp [found, container]
  rw [Nat.add_right_comm, opened, Nat.add_right_comm]
  cases items with
  | nil =>
    have next : nextChild node 0 = none := by
      rw [nextChild_eq, children]
      simp
    rw [costs, map_nil, sum_nil, Nat.zero_add, Nat.add_comm 1, emitLoop.eq_def]
    simp [found, container, next, joinComma]
  | cons item items =>
    have first := emitLoop_child found container [] children
      (emits item mem_cons_self) (costs items + 1 + bound) stack (out ++ [opener node.kind])
    have rest := emitLoop_children found container items [item] (by simp) children
      (fun other among => emits other (mem_cons_of_mem item among)) bound stack
    rw [length_nil] at first
    rw [length_singleton] at rest
    rw [costs_cons, Nat.add_assoc, Nat.add_assoc, ← Nat.add_assoc (costs items), first, rest]
    simp [joinComma]

theorem emits_scalar {raw : Bytes} (found : nodes[index]? = some (scalarNode raw)) :
    Emits nodes index raw 1 := by
  intro bound stack out
  rw [Nat.add_comm, emitLoop.eq_def]
  simp [found, scalarNode]

end

/-- Elements with their indices. -/
def placedAll (base : Nat) : List Json → List (Nat × Json)
  | [] => []
  | element :: elements => (base, element) :: placedAll (base + element.size) elements

/-- Members of the table with the members of the value. -/
def placedMembers (base : Nat) : List (List Char × Json) → List (Member × (List Char × Json))
  | [] => []
  | (name, value) :: members =>
      (newMember (Utf8.encode name) base, (name, value)) :: placedMembers (base + value.size) members

variable (base : Nat)

theorem map_fst_placedAll (elements : List Json) :
    (placedAll base elements).map Prod.fst = childAt base elements := by
  induction elements generalizing base with
  | nil => rfl
  | cons element elements ih => rw [placedAll, map_cons, ih, childAt]

theorem map_snd_placedAll (elements : List Json) :
    (placedAll base elements).map Prod.snd = elements := by
  induction elements generalizing base with
  | nil => rfl
  | cons element elements ih => rw [placedAll, map_cons, ih]

theorem map_fst_placedMembers (members : List (List Char × Json)) :
    (placedMembers base members).map Prod.fst = membersAt base members := by
  induction members generalizing base with
  | nil => rfl
  | cons member members ih => rw [placedMembers, map_cons, ih, membersAt]

theorem map_snd_placedMembers (members : List (List Char × Json)) :
    (placedMembers base members).map Prod.snd = members := by
  induction members generalizing base with
  | nil => rfl
  | cons member members ih => rw [placedMembers, map_cons, ih]

/-- What the table has for a member comes from its name. -/
theorem newMember_of_mem_placedMembers {base : Nat} {placed : Member × (List Char × Json)}
    (among : placed ∈ placedMembers base members) :
    placed.1 = newMember (Utf8.encode placed.2.1) placed.1.child := by
  induction members generalizing base with
  | nil => cases among
  | cons member members ih =>
    rw [placedMembers, mem_cons] at among
    rcases among with rfl | among
    · rfl
    · exact ih among

section

variable {shortest : Formatter} {nodes : List Node}

/-- The table has the nodes of a value from an index on. -/
def Laid (shortest : Formatter) (nodes : List Node) (index : Nat) (json : Json) : Prop :=
  ∃ front back, nodes = front ++ (json.layout shortest index ++ back) ∧ front.length = index

theorem laid_placedAll : ∀ (base : Nat) (front back : List Node),
    nodes = front ++ (layoutAll shortest base elements ++ back) → front.length = base →
    ∀ placed ∈ placedAll base elements, Laid shortest nodes placed.1 placed.2 := by
  induction elements with
  | nil =>
    intro base front back _ _ placed among
    cases among
  | cons element elements ih =>
    intro base front back table size placed among
    rw [layoutAll, append_assoc] at table
    rw [placedAll, mem_cons] at among
    rcases among with rfl | among
    · exact ⟨front, _, table, size⟩
    · refine ih (base + element.size) (front ++ element.layout shortest base) back ?_ ?_ placed among
      · rw [table, append_assoc]
      · rw [length_append, size, length_layout]

theorem laid_placedMembers (members : List (List Char × Json)) :
    ∀ (base : Nat) (front back : List Node),
    nodes = front ++ (layoutMembers shortest base members ++ back) → front.length = base →
    ∀ placed ∈ placedMembers base members, Laid shortest nodes placed.1.child placed.2.2 := by
  induction members with
  | nil =>
    intro base front back _ _ placed among
    cases among
  | cons member members ih =>
    intro base front back table size placed among
    obtain ⟨name, value⟩ := member
    rw [layoutMembers, append_assoc] at table
    rw [placedMembers, mem_cons] at among
    rcases among with rfl | among
    · exact ⟨front, _, table, size⟩
    · refine ih (base + value.size) (front ++ value.layout shortest base) back ?_ ?_ placed among
      · rw [table, append_assoc]
      · rw [length_append, size, length_layout]

theorem Json.size_pos : 0 < json.size := by
  cases json <;> simp [Json.size]

theorem sizeMembers_eq_sum (members : List (List Char × Json)) :
    sizeMembers members = (members.map fun member => member.2.size).sum := by
  induction members with
  | nil => rfl
  | cons member members ih => rw [sizeMembers, ih, map_cons, sum_cons]

def elementItem (shortest : Formatter) (placed : Nat × Json) : Item where
  lead := []
  child := placed.1
  text := placed.2.sorted.write shortest
  cost := 2 * placed.2.size - 1

def memberItem (shortest : Formatter) (placed : Member × (List Char × Json)) : Item where
  lead := placed.1.enc ++ [0x3A]
  child := placed.1.child
  text := placed.2.2.sorted.write shortest
  cost := 2 * placed.2.2.size - 1

theorem costs_elementItem (placed : List (Nat × Json)) :
    costs (placed.map (elementItem shortest)) = 2 * sizeAll (placed.map Prod.snd) := by
  induction placed with
  | nil => rfl
  | cons first placed ih =>
    have positive := first.2.size_pos
    rw [map_cons, costs_cons, ih, map_cons, sizeAll]
    simp only [elementItem]
    omega

theorem costs_memberItem (placed : List (Member × (List Char × Json))) :
    costs (placed.map (memberItem shortest)) = 2 * sizeMembers (placed.map Prod.snd) := by
  induction placed with
  | nil => rfl
  | cons first placed ih =>
    obtain ⟨member, name, value⟩ := first
    have positive := value.size_pos
    rw [map_cons, costs_cons, ih, map_cons, sizeMembers]
    simp only [memberItem]
    omega

/-- The members of the table in the order of their units, with those of the value. -/
def sortPlaced (placed : List (Member × (List Char × Json))) :
    List (Member × (List Char × Json)) :=
  placed.insertionSort fun first second => first.1.units ≤ second.1.units

theorem perm_sortPlaced (placed : List (Member × (List Char × Json))) :
    (sortPlaced placed).Perm placed :=
  perm_insertionSort _ _

theorem map_fst_sortPlaced (members : List (List Char × Json)) :
    (sortPlaced (placedMembers base members)).map Prod.fst =
      sortMembers (membersAt base members) := by
  rw [sortMembers, ← map_fst_placedMembers]
  exact map_insertionSort _ _ _ _ fun _ _ _ _ => Iff.rfl

theorem units_of_mem_placedMembers {base : Nat} {placed : Member × (List Char × Json)}
    (among : placed ∈ placedMembers base members) : placed.1.units = nameUnits placed.2.1 := by
  rw [newMember_of_mem_placedMembers among, newMember, units_encode]

theorem map_sorted_sortPlaced (members : List (List Char × Json)) :
    (sortPlaced (placedMembers base members)).map (fun placed => (placed.2.1, placed.2.2.sorted)) =
      sortByUnits (sortedMembers members) := by
  have source : sortedMembers members =
      (placedMembers base members).map fun placed => (placed.2.1, placed.2.2.sorted) := by
    rw [sortedMembers_eq_map]
    conv_lhs => rw [← map_snd_placedMembers base members, map_map]
    rfl
  rw [source]
  refine map_insertionSort _ _ _ _ fun first among second among' => ?_
  rw [units_of_mem_placedMembers among, units_of_mem_placedMembers among']

/-- What is written for the sorted members. -/
theorem map_text_sortPlaced (members : List (List Char × Json)) :
    (sortPlaced (placedMembers base members)).map
        (fun placed => (memberItem shortest placed).lead ++ (memberItem shortest placed).text) =
      writeMembers shortest (sortByUnits (sortedMembers members)) := by
  rw [writeMembers_eq_map, ← map_sorted_sortPlaced base, map_map]
  refine map_congr_left fun placed among => ?_
  rw [(perm_sortPlaced _).mem_iff] at among
  simp only [memberItem, Function.comp_apply]
  rw [newMember_of_mem_placedMembers among, newMember, appendString_encode, append_assoc]
  rfl

theorem sizeMembers_sortPlaced (members : List (List Char × Json)) :
    sizeMembers ((sortPlaced (placedMembers base members)).map Prod.snd) = sizeMembers members := by
  have perm := ((perm_sortPlaced (placedMembers base members)).map Prod.snd).map
    fun member => member.2.size
  rw [sizeMembers_eq_sum, perm.sum_eq, map_snd_placedMembers, sizeMembers_eq_sum]

/-- The emitter writes the value that the table has. -/
theorem Json.emits : ∀ index, Laid shortest nodes index json →
    Emits nodes index (json.sorted.write shortest) (2 * json.size - 1) := by
  induction json using induct with
  | null | bool _ | number _ =>
    rintro index ⟨front, back, rfl, rfl⟩
    exact emits_scalar (by simp [layout, sorted, write])
  | string text =>
    rintro index ⟨front, back, rfl, rfl⟩
    exact emits_scalar (by simp [layout, sorted, write, appendString_encode])
  | array elements ih =>
    rintro index ⟨front, back, table, rfl⟩
    rw [layout, cons_append] at table
    have laid : ∀ placed ∈ placedAll (front.length + 1) elements,
        Laid shortest nodes placed.1 placed.2 :=
      laid_placedAll elements (front.length + 1)
        (front ++ [arrayNode (childAt (front.length + 1) elements)]) back
        (by rw [table, append_assoc]; rfl) (by simp)
    have found : nodes[front.length]? = some (arrayNode (childAt (front.length + 1) elements)) := by
      simp [table]
    have children : (arrayNode (childAt (front.length + 1) elements)).children =
        ((placedAll (front.length + 1) elements).map (elementItem shortest)).map
          fun item => (item.lead, item.child) := by
      rw [map_map, ← map_fst_placedAll]
      exact map_map
    have emits : ∀ item ∈ (placedAll (front.length + 1) elements).map (elementItem shortest),
        Emits nodes item.child item.text item.cost := by
      intro item among
      obtain ⟨placed, member, rfl⟩ := mem_map.mp among
      exact ih placed.2 (map_snd_placedAll (front.length + 1) elements ▸
        mem_map_of_mem member) placed.1 (laid placed member)
    have whole := emits_container found (fun scalar => Kind.noConfusion scalar) children emits
    rw [costs_elementItem, map_snd_placedAll, map_map] at whole
    have texts : (placedAll (front.length + 1) elements).map ((fun item => item.lead ++ item.text) ∘
        elementItem shortest) = elements.map fun element => element.sorted.write shortest := by
      conv_rhs => rw [← map_snd_placedAll (front.length + 1) elements, map_map]
      rfl
    rw [texts] at whole
    rw [sorted, write, writeAll_eq_map, sortedAll_eq_map, map_map, Json.size]
    exact whole
  | object members ih =>
    rintro index ⟨front, back, table, rfl⟩
    rw [layout, cons_append] at table
    have laid : ∀ placed ∈ placedMembers (front.length + 1) members,
        Laid shortest nodes placed.1.child placed.2.2 :=
      laid_placedMembers members (front.length + 1)
        (front ++ [objectNode (sortMembers (membersAt (front.length + 1) members))]) back
        (by rw [table, append_assoc]; rfl) (by simp)
    have found : nodes[front.length]? =
        some (objectNode (sortMembers (membersAt (front.length + 1) members))) := by
      simp [table]
    have children : (objectNode (sortMembers (membersAt (front.length + 1) members))).children =
        ((sortPlaced (placedMembers (front.length + 1) members)).map (memberItem shortest)).map
          fun item => (item.lead, item.child) := by
      rw [map_map, ← map_fst_sortPlaced]
      exact map_map
    have emits : ∀ item ∈
        (sortPlaced (placedMembers (front.length + 1) members)).map (memberItem shortest),
        Emits nodes item.child item.text item.cost := by
      intro item among
      obtain ⟨placed, member, rfl⟩ := mem_map.mp among
      rw [(perm_sortPlaced _).mem_iff] at member
      exact ih placed.2 (map_snd_placedMembers (front.length + 1) members ▸
        mem_map_of_mem member) placed.1.child (laid placed member)
    have whole := emits_container found (fun scalar => Kind.noConfusion scalar) children emits
    rw [costs_memberItem, map_map, sizeMembers_sortPlaced] at whole
    rw [sorted, write, ← map_text_sortPlaced (front.length + 1), Json.size]
    exact whole

end

/-- The bound on the steps of the emitter never cuts the output. -/
theorem Parser.emit_finish (shortest : Formatter) (data : Bytes) (json : Json) (rest : Bytes) :
    ((Parser.start data).finish shortest json rest).emit = json.sorted.write shortest := by
  have laid : Laid shortest (json.layout shortest 0) 0 json := ⟨[], [], by simp, rfl⟩
  have emits := json.emits 0 laid
  have positive := json.size_pos
  have steps : 2 * (json.layout shortest 0).length + 1 = 2 * json.size - 1 + 2 := by
    rw [length_layout]
    omega
  change emitLoop (json.layout shortest 0) (2 * (json.layout shortest 0).length + 1) [⟨0, none⟩] [] = _
  rw [steps, emits]
  rfl

/-- An accepted text is parsed into the table of whatever value it denotes. -/
theorem canonicalize_eq {shortest : Formatter} {data out : Bytes}
    (accepted : canonicalize shortest data = .ok out) :
    (∃ json, Denotes data json) ∧
      ∀ json, Denotes data json → json.Admissible maxDepth ∧ out = json.sorted.write shortest := by
  cases parsed : (Parser.start data).parse shortest with
  | error error =>
    change ((Parser.start data).parse shortest).bind _ = _ at accepted
    rw [parsed] at accepted
    cases accepted
  | ok q =>
    change ((Parser.start data).parse shortest).bind _ = _ at accepted
    rw [parsed] at accepted
    cases accepted
    refine ⟨Parser.denotes_of_parse parsed, fun json denotes => ?_⟩
    rcases Parser.parse_denotes shortest denotes with ⟨admissible, parsed'⟩ | ⟨-, error, failed⟩
    · rw [parsed] at parsed'
      cases parsed'
      exact ⟨admissible, Parser.emit_finish shortest data json []⟩
    · rw [parsed] at failed
      cases failed

/-- The output for an accepted text is the canonical serialisation of the value
it denotes: every object has its members in strictly increasing order of the
code units of their names. -/
theorem canonicalize_serializes {shortest : Formatter} {data out : Bytes}
    (accepted : canonicalize shortest data = .ok out) :
    (∃ json, Denotes data json) ∧ ∀ json, Denotes data json →
      json.sorted.Ordered ∧ out = json.sorted.write shortest := by
  obtain ⟨some, every⟩ := canonicalize_eq accepted
  refine ⟨some, fun json denotes => ?_⟩
  obtain ⟨admissible, same⟩ := every json denotes
  exact ⟨json.ordered_sorted admissible.1, same⟩

/-- A formatter that knows the number one. -/
def formatOne : Formatter := fun _ => ⟨[1], 1, ⟨1, [], rfl, by decide⟩, by decide⟩

/-- U+1F600 sorts before U+FB33 by code units, though not by bytes. -/
theorem canonicalize_serializes_surrogates :
    (∃ json, Denotes (textBytes " \x7b\"\uFB33\": 1, \"\\uD83D\\uDE00\": []\x7d") json) ∧
      ∀ json, Denotes (textBytes " \x7b\"\uFB33\": 1, \"\\uD83D\\uDE00\": []\x7d") json →
        json.sorted.Ordered ∧
          textBytes "\x7b\"😀\":[],\"\uFB33\":1\x7d" = json.sorted.write formatOne :=
  canonicalize_serializes (by decide +kernel)

end Golusoris.Jcs
