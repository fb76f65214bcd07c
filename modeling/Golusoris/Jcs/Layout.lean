import Golusoris.Jcs.Parser
import Golusoris.Jcs.Tokens

/-!
# The node table of a value

`Json.layout` is the run of nodes that parsing a value appends to the table: the
node of a container comes first, its children follow in source order, and the
members of an object are sorted. `Parser.finish` is the parser after the value,
and `Parser.within` is the parser inside a container whose node and children so
far are given.
-/

namespace Golusoris.Jcs

open Lib
open Jcs.Parser

mutual

/-- How many nodes a value takes. -/
def Json.size : Json → Nat
  | .array elements => sizeAll elements + 1
  | .object members => sizeMembers members + 1
  | _ => 1

def sizeAll : List Json → Nat
  | [] => 0
  | element :: elements => element.size + sizeAll elements

def sizeMembers : List (List Char × Json) → Nat
  | [] => 0
  | (_, value) :: members => value.size + sizeMembers members

end

/-- The indices of the elements when the first one is at `base`. -/
def childAt (base : Nat) : List Json → List Nat
  | [] => []
  | element :: elements => base :: childAt (base + element.size) elements

/-- The members in source order when the first value is at `base`. -/
def membersAt (base : Nat) : List (List Char × Json) → List Member
  | [] => []
  | (name, value) :: members =>
      newMember (Utf8.encode name) base :: membersAt (base + value.size) members

def literalText : Bool → String
  | true => "true"
  | false => "false"

def scalarNode (raw : Bytes) : Node := { kind := .scalar, raw := raw }

def arrayNode (elems : List Nat) : Node := { kind := .array, elems := elems }

def objectNode (members : List Member) : Node := { kind := .object, members := members }

section

variable (shortest : Formatter)

mutual

/-- The nodes of a value whose own node is at `base`. -/
def Json.layout (base : Nat) : Json → List Node
  | .null => [scalarNode (textBytes "null")]
  | .bool value => [scalarNode (textBytes (literalText value))]
  | .number value => [scalarNode (appendNumber shortest value)]
  | .string text => [scalarNode (appendString (Utf8.encode text))]
  | .array elements => arrayNode (childAt (base + 1) elements) :: layoutAll (base + 1) elements
  | .object members =>
      objectNode (sortMembers (membersAt (base + 1) members)) :: layoutMembers (base + 1) members

def layoutAll (base : Nat) : List Json → List Node
  | [] => []
  | element :: elements => element.layout base ++ layoutAll (base + element.size) elements

def layoutMembers (base : Nat) : List (List Char × Json) → List Node
  | [] => []
  | (_, value) :: members => value.layout base ++ layoutMembers (base + value.size) members

end

theorem childAt_append (base : Nat) (elements : List Json) (element : Json) :
    childAt base (elements ++ [element]) = childAt base elements ++ [base + sizeAll elements] := by
  induction elements generalizing base with
  | nil => simp [childAt, sizeAll]
  | cons first elements ih => simp [childAt, sizeAll, ih, Nat.add_assoc]

theorem membersAt_append (base : Nat) (members : List (List Char × Json)) (name : List Char)
    (value : Json) :
    membersAt base (members ++ [(name, value)]) =
      membersAt base members ++ [newMember (Utf8.encode name) (base + sizeMembers members)] := by
  induction members generalizing base with
  | nil => simp [membersAt, sizeMembers]
  | cons member members ih => simp [membersAt, sizeMembers, ih, Nat.add_assoc]

theorem layoutAll_append (base : Nat) (elements : List Json) (element : Json) :
    layoutAll shortest base (elements ++ [element]) =
      layoutAll shortest base elements ++ element.layout shortest (base + sizeAll elements) := by
  induction elements generalizing base with
  | nil => simp [layoutAll, sizeAll]
  | cons first elements ih => simp [layoutAll, sizeAll, ih, Nat.add_assoc]

theorem layoutMembers_append (base : Nat) (members : List (List Char × Json)) (name : List Char)
    (value : Json) :
    layoutMembers shortest base (members ++ [(name, value)]) =
      layoutMembers shortest base members ++ value.layout shortest (base + sizeMembers members) := by
  induction members generalizing base with
  | nil => simp [layoutMembers, sizeMembers]
  | cons member members ih => simp [layoutMembers, sizeMembers, ih, Nat.add_assoc]

mutual

theorem Json.length_layout (base : Nat) :
    ∀ json : Json, (json.layout shortest base).length = json.size
  | .null | .bool _ | .number _ | .string _ => by simp [Json.layout, Json.size]
  | .array elements => by simp [Json.layout, Json.size, length_layoutAll (base + 1) elements]
  | .object members => by simp [Json.layout, Json.size, length_layoutMembers (base + 1) members]

theorem length_layoutAll (base : Nat) :
    ∀ elements : List Json, (layoutAll shortest base elements).length = sizeAll elements
  | [] => rfl
  | element :: elements => by
    simp [layoutAll, sizeAll, Json.length_layout base element,
      length_layoutAll (base + element.size) elements]

theorem length_layoutMembers (base : Nat) :
    ∀ members : List (List Char × Json),
      (layoutMembers shortest base members).length = sizeMembers members
  | [] => rfl
  | (_, value) :: members => by
    simp [layoutMembers, sizeMembers, Json.length_layout base value,
      length_layoutMembers (base + value.size) members]

end

/-- The parser after a value that it expected. -/
def Parser.finish (p : Parser) (json : Json) (rest : Bytes) : Parser :=
  Parser.link
    { p with rest := rest, nodes := p.nodes ++ json.layout shortest p.nodes.length } p.nodes.length

end

/-- The parser inside a container that it opened: the node of the container, the
nodes of the children so far, the state of the frame and the pending name. -/
def Parser.within (p : Parser) (node : Node) (laid : List Node) (state : FrameState) (name : Bytes)
    (rest : Bytes) : Parser :=
  { p with
    rest := rest
    nodes := p.nodes ++ node :: laid
    stack := { node := p.nodes.length, state := state, name := name } :: p.stack }

theorem modify_length_append {Item : Type} (front back : List Item) (item : Item)
    (change : Item → Item) :
    (front ++ item :: back).modify front.length change = front ++ change item :: back := by
  induction front with
  | nil => rfl
  | cons first front ih => simpa using ih

theorem set_length_append {Item : Type} (front back : List Item) (item other : Item) :
    (front ++ item :: back).set front.length other = front ++ other :: back := by
  simp

section

variable {shortest : Formatter} {p : Parser} {node : Node} {laid : List Node} {state : FrameState}
  {name rest tail : Bytes}

/-- A child finished inside a container is added to the node of the container. -/
theorem Parser.finish_within (json : Json) :
    (p.within node laid state name rest).finish shortest json tail =
      p.within (node.add name (p.nodes.length + 1 + laid.length))
        (laid ++ json.layout shortest (p.nodes.length + 1 + laid.length)) .stSep [] tail := by
  have size : (p.nodes ++ node :: laid).length = p.nodes.length + 1 + laid.length := by
    simp
    omega
  simp only [finish, within, link, size, List.append_assoc, List.cons_append,
    modify_length_append]

theorem Parser.kindOf_within (p : Parser) (node : Node) (laid : List Node) (state : FrameState)
    (name rest : Bytes) {frame : Frame} (same : frame.node = p.nodes.length) :
    (p.within node laid state name rest).kindOf frame = node.kind := by
  simp [kindOf, within, same]

theorem Parser.closeFrame_within_array (array : node.kind = .array) :
    (p.within node laid state name rest).closeFrame =
      .ok (link { p with rest := rest, nodes := p.nodes ++ node :: laid } p.nodes.length) := by
  simp [closeFrame, within, array]

theorem Parser.closeFrame_within_object (object : node.kind = .object) :
    (p.within node laid state name rest).closeFrame =
      match repeatedMember (sortMembers node.members) with
      | some member => p.fail (.errDuplicateKey member.name, rest)
      | none =>
        .ok (link
          { p with
            rest := rest
            nodes := p.nodes ++ { node with members := sortMembers node.members } :: laid }
          p.nodes.length) := by
  simp only [closeFrame, within, object,
    List.getElem?_append_right (Nat.le_refl _), Nat.sub_self, List.getElem?_cons_zero, if_true,
    set_length_append]
  rfl

end

end Golusoris.Jcs
