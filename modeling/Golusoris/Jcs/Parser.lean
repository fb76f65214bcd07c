import Golusoris.Jcs.Scan
import Mathlib.Data.List.Lex
import Mathlib.Data.List.Sort

/-!
# The iterative parser and emitter

`Parser` is the explicit-stack machine of `core/codec/jcs`: a table of nodes
that refer to their children by index, a stack of open containers with the top
first, and the input that is left. `canonicalize` runs it within the step bound
of the source and writes the table with the bounded walk of `emit`.
-/

namespace Golusoris.Jcs

open Lib

inductive Kind where
  | scalar
  | object
  | array
  deriving DecidableEq, Repr

structure Member where
  name : Bytes
  units : List Nat
  enc : Bytes
  child : Nat
  deriving DecidableEq

structure Node where
  kind : Kind
  raw : Bytes := []
  members : List Member := []
  elems : List Nat := []
  deriving DecidableEq

inductive FrameState where
  | stOpen
  | stItem
  | stValue
  | stSep
  deriving DecidableEq, Repr

structure Frame where
  node : Nat
  state : FrameState
  name : Bytes := []
  deriving DecidableEq

structure Parser where
  size : Nat
  rest : Bytes
  nodes : List Node := []
  stack : List Frame := []
  root : Nat := 0
  done : Bool := false

structure JcsError where
  fault : Fault
  offset : Nat
  deriving DecidableEq, Repr

def maxDepth : Nat := 10000

/-- A fault with the offset at which the input was left. -/
def Parser.fail {Result : Type} (p : Parser) (fault : Fault × Bytes) : Except JcsError Result :=
  .error ⟨fault.1, p.size - fault.2.length⟩

def opener (kind : Kind) : UInt8 := if kind = .object then 0x7B else 0x5B

def closer (kind : Kind) : UInt8 := if kind = .object then 0x7D else 0x5D

/-- `utf16.Encode` of one rune. -/
def utf16Units (rune : Char) : List Nat :=
  if rune.toNat < 0x10000 then [rune.toNat]
  else [0xD800 + (rune.toNat - 0x10000) / 0x400, 0xDC00 + (rune.toNat - 0x10000) % 0x400]

/-- `utf16.Encode([]rune(name))`. -/
def units (name : Bytes) : List Nat := (Utf8.decodeLossy name.length name).flatMap utf16Units

def newMember (name : Bytes) (child : Nat) : Member where
  name := name
  units := units name
  enc := appendString name
  child := child

/-- Add a child to the container of the frame on top. -/
def Node.add (parent : Node) (name : Bytes) (child : Nat) : Node :=
  if parent.kind = .object then { parent with members := parent.members ++ [newMember name child] }
  else { parent with elems := parent.elems ++ [child] }

def Parser.link (p : Parser) (child : Nat) : Parser :=
  match p.stack with
  | [] => { p with root := child, done := true }
  | top :: stack =>
      { p with
        nodes := p.nodes.modify top.node fun parent => parent.add top.name child
        stack := { top with state := .stSep, name := [] } :: stack }

def Parser.attach (p : Parser) (raw rest : Bytes) : Parser :=
  let node : Node := { kind := .scalar, raw := raw }
  Parser.link { p with rest := rest, nodes := p.nodes ++ [node] } p.nodes.length

/-- `slices.SortFunc` by code units. -/
def sortMembers (members : List Member) : List Member :=
  members.insertionSort fun first second => first.units ≤ second.units

/-- The first member whose units are those of the member before it. -/
def repeatedMember : List Member → Option Member
  | first :: second :: rest =>
      if first.units = second.units then some second else repeatedMember (second :: rest)
  | _ => none

def Parser.kindOf (p : Parser) (frame : Frame) : Kind :=
  (p.nodes[frame.node]?.map Node.kind).getD .scalar

def Parser.closeFrame (p : Parser) : Except JcsError Parser :=
  match p.stack with
  | [] => p.fail (.errSyntax, p.rest)
  | frame :: stack =>
      let p := { p with stack := stack }
      match p.nodes[frame.node]? with
      | none => p.fail (.errSyntax, p.rest)
      | some node =>
          if node.kind = .object then
            let members := sortMembers node.members
            match repeatedMember members with
            | some member => p.fail (.errDuplicateKey member.name, p.rest)
            | none =>
                .ok ({ p with nodes := p.nodes.set frame.node { node with members := members } }.link
                  frame.node)
          else .ok (p.link frame.node)

def Parser.open (p : Parser) (kind : Kind) : Except JcsError Parser :=
  if maxDepth ≤ p.stack.length then p.fail (.errTooDeep, p.rest)
  else
    .ok { p with
      rest := p.rest.tail
      nodes := p.nodes ++ [{ kind := kind }]
      stack := { node := p.nodes.length, state := .stOpen } :: p.stack }

/-- Attach the scalar a scanner returns. -/
def Parser.scalar {Token : Type} (p : Parser) (scanned : Scan Token) (write : Token → Bytes) :
    Except JcsError Parser :=
  match scanned with
  | .error fault => p.fail fault
  | .ok (token, rest) => .ok (p.attach (write token) rest)

def Parser.value (shortest : Formatter) (p : Parser) : Except JcsError Parser :=
  let byte := peek p.rest
  if byte = 0x7B then p.open .object
  else if byte = 0x5B then p.open .array
  else if byte = 0x22 then p.scalar (str p.rest) appendString
  else if byte = 0x2D ∨ isDigit byte then p.scalar (number p.rest) (appendNumber shortest)
  else p.scalar (literal p.rest) textBytes

def Parser.memberName (p : Parser) (frame : Frame) (stack : List Frame) : Except JcsError Parser :=
  if peek p.rest ≠ 0x22 then p.fail (.errSyntax, p.rest)
  else
    match str p.rest with
    | .error fault => p.fail fault
    | .ok (name, rest) =>
        let rest := skipSpace rest
        if peek rest ≠ 0x3A then p.fail (.errSyntax, rest)
        else
          .ok { p with
            rest := rest.tail
            stack := { frame with name := name, state := .stValue } :: stack }

def Parser.separator (p : Parser) (frame : Frame) (stack : List Frame) : Except JcsError Parser :=
  let byte := peek p.rest
  if byte = 0x2C then
    .ok { p with rest := p.rest.tail, stack := { frame with state := .stItem } :: stack }
  else if byte = closer (p.kindOf frame) then { p with rest := p.rest.tail }.closeFrame
  else p.fail (.errSyntax, p.rest)

def Parser.step (shortest : Formatter) (p : Parser) : Except JcsError Parser :=
  let p := { p with rest := skipSpace p.rest }
  match p.stack with
  | [] => p.value shortest
  | frame :: stack =>
      match frame.state with
      | .stOpen | .stItem =>
          if frame.state = .stOpen ∧ peek p.rest = closer (p.kindOf frame) then
            { p with rest := p.rest.tail }.closeFrame
          else if p.kindOf frame = .object then p.memberName frame stack
          else p.value shortest
      | .stValue => p.value shortest
      | .stSep => p.separator frame stack

/-- The loop of `parse` with so many steps left. -/
def Parser.steps (shortest : Formatter) : Nat → Parser → Except JcsError Parser
  | 0, p => .ok p
  | bound + 1, p => if p.done then .ok p else do Parser.steps shortest bound (← p.step shortest)

def Parser.parse (shortest : Formatter) (p : Parser) : Except JcsError Parser := do
  let p ← p.steps shortest (p.size + 1)
  if !p.done then p.fail (.errSyntax, p.rest)
  else
    let p := { p with rest := skipSpace p.rest }
    if p.rest ≠ [] then p.fail (.errSyntax, p.rest) else .ok p

/-- The next child of a container being written; none before the opener. -/
structure Cursor where
  node : Nat
  next : Option Nat

/-- The separator, the member name and the index of the next child. -/
def nextChild (node : Node) (next : Nat) : Option (Bytes × Nat) :=
  let comma : Bytes := if 0 < next then [0x2C] else []
  if node.kind = .object then
    node.members[next]?.map fun member => (comma ++ member.enc ++ [0x3A], member.child)
  else node.elems[next]?.map fun child => (comma, child)

/-- The loop of `emit` with so many steps left. -/
def emitLoop (nodes : List Node) : Nat → List Cursor → Bytes → Bytes
  | 0, _, out => out
  | _, [], out => out
  | bound + 1, top :: stack, out =>
      match nodes[top.node]? with
      | none => out
      | some node =>
          if node.kind = .scalar then emitLoop nodes bound stack (out ++ node.raw)
          else
            let out := if top.next = none then out ++ [opener node.kind] else out
            let next := top.next.getD 0
            match nextChild node next with
            | none => emitLoop nodes bound stack (out ++ [closer node.kind])
            | some (separator, child) =>
                emitLoop nodes bound (⟨child, none⟩ :: ⟨top.node, some (next + 1)⟩ :: stack)
                  (out ++ separator)

def Parser.emit (p : Parser) : Bytes := emitLoop p.nodes (2 * p.nodes.length + 1) [⟨p.root, none⟩] []

/-- `Canonicalize`. -/
def canonicalize (shortest : Formatter) (data : Bytes) : Except JcsError Bytes := do
  let p ← Parser.parse shortest { size := data.length, rest := data }
  .ok p.emit

end Golusoris.Jcs
