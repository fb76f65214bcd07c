import Golusoris.Lib.DepthFirst
import Golusoris.Lib.Utf8

/-!
# Config types and the check before reflection

Source: `configField`, `structOf` and `checkAcyclic` of `jsonschema/config.go`, and
`ErrUnsupportedType` of `jsonschema/generate.go`. A configuration is a graph of Go types.
The reflector unfolds it without sharing, so that a type below itself
would be unfolded forever; `checkAcyclic` is to refuse such a graph before.
-/

namespace Golusoris.Jsonschema

open Lib (Bytes textBytes)
open Lib.DepthFirst

/-- A struct field: the tags as `Tag.Get` returns them. -/
structure Field (T : Type) where
  name : Bytes
  koanf : Bytes
  jsonschema : Bytes
  anonymous : Bool
  exported : Bool
  type : T

/-- The kinds that the check tells apart. A leaf is a type of any other kind. -/
inductive Kind (T : Type) where
  | pointer (elem : T)
  | slice (elem : T)
  | array (elem : T)
  | map (elem : T)
  | struct (fields : List (Field T))
  | leaf

/-- The types of a program, with `time.Time` among them: a struct whose
fields are neither exported nor embedded. -/
structure TypeGraph (T : Type) where
  kind : T → Kind T
  text : T → Bytes
  time : T
  timeFields : List (Field T)
  time_kind : kind time = .struct timeFields
  time_hidden : ∀ field ∈ timeFields, field.exported = false ∧ field.anonymous = false

/-- Bounds the type and value walks. -/
def maxConfigWalk : ℕ := 65536

inductive Err where
  | unsupportedType (type : Bytes)
  | typeGraphExceeds (steps : ℕ)
  deriving DecidableEq

def Err.error : Err → Bytes
  | .unsupportedType type => textBytes "jsonschema: unsupported type " ++ type
  | .typeGraphExceeds steps =>
    textBytes ("jsonschema: generate config: type graph exceeds " ++ toString steps ++ " steps")

section Checking

variable {T : Type} [DecidableEq T]

/-- The loop of `structOf`, with the rounds it has left. -/
def structOfWithin (g : TypeGraph T) : ℕ → T → Option T
  | 0, _ => none
  | rounds + 1, t =>
    match g.kind t with
    | .pointer elem | .slice elem | .array elem | .map elem => structOfWithin g rounds elem
    | .struct _ => if t = g.time then none else some t
    | .leaf => none

/-- Unwraps pointers, slices, arrays, and maps to a struct type, or nil. -/
def structOf (g : TypeGraph T) (t : T) : Option T :=
  structOfWithin g maxConfigWalk t

/-- The part of a tag before its first comma. -/
def tagName (tag : Bytes) : Bytes :=
  tag.takeWhile (· ≠ 0x2C)

/-- The property name of a field; an empty name with `true` is an embedded
struct whose fields are hoisted. -/
def configField (g : TypeGraph T) (f : Field T) : Bytes × Bool :=
  let tag := tagName f.koanf
  let schemaTag := tagName f.jsonschema
  if tag = [0x2D] ∨ schemaTag = [0x2D] then ([], false)
  else if f.anonymous ∧ tag = [] ∧ (structOf g f.type).isSome then ([], true)
  else if ¬ f.exported then ([], false)
  else if tag = [] then (f.name, false)
  else (tag, false)

/-- The field has a property or is hoisted. -/
def kept (g : TypeGraph T) (f : Field T) : Bool :=
  ¬ (configField g f = ([], false))

def fieldsOf (g : TypeGraph T) (t : T) : List (Field T) :=
  match g.kind t with
  | .struct fields => fields
  | _ => []

/-- What `checkAcyclic` sees of a struct: for each field the struct to visit, or nil. -/
def slots (g : TypeGraph T) (t : T) : List (Option T) :=
  (fieldsOf g t).map fun f => if kept g f then structOf g f.type else none

/-- Rejects recursive struct types. The frames, the states and the bound on
the steps are those of the three-colour walk. -/
def checkAcyclic (g : TypeGraph T) (root : T) : Except Err Unit :=
  match walk (slots g) maxConfigWalk (rootMark root) [⟨root, 0⟩] with
  | .finished => .ok ()
  | .cycle child => .error (.unsupportedType (g.text child))
  | .exhausted => .error (.typeGraphExceeds maxConfigWalk)

end Checking

end Golusoris.Jsonschema
