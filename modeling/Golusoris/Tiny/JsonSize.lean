import Golusoris.Tiny.JsonMarshal

/-!
# Sizing the JSON fields of jobs and models

Source: `validateJobMetadataSize`, `validateModelJSONSize` and `jsonByteBudget` of
`ai/tiny/tiny.go`, `orEmptySlice` and its siblings of `ai/tiny/pgregistry.go`. The
budget adds up encoded lengths without encoding: nested values wait in a list that
is worked off in order. A map is the list of its entries in the order of the range.
-/

namespace Golusoris.Tiny.Json

open Lib (Bytes textBytes)

/-- `trainerio.DefaultMaxConfigBytes`. -/
def maxRegistryJSONBytes : ℕ := 1048576

def maxJSONValues : ℕ := 100000

structure JsonByteBudget where
  used : ℕ
  limit : ℕ
  values : ℕ
  valueLimit : ℕ
  scope : Bytes
  deriving DecidableEq

inductive SizeErr where
  | encodedBytes (scope : Bytes) (limit : ℕ)
  | values (scope : Bytes) (limit : ℕ)
  | nestedLimit
  | nonCanonical (type : Bytes)
  | nonFinite
  | invalidUTF8
  deriving DecidableEq

def SizeErr.error : SizeErr → Bytes
  | .encodedBytes scope limit =>
      textBytes "ai/tiny: " ++ scope ++ textBytes (" exceed " ++ toString limit ++ " encoded bytes")
  | .values scope limit =>
      textBytes "ai/tiny: " ++ scope ++ textBytes (" exceed " ++ toString limit ++ " values")
  | .nestedLimit => textBytes "ai/tiny: metadata sizing exceeded nested value limit"
  | .nonCanonical type => textBytes "ai/tiny: cannot size non-canonical JSON type " ++ type
  | .nonFinite => textBytes "ai/tiny: metadata contains non-finite float64"
  | .invalidUTF8 => textBytes "ai/tiny: metadata contains invalid UTF-8"

def newJSONByteBudget (scope : String) : JsonByteBudget :=
  ⟨0, maxRegistryJSONBytes, 0, maxJSONValues, textBytes scope⟩

def add (b : JsonByteBudget) (count : ℕ) : Except SizeErr JsonByteBudget :=
  if count > b.limit - b.used then .error (.encodedBytes b.scope b.limit)
  else .ok { b with used := b.used + count }

def addValues (b : JsonByteBudget) (count : ℕ) : Except SizeErr JsonByteBudget :=
  if count > b.valueLimit - b.values then .error (.values b.scope b.valueLimit)
  else .ok { b with values := b.values + count }

def addContainer (b : JsonByteBudget) (values : ℕ) : Except SizeErr JsonByteBudget := do
  let b ← add b 2
  if values > 1 then add b (values - 1) else .ok b

/-- `utf8.ValidString`: nothing is replaced when the text is decoded. -/
def isValidUTF8 (text : Bytes) : Bool := Lib.Utf8.coerce text = text

/-- The bytes that the character at the start of a text gains, and its width. -/
def jsonStringEscapeBytes : Bytes → ℕ × ℕ
  | [] => (0, 1)
  | char :: rest =>
      if char < 0x80 then
        if char ∈ [0x22, 0x5C, 0x08, 0x0C, 0x0A, 0x0D, 0x09] then (1, 1)
        else if char ∈ [0x3C, 0x3E, 0x26] then (5, 1)
        else if char < 0x20 then (5, 1)
        else (0, 1)
      else
        match Lib.Utf8.decodeRune (char :: rest) with
        | none => (5, 1)
        | some rune =>
            if rune.toNat = 0x2028 ∨ rune.toNat = 0x2029 then (3, rune.utf8Size)
            else (0, rune.utf8Size)

/-- The loop of `addString`, with a bound on its rounds. -/
def addEscapes : ℕ → JsonByteBudget → Bytes → Except SizeErr JsonByteBudget
  | 0, b, _ => .ok b
  | _ + 1, b, [] => .ok b
  | rounds + 1, b, char :: rest => do
      let step := jsonStringEscapeBytes (char :: rest)
      let b ← add b step.1
      addEscapes rounds b ((char :: rest).drop step.2)

def addString (b : JsonByteBudget) (value : Bytes) : Except SizeErr JsonByteBudget :=
  if ¬ isValidUTF8 value then .error .invalidUTF8
  else do
    let b ← add b value.length
    let b ← add b 2
    addEscapes value.length b value

section Values

variable {F : Type} (floats : Floats F)

def jsonFloatFormat (value : F) : UInt8 :=
  if floats.absIsZero value then formatF
  else if floats.absBelowMicro value then formatE
  else if floats.absFromSextillion value then formatE
  else formatF

def hasPaddedNegativeExponent (encoded : Bytes) : Bool :=
  if encoded.length < 4 then false
  else
    encoded[encoded.length - 4]? = some 0x65 ∧ encoded[encoded.length - 3]? = some 0x2D ∧
      encoded[encoded.length - 2]? = some 0x30

def addFloat (b : JsonByteBudget) (value : F) : Except SizeErr JsonByteBudget :=
  if floats.isInf value ∨ floats.isNaN value then .error .nonFinite
  else
    let format := jsonFloatFormat floats value
    let result := floats.appendFloat value format
    if format = formatE ∧ hasPaddedNegativeExponent result then add b (result.length - 1)
    else add b result.length

/-- The range of `addMap`: the keys are sized, the values wait. -/
def addKeys (b : JsonByteBudget) (pending : List (Value F)) :
    List (Bytes × Value F) → Except SizeErr (JsonByteBudget × List (Value F))
  | [] => .ok (b, pending)
  | (key, nested) :: rest => do
      let b ← addString b key
      let b ← add b 1
      addKeys b (pending ++ [nested]) rest

def addMap (b : JsonByteBudget) (entries : List (Bytes × Value F)) (pending : List (Value F)) :
    Except SizeErr (JsonByteBudget × List (Value F)) := do
  let b ← addValues b entries.length
  let b ← addContainer b entries.length
  addKeys b pending entries

def addArray (b : JsonByteBudget) (items pending : List (Value F)) :
    Except SizeErr (JsonByteBudget × List (Value F)) := do
  let b ← addValues b items.length
  let b ← addContainer b items.length
  return (b, pending ++ items)

/-- One value, with the list to which its children are appended. -/
def addJSONValue (b : JsonByteBudget) (pending : List (Value F)) :
    Value F → Except SizeErr (JsonByteBudget × List (Value F))
  | .null => do return (← add b 4, pending)
  | .bool true => do return (← add b 4, pending)
  | .bool false => do return (← add b 5, pending)
  | .number value => do return (← addFloat floats b value, pending)
  | .string value => do return (← addString b value, pending)
  | .nilArray => do return (← add b 4, pending)
  | .array items => addArray b items pending
  | .nilMap => do return (← add b 4, pending)
  | .map entries => addMap b entries pending
  | .other type => .error (.nonCanonical type)

/-- The loop of `addJSONMap` over the list, from the first value not yet sized;
after the last round none may be left. -/
def addPending : ℕ → JsonByteBudget → List (Value F) → Except SizeErr JsonByteBudget
  | 0, b, pending => if pending = [] then .ok b else .error .nestedLimit
  | _ + 1, b, [] => .ok b
  | rounds + 1, b, value :: pending => do
      let (b, pending) ← addJSONValue floats b pending value
      addPending rounds b pending

/-- A map, or nil. -/
def addJSONMap (b : JsonByteBudget) (value : Option (List (Bytes × Value F))) :
    Except SizeErr JsonByteBudget :=
  match value with
  | none => add b 4
  | some entries => do
      let (b, pending) ← addMap b entries []
      addPending floats maxJSONValues b pending

/-- The ranges of `addStringMap`, `addStringSlice` and `addFloatMap`. -/
def addEach {Item : Type} (addItem : JsonByteBudget → Item → Except SizeErr JsonByteBudget)
    (b : JsonByteBudget) : List Item → Except SizeErr JsonByteBudget
  | [] => .ok b
  | item :: rest => do
      let b ← addItem b item
      addEach addItem b rest

/-- A container of items that are sized at once. -/
def addFlat {Item : Type} (addItem : JsonByteBudget → Item → Except SizeErr JsonByteBudget)
    (b : JsonByteBudget) (value : Option (List Item)) : Except SizeErr JsonByteBudget :=
  match value with
  | none => add b 4
  | some items => do
      let b ← addValues b items.length
      let b ← addContainer b items.length
      addEach addItem b items

def addStringMap (b : JsonByteBudget) (value : Option (List (Bytes × Bytes))) :
    Except SizeErr JsonByteBudget :=
  addFlat (fun b entry => do
    let b ← addString b entry.1
    let b ← add b 1
    addString b entry.2) b value

def addStringSlice (b : JsonByteBudget) (value : Option (List Bytes)) :
    Except SizeErr JsonByteBudget :=
  addFlat addString b value

def addFloatMap (b : JsonByteBudget) (value : Option (List (Bytes × F))) :
    Except SizeErr JsonByteBudget :=
  addFlat (fun b entry => do
    let b ← addString b entry.1
    let b ← add b 1
    addFloat floats b entry.2) b value

structure Dataset (F : Type) where
  id : Bytes
  uri : Bytes
  format : Bytes
  modality : Bytes
  taskKind : Bytes
  schemaHint : Option (List (Bytes × Value F))

/-- The fields of a job that are sized. -/
structure Job (F : Type) where
  id : Bytes
  name : Bytes
  tenantID : Bytes
  baseModel : Bytes
  dataset : Dataset F
  hyperparams : Option (List (Bytes × Value F))
  tags : Option (List (Bytes × Bytes))

/-- The fields of a model that are sized. -/
structure ModelFields (F : Type) where
  labels : Option (List Bytes)
  metrics : Option (List (Bytes × F))
  metadata : Option (List (Bytes × Bytes))

def Job.serializedStrings (job : Job F) : List Bytes :=
  [job.id, job.name, job.tenantID, job.baseModel, job.dataset.id, job.dataset.uri,
    job.dataset.format, job.dataset.modality, job.dataset.taskKind]

def validateJobMetadataSize (job : Job F) : Except SizeErr JsonByteBudget := do
  let b ← addEach addString (newJSONByteBudget "job serialized fields") job.serializedStrings
  let b ← addJSONMap floats b job.dataset.schemaHint
  let b ← addJSONMap floats b job.hyperparams
  addStringMap b job.tags

/-- `orEmptySlice`, `orEmptyMetrics` and `orEmptyMetadata`. -/
def orEmpty {Item : Type} (value : Option (List Item)) : Option (List Item) := some (value.getD [])

def validateModelJSONSize (model : ModelFields F) : Except SizeErr JsonByteBudget := do
  let b ← addStringSlice (newJSONByteBudget "model JSON fields") (orEmpty model.labels)
  let b ← addFloatMap floats b (orEmpty model.metrics)
  addStringMap b (orEmpty model.metadata)

end Values

end Golusoris.Tiny.Json
