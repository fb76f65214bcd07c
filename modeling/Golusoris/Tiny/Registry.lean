import Golusoris.Lib.Dict
import Golusoris.Lib.JsonValue

/-!
# Model registries

`ai/tiny` keeps trained models in a `MemoryRegistry`, a map by ID, or in a
`PGRegistry`, a table with the primary key `id` and a unique index on the tenant,
the name and the version. A map and a table are lists of models here, in the order
in which a loop or a scan happens to visit them.

Times are nanoseconds, 0 is the zero time; the table keeps microseconds. What a
fresh UUID and the clock give is an argument of `saveModel`.
-/

namespace Golusoris.Tiny

open Lib

structure Model (Number : Type) where
  id : Bytes
  jobId : Bytes
  name : Bytes
  tenantId : Bytes
  version : Int
  uri : Bytes
  format : Bytes
  modality : Bytes
  taskKind : Bytes
  baseModel : Bytes
  labels : Option (List Bytes)
  metrics : Option (Dict Bytes Number)
  metadata : Option (Dict Bytes Bytes)
  createdAt : Int

structure Ref where
  name : Bytes
  tenantId : Bytes
  version : Int

structure ListFilter where
  tenantId : Bytes
  name : Bytes
  taskKind : Bytes
  limit : Int

/-- What the registries ask of others: whether a metric is finite, whether the JSON
fields are within the byte budget, and whether the column types of the table can hold
the other fields. -/
structure Checks (Number : Type) where
  finite : Number → Bool
  withinBudget : Model Number → Bool
  columns : Model Number → Bool

inductive SaveError where
  | nameRequired
  | labels
  | metrics
  | metadata
  | budget
  | modelId
  | insert
  | contention
  deriving DecidableEq, Repr

variable {Number : Type}

def validString (text : Bytes) : Bool := Utf8.coerce text = text

def validateUTF8Slice (values : List Bytes) : Bool := values.all validString

def validateFloatMap (checks : Checks Number) (values : Dict Bytes Number) : Bool :=
  values.entries.all fun entry => validString entry.1 && checks.finite entry.2

def validateUTF8StringMap (values : Dict Bytes Bytes) : Bool :=
  values.entries.all fun entry => validString entry.1 && validString entry.2

def validateModelForSave (checks : Checks Number) (m : Model Number) : Except SaveError Unit :=
  if m.name = [] then .error .nameRequired
  else if !validateUTF8Slice (m.labels.getD []) then .error .labels
  else if !validateFloatMap checks (m.metrics.getD .empty) then .error .metrics
  else if !validateUTF8StringMap (m.metadata.getD .empty) then .error .metadata
  else if !checks.withinBudget m then .error .budget
  else .ok ()

/-- `ensureModelDefaults`; the generator fails with `none`. -/
def ensureModelDefaults (generated : Option Bytes) (now : Int) (m : Model Number) :
    Except SaveError (Model Number) :=
  let dated := { m with createdAt := if m.createdAt = 0 then now else m.createdAt }
  if m.id = [] then
    match generated with
    | none => .error .modelId
    | some id => .ok { dated with id := id }
  else .ok dated

def named (tenantId name : Bytes) (m : Model Number) : Bool := m.tenantId = tenantId ∧ m.name = name

/-- An `int` after an addition. -/
def wrapInt (value : Int) : Int := (Int64.ofInt value).toInt

/-- The loop of `nextVersionLocked`. -/
def highestVersion (models : List (Model Number)) (tenantId name : Bytes) : Int :=
  models.foldl (fun maxV existing =>
    if named tenantId name existing ∧ maxV < existing.version then existing.version else maxV) 0

def nextVersionLocked (models : List (Model Number)) (tenantId name : Bytes) : Int :=
  wrapInt (highestVersion models tenantId name + 1)

/-- The store, the caller's model and the result of a `SaveModel`. -/
structure Saved (Number : Type) where
  models : List (Model Number)
  model : Model Number
  result : Except SaveError Unit

/-- `m.Version` as `MemoryRegistry.SaveModel` sets it. -/
def versioned (models : List (Model Number)) (m : Model Number) : Model Number :=
  if m.version = 0 then { m with version := nextVersionLocked models m.tenantId m.name } else m

/-- `MemoryRegistry.SaveModel`. -/
def memorySave (checks : Checks Number) (models : List (Model Number)) (m : Model Number)
    (generated : Option Bytes) (now : Int) : Saved Number :=
  match validateModelForSave checks m with
  | .error failure => ⟨models, m, .error failure⟩
  | .ok () =>
      match ensureModelDefaults generated now m with
      | .error failure => ⟨models, m, .error failure⟩
      | .ok m =>
          let m := versioned models m
          ⟨models.filter (fun other => other.id ≠ m.id) ++ [m], m, .ok ()⟩

/-- The loop of `Latest`. -/
def memoryLatest (models : List (Model Number)) (tenantId name : Bytes) : Option (Model Number) :=
  models.foldl (fun best m =>
    if !named tenantId name m then best
    else
      match best with
      | none => some m
      | some other => if other.version < m.version then some m else best) none

/-- `GetModel`; `none` is `ErrNotFound`. -/
def memoryGet (models : List (Model Number)) (ref : Ref) : Option (Model Number) :=
  if ref.version = 0 then memoryLatest models ref.tenantId ref.name
  else models.find? fun m => named ref.tenantId ref.name m ∧ m.version = ref.version

def matchesFilter (m : Model Number) (filter : ListFilter) : Bool :=
  (filter.tenantId = [] ∨ m.tenantId = filter.tenantId) ∧ (filter.name = [] ∨ m.name = filter.name) ∧
    (filter.taskKind = [] ∨ m.taskKind = filter.taskKind)

/-- Newer models first, then higher versions. -/
def modelSortsBefore (first second : Model Number) : Prop :=
  if first.createdAt ≠ second.createdAt then second.createdAt < first.createdAt
  else second.version < first.version

/-- The models that match, sorted in some way that the order allows, up to the limit. -/
def Lists (models : List (Model Number)) (filter : ListFilter) (out : List (Model Number)) : Prop :=
  ∃ sorted : List (Model Number), sorted.Perm (models.filter (matchesFilter · filter)) ∧
    sorted.Pairwise (fun earlier later => ¬modelSortsBefore later earlier) ∧
    out = if 0 < filter.limit then sorted.take filter.limit.toNat else sorted

/-- The row of a model: no column is `NULL`, and the time is in microseconds. -/
def stored (m : Model Number) : Model Number :=
  { m with
    labels := some (m.labels.getD [])
    metrics := some (m.metrics.getD .empty)
    metadata := some (m.metadata.getD .empty)
    createdAt := m.createdAt / 1000 * 1000 }

/-- The values of a row are in the range of their columns. -/
def insertable (checks : Checks Number) (m : Model Number) : Bool :=
  checks.columns m ∧ -2147483648 ≤ m.version ∧ m.version ≤ 2147483647

/-- Both rows have the primary key or the entry of the unique index. -/
def conflicts (first second : Model Number) : Bool :=
  first.id = second.id ∨
    first.tenantId = second.tenantId ∧ first.name = second.name ∧ first.version = second.version

inductive InsertError where
  | rejected
  | uniqueViolation
  deriving DecidableEq, Repr

def insertModel (checks : Checks Number) (rows : List (Model Number)) (m : Model Number) :
    Except InsertError (List (Model Number)) :=
  if !insertable checks m then .error .rejected
  else if rows.any (conflicts · m) then .error .uniqueViolation
  else .ok (rows ++ [stored m])

/-- `COALESCE(MAX(version), 0) + 1`. -/
def nextVersion (rows : List (Model Number)) (tenantId name : Bytes) : Int :=
  (((rows.filter (named tenantId name)).map Model.version).max?).getD 0 + 1

def maxVersionRetries : Nat := 16

/-- The loop of `saveModelWithRetry`, with so many attempts left. -/
def saveModelWithRetry (checks : Checks Number) (rows : List (Model Number)) (explicitVersion : Bool) :
    Nat → Model Number → Saved Number
  | 0, m => ⟨rows, m, .error .contention⟩
  | left + 1, m =>
      let m := if explicitVersion then m else { m with version := nextVersion rows m.tenantId m.name }
      match insertModel checks rows m with
      | .ok rows => ⟨rows, m, .ok ()⟩
      | .error failure =>
          if !explicitVersion ∧ failure = .uniqueViolation then
            saveModelWithRetry checks rows explicitVersion left m
          else ⟨rows, m, .error .insert⟩

/-- `PGRegistry.SaveModel`. -/
def tableSave (checks : Checks Number) (rows : List (Model Number)) (m : Model Number)
    (generated : Option Bytes) (now : Int) : Saved Number :=
  match validateModelForSave checks m with
  | .error failure => ⟨rows, m, .error failure⟩
  | .ok () =>
      match ensureModelDefaults generated now m with
      | .error failure => ⟨rows, m, .error failure⟩
      | .ok m => saveModelWithRetry checks rows (m.version ≠ 0) maxVersionRetries m

/-- `ORDER BY version DESC LIMIT 1`: a row with the highest version. -/
def tableLatest (rows : List (Model Number)) (tenantId name : Bytes) : Option (Model Number) :=
  let found := rows.filter (named tenantId name)
  found.find? fun m => found.all (·.version ≤ m.version)

def tableGet (rows : List (Model Number)) (ref : Ref) : Option (Model Number) :=
  if ref.version = 0 then tableLatest rows ref.tenantId ref.name
  else rows.find? fun m => named ref.tenantId ref.name m ∧ m.version = ref.version

end Golusoris.Tiny
