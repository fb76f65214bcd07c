import Golusoris.Storage.Names
import Mathlib

/-!
# Segments of artifact keys

This module embeds `ValidateStorageSegment`, `ValidateKeyPrefix` and `ArtifactKey`
of `ai/tiny/internal/trainerio/io.go` with `ValidateJob` of `ai/tiny/tiny.go`. A key
is a joined path: `artifactPath` names its segments, `artifactKey_eq_ok` says that
nothing else comes out of `artifactKey`.
-/

namespace Golusoris.Trainerio

open List
open Lib Storage

/-- What is wrong with a segment, under the name of the field that holds it. -/
inductive SegmentFault where
  | required
  | tooLong
  | dots
  | characters
  deriving DecidableEq, Repr

inductive KeyError where
  | segment (name : String) (fault : SegmentFault)
  | relativePrefix
  | tooManySegments
  | digest
  deriving DecidableEq, Repr

def isStorageSegmentByte (char : UInt8) : Bool :=
  (0x61 ≤ char && char ≤ 0x7A) || (0x41 ≤ char && char ≤ 0x5A) || (0x30 ≤ char && char ≤ 0x39) ||
    char == 0x2D || char == 0x5F || char == dot

def validateStorageSegment (name : String) (value : Bytes) : Except KeyError Unit :=
  if value = [] then .error (.segment name .required)
  else if 128 < value.length then .error (.segment name .tooLong)
  else if value = [dot] ∨ value = [dot, dot] then .error (.segment name .dots)
  else if value.all isStorageSegmentByte then .ok ()
  else .error (.segment name .characters)

/-- The segments of a key prefix, from an index on. -/
def validatePrefixSegments : Nat → List Bytes → Except KeyError Unit
  | _, [] => .ok ()
  | index, segment :: rest => do
      validateStorageSegment ("KeyPrefix segment " ++ toString index) segment
      validatePrefixSegments (index + 1) rest

def validateKeyPrefix (keyPrefix : Bytes) : Except KeyError Unit :=
  if keyPrefix = [] ∨ starts keyPrefix "/" ∨ ends keyPrefix "/" ∨ 0x5C ∈ keyPrefix then
    .error .relativePrefix
  else if 32 < (segments keyPrefix).length then .error .tooManySegments
  else validatePrefixSegments 0 (segments keyPrefix)

def isLowerHex (char : UInt8) : Bool :=
  !(char < 0x30 || (0x39 < char && char < 0x61) || 0x66 < char)

def validateDigest (digest : Bytes) : Except KeyError Unit :=
  if digest.length ≠ 64 then .error .digest
  else if digest.all isLowerHex then .ok ()
  else .error .digest

/-- The tenant that keys and directories are named by. -/
def tenantSegment (tenantID : Bytes) : Bytes :=
  if tenantID = [] then textBytes "_default" else tenantID

/-- The arguments of `ArtifactKey`. -/
structure Artifact where
  keyPrefix : Bytes
  tenantID : Bytes
  name : Bytes
  jobID : Bytes
  digest : Bytes
  artifact : Bytes
  deriving DecidableEq, Repr

/-- `ArtifactKey`. -/
def artifactKey (args : Artifact) : Except KeyError Bytes := do
  validateKeyPrefix args.keyPrefix
  validateStorageSegment "TenantID" (tenantSegment args.tenantID)
  validateStorageSegment "Name" args.name
  validateStorageSegment "ID" args.jobID
  validateStorageSegment "digest" args.digest
  validateStorageSegment "artifact" args.artifact
  validateDigest args.digest
  return [slash].intercalate [args.keyPrefix, textBytes "tenants", tenantSegment args.tenantID,
    args.name, args.jobID, args.digest, args.artifact]

structure DatasetRef where
  uri : Bytes
  modality : Bytes
  taskKind : Bytes
  deriving DecidableEq, Repr

structure Job where
  id : Bytes
  name : Bytes
  tenantID : Bytes
  dataset : DatasetRef
  baseModel : Bytes
  deriving DecidableEq, Repr

inductive JobError where
  | id (cause : KeyError)
  | name (cause : KeyError)
  | tenant (cause : KeyError)
  | required (field : String)
  deriving DecidableEq, Repr

/-- `ValidateJob`. -/
def validateJob (job : Job) : Except JobError Unit := do
  (validateStorageSegment "job.ID" job.id).mapError .id
  (validateStorageSegment "job.Name" job.name).mapError .name
  if job.tenantID ≠ [] then
    (validateStorageSegment "job.TenantID" job.tenantID).mapError .tenant
  if job.dataset.uri = [] then .error (.required "job.Dataset.URI")
  else if job.dataset.modality = [] then .error (.required "job.Dataset.Modality")
  else if job.dataset.taskKind = [] then .error (.required "job.Dataset.TaskKind")
  else if job.baseModel = [] then .error (.required "job.BaseModel")
  else .ok ()

/-- A segment that every check accepts. -/
structure SafeSegment (value : Bytes) : Prop where
  nonempty : value ≠ []
  short : value.length ≤ 128
  notDot : value ≠ [dot]
  notDots : value ≠ [dot, dot]
  plain : ∀ char ∈ value, isStorageSegmentByte char

theorem validateStorageSegment_eq_ok (name : String) {value : Bytes} :
    validateStorageSegment name value = .ok () ↔ SafeSegment value := by
  rw [validateStorageSegment]
  constructor
  · intro accepted
    split_ifs at accepted with empty long dots plain
    obtain ⟨notDot, notDots⟩ := not_or.mp dots
    exact ⟨empty, not_lt.mp long, notDot, notDots, all_eq_true.mp plain⟩
  · rintro ⟨nonempty, short, notDot, notDots, plain⟩
    rw [if_neg nonempty, if_neg (not_lt.mpr short), if_neg (not_or.mpr ⟨notDot, notDots⟩),
      if_pos (all_eq_true.mpr plain)]

theorem ne_slash {char : UInt8} (safe : isStorageSegmentByte char) : char ≠ slash := by
  rintro rfl
  exact absurd safe (by decide)

theorem SafeSegment.noSlash {value : Bytes} (safe : SafeSegment value) : slash ∉ value :=
  fun found => ne_slash (safe.plain slash found) rfl

theorem SafeSegment.plainName {value : Bytes} (safe : SafeSegment value) : PlainName value :=
  ⟨safe.nonempty, safe.noSlash, safe.notDot, safe.notDots⟩

theorem safe_of_validatePrefixSegments {names : List Bytes} {index : Nat}
    (accepted : validatePrefixSegments index names = .ok ()) : ∀ name ∈ names, SafeSegment name := by
  induction names generalizing index with
  | nil => exact fun _ found => absurd found not_mem_nil
  | cons first rest ih =>
    obtain ⟨⟨⟩, head, accepted⟩ := exists_of_bind_eq_ok accepted
    intro name found
    rcases mem_cons.mp found with rfl | found
    · exact (validateStorageSegment_eq_ok _).mp head
    · exact ih accepted name found

theorem safe_of_validateKeyPrefix {keyPrefix : Bytes}
    (accepted : validateKeyPrefix keyPrefix = .ok ()) :
    ∀ name ∈ segments keyPrefix, SafeSegment name := by
  rw [validateKeyPrefix] at accepted
  split_ifs at accepted
  exact safe_of_validatePrefixSegments accepted

theorem validateDigest_eq_ok {digest : Bytes} :
    validateDigest digest = .ok () ↔ digest.length = 64 ∧ ∀ char ∈ digest, isLowerHex char := by
  rw [validateDigest]
  constructor
  · intro accepted
    split_ifs at accepted with long hex
    exact ⟨not_not.mp long, all_eq_true.mp hex⟩
  · rintro ⟨length, hex⟩
    rw [if_neg (not_not.mpr length), if_pos (all_eq_true.mpr hex)]

theorem safe_of_isLowerHex {char : UInt8} (hex : isLowerHex char) :
    isStorageSegmentByte char ∧ char ≠ dot := by
  simp only [isLowerHex, isStorageSegmentByte, dot, UInt8.lt_iff_toNat_lt, UInt8.le_iff_toNat_le,
    ← UInt8.toNat_inj, Bool.not_eq_true', Bool.or_eq_true, Bool.or_eq_false_iff, Bool.and_eq_true,
    Bool.and_eq_false_iff, decide_eq_true_eq, decide_eq_false_iff_not, beq_iff_eq, ne_eq,
    UInt8.reduceToNat] at hex ⊢
  omega

theorem safeSegment_of_digest {digest : Bytes} (accepted : validateDigest digest = .ok ()) :
    SafeSegment digest := by
  obtain ⟨length, hex⟩ := validateDigest_eq_ok.mp accepted
  refine ⟨?_, by omega, ?_, ?_, fun char found => (safe_of_isLowerHex (hex char found)).1⟩
  all_goals
    rintro rfl
    cases length

theorem ok_of_mapError {α ε ζ : Type} {change : ε → ζ} {result : Except ε α} {value : α}
    (succeeds : result.mapError change = .ok value) : result = .ok value := by
  cases result with
  | error => cases succeeds
  | ok => exact congrArg Except.ok (Except.ok.inj succeeds)

theorem safeSegment_tenants : SafeSegment (textBytes "tenants") :=
  (validateStorageSegment_eq_ok "tenants").mp (by decide +kernel)

theorem safeSegment_default : SafeSegment (textBytes "_default") :=
  (validateStorageSegment_eq_ok "TenantID").mp (by decide +kernel)

/-- A key of plain names does not lead back. -/
theorem not_back {path : Path} (plain : Plain path) (nonempty : path ≠ []) :
    keyOf path ≠ [dot] ∧ keyOf path ≠ [dot, dot] ∧ starts (keyOf path) "../" = false := by
  have split := segments_keyOf plain nonempty
  refine ⟨?_, ?_, ?_⟩
  · intro same
    rw [same] at split
    exact (plain [dot] (split ▸ mem_singleton_self _)).notDot rfl
  · intro same
    rw [same] at split
    exact (plain [dot, dot] (split ▸ mem_singleton_self _)).notDots rfl
  · rw [Bool.eq_false_iff]
    intro back
    have text : textBytes "../" = [dot, dot] ++ [slash] := by decide
    obtain ⟨rest, shape⟩ := isPrefixOf_iff_prefix.mp back
    rw [← shape, text, append_assoc, singleton_append, segments_slash _ (by decide)] at split
    exact (plain [dot, dot] (split ▸ mem_cons_self)).notDots rfl

/-- The segments of an artifact's key. -/
def artifactPath (args : Artifact) : Path :=
  segments args.keyPrefix ++ [textBytes "tenants", tenantSegment args.tenantID, args.name, args.jobID,
    args.digest, args.artifact]

/-- What `ArtifactKey` asks of its arguments. -/
structure Admitted (args : Artifact) : Prop where
  keyPrefix : validateKeyPrefix args.keyPrefix = .ok ()
  tenant : SafeSegment (tenantSegment args.tenantID)
  name : SafeSegment args.name
  jobID : SafeSegment args.jobID
  digest : validateDigest args.digest = .ok ()
  artifact : SafeSegment args.artifact

theorem safe_artifactPath {args : Artifact} (admitted : Admitted args) :
    ∀ name ∈ artifactPath args, SafeSegment name := by
  simp only [artifactPath, forall_mem_append, forall_mem_cons]
  exact ⟨safe_of_validateKeyPrefix admitted.keyPrefix, safeSegment_tenants, admitted.tenant,
    admitted.name, admitted.jobID, safeSegment_of_digest admitted.digest, admitted.artifact,
    fun _ found => absurd found not_mem_nil⟩

theorem artifactKey_eq_ok {args : Artifact} {key : Bytes} :
    artifactKey args = .ok key ↔ Admitted args ∧ key = keyOf (artifactPath args) := by
  have joined : [slash].intercalate [args.keyPrefix, textBytes "tenants", tenantSegment args.tenantID,
      args.name, args.jobID, args.digest, args.artifact] = keyOf (artifactPath args) := by
    rw [artifactPath, keyOf_append _ (cons_ne_nil _ _), dirKey_eq (segments_ne_nil _),
      keyOf_segments, intercalate_cons_cons, keyOf]
  constructor
  · intro made
    obtain ⟨⟨⟩, keyPrefix, made⟩ := exists_of_bind_eq_ok made
    obtain ⟨⟨⟩, tenant, made⟩ := exists_of_bind_eq_ok made
    obtain ⟨⟨⟩, name, made⟩ := exists_of_bind_eq_ok made
    obtain ⟨⟨⟩, jobID, made⟩ := exists_of_bind_eq_ok made
    obtain ⟨⟨⟩, -, made⟩ := exists_of_bind_eq_ok made
    obtain ⟨⟨⟩, artifact, made⟩ := exists_of_bind_eq_ok made
    obtain ⟨⟨⟩, digest, made⟩ := exists_of_bind_eq_ok made
    refine ⟨⟨keyPrefix, ?_, ?_, ?_, digest, ?_⟩, ?_⟩
    · exact (validateStorageSegment_eq_ok _).mp tenant
    · exact (validateStorageSegment_eq_ok _).mp name
    · exact (validateStorageSegment_eq_ok _).mp jobID
    · exact (validateStorageSegment_eq_ok _).mp artifact
    · exact joined ▸ (Except.ok.inj made).symm
  · rintro ⟨⟨keyPrefix, tenant, name, jobID, digest, artifact⟩, rfl⟩
    have tenant := (validateStorageSegment_eq_ok "TenantID").mpr tenant
    have name := (validateStorageSegment_eq_ok "Name").mpr name
    have jobID := (validateStorageSegment_eq_ok "ID").mpr jobID
    have hex := (validateStorageSegment_eq_ok "digest").mpr (safeSegment_of_digest digest)
    have artifact := (validateStorageSegment_eq_ok "artifact").mpr artifact
    simp only [artifactKey, keyPrefix, tenant, name, jobID, hex, artifact, digest, joined]
    rfl

/-- What `ValidateJob` asks of a job, as far as keys are concerned. -/
theorem safe_of_validateJob {job : Job} (accepted : validateJob job = .ok ()) :
    SafeSegment job.id ∧ SafeSegment job.name ∧ SafeSegment (tenantSegment job.tenantID) := by
  obtain ⟨⟨⟩, id, accepted⟩ := exists_of_bind_eq_ok accepted
  obtain ⟨⟨⟩, name, accepted⟩ := exists_of_bind_eq_ok accepted
  refine ⟨?_, ?_, ?_⟩
  · exact (validateStorageSegment_eq_ok _).mp (ok_of_mapError id)
  · exact (validateStorageSegment_eq_ok _).mp (ok_of_mapError name)
  · rw [tenantSegment]
    split
    · exact safeSegment_default
    · rename_i given
      rw [if_pos given] at accepted
      obtain ⟨⟨⟩, tenant, -⟩ := exists_of_bind_eq_ok accepted
      exact (validateStorageSegment_eq_ok _).mp (ok_of_mapError tenant)

end Golusoris.Trainerio
