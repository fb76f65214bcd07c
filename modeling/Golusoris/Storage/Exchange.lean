import Golusoris.Storage.Cells

/-!
# The states between the old pair and the new one

A target and its backup pass through four slots while a put replaces the target.
`Invariant` lists the combinations of slots that a put or a recovery can leave
behind, with and without a journal.
-/

namespace Golusoris.Storage

open Lib
open Utf8

def PutCall.body (call : PutCall) : Bytes := call.source.chunks.flatten

def PutCall.attributes (host : Host) (call : PutCall) : LocalAttributes :=
  { snapshotLocalAttributes call.key call.options with
    bodySize := call.body.length, bodySHA256 := host.digest call.body }

def PutCall.metadata (host : Host) (call : PutCall) : Bytes :=
  host.marshalAttributes (call.attributes host)

/-- The content of a cell before the put. -/
def oldFile (host : Host) (call : PutCall) (before : Disk) (cell : Cell) : Option Bytes :=
  before.lookup (cell.path host call.key)

def PutCall.transaction (host : Host) (call : PutCall) (before : Disk)
    (objectText metadataText : RandomText) : LocalTransaction :=
  newLocalTransaction host call.key (segments call.key) (stage (tempName objectText))
    (stage (tempName metadataText)) call.body.length (host.digest call.body) (call.metadata host)
    (oldFile host call before .object).isSome (oldFile host call before .attributes).isSome

/-- The path as a JSON text carries it. -/
def coercePath (path : Path) : Path := path.map Utf8.coerce

/-- The transaction as `encoding/json` reads it back. -/
def LocalTransaction.coerced (tx : LocalTransaction) : LocalTransaction :=
  { tx with
    key := Utf8.coerce tx.key
    objectStage := coercePath tx.objectStage
    metadataStage := coercePath tx.metadataStage
    bodySHA256 := Utf8.coerce tx.bodySHA256
    metadataSHA256 := Utf8.coerce tx.metadataSHA256
    objectBackup := coercePath tx.objectBackup
    metadataBackup := coercePath tx.metadataBackup
    objectTarget := coercePath tx.objectTarget
    metadataTarget := coercePath tx.metadataTarget }

/-- How far the replacement of one file has come. -/
inductive Slot where
  | fresh
  | moved
  | installed
  | cleaned
  deriving DecidableEq

def Slot.target (old : Option Bytes) (new : Bytes) : Slot → Option Bytes
  | .fresh => old
  | .moved => none
  | .installed => some new
  | .cleaned => some new

def Slot.backup (old : Option Bytes) : Slot → Option Bytes
  | .fresh => none
  | .moved => old
  | .installed => old
  | .cleaned => none

section States

variable (host : Host) (call : PutCall) (before : Disk)

/-- The four files of the key in these slots. -/
structure Stands (attributes object : Slot) (view : View) : Prop where
  attributesTarget : view .attributes =
    attributes.target (oldFile host call before .attributes) (call.metadata host)
  attributesBackup : view .attributesBackup =
    attributes.backup (oldFile host call before .attributes)
  objectTarget : view .object = object.target (oldFile host call before .object) call.body
  objectBackup : view .objectBackup = object.backup (oldFile host call before .object)

/-- The slots without a journal. -/
def Resting (attributes object : Slot) : Prop :=
  attributes = object ∧ (object = .fresh ∨ object = .cleaned)

/-- The slots under a journal. -/
inductive Moving : Slot → Slot → Prop where
  | preparing {attributes : Slot} (unfinished : attributes ≠ .cleaned) : Moving attributes .fresh
  | swapping : Moving .installed .moved
  | finishing {attributes object : Slot} (first : attributes = .installed ∨ attributes = .cleaned)
      (second : object = .installed ∨ object = .cleaned) : Moving attributes object

/-- The journal holds the transaction of this put, for some of the drawn names. -/
def Journalled (objectText metadataText : RandomText) (view : View) : Prop :=
  objectText ∈ call.objectDraws.toList ∧ metadataText ∈ call.metadataDraws.toList ∧
    tempName objectText ≠ tempName metadataText ∧
    (call.metadata host).length ≤ maxLocalAttributeBytes ∧
    (host.marshalTransaction (call.transaction host before objectText metadataText)).length ≤
      maxLocalTransactionBytes ∧
    view .journal = some (host.marshalTransaction
      (call.transaction host before objectText metadataText))

/-- At most so many files are staged. -/
def Staged (limit : Nat) (view : View) : Prop :=
  ∃ names : List Bytes, names.length ≤ limit ∧ (∀ name ∈ names, isLocalTempName name) ∧
    ∀ name, view (.stage name) ≠ none → name ∈ names

/-- What every state between the start of a put and the end of a recovery satisfies. -/
structure Invariant (view : View) : Prop where
  staged : Staged 3 view
  slots : ∃ attributes object, Stands host call before attributes object view ∧
    (view .journal = none ∧ Resting attributes object ∨
      (∃ objectText metadataText, Journalled host call before objectText metadataText view) ∧
        Moving attributes object)

/-- A bucket from which recovery brings back the old pair or the new one. -/
def Recoverable (disk : Disk) : Prop :=
  ∃ view, Shows host call.key before view disk ∧ Invariant host call before view

/-- What the code relies on: the digests of the contents involved differ when
the contents do, and a record read back is the record written, its texts coerced
to valid UTF-8. -/
structure Reliable : Prop where
  keys : host.sha256 (Utf8.coerce call.key) = host.sha256 call.key →
    Utf8.coerce call.key = call.key
  objects : ∀ old, oldFile host call before .object = some old →
    host.sha256 old = host.sha256 call.body → old = call.body
  attributes : ∀ old, oldFile host call before .attributes = some old →
    host.sha256 old = host.sha256 (call.metadata host) → old = call.metadata host
  transactionJson : ∀ objectText ∈ call.objectDraws.toList,
    ∀ metadataText ∈ call.metadataDraws.toList,
      host.decodeTransaction
          (host.marshalTransaction (call.transaction host before objectText metadataText)) =
        .ok (call.transaction host before objectText metadataText).coerced
  attributesText : call.metadata host ≠ []
  attributesJson : ∃ metadata, host.decodeAttributes (call.metadata host) =
    .ok { call.attributes host with
      key := Utf8.coerce call.key
      bodySHA256 := Utf8.coerce (host.digest call.body)
      contentType := Utf8.coerce (call.attributes host).contentType
      metadata := metadata }

/-- Nothing keeps a recovery from completing: the context is live, the key is
valid UTF-8 and the attributes already stored are within their bound. -/
structure Able (context : Context) : Prop where
  live : ∀ phase, context phase = false
  valid : Utf8.coerce call.key = call.key
  segments : coercePath (segments call.key) = segments call.key
  bounded : ∀ old, oldFile host call before .attributes = some old →
    old.length ≤ maxLocalAttributeBytes
  directory : [localStagingDirectoryName] ∉ before

end States

section Texts

variable {host : Host}

theorem textBytes_ascii {text : String} (ascii : (textBytes text).all (· < 0x80))
    {rest : Bytes} (more : ∀ byte ∈ rest, byte < 0x80) :
    ∀ byte ∈ textBytes text ++ rest, byte < 0x80 := by
  intro byte found
  rcases List.mem_append.mp found with found | found
  · exact ascii_of_all ascii byte found
  · exact more byte found

theorem hexDigit_ascii : ∀ value < 16, hexDigit value < 0x80 := by decide

theorem base32_ascii : ∀ digit, base32 digit < 0x80 := by decide

theorem digest_ascii (content : Bytes) : ∀ byte ∈ host.digest content, byte < 0x80 := by
  intro byte found
  obtain ⟨value, small, rfl⟩ := mem_hexEncode found
  exact hexDigit_ascii value small

@[simp] theorem coerce_digest (content : Bytes) :
    coerce (host.digest content) = host.digest content :=
  coerce_ascii (digest_ascii content)

@[simp] theorem coerce_localMetadataName (key : Bytes) :
    coerce (localMetadataName host key) = localMetadataName host key := by
  refine coerce_ascii ?_
  rw [localMetadataName, List.append_assoc]
  refine textBytes_ascii (by decide) fun byte found => ?_
  rcases List.mem_append.mp found with found | found
  · exact digest_ascii key byte found
  · exact ascii_of_all (by decide : (textBytes ".json").all (· < 0x80)) byte found

theorem coerce_localBackupName (key : Bytes) {kind : String}
    (ascii : (textBytes kind).all (· < 0x80)) :
    coerce (localBackupName host key kind) = localBackupName host key kind := by
  refine coerce_ascii ?_
  simp only [localBackupName, List.append_assoc]
  refine textBytes_ascii (by decide) (textBytes_ascii ascii (textBytes_ascii (by decide)
    fun byte found => ?_))
  rcases List.mem_append.mp found with found | found
  · exact digest_ascii key byte found
  · exact ascii_of_all (by decide : (textBytes ".tmp").all (· < 0x80)) byte found

theorem coerce_tempName (text : RandomText) : coerce (tempName text) = tempName text := by
  refine coerce_ascii ?_
  rw [tempName, List.append_assoc]
  refine textBytes_ascii (by decide) fun byte found => ?_
  rcases List.mem_append.mp found with found | found
  · obtain ⟨digit, _, rfl⟩ := List.mem_map.mp found
    exact base32_ascii digit
  · exact ascii_of_all (by decide : (textBytes ".tmp").all (· < 0x80)) byte found

@[simp] theorem coercePath_stage (text : RandomText) :
    coercePath (stage (tempName text)) = stage (tempName text) := by
  have directory : coerce localStagingDirectoryName = localStagingDirectoryName :=
    coerce_ascii (ascii_of_all (by decide))
  simp [coercePath, stage, coerce_tempName, directory]

theorem coercePath_sibling (path : Path) (name : Bytes) :
    coercePath (sibling path name) = sibling (coercePath path) (coerce name) := by
  simp [coercePath, sibling, List.map_dropLast]

end Texts

end Golusoris.Storage
