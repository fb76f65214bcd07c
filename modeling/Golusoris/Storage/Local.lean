import Golusoris.Lib.Crash
import Golusoris.Storage.Key
import Mathlib.Data.Finmap

/-!
# The local bucket: puts and recovery

This module embeds `LocalBucket.Put` and `lockAndRecover` with
`storage/local_transaction.go` below them. The bucket directory is a finite map
from paths to contents. Creating, writing, renaming and removing a file are the
atomic steps; the operation lock is held throughout and flushing has no effect
of its own. A directory is no entry: a path is one while a file lies below it.
-/

namespace Golusoris.Storage

open Lib

abbrev Path := List Bytes

abbrev Disk := Finmap fun _ : Path => Bytes

/-- `filepath.Join(filepath.Dir(path), name)`. -/
def sibling (path : Path) (name : Bytes) : Path := path.dropLast ++ [name]

def localTransactionName : Path := [textBytes ".golusoris-transaction.json"]

def localStagingDirectoryName : Bytes := textBytes ".golusoris-staging"

def isLocalTempName (name : Bytes) : Bool :=
  starts name ".golusoris-put-" && ends name ".tmp"

/-- Path of a file in the staging directory. -/
def stage (name : Bytes) : Path := [localStagingDirectoryName, name]

def hexDigit (value : Nat) : UInt8 :=
  if value < 10 then UInt8.ofNat (0x30 + value) else UInt8.ofNat (0x57 + value)

/-- `hex.EncodeToString`. -/
def hexEncode (bytes : Bytes) : Bytes :=
  bytes.flatMap fun byte => [hexDigit (byte.toNat / 16), hexDigit (byte.toNat % 16)]

def isHexDigit (byte : UInt8) : Bool :=
  (0x30 ≤ byte && byte ≤ 0x39) || (0x61 ≤ byte && byte ≤ 0x66) || (0x41 ≤ byte && byte ≤ 0x46)

def validLocalDigest (value : Bytes) : Bool := value.length == 64 && value.all isHexDigit

structure LocalTransaction where
  schema : Int
  key : Bytes
  objectStage : Path
  metadataStage : Path
  bodySize : Int
  bodySHA256 : Bytes
  metadataSHA256 : Bytes
  hadObject : Bool
  hadMetadata : Bool
  objectBackup : Path
  metadataBackup : Path
  objectTarget : Path
  metadataTarget : Path
  deriving DecidableEq

structure LocalAttributes where
  schema : Int
  key : Bytes
  bodySize : Int
  bodySHA256 : Bytes
  contentType : Bytes
  metadata : Finmap fun _ : Bytes => Bytes
  deriving DecidableEq

/-- Why a record could not be read back. -/
inductive JsonError where
  | invalid
  | trailing
  deriving DecidableEq, Repr

/-- What the bucket uses of its host: SHA-256, the JSON text of its two records
and the order in which the staging directory is listed. -/
structure Host where
  sha256 : Bytes → Vector UInt8 32
  marshalTransaction : LocalTransaction → Bytes
  decodeTransaction : Bytes → Except JsonError LocalTransaction
  marshalAttributes : LocalAttributes → Bytes
  decodeAttributes : Bytes → Except JsonError LocalAttributes
  readDir : Disk → List Bytes
  mem_readDir : ∀ disk name, name ∈ readDir disk ↔ stage name ∈ disk
  nodup_readDir : ∀ disk, (readDir disk).Nodup

/-- The digest of a content as it is written into records and names. -/
def Host.digest (host : Host) (content : Bytes) : Bytes := hexEncode (host.sha256 content).toList

def localMetadataName (host : Host) (key : Bytes) : Bytes :=
  textBytes ".golusoris-meta-" ++ host.digest key ++ textBytes ".json"

def localBackupName (host : Host) (key : Bytes) (kind : String) : Bytes :=
  textBytes ".golusoris-put-backup-" ++ textBytes kind ++ textBytes "-" ++ host.digest key ++
    textBytes ".tmp"

def localMetadataPath (host : Host) (key : Bytes) (objectName : Path) : Path :=
  sibling objectName (localMetadataName host key)

def localBackupPath (host : Host) (key : Bytes) (objectName : Path) (kind : String) : Path :=
  sibling objectName (localBackupName host key kind)

def localTransactionSchema : Int := 1
def localAttributeSchema : Int := 2
def maxLocalTransactionBytes : Nat := 16 * 1024
def maxLocalAttributeBytes : Nat := 16 * 1024
def maxLocalOrphanStages : Nat := 16

def newLocalTransaction (host : Host) (key : Bytes) (objectTarget objectStage metadataStage : Path)
    (bodySize : Int) (bodySHA256 metadata : Bytes) (hadObject hadMetadata : Bool) :
    LocalTransaction where
  schema := localTransactionSchema
  key := key
  objectStage := objectStage
  metadataStage := metadataStage
  bodySize := bodySize
  bodySHA256 := bodySHA256
  metadataSHA256 := host.digest metadata
  hadObject := hadObject
  hadMetadata := hadMetadata
  objectBackup := localBackupPath host key objectTarget "object"
  metadataBackup := localBackupPath host key objectTarget "metadata"
  objectTarget := objectTarget
  metadataTarget := localMetadataPath host key objectTarget

/-- The places that look at the context. -/
inductive Phase where
  | putPreflight
  | lockWait
  | transactionRead
  | attributesRead
  | bodyRead
  | orphanPreflight
  | orphanScan
  | orphanRemove
  | putBeforeMkdir
  | makingDirectories
  | beforeMetadataStage
  | afterMetadataWrite
  | beforePublish
  | beforeJournal
  | afterTransactionWrite
  deriving DecidableEq, Repr

/-- Whether `ctx.Err()` reports an ended context at a place. -/
abbrev Context := Phase → Bool

inductive LocalError where
  | cancelled (phase : Phase)
  | unsafeKey (cause : UnsafeKey)
  | notDirectory (path : Path)
  | notRegular (path : Path)
  | createStage
  | sourceFailed
  | attributesTooLarge (size : Nat)
  | transactionTooLarge (size : Nat)
  | notRecovered
  | missing (path : Path)
  | backupExists
  | targetChanged
  | tooLarge (path : Path)
  | transactionJson (cause : JsonError)
  | invalidTarget
  | invalidFields
  | invalidPaths
  | invalidStage
  | reusedPath
  | attributesJson (cause : JsonError)
  | attributeSchema (schema : Int)
  | attributeKey (key : Bytes)
  | attributeContentType
  | attributeBodySize
  | attributeDigest
  | stagingNotDirectory
  | stagingTooFull
  | unexpectedStage (name : Bytes)
  | syncFailed
  deriving DecidableEq

abbrev Program (Result : Type) := Script Disk (Except LocalError Result)

def checkLocalContext (context : Context) (phase : Phase) : Except LocalError Unit :=
  if context phase then .error (.cancelled phase) else .ok ()

/-- `root.Rename`. -/
def rename (source target : Path) : Program Unit :=
  .look fun disk =>
    match disk.lookup source with
    | none => .fail (.missing source)
    | some content => .act (fun disk => (disk.erase source).insert target content) (.give ())

/-- `root.Remove`, where a file that does not exist is no error. -/
def remove (path : Path) : Script Disk Unit := .act (fun disk => disk.erase path) (.done ())

def removeAll : List Path → Script Disk Unit
  | [] => .done ()
  | path :: rest => .act (fun disk => disk.erase path) (removeAll rest)

/-- Remove files and report a failure. -/
def abandon {Result : Type} (paths : List Path) (failure : LocalError) : Program Result :=
  (removeAll paths).bind fun _ => .fail failure

/-- A file lies below the path. -/
def isDirectory (disk : Disk) (path : Path) : Bool :=
  decide (∃ other ∈ disk.keys, path <+: other ∧ other ≠ path)

def localRegularPathExists (disk : Disk) (path : Path) : Except LocalError Bool :=
  if path ∈ disk then .ok true
  else if isDirectory disk path then .error (.notRegular path)
  else .ok false

/-- `readBoundedLocalFile`; the content, if there is a file. -/
def readBoundedLocalFile (context : Context) (phase : Phase) (disk : Disk) (path : Path) :
    Except LocalError (Option Bytes) :=
  match disk.lookup path with
  | none => .ok none
  | some content =>
      if context phase then .error (.cancelled phase)
      else if maxLocalAttributeBytes < content.length then .error (.tooLarge path)
      else .ok (some content)

def localKey (key : Bytes) : Except LocalError (Bytes × Path) :=
  match cleanKey key maxKeyBytes with
  | .error cause => .error (.unsafeKey cause)
  | .ok clean => .ok (clean, segments clean)

def validateLocalTransactionTarget (tx : LocalTransaction) : Except LocalError Unit :=
  match localKey tx.key with
  | .error _ => .error .invalidTarget
  | .ok (clean, objectTarget) =>
      if clean ≠ tx.key ∨ objectTarget ≠ tx.objectTarget then .error .invalidTarget else .ok ()

def validateLocalTransactionFields (tx : LocalTransaction) : Except LocalError Unit :=
  if tx.schema ≠ localTransactionSchema ∨ tx.bodySize < 0 ∨ !validLocalDigest tx.bodySHA256 ∨
      !validLocalDigest tx.metadataSHA256 then .error .invalidFields
  else .ok ()

def validLocalStage (path : Path) : Bool :=
  match path with
  | [directory, name] => directory == localStagingDirectoryName && isLocalTempName name
  | _ => false

def validateDistinctLocalTransactionPaths (tx : LocalTransaction) : Except LocalError Unit :=
  if tx.objectStage = tx.metadataStage ∨ tx.objectStage = tx.objectBackup ∨
      tx.objectStage = tx.metadataBackup ∨ tx.metadataStage = tx.objectBackup ∨
      tx.metadataStage = tx.metadataBackup then .error .reusedPath
  else .ok ()

def validateLocalTransactionPaths (host : Host) (tx : LocalTransaction) : Except LocalError Unit :=
  if tx.metadataTarget ≠ localMetadataPath host tx.key tx.objectTarget ∨
      tx.objectBackup ≠ localBackupPath host tx.key tx.objectTarget "object" ∨
      tx.metadataBackup ≠ localBackupPath host tx.key tx.objectTarget "metadata" then
    .error .invalidPaths
  else if !validLocalStage tx.objectStage ∨ !validLocalStage tx.metadataStage then
    .error .invalidStage
  else validateDistinctLocalTransactionPaths tx

def validateLocalTransaction (host : Host) (tx : LocalTransaction) : Except LocalError Unit := do
  validateLocalTransactionTarget tx
  validateLocalTransactionFields tx
  validateLocalTransactionPaths host tx

/-- `readLocalTransaction`; the transaction, if there is a journal. -/
def readLocalTransaction (host : Host) (context : Context) (disk : Disk) :
    Except LocalError (Option LocalTransaction) := do
  match ← readBoundedLocalFile context .transactionRead disk localTransactionName with
  | none => .ok none
  | some data =>
      match host.decodeTransaction data with
      | .error cause => .error (.transactionJson cause)
      | .ok tx => do
          validateLocalTransaction host tx
          .ok (some tx)

def defaultContentType : Bytes := textBytes "application/octet-stream"

def defaultLocalAttributes (key : Bytes) : LocalAttributes where
  schema := localAttributeSchema
  key := key
  bodySize := 0
  bodySHA256 := []
  contentType := defaultContentType
  metadata := ∅

def decodeLocalAttributes (host : Host) (data key : Bytes) : Except LocalError LocalAttributes :=
  if data = [] then .ok (defaultLocalAttributes key)
  else
    match host.decodeAttributes data with
    | .error cause => .error (.attributesJson cause)
    | .ok attrs =>
        if attrs.schema ≠ localAttributeSchema then .error (.attributeSchema attrs.schema)
        else if attrs.key ≠ key then .error (.attributeKey attrs.key)
        else if attrs.contentType = [] then .error .attributeContentType
        else if attrs.bodySize < 0 then .error .attributeBodySize
        else if !validLocalDigest attrs.bodySHA256 then .error .attributeDigest
        else .ok attrs

def localBodyMatches (host : Host) (context : Context) (disk : Disk) (path : Path) (size : Int)
    (digest : Bytes) : Except LocalError Bool :=
  match disk.lookup path with
  | none => .ok false
  | some content =>
      if (content.length : Int) ≠ size then .ok false
      else if context .bodyRead then .error (.cancelled .bodyRead)
      else .ok (host.digest content == digest)

def localTransactionCommitted (host : Host) (context : Context) (tx : LocalTransaction)
    (disk : Disk) : Except LocalError Bool := do
  match ← readBoundedLocalFile context .attributesRead disk tx.metadataTarget with
  | none => .ok false
  | some metadata =>
      if host.digest metadata ≠ tx.metadataSHA256 then .ok false
      else do
        let attrs ← decodeLocalAttributes host metadata tx.key
        if attrs.bodySize ≠ tx.bodySize ∨ attrs.bodySHA256 ≠ tx.bodySHA256 then .ok false
        else localBodyMatches host context disk tx.objectTarget tx.bodySize tx.bodySHA256

def restoreLocalBackup (target backup : Path) : Program Unit :=
  (remove target).bind fun _ => rename backup target

def rollbackLocalBody (host : Host) (context : Context) (tx : LocalTransaction) : Program Unit :=
  .look fun disk =>
    if tx.objectBackup ∈ disk then restoreLocalBackup tx.objectTarget tx.objectBackup
    else
      .check (localBodyMatches host context disk tx.objectTarget tx.bodySize tx.bodySHA256)
        fun matched =>
          if matched && !tx.hadObject then (remove tx.objectTarget).bind fun _ => .give ()
          else .give ()

def rollbackLocalMetadata (host : Host) (context : Context) (tx : LocalTransaction) :
    Program Unit :=
  .look fun disk =>
    if tx.metadataBackup ∈ disk then restoreLocalBackup tx.metadataTarget tx.metadataBackup
    else
      .check (readBoundedLocalFile context .attributesRead disk tx.metadataTarget) fun found =>
        match found with
        | none => .give ()
        | some data =>
            if host.digest data = tx.metadataSHA256 ∧ tx.hadMetadata = false then
              (remove tx.metadataTarget).bind fun _ => .give ()
            else .give ()

def rollbackLocalTransaction (host : Host) (context : Context) (tx : LocalTransaction) :
    Program Unit :=
  (rollbackLocalBody host context tx).attempt fun _ => rollbackLocalMetadata host context tx

def finishLocalTransaction (tx : LocalTransaction) : Program Unit :=
  (removeAll [tx.objectStage, tx.metadataStage, tx.objectBackup, tx.metadataBackup,
    localTransactionName]).bind fun _ => .give ()

def recoverPendingLocalTransaction (host : Host) (context : Context) : Program Unit :=
  .look fun disk =>
    .check (readLocalTransaction host context disk) fun pending =>
      match pending with
      | none => .give ()
      | some tx =>
          .check (localTransactionCommitted host context tx disk) fun committed =>
            if committed then finishLocalTransaction tx
            else
              (rollbackLocalTransaction host context tx).attempt fun _ => finishLocalTransaction tx

def protectedLocalTransactionStages (host : Host) (context : Context) (disk : Disk) :
    Except LocalError (List Path) := do
  match ← readLocalTransaction host context disk with
  | none => .ok []
  | some tx => .ok [tx.objectStage, tx.metadataStage]

def collectLocalOrphanStages (host : Host) (context : Context) (disk : Disk)
    (keep : List Path) : Except LocalError (List Path) :=
  let entries := (host.readDir disk).take (maxLocalOrphanStages + 1)
  if maxLocalOrphanStages < entries.length then .error .stagingTooFull
  else if entries ≠ [] ∧ context .orphanScan then .error (.cancelled .orphanScan)
  else
    match entries.find? (fun name => !isLocalTempName name) with
    | some name => .error (.unexpectedStage name)
    | none => .ok ((entries.map stage).filter (· ∉ keep))

def removeLocalOrphanStages (context : Context) : List Path → Program Unit
  | [] => .give ()
  | orphan :: rest =>
      .check (checkLocalContext context .orphanRemove) fun _ =>
        .look fun disk =>
          if orphan ∈ disk then
            .act (fun disk => disk.erase orphan) (removeLocalOrphanStages context rest)
          else .fail (.missing orphan)

def reclaimLocalOrphanStages (host : Host) (context : Context) : Program Unit :=
  .check (checkLocalContext context .orphanPreflight) fun _ =>
    .look fun disk =>
      .check (protectedLocalTransactionStages host context disk) fun keep =>
        if [localStagingDirectoryName] ∈ disk then .fail .stagingNotDirectory
        else
          .check (collectLocalOrphanStages host context disk keep) fun orphans =>
            removeLocalOrphanStages context orphans

def lockAndRecover (host : Host) (context : Context) : Program Unit :=
  .check (checkLocalContext context .lockWait) fun _ =>
    (recoverPendingLocalTransaction host context).attempt fun _ =>
      reclaimLocalOrphanStages host context

/-- `rand.Text`: digits of the base 32 alphabet. -/
abbrev RandomText := List (Fin 32)

def base32 (digit : Fin 32) : UInt8 :=
  if digit.val < 26 then UInt8.ofNat (0x41 + digit.val) else UInt8.ofNat (0x18 + digit.val)

def tempName (text : RandomText) : Bytes :=
  textBytes ".golusoris-put-" ++ text.map base32 ++ textBytes ".tmp"

/-- The texts drawn by one `openLocalTemp`, one for each attempt. -/
abbrev Draws := Vector RandomText 4

def openLocalTempAmong : List RandomText → Program Path
  | [] => .fail .createStage
  | text :: rest =>
      .look fun disk =>
        if stage (tempName text) ∈ disk then openLocalTempAmong rest
        else .act (fun disk => disk.insert (stage (tempName text)) []) (.give (stage (tempName text)))

def openLocalTemp (draws : Draws) : Program Path := openLocalTempAmong draws.toList

/-- Append to an open file. -/
def write (path : Path) (chunk : Bytes) (disk : Disk) : Disk :=
  disk.insert path ((disk.lookup path).getD [] ++ chunk)

def writeAll (path : Path) : List Bytes → Script Disk Unit
  | [] => .done ()
  | chunk :: rest => .act (write path chunk) (writeAll path rest)

/-- The reader given to `Put`: what it delivers read by read, and how it ends.
A context that ends while reading is a failure too. -/
structure Source where
  chunks : List Bytes
  failure : Option LocalError := none

structure PutOptions where
  contentType : Bytes := []
  metadata : Finmap (fun _ : Bytes => Bytes) := ∅

structure PutCall where
  key : Bytes
  source : Source
  options : PutOptions := {}
  context : Context := fun _ => false
  recovery : Context := fun _ => false
  objectDraws : Draws
  metadataDraws : Draws
  journalDraws : Draws
  syncFails : Bool := false

/-- The result of a put, without the modification time. -/
structure Object where
  key : Bytes
  size : Int
  contentType : Bytes
  metadata : Finmap fun _ : Bytes => Bytes
  deriving DecidableEq

def snapshotLocalAttributes (key : Bytes) (options : PutOptions) : LocalAttributes where
  schema := localAttributeSchema
  key := key
  bodySize := 0
  bodySHA256 := []
  contentType := if options.contentType = [] then defaultContentType else options.contentType
  metadata := options.metadata

def bindLocalAttributes (host : Host) (attrs : LocalAttributes) (size : Int) (digest : Bytes) :
    Except LocalError (LocalAttributes × Bytes) :=
  let attrs := { attrs with bodySize := size, bodySHA256 := digest }
  let data := host.marshalAttributes attrs
  if maxLocalAttributeBytes < data.length then .error (.attributesTooLarge data.length)
  else .ok (attrs, data)

def ensureLocalDirectories (context : Context) (disk : Disk) (parent : Path) :
    Except LocalError Unit :=
  if parent = [] then .ok ()
  else if context .makingDirectories then .error (.cancelled .makingDirectories)
  else
    match parent.inits.tail.find? (· ∈ disk) with
    | some path => .error (.notDirectory path)
    | none => .ok ()

def stageLocalObject (draws : Draws) (source : Source) : Program Path :=
  (openLocalTemp draws).attempt fun path =>
    (writeAll path source.chunks).bind fun _ =>
      match source.failure with
      | some failure => abandon [path] failure
      | none => .give path

def stageLocalAttributes (context : Context) (draws : Draws) (data : Bytes) : Program Path :=
  .check (checkLocalContext context .beforeMetadataStage) fun _ =>
    (openLocalTemp draws).attempt fun path =>
      .act (write path data)
        (match checkLocalContext context .afterMetadataWrite with
          | .error failure => abandon [path] failure
          | .ok () => .give path)

def prepareLocalTransaction (host : Host) (disk : Disk) (key : Bytes)
    (objectTarget objectStage metadataStage : Path) (bodySize : Int) (bodyDigest metadata : Bytes) :
    Except LocalError LocalTransaction := do
  let hadObject ← localRegularPathExists disk objectTarget
  let hadMetadata ← localRegularPathExists disk (localMetadataPath host key objectTarget)
  .ok (newLocalTransaction host key objectTarget objectStage metadataStage bodySize bodyDigest
    metadata hadObject hadMetadata)

def stageLocalTransaction (context : Context) (draws : Draws) (data : Bytes) : Program Path :=
  (openLocalTemp draws).attempt fun path =>
    .act (write path data)
      (match checkLocalContext context .afterTransactionWrite with
        | .error failure => abandon [path] failure
        | .ok () => .give path)

/-- `beginLocalTransaction`. No step here fails once the journal has its name. -/
def beginLocalTransaction (host : Host) (context : Context) (draws : Draws)
    (tx : LocalTransaction) : Program Unit :=
  .check (checkLocalContext context .beforeJournal) fun _ =>
    let data := host.marshalTransaction tx
    if maxLocalTransactionBytes < data.length then .fail (.transactionTooLarge data.length)
    else
      .look fun disk =>
        if localTransactionName ∈ disk then .fail .notRecovered
        else
          (stageLocalTransaction context draws data).attempt fun staged =>
            (rename staged localTransactionName).bind fun renamed =>
              match renamed with
              | .error failure => abandon [staged] failure
              | .ok () => .give ()

def installLocalTransactionFile (staged target backup : Path) (hadTarget : Bool) : Program Unit :=
  .look fun disk =>
    if backup ∈ disk then .fail .backupExists
    else if decide (target ∈ disk) ≠ hadTarget then .fail .targetChanged
    else if hadTarget then
      (rename target backup).attempt fun _ => rename staged target
    else rename staged target

def publishLocalTransaction (tx : LocalTransaction) : Program Unit :=
  (installLocalTransactionFile tx.metadataStage tx.metadataTarget tx.metadataBackup
    tx.hadMetadata).attempt fun _ =>
    installLocalTransactionFile tx.objectStage tx.objectTarget tx.objectBackup tx.hadObject

/-- Undo what can be undone and report the first failure. -/
def recoverLocalTransactionAfterFailure (host : Host) (recovery : Context)
    (failure : LocalError) : Program Unit :=
  (recoverPendingLocalTransaction host recovery).bind fun _ => .fail failure

def publishStagedLocalObject (host : Host) (call : PutCall) (key : Bytes)
    (objectTarget objectStage metadataStage : Path) (bodySize : Int) (bodyDigest metadata : Bytes) :
    Program Unit :=
  match checkLocalContext call.context .beforePublish with
  | .error failure => abandon [objectStage, metadataStage] failure
  | .ok () =>
      .look fun disk =>
        match prepareLocalTransaction host disk key objectTarget objectStage metadataStage bodySize
          bodyDigest metadata with
        | .error failure => abandon [objectStage, metadataStage] failure
        | .ok tx =>
            (beginLocalTransaction host call.context call.journalDraws tx).bind fun begun =>
              match begun with
              | .error failure => abandon [objectStage, metadataStage] failure
              | .ok () =>
                  (publishLocalTransaction tx).bind fun published =>
                    match published with
                    | .error failure =>
                        recoverLocalTransactionAfterFailure host call.recovery failure
                    | .ok () =>
                        if call.syncFails then .fail .syncFailed else finishLocalTransaction tx

def putLocalObject (host : Host) (call : PutCall) (clean : Bytes) (name : Path)
    (attrs : LocalAttributes) : Program Object :=
  .check (checkLocalContext call.context .putBeforeMkdir) fun _ =>
    .look fun disk =>
      .check (ensureLocalDirectories call.context disk name.dropLast) fun _ =>
        (stageLocalObject call.objectDraws call.source).attempt fun objectStage =>
          let body := call.source.chunks.flatten
          match bindLocalAttributes host attrs body.length (host.digest body) with
          | .error failure => abandon [objectStage] failure
          | .ok (attrs, encodedAttrs) =>
              (stageLocalAttributes call.context call.metadataDraws encodedAttrs).bind fun staged =>
                match staged with
                | .error failure => abandon [objectStage] failure
                | .ok metadataStage =>
                    (publishStagedLocalObject host call clean name objectStage metadataStage
                      body.length (host.digest body) encodedAttrs).attempt fun _ =>
                      .look fun disk =>
                        if name ∈ disk then
                          .give {
                            key := clean, size := body.length, contentType := attrs.contentType,
                            metadata := attrs.metadata }
                        else .fail (.missing name)

/-- `LocalBucket.Put`. -/
def put (host : Host) (call : PutCall) : Program Object :=
  .check (checkLocalContext call.context .putPreflight) fun _ =>
    .check (localKey call.key) fun (clean, name) =>
      (lockAndRecover host call.context).attempt fun _ =>
        putLocalObject host call clean name (snapshotLocalAttributes clean call.options)

end Golusoris.Storage
