import Golusoris.Storage.ListExact

/-!
# Objects and the bucket's own files in one tree

The bucket keeps its own files beside the objects and tells them apart by name
alone. No accepted key leads to one of them, and every file that puts and
recoveries leave, wherever they stop, is an object or has a name of the
bucket's own on its path. So a listing hides the bucket's own files and no
object.
-/

namespace Golusoris.Storage

open List
open Lib
open Script

/-- A key that `CleanKey` accepts, in its cleaned form. -/
def Accepted (key : Bytes) : Prop := cleanKey key maxKeyBytes = .ok key

def localLockName : Path := [textBytes ".golusoris-lock"]

/-- The paths of the bucket's own files. -/
inductive InternalPath (host : Host) : Path → Prop where
  | metadata (key : Bytes) (accepted : Accepted key) :
      InternalPath host (localMetadataPath host key (segments key))
  | backup (key : Bytes) (accepted : Accepted key) (kind : String) :
      InternalPath host (localBackupPath host key (segments key) kind)
  | stage (text : RandomText) : InternalPath host (stage (tempName text))
  | journal : InternalPath host localTransactionName
  | lock : InternalPath host localLockName

/-- A path that stays strictly below the root it is joined to. -/
structure BelowRoot (path : Path) : Prop where
  nonempty : path ≠ []
  plain : Plain path

/-- The path of an object or of a file of the bucket's own. -/
def Proper (path : Path) : Prop :=
  (∃ key, Accepted key ∧ segments key = path) ∨ ∃ name ∈ path, Reserved name

/-- Every file of the bucket is one or the other. -/
def Tidy (disk : Disk) : Prop := ∀ path ∈ disk, Proper path

variable {key : Bytes}

section Tidy

variable {host : Host} {disk : Disk} {path target backup : Path}

theorem Tidy.erase (tidy : Tidy disk) (path : Path) : Tidy (disk.erase path) :=
  fun other found => tidy other (Finmap.mem_erase.mp found).2

theorem Tidy.insert (tidy : Tidy disk) (proper : Proper path) (content : Bytes) :
    Tidy (disk.insert path content) := by
  intro other found
  rcases Finmap.mem_insert.mp found with rfl | found
  · exact proper
  · exact tidy other found

theorem proper_object (accepted : Accepted key) : Proper (segments key) := .inl ⟨key, accepted, rfl⟩

theorem proper_sibling (path : Path) {name : Bytes} (reserved : Reserved name) :
    Proper (sibling path name) :=
  .inr ⟨name, by simp [sibling], reserved⟩

theorem proper_metadata (host : Host) (key : Bytes) (path : Path) :
    Proper (localMetadataPath host key path) :=
  proper_sibling path (reserved_localMetadataName host key)

theorem proper_backup (host : Host) (key : Bytes) (path : Path) (kind : String) :
    Proper (localBackupPath host key path kind) :=
  proper_sibling path (reserved_of_isLocalTempName (isLocalTempName_localBackupName host key kind))

theorem proper_stage (name : Bytes) : Proper (stage name) :=
  .inr ⟨localStagingDirectoryName, by simp [stage], reserved_localStagingDirectoryName⟩

theorem proper_journal : Proper localTransactionName :=
  .inr ⟨_, mem_singleton_self _, reserved_journal⟩

/-- The result is of no interest. -/
abbrev Anything {Result : Type} : Result → Prop := fun _ => True

theorem keeps_rename (source : Path) (proper : Proper target) :
    Script.Keeps Tidy (Script.OnOk Anything) (rename source target) := by
  refine keeps_look fun disk => ?_
  cases disk.lookup source with
  | none => exact keeps_fail _
  | some content =>
    refine keeps_act (fun disk tidy => ?_) (keeps_give trivial)
    exact (tidy.erase source).insert proper content

theorem keeps_remove (path : Path) : Script.Keeps Tidy Anything (remove path) :=
  keeps_act (fun _ tidy => tidy.erase path) (keeps_done trivial)

theorem keeps_removeAll (paths : List Path) : Script.Keeps Tidy Anything (removeAll paths) := by
  induction paths with
  | nil => exact keeps_done trivial
  | cons path rest ih => exact keeps_act (fun _ tidy => tidy.erase path) ih

theorem keeps_abandon {Result : Type} {good : Result → Prop} (paths : List Path)
    (failure : LocalError) : Script.Keeps Tidy (Script.OnOk good) (abandon paths failure) :=
  (keeps_removeAll paths).bind fun _ _ => keeps_fail failure

theorem keeps_writeAll (proper : Proper path) (chunks : List Bytes) :
    Script.Keeps Tidy Anything (writeAll path chunks) := by
  induction chunks with
  | nil => exact keeps_done trivial
  | cons chunk rest ih => exact keeps_act (fun _ tidy => tidy.insert proper _) ih

theorem keeps_openLocalTempAmong (texts : List RandomText) :
    Script.Keeps Tidy (Script.OnOk Proper) (openLocalTempAmong texts) := by
  induction texts with
  | nil => exact keeps_fail _
  | cons text rest ih =>
    refine keeps_look fun disk => ?_
    split
    · exact ih
    · refine keeps_act (fun _ tidy => tidy.insert (proper_stage _) []) ?_
      exact keeps_give (proper_stage _)

/-- The transaction moves files to the paths of one accepted key. -/
structure SoundTransaction (tx : LocalTransaction) : Prop where
  object : Proper tx.objectTarget
  metadata : Proper tx.metadataTarget
  objectBackup : Proper tx.objectBackup
  metadataBackup : Proper tx.metadataBackup

theorem sound_newLocalTransaction (accepted : Accepted key) (objectStage metadataStage : Path)
    (bodySize : Int) (bodySHA256 metadata : Bytes) (hadObject hadMetadata : Bool) :
    SoundTransaction (newLocalTransaction host key (segments key) objectStage metadataStage bodySize
      bodySHA256 metadata hadObject hadMetadata) where
  object := proper_object accepted
  metadata := proper_metadata host key _
  objectBackup := proper_backup host key _ _
  metadataBackup := proper_backup host key _ _

theorem sound_of_validateLocalTransaction {tx : LocalTransaction}
    (valid : validateLocalTransaction host tx = .ok ()) : SoundTransaction tx := by
  obtain ⟨⟨⟩, target, valid⟩ := exists_of_bind_eq_ok valid
  obtain ⟨⟨⟩, -, paths⟩ := exists_of_bind_eq_ok valid
  have object : Proper tx.objectTarget := by
    rw [validateLocalTransactionTarget, localKey] at target
    cases accepted : cleanKey tx.key maxKeyBytes with
    | error cause =>
      simp only [accepted] at target
      cases target
    | ok clean =>
      simp only [accepted] at target
      split at target
      · cases target
      · rename_i same
        obtain ⟨rfl, path⟩ : clean = tx.key ∧ segments clean = tx.objectTarget := by
          simpa [not_or] using same
        exact path ▸ proper_object accepted
  rw [validateLocalTransactionPaths] at paths
  split at paths
  · cases paths
  · rename_i same
    simp only [not_or, not_not] at same
    obtain ⟨metadata, objectBackup, metadataBackup⟩ := same
    exact {
      object := object
      metadata := metadata ▸ proper_metadata host _ _
      objectBackup := objectBackup ▸ proper_backup host _ _ _
      metadataBackup := metadataBackup ▸ proper_backup host _ _ _ }

theorem sound_of_readLocalTransaction {context : Context} {tx : LocalTransaction}
    (read : readLocalTransaction host context disk = .ok (some tx)) : SoundTransaction tx := by
  obtain ⟨found, -, read⟩ := exists_of_bind_eq_ok read
  cases found with
  | none => cases read
  | some data =>
    simp only at read
    cases decoded : host.decodeTransaction data with
    | error cause =>
      rw [decoded] at read
      cases read
    | ok other =>
      rw [decoded] at read
      obtain ⟨⟨⟩, valid, read⟩ := exists_of_bind_eq_ok read
      obtain rfl := Option.some.inj (Except.ok.inj read)
      exact sound_of_validateLocalTransaction valid

theorem keeps_restoreLocalBackup (proper : Proper target) :
    Script.Keeps Tidy (Script.OnOk Anything) (restoreLocalBackup target backup) :=
  (keeps_remove target).bind fun _ _ => keeps_rename backup proper

theorem keeps_removed (path : Path) : Script.Keeps Tidy (Script.OnOk Anything)
    ((remove path).bind fun _ => (.give () : Program Unit)) :=
  (keeps_remove path).bind fun _ _ => keeps_give trivial

variable {tx : LocalTransaction} {context : Context}

variable (sound : SoundTransaction tx)

include sound in
theorem keeps_rollbackLocalBody :
    Script.Keeps Tidy (Script.OnOk Anything) (rollbackLocalBody host context tx) := by
  refine keeps_look fun disk => ?_
  split
  · exact keeps_restoreLocalBackup sound.object
  · refine keeps_check fun matched _ => ?_
    split
    · exact keeps_removed _
    · exact keeps_give trivial

include sound in
theorem keeps_rollbackLocalMetadata :
    Script.Keeps Tidy (Script.OnOk Anything) (rollbackLocalMetadata host context tx) := by
  refine keeps_look fun disk => ?_
  split
  · exact keeps_restoreLocalBackup sound.metadata
  · refine keeps_check fun found _ => ?_
    cases found with
    | none => exact keeps_give trivial
    | some data =>
      simp only
      split
      · exact keeps_removed _
      · exact keeps_give trivial

include sound in
theorem keeps_rollbackLocalTransaction :
    Script.Keeps Tidy (Script.OnOk Anything) (rollbackLocalTransaction host context tx) :=
  (keeps_rollbackLocalBody sound).attempt fun _ _ => keeps_rollbackLocalMetadata sound

theorem keeps_finishLocalTransaction (tx : LocalTransaction) :
    Script.Keeps Tidy (Script.OnOk Anything) (finishLocalTransaction tx) :=
  (keeps_removeAll _).bind fun _ _ => keeps_give trivial

theorem keeps_recoverPendingLocalTransaction (host : Host) (context : Context) :
    Script.Keeps Tidy (Script.OnOk Anything) (recoverPendingLocalTransaction host context) := by
  refine keeps_look fun disk => keeps_check fun pending read => ?_
  cases pending with
  | none => exact keeps_give trivial
  | some tx =>
    have sound := sound_of_readLocalTransaction read
    refine keeps_check fun committed _ => ?_
    split
    · exact keeps_finishLocalTransaction tx
    · exact (keeps_rollbackLocalTransaction sound).attempt fun _ _ =>
        keeps_finishLocalTransaction tx

theorem keeps_removeLocalOrphanStages (context : Context) (orphans : List Path) :
    Script.Keeps Tidy (Script.OnOk Anything) (removeLocalOrphanStages context orphans) := by
  induction orphans with
  | nil => exact keeps_give trivial
  | cons orphan rest ih =>
    refine keeps_check fun _ _ => keeps_look fun disk => ?_
    split
    · exact keeps_act (fun _ tidy => tidy.erase orphan) ih
    · exact keeps_fail _

theorem keeps_lockAndRecover (host : Host) (context : Context) :
    Script.Keeps Tidy (Script.OnOk Anything) (lockAndRecover host context) := by
  refine keeps_check fun _ _ =>
    (keeps_recoverPendingLocalTransaction host context).attempt fun _ _ => ?_
  refine keeps_check fun _ _ => keeps_look fun disk => keeps_check fun keep _ => ?_
  split
  · exact keeps_fail _
  · exact keeps_check fun orphans _ => keeps_removeLocalOrphanStages context orphans

theorem keeps_openLocalTemp (draws : Draws) :
    Script.Keeps Tidy (Script.OnOk Proper) (openLocalTemp draws) :=
  keeps_openLocalTempAmong draws.toList

theorem keeps_stageLocalObject (draws : Draws) (source : Source) :
    Script.Keeps Tidy (Script.OnOk Proper) (stageLocalObject draws source) := by
  refine (keeps_openLocalTemp draws).attempt fun path proper => ?_
  refine (keeps_writeAll proper source.chunks).bind fun _ _ => ?_
  cases source.failure with
  | none => exact keeps_give proper
  | some failure => exact keeps_abandon [path] failure

/-- Both staging functions write one text and look at the context. -/
theorem keeps_written (proper : Proper path) (data : Bytes) (outcome : Except LocalError Unit) :
    Script.Keeps Tidy (Script.OnOk Proper)
      (.act (write path data)
        (match outcome with
          | .error failure => abandon [path] failure
          | .ok () => .give path) : Program Path) := by
  refine keeps_act (fun _ tidy => tidy.insert proper _) ?_
  cases outcome with
  | error failure => exact keeps_abandon [path] failure
  | ok => exact keeps_give proper

theorem keeps_stageLocalAttributes (context : Context) (draws : Draws) (data : Bytes) :
    Script.Keeps Tidy (Script.OnOk Proper) (stageLocalAttributes context draws data) :=
  keeps_check fun _ _ => (keeps_openLocalTemp draws).attempt fun _ proper =>
    keeps_written proper data _

theorem keeps_beginLocalTransaction (host : Host) (context : Context) (draws : Draws)
    (tx : LocalTransaction) :
    Script.Keeps Tidy (Script.OnOk Anything) (beginLocalTransaction host context draws tx) := by
  refine keeps_check fun _ _ => ?_
  simp only
  split
  · exact keeps_fail _
  · refine keeps_look fun disk => ?_
    split
    · exact keeps_fail _
    · refine Script.Keeps.attempt ((keeps_openLocalTemp draws).attempt fun _ proper =>
        keeps_written proper _ _) fun staged _ => ?_
      refine (keeps_rename staged proper_journal).bind fun renamed _ => ?_
      cases renamed with
      | error failure => exact keeps_abandon [staged] failure
      | ok => exact keeps_give trivial

theorem keeps_installLocalTransactionFile (staged : Path) (hadTarget : Bool)
    (properTarget : Proper target) (properBackup : Proper backup) :
    Script.Keeps Tidy (Script.OnOk Anything)
      (installLocalTransactionFile staged target backup hadTarget) := by
  refine keeps_look fun disk => ?_
  split
  · exact keeps_fail _
  · split
    · exact keeps_fail _
    · split
      · exact (keeps_rename target properBackup).attempt fun _ _ => keeps_rename staged properTarget
      · exact keeps_rename staged properTarget

include sound in
theorem keeps_publishLocalTransaction :
    Script.Keeps Tidy (Script.OnOk Anything) (publishLocalTransaction tx) :=
  (keeps_installLocalTransactionFile _ _ sound.metadata sound.metadataBackup).attempt fun _ _ =>
    keeps_installLocalTransactionFile _ _ sound.object sound.objectBackup

theorem sound_of_prepareLocalTransaction {objectStage metadataStage : Path}
    {bodySize : Int} {bodyDigest metadata : Bytes} (accepted : Accepted key)
    (prepared : prepareLocalTransaction host disk key (segments key) objectStage metadataStage
      bodySize bodyDigest metadata = .ok tx) : SoundTransaction tx := by
  obtain ⟨hadObject, -, prepared⟩ := exists_of_bind_eq_ok prepared
  obtain ⟨hadMetadata, -, prepared⟩ := exists_of_bind_eq_ok prepared
  cases prepared
  exact sound_newLocalTransaction accepted _ _ _ _ _ _ _

theorem keeps_publishStagedLocalObject {call : PutCall} (accepted : Accepted key)
    (objectStage metadataStage : Path) (bodySize : Int) (bodyDigest metadata : Bytes) :
    Script.Keeps Tidy (Script.OnOk Anything)
      (publishStagedLocalObject host call key (segments key) objectStage metadataStage bodySize
        bodyDigest metadata) := by
  rw [publishStagedLocalObject]
  split
  · exact keeps_abandon _ _
  · refine keeps_look fun disk => ?_
    split
    · exact keeps_abandon _ _
    · rename_i tx prepared
      have sound := sound_of_prepareLocalTransaction accepted prepared
      refine (keeps_beginLocalTransaction host _ _ tx).bind fun begun _ => ?_
      cases begun with
      | error failure => exact keeps_abandon _ _
      | ok =>
        refine (keeps_publishLocalTransaction sound).bind fun published _ => ?_
        cases published with
        | error failure =>
          exact (keeps_recoverPendingLocalTransaction host _).bind fun _ _ =>
            keeps_fail failure
        | ok =>
          simp only
          split
          · exact keeps_fail _
          · exact keeps_finishLocalTransaction tx

theorem keeps_putLocalObject {call : PutCall} (accepted : Accepted key) (attrs : LocalAttributes) :
    Script.Keeps Tidy (Script.OnOk Anything)
      (putLocalObject host call key (segments key) attrs) := by
  refine keeps_check fun _ _ => keeps_look fun disk => keeps_check fun _ _ => ?_
  refine (keeps_stageLocalObject _ _).attempt fun objectStage _ => ?_
  simp only
  split
  · exact keeps_abandon _ _
  · refine (keeps_stageLocalAttributes _ _ _).bind fun staged _ => ?_
    cases staged with
    | error failure => exact keeps_abandon _ _
    | ok metadataStage =>
      refine (keeps_publishStagedLocalObject accepted _ _ _ _ _).attempt fun _ _ => ?_
      refine keeps_look fun disk => ?_
      split
      · exact keeps_give trivial
      · exact keeps_fail _

theorem keeps_put (host : Host) (call : PutCall) :
    Script.Keeps Tidy (Script.OnOk Anything) (put host call) := by
  refine keeps_check fun _ _ => keeps_check fun pair named => ?_
  obtain ⟨clean, name⟩ := pair
  have accepted : Accepted clean ∧ name = segments clean := by
    rw [localKey] at named
    split at named
    · cases named
    · rename_i other accepted
      cases named
      obtain ⟨same, -⟩ := cleanKey_eq_ok accepted
      exact ⟨same ▸ accepted, rfl⟩
  obtain ⟨accepted, rfl⟩ := accepted
  exact (keeps_lockAndRecover host _).attempt fun _ _ => keeps_putLocalObject accepted _

end Tidy

variable {host : Host}

/-- Metadata paths are shared only in one directory, by keys whose digests
collide. -/
theorem sha256_of_localMetadataPath {other : Bytes} {path otherPath : Path}
    (same : localMetadataPath host key path = localMetadataPath host other otherPath) :
    path.dropLast = otherPath.dropLast ∧ host.sha256 key = host.sha256 other := by
  have directories := congrArg dropLast same
  simp only [localMetadataPath, sibling, dropLast_concat] at directories
  refine ⟨directories, ?_⟩
  have names := congrArg getLast? same
  simp only [localMetadataPath, sibling, getLast?_append, getLast?_singleton,
    Option.some_or, Option.some.injEq] at names
  exact localMetadataName_injective names

theorem reserved_lock : ∃ name ∈ localLockName, Reserved name :=
  ⟨_, mem_singleton_self _, .inr (.inr (by decide))⟩

theorem reserved_of_internalPath {path : Path} (internal : InternalPath host path) :
    ∃ name ∈ path, Reserved name := by
  cases internal with
  | metadata key => exact ⟨_, by simp [localMetadataPath, sibling], reserved_localMetadataName host key⟩
  | backup key _ kind =>
    exact ⟨_, by simp [localBackupPath, sibling],
      reserved_of_isLocalTempName (isLocalTempName_localBackupName host key kind)⟩
  | stage text => exact ⟨_, by simp [stage], reserved_localStagingDirectoryName⟩
  | journal => exact ⟨_, mem_singleton_self _, reserved_journal⟩
  | lock => exact reserved_lock

/-- The buckets that puts leave behind, each put and each recovery having stopped
anywhere. -/
inductive PutsLeave (host : Host) : Disk → Prop where
  | empty : PutsLeave host ∅
  | put {disk final : Disk} (call : PutCall) (earlier : PutsLeave host disk)
      (stops : (put host call).Stops disk final) : PutsLeave host final
  | recover {disk final : Disk} (context : Context) (earlier : PutsLeave host disk)
      (stops : (lockAndRecover host context).Stops disk final) : PutsLeave host final

variable {disk : Disk}

theorem PutsLeave.tidy (left : PutsLeave host disk) : Tidy disk := by
  induction left with
  | empty => exact fun path found => absurd found Finmap.notMem_empty
  | put call _ stops ih => exact (keeps_put host call).stops ih stops
  | recover context _ stops ih => exact (keeps_lockAndRecover host context).stops ih stops

/-- The directory entries of a bucket: its files and the lock, below directories,
which may hold nothing. -/
structure ShownBy (disk : Disk) (entries : List (Path × Kind)) : Prop where
  nodup : (entries.map Prod.fst).Nodup
  plain : ∀ entry ∈ entries, entry.1 ≠ [] ∧ ∀ name ∈ entry.1, PlainName name
  parents : ∀ entry ∈ entries, ∀ parent, parent ≠ [] → parent <+: entry.1 → parent ≠ entry.1 →
    (parent, .directory) ∈ entries
  files : ∀ path, (∃ info, (path, .regular info) ∈ entries) ↔ path ∈ disk ∨ path = localLockName
  linkless : ∀ entry ∈ entries, entry.2 ≠ .symlink

/-- The tree of a bucket that puts leave. -/
def ShownBy.tree {host : Host} {disk : Disk} {entries : List (Path × Kind)}
    (shown : ShownBy disk entries) (left : PutsLeave host disk) : Tree where
  entries := entries
  nodup := shown.nodup
  plain := shown.plain
  parents := shown.parents
  objects path info present := by
    rcases (shown.files path).mp ⟨info, present⟩ with found | rfl
    · exact left.tidy path found
    · exact .inr (reserved_lock)
  linkless := shown.linkless

/-- A listing shows objects only, and all of them that are asked for. -/
structure HidesInternal (disk : Disk) (tree : Tree) : Prop where
  divided : ∀ path info, (path, .regular info) ∈ tree.entries →
    ((∃ name ∈ path, isLocalInternalName name) ↔ ¬∃ key, Accepted key ∧ segments key = path)
  shows : ∀ options page, list tree options = .ok page → ∀ object ∈ page,
    Accepted object.key ∧ segments object.key ∈ disk
  hides : ∀ options query empty page, normalizeListOptions options = .ok (query, empty) →
    listEnd tree options ≠ some .workLimit → list tree options = .ok page →
    page.length < query.limit → ∀ key, Accepted key → segments key ∈ disk →
    options.pathPrefix <+: key → Precedes options.startAfter key →
    key ∈ page.map ListedObject.key
  whole : ∀ options query empty, normalizeListOptions options = .ok (query, empty) →
    options.pathPrefix = [] → ListsExactly tree options query.limit

theorem stored_iff {entries : List (Path × Kind)} (shown : ShownBy disk entries)
    (left : PutsLeave host disk) :
    Stored (shown.tree left) key ↔ Accepted key ∧ segments key ∈ disk := by
  refine and_congr_right fun accepted => ?_
  refine (shown.files (segments key)).trans (or_iff_left ?_)
  intro locked
  obtain ⟨name, found, reserved⟩ := reserved_lock
  exact not_reserved_of_cleanKey accepted name (locked ▸ found) reserved

theorem ShownBy.hidesInternal {entries : List (Path × Kind)} (shown : ShownBy disk entries)
    (left : PutsLeave host disk) : HidesInternal disk (shown.tree left) := by
  refine ⟨fun path info present => ?_, fun options page listed object found => ?_, ?_,
    fun options query empty valid whole => listsExactly_of_no_prefix valid whole⟩
  · constructor
    · rintro ⟨name, found, internal⟩ ⟨key, accepted, rfl⟩
      exact not_reserved_of_cleanKey accepted name found ((isLocalInternalName_iff name).mp internal)
    · intro noObject
      rcases (shown.tree left).objects path info present with object | ⟨name, found, reserved⟩
      · exact absurd object noObject
      · exact ⟨name, found, (isLocalInternalName_iff name).mpr reserved⟩
  · cases valid : normalizeListOptions options with
    | error failure =>
      rw [list, valid] at listed
      cases listed
    | ok pair =>
      obtain ⟨query, empty⟩ := pair
      have exactly' := listsExactly_of_eq_ok valid listed
      have key : object.key ∈ page.map ListedObject.key := mem_map_of_mem found
      have taken : object.key ∈ (matching (shown.tree left) options).take query.limit := by
        by_cases exhausted : listEnd (shown.tree left) options = some .workLimit
        · rcases exactly'.exhausted exhausted with failed | ⟨other, again, -, leads⟩
          · rw [failed] at listed
            cases listed
          · obtain rfl := Except.ok.inj (listed.symm.trans again)
            exact leads.subset key
        · obtain ⟨other, again, keys⟩ := exactly'.complete exhausted
          obtain rfl := Except.ok.inj (listed.symm.trans again)
          exact keys ▸ key
      exact (stored_iff shown left).mp (mem_matching.mp (mem_of_mem_take taken)).1
  · intro options query empty page valid unlimited listed room key accepted present leads after
    obtain ⟨other, again, keys⟩ := (listsExactly_of_eq_ok valid listed).complete unlimited
    obtain rfl := Except.ok.inj (listed.symm.trans again)
    have asked : key ∈ matching (shown.tree left) options :=
      mem_matching.mpr ⟨(stored_iff shown left).mpr ⟨accepted, present⟩, leads, after⟩
    -- The page has room left, so nothing was cut off.
    have fits : (matching (shown.tree left) options).length ≤ query.limit := by
      have count := congrArg List.length keys
      rw [length_map, length_take] at count
      omega
    rwa [keys, take_of_length_le fits]

end Golusoris.Storage
