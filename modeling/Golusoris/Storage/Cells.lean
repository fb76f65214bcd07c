import Golusoris.Storage.Local

/-!
# The files of one key

The paths a put of one key may touch are the cells of that key: two targets, two
backups, the journal and the staging files. The paths of different cells differ
for every accepted key, so the bucket is a `Cell`-indexed view and a remainder
that no step of the put changes.
-/

namespace Golusoris.Storage

open List
open Lib

inductive Cell where
  | object
  | attributes
  | objectBackup
  | attributesBackup
  | journal
  | stage (name : Bytes)
  deriving DecidableEq

def Cell.path (host : Host) (key : Bytes) : Cell → Path
  | .object => segments key
  | .attributes => localMetadataPath host key (segments key)
  | .objectBackup => localBackupPath host key (segments key) "object"
  | .attributesBackup => localBackupPath host key (segments key) "metadata"
  | .journal => localTransactionName
  | .stage name => Storage.stage name

theorem length_hexEncode (bytes : Bytes) : (hexEncode bytes).length = 2 * bytes.length := by
  induction bytes with
  | nil => rfl
  | cons byte bytes ih =>
    simp only [hexEncode, flatMap_cons, length_append, length_cons, length_nil] at ih ⊢
    omega

variable (host : Host)

theorem length_digest (content : Bytes) : (host.digest content).length = 64 := by
  simp [Host.digest, length_hexEncode]

theorem isHexDigit_hexDigit : ∀ value < 16, isHexDigit (hexDigit value) := by decide

theorem mem_hexEncode {bytes : Bytes} {digit : UInt8} (found : digit ∈ hexEncode bytes) :
    ∃ value < 16, digit = hexDigit value := by
  obtain ⟨byte, _, found⟩ := mem_flatMap.mp found
  have bound := byte.toNat_lt
  rcases mem_pair.mp found with rfl | rfl
  · exact ⟨_, by omega, rfl⟩
  · exact ⟨_, by omega, rfl⟩

theorem validLocalDigest_digest (content : Bytes) : validLocalDigest (host.digest content) := by
  have digits : (host.digest content).all isHexDigit := by
    refine all_eq_true.mpr fun digit found => ?_
    obtain ⟨value, small, rfl⟩ := mem_hexEncode found
    exact isHexDigit_hexDigit value small
  simp [validLocalDigest, length_digest, digits]

theorem starts_append (start : String) (rest : Bytes) : starts (textBytes start ++ rest) start := by
  rw [starts, isPrefixOf_iff_prefix]
  exact prefix_append _ rest

theorem ends_append (front : Bytes) (ending : String) : ends (front ++ textBytes ending) ending := by
  rw [ends, isSuffixOf_iff_suffix]
  exact suffix_append front _

variable (key : Bytes)

theorem reserved_localMetadataName : Reserved (localMetadataName host key) := by
  have long : (localMetadataName host key).length = 16 + 64 + 5 := by
    simp only [localMetadataName, length_append, length_digest]
    rfl
  refine Or.inr (Or.inl ?_)
  rw [isReservedMetadataName, long, localMetadataName, ends_append, append_assoc, starts_append]
  rfl

theorem isLocalTempName_localBackupName (kind : String) :
    isLocalTempName (localBackupName host key kind) := by
  have start : textBytes ".golusoris-put-backup-" =
      textBytes ".golusoris-put-" ++ textBytes "backup-" := by decide
  rw [isLocalTempName, localBackupName, ends_append, start]
  simp only [append_assoc, starts_append, Bool.and_self]

theorem isLocalTempName_tempName (text : RandomText) : isLocalTempName (tempName text) := by
  rw [isLocalTempName, tempName, ends_append, append_assoc, starts_append]
  rfl

variable {name other : Bytes}

theorem reserved_of_isLocalTempName (temporary : isLocalTempName name) : Reserved name :=
  Or.inl temporary

theorem reserved_localStagingDirectoryName : Reserved localStagingDirectoryName :=
  Or.inr (Or.inr (by decide))

theorem reserved_journal : Reserved (textBytes ".golusoris-transaction.json") :=
  Or.inr (Or.inr (by decide))

/-- Names that differ within their fixed beginnings differ. -/
theorem append_ne_of_take_ne {first second : Bytes} (count : Nat) (left right : Bytes)
    (within : count ≤ first.length ∧ count ≤ second.length)
    (differ : first.take count ≠ second.take count) : first ++ left ≠ second ++ right := by
  intro same
  have taken := congrArg (List.take count) same
  rw [take_append_of_le_length within.1, take_append_of_le_length within.2] at taken
  exact differ taken

theorem localMetadataName_ne_localBackupName (key other : Bytes) (kind : String) :
    localMetadataName host key ≠ localBackupName host other kind := by
  rw [localMetadataName, localBackupName]
  simp only [append_assoc]
  exact append_ne_of_take_ne 12 _ _ (by decide) (by decide)

theorem localBackupName_ne (key other : Bytes) :
    localBackupName host key "object" ≠ localBackupName host other "metadata" := by
  rw [localBackupName, localBackupName]
  simp only [append_assoc]
  intro same
  exact append_ne_of_take_ne 1 _ _ (by decide) (by decide) (append_cancel_left same)

theorem journal_ne_localMetadataName :
    textBytes ".golusoris-transaction.json" ≠ localMetadataName host key := by
  rw [localMetadataName, append_assoc, ← append_nil (textBytes ".golusoris-transaction.json")]
  exact append_ne_of_take_ne 12 _ _ (by decide) (by decide)

theorem journal_ne_localBackupName (kind : String) :
    textBytes ".golusoris-transaction.json" ≠ localBackupName host key kind := by
  rw [localBackupName, ← append_nil (textBytes ".golusoris-transaction.json")]
  simp only [append_assoc]
  exact append_ne_of_take_ne 12 _ _ (by decide) (by decide)

section Paths

variable {host : Host} {key : Bytes}

theorem sibling_inj {path : Path} : sibling path name = sibling path other ↔ name = other := by
  simp [sibling]

/-- A reserved name beside the object is no object path. -/
theorem object_ne_sibling (path : Path) (unreserved : ∀ segment ∈ segments key, ¬Reserved segment)
    (reserved : Reserved name) : segments key ≠ sibling path name := by
  intro same
  exact unreserved name (same ▸ by simp [sibling]) reserved

theorem journal_eq_sibling {path : Path} (same : localTransactionName = sibling path name) :
    textBytes ".golusoris-transaction.json" = name := by
  have last := congrArg getLast? same
  simpa [localTransactionName, sibling] using last

variable (unreserved : ∀ segment ∈ segments key, ¬Reserved segment)

include unreserved in
theorem stage_ne_sibling : stage other ≠ sibling (segments key) name := by
  intro same
  have front : [localStagingDirectoryName] = (segments key).dropLast := by
    simpa [stage, sibling] using congrArg dropLast same
  have found : localStagingDirectoryName ∈ segments key :=
    dropLast_subset _ (front ▸ mem_singleton_self _)
  exact unreserved _ found reserved_localStagingDirectoryName

include unreserved in
theorem stage_ne_object (name : Bytes) : stage name ≠ segments key := by
  intro same
  exact unreserved localStagingDirectoryName (same ▸ by simp [stage]) reserved_localStagingDirectoryName

include unreserved in
theorem journal_ne_object : localTransactionName ≠ segments key := by
  intro same
  exact unreserved _ (same ▸ mem_singleton_self _) reserved_journal

include unreserved in
theorem Cell.path_injective : Function.Injective (Cell.path host key) := by
  have attributes := object_ne_sibling (segments key) unreserved
    (reserved_localMetadataName host key)
  have backups (kind : String) := object_ne_sibling (segments key) unreserved
    (reserved_of_isLocalTempName (isLocalTempName_localBackupName host key kind))
  have beside (kind : String) : Cell.path host key .attributes ≠
      localBackupPath host key (segments key) kind := fun same =>
    localMetadataName_ne_localBackupName host key key kind (sibling_inj.mp same)
  have apart : Cell.path host key .objectBackup ≠ Cell.path host key .attributesBackup :=
    fun same => localBackupName_ne host key key (sibling_inj.mp same)
  have journalAttributes : localTransactionName ≠ Cell.path host key .attributes :=
    fun same => journal_ne_localMetadataName host key (journal_eq_sibling same)
  have journalBackup (kind : String) : localTransactionName ≠
      localBackupPath host key (segments key) kind :=
    fun same => journal_ne_localBackupName host key kind (journal_eq_sibling same)
  have staged (name : Bytes) : Storage.stage name ≠ localTransactionName := by
    simp [Storage.stage, localTransactionName]
  intro left right same
  cases left <;> cases right
  case object.object | attributes.attributes | objectBackup.objectBackup
    | attributesBackup.attributesBackup | journal.journal => rfl
  case stage.stage => simpa [Cell.path, Storage.stage] using same
  case object.attributes => exact absurd same attributes
  case attributes.object => exact absurd same.symm attributes
  case object.objectBackup | object.attributesBackup => exact absurd same (backups _)
  case objectBackup.object | attributesBackup.object => exact absurd same.symm (backups _)
  case object.journal => exact absurd same.symm (journal_ne_object unreserved)
  case journal.object => exact absurd same (journal_ne_object unreserved)
  case object.stage => exact absurd same.symm (stage_ne_object unreserved _)
  case stage.object => exact absurd same (stage_ne_object unreserved _)
  case attributes.objectBackup | attributes.attributesBackup => exact absurd same (beside _)
  case objectBackup.attributes | attributesBackup.attributes => exact absurd same.symm (beside _)
  case objectBackup.attributesBackup => exact absurd same apart
  case attributesBackup.objectBackup => exact absurd same.symm apart
  case attributes.journal => exact absurd same.symm journalAttributes
  case journal.attributes => exact absurd same journalAttributes
  case objectBackup.journal | attributesBackup.journal => exact absurd same.symm (journalBackup _)
  case journal.objectBackup | journal.attributesBackup => exact absurd same (journalBackup _)
  case attributes.stage | objectBackup.stage | attributesBackup.stage =>
    exact absurd same.symm (stage_ne_sibling unreserved)
  case stage.attributes | stage.objectBackup | stage.attributesBackup =>
    exact absurd same (stage_ne_sibling unreserved)
  case journal.stage => exact absurd same.symm (staged _)
  case stage.journal => exact absurd same (staged _)

/-- The contents of the cells of a key. -/
abbrev View := Cell → Option Bytes

/-- The cells of the key have these contents and every other file is as it was
before. -/
structure Shows (host : Host) (key : Bytes) (before : Disk) (view : View) (disk : Disk) : Prop where
  cells : ∀ cell, disk.lookup (cell.path host key) = view cell
  others : ∀ path, (∀ cell : Cell, path ≠ cell.path host key) →
    disk.lookup path = before.lookup path

variable {before disk : Disk} {view : View}

variable (shows : Shows host key before view disk)

include shows in
theorem Shows.mem_iff (cell : Cell) : cell.path host key ∈ disk ↔ view cell ≠ none := by
  rw [← shows.cells, ne_eq, Finmap.lookup_eq_none, not_not]

include shows in
theorem Shows.insert (unreserved : ∀ segment ∈ segments key, ¬Reserved segment) (cell : Cell)
    (content : Bytes) :
    Shows host key before (Function.update view cell (some content))
      (disk.insert (cell.path host key) content) := by
  refine ⟨fun other => ?_, fun path foreign => ?_⟩
  · by_cases same : other = cell
    · subst same
      rw [Finmap.lookup_insert, Function.update_self]
    · rw [Finmap.lookup_insert_of_ne _ fun paths => same (Cell.path_injective unreserved paths),
        Function.update_of_ne same, shows.cells]
  · rw [Finmap.lookup_insert_of_ne _ (foreign cell), shows.others path foreign]

include shows in
theorem Shows.erase (unreserved : ∀ segment ∈ segments key, ¬Reserved segment) (cell : Cell) :
    Shows host key before (Function.update view cell none) (disk.erase (cell.path host key)) := by
  refine ⟨fun other => ?_, fun path foreign => ?_⟩
  · by_cases same : other = cell
    · subst same
      rw [Finmap.lookup_erase, Function.update_self]
    · rw [Finmap.lookup_erase_ne fun paths => same (Cell.path_injective unreserved paths),
        Function.update_of_ne same, shows.cells]
  · rw [Finmap.lookup_erase_ne (foreign cell), shows.others path foreign]

/-- Every bucket shows its own contents. -/
theorem shows_self (disk : Disk) :
    Shows host key disk (fun cell => disk.lookup (cell.path host key)) disk :=
  ⟨fun _ => rfl, fun _ _ => rfl⟩

end Paths

theorem hexDigit_inj : ∀ left < 16, ∀ right < 16, hexDigit left = hexDigit right → left = right := by
  decide

theorem hexEncode_injective : Function.Injective hexEncode := by
  intro left
  induction left with
  | nil =>
    intro right same
    cases right with
    | nil => rfl
    | cons byte right => cases same
  | cons byte left ih =>
    intro right same
    cases right with
    | nil => cases same
    | cons other right =>
      simp only [hexEncode, flatMap_cons, cons_append, nil_append, List.cons.injEq] at same
      obtain ⟨high, low, same⟩ := same
      have bound := byte.toNat_lt
      have otherBound := other.toNat_lt
      have highs := hexDigit_inj _ (by omega) _ (by omega) high
      have lows := hexDigit_inj _ (by omega) _ (by omega) low
      have bytes : byte = other := UInt8.toNat_inj.mp (by omega)
      rw [bytes, ih same]

theorem sha256_eq_of_digest_eq {host : Host} {left right : Bytes}
    (same : host.digest left = host.digest right) : host.sha256 left = host.sha256 right :=
  Vector.toList_inj.mp (hexEncode_injective same)

theorem localMetadataName_injective {host : Host} {key : Bytes}
    (same : localMetadataName host key = localMetadataName host other) :
    host.sha256 key = host.sha256 other := by
  rw [localMetadataName, localMetadataName] at same
  exact sha256_eq_of_digest_eq (append_cancel_left (append_cancel_right same))

end Golusoris.Storage
