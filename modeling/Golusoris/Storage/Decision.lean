import Golusoris.Storage.Exchange

/-!
# Reading the journal and deciding

A journal is read back as it was written or not at all, and the transaction
counts as committed exactly when both targets hold the new files. An error here
means that the context ended, that the stored attributes are over their bound or
that the key is no valid text.
-/

namespace Golusoris.Storage

open Lib
open Utf8

variable {content : Bytes}

section Journal

variable {host : Host} {call : PutCall} {before : Disk}

theorem bind_ok_unit {first second : Except LocalError Unit}
    (succeeded : (do first; second) = .ok ()) : first = .ok () ∧ second = .ok () := by
  obtain ⟨⟨⟩, first, second⟩ := exists_of_bind_eq_ok succeeded
  exact ⟨first, second⟩

variable {path : Path}

theorem localKey_eq_ok {key clean : Bytes} (accepted : localKey key = .ok (clean, path)) :
    cleanKey key maxKeyBytes = .ok key ∧ clean = key ∧ path = segments key := by
  rw [localKey] at accepted
  cases cleaned : cleanKey key maxKeyBytes with
  | error cause =>
    rw [cleaned] at accepted
    cases accepted
  | ok text =>
    rw [cleaned] at accepted
    cases accepted
    obtain ⟨rfl, -⟩ := cleanKey_eq_ok cleaned
    exact ⟨rfl, rfl, rfl⟩

theorem target_of_validate {tx : LocalTransaction}
    (valid : validateLocalTransactionTarget tx = .ok ()) : tx.objectTarget = segments tx.key := by
  rw [validateLocalTransactionTarget] at valid
  split at valid
  · cases valid
  · rename_i clean path accepted
    obtain ⟨-, -, rfl⟩ := localKey_eq_ok accepted
    split_ifs at valid with differs
    exact (not_not.mp (not_or.mp differs).2).symm

/-- The transaction with its key and paths as coercion leaves them. -/
theorem coerced_transaction (objectText metadataText : RandomText)
    (key : coerce call.key = call.key)
    (path : coercePath (segments call.key) = segments call.key) :
    (call.transaction host before objectText metadataText).coerced =
      call.transaction host before objectText metadataText := by
  have object : coerce (localBackupName host call.key "object") =
      localBackupName host call.key "object" := coerce_localBackupName call.key (by decide)
  have metadata : coerce (localBackupName host call.key "metadata") =
      localBackupName host call.key "metadata" := coerce_localBackupName call.key (by decide)
  simp [LocalTransaction.coerced, PutCall.transaction, newLocalTransaction, localMetadataPath,
    localBackupPath, coercePath_sibling, key, path, object, metadata]

variable {objectText metadataText : RandomText}

/-- A journal that passes validation is the one that was written: the key of any
other is contradicted by the digest in the name of its attributes. -/
theorem coerced_eq_of_valid (reliable : Reliable host call before)
    (valid : validateLocalTransaction host
      (call.transaction host before objectText metadataText).coerced = .ok ()) :
    coerce call.key = call.key ∧
      (call.transaction host before objectText metadataText).coerced =
        call.transaction host before objectText metadataText := by
  obtain ⟨target, valid⟩ := bind_ok_unit valid
  obtain ⟨-, paths⟩ := bind_ok_unit valid
  have path : coercePath (segments call.key) = segments (coerce call.key) :=
    target_of_validate target
  rw [validateLocalTransactionPaths] at paths
  split_ifs at paths with differs
  have attributes : coercePath (localMetadataPath host call.key (segments call.key)) =
      localMetadataPath host (coerce call.key) (coercePath (segments call.key)) :=
    not_not.mp (not_or.mp differs).1
  have names : localMetadataName host call.key =
      localMetadataName host (coerce call.key) := by
    rw [localMetadataPath, coercePath_sibling, coerce_localMetadataName] at attributes
    exact sibling_inj.mp attributes
  have key := reliable.keys (localMetadataName_injective names).symm
  rw [key] at path
  exact ⟨key, coerced_transaction objectText metadataText key path⟩

theorem validate_transaction (accepted : cleanKey call.key maxKeyBytes = .ok call.key)
    (apart : tempName objectText ≠ tempName metadataText) :
    validateLocalTransaction host (call.transaction host before objectText metadataText) =
      .ok () := by
  have unreserved := not_reserved_of_cleanKey accepted
  have staged (text : RandomText) : validLocalStage (stage (tempName text)) := by
    simp [validLocalStage, stage, isLocalTempName_tempName]
  have stageBackup (text : RandomText) (kind : String) :
      stage (tempName text) ≠ localBackupPath host call.key (segments call.key) kind :=
    stage_ne_sibling unreserved
  have stages : stage (tempName objectText) ≠ stage (tempName metadataText) := by
    simpa [stage] using apart
  have target : validateLocalTransactionTarget
      (call.transaction host before objectText metadataText) = .ok () := by
    simp [validateLocalTransactionTarget, localKey, PutCall.transaction, newLocalTransaction,
      accepted]
  have fields : validateLocalTransactionFields
      (call.transaction host before objectText metadataText) = .ok () := by
    simp [validateLocalTransactionFields, PutCall.transaction, newLocalTransaction,
      validLocalDigest_digest]
  have paths : validateLocalTransactionPaths host
      (call.transaction host before objectText metadataText) = .ok () := by
    simp [validateLocalTransactionPaths, validateDistinctLocalTransactionPaths,
      PutCall.transaction, newLocalTransaction, staged, stageBackup, stages]
  rw [validateLocalTransaction, target, fields, paths]
  rfl

variable {view : View} {disk : Disk} {context : Context}

theorem readBoundedLocalFile_none {phase : Phase} (absent : disk.lookup path = none) :
    readBoundedLocalFile context phase disk path = .ok none := by
  rw [readBoundedLocalFile, absent]

/-- A file within the bound is read unless the context ends. -/
theorem readBoundedLocalFile_some {phase : Phase} (present : disk.lookup path = some content) :
    readBoundedLocalFile context phase disk path = .ok (some content) ∨
      (¬(context phase = false ∧ content.length ≤ maxLocalAttributeBytes) ∧
        ∃ failure, readBoundedLocalFile context phase disk path = .error failure) := by
  rw [readBoundedLocalFile, present]
  dsimp only
  by_cases ended : context phase
  · exact Or.inr ⟨by simp [ended], _, if_pos ended⟩
  · rw [if_neg ended]
    by_cases large : maxLocalAttributeBytes < content.length
    · exact Or.inr ⟨fun able => absurd able.2 (by omega), _, if_pos large⟩
    · exact Or.inl (if_neg large)

theorem readLocalTransaction_none (shows : Shows host call.key before view disk)
    (absent : view .journal = none) : readLocalTransaction host context disk = .ok none := by
  have missing : disk.lookup localTransactionName = none := (shows.cells .journal).trans absent
  rw [readLocalTransaction, readBoundedLocalFile_none missing]
  rfl

/-- A journal is read back as it was written, or not at all. -/
theorem readLocalTransaction_journalled (context : Context) (reliable : Reliable host call before)
    (accepted : cleanKey call.key maxKeyBytes = .ok call.key)
    (shows : Shows host call.key before view disk)
    (journalled : Journalled host call before objectText metadataText view) :
    (coerce call.key = call.key ∧ readLocalTransaction host context disk =
        .ok (some (call.transaction host before objectText metadataText))) ∨
      (¬Able host call before context ∧
        ∃ failure, readLocalTransaction host context disk = .error failure) := by
  obtain ⟨objectDrawn, metadataDrawn, apart, -, small, written⟩ := journalled
  have present : disk.lookup localTransactionName = _ := (shows.cells .journal).trans written
  rw [readLocalTransaction]
  rcases readBoundedLocalFile_some present with read | ⟨unable, failure, failed⟩
  · rw [read]
    simp only [bind, Except.bind,
      reliable.transactionJson objectText objectDrawn metadataText metadataDrawn]
    cases valid : validateLocalTransaction host
        (call.transaction host before objectText metadataText).coerced with
    | ok =>
      obtain ⟨key, same⟩ := coerced_eq_of_valid reliable valid
      exact Or.inl ⟨key, by rw [same]⟩
    | error failure =>
      refine Or.inr ⟨fun able => ?_, failure, rfl⟩
      rw [coerced_transaction objectText metadataText able.valid able.segments,
        validate_transaction accepted apart] at valid
      cases valid
  · refine Or.inr ⟨fun able => unable ⟨able.live _, small⟩, failure, ?_⟩
    rw [failed]
    rfl

end Journal

section Decision

variable {host : Host} {call : PutCall} {before : Disk} {view : View} {disk : Disk}
variable {context : Context}

theorem coerce_ne_nil {bytes : Bytes} (present : bytes ≠ []) : coerce bytes ≠ [] := by
  cases bytes with
  | nil => exact absurd rfl present
  | cons byte rest =>
    rw [coerce, List.length_cons, decodeLossy]
    cases decodeRune (byte :: rest) with
    | some _ | none => simp [encode_cons]

theorem contentType_ne_nil : (call.attributes host).contentType ≠ [] := by
  change (if call.options.contentType = [] then defaultContentType
    else call.options.contentType) ≠ []
  split_ifs with absent
  · decide
  · exact absent

/-- The new attributes decode to the size and digest of the new body. -/
theorem decodeLocalAttributes_metadata (reliable : Reliable host call before)
    (key : coerce call.key = call.key) :
    ∃ attrs, decodeLocalAttributes host (call.metadata host) call.key = .ok attrs ∧
      attrs.bodySize = call.body.length ∧ attrs.bodySHA256 = host.digest call.body := by
  obtain ⟨attrs, decoded, schema, sameKey, size, digest, typed⟩ : ∃ attrs,
      host.decodeAttributes (call.metadata host) = .ok attrs ∧
      attrs.schema = localAttributeSchema ∧ attrs.key = coerce call.key ∧
      attrs.bodySize = call.body.length ∧ attrs.bodySHA256 = coerce (host.digest call.body) ∧
      attrs.contentType = coerce (call.attributes host).contentType := by
    obtain ⟨metadata, decoded⟩ := reliable.attributesJson
    exact ⟨_, decoded, rfl, rfl, rfl, rfl, rfl⟩
  have present : attrs.contentType ≠ [] := typed ▸ coerce_ne_nil contentType_ne_nil
  rw [coerce_digest] at digest
  refine ⟨attrs, ?_, size, digest⟩
  rw [decodeLocalAttributes, if_neg reliable.attributesText, decoded]
  simp [schema, sameKey, key, present, size, digest, validLocalDigest_digest]

/-- The outcome tells whether the fact holds, and is an error only if something
stands in the way. -/
def Decides (able fact : Prop) : Except LocalError Bool → Prop
  | .ok answer => answer = true ↔ fact
  | .error _ => ¬able

/-- An old or new body has the new body's digest only if it is the new body. -/
theorem decides_localBodyMatches (context : Context) (reliable : Reliable host call before)
    (shows : Shows host call.key before view disk)
    (known : ∀ content, view .object = some content →
      oldFile host call before .object = some content ∨ content = call.body) :
    Decides (Able host call before context) (view .object = some call.body)
      (localBodyMatches host context disk (segments call.key) call.body.length
        (host.digest call.body)) := by
  have found : disk.lookup (segments call.key) = view .object := shows.cells .object
  rw [localBodyMatches, found]
  cases object : view .object with
  | none => simp [Decides]
  | some content =>
    dsimp only
    split_ifs with longer ended
    · simp only [Decides, Bool.false_eq_true, Option.some.injEq, false_iff]
      rintro rfl
      exact longer rfl
    · exact fun able => by simp [able.live] at ended
    · rw [Decides, beq_iff_eq, Option.some.injEq]
      refine ⟨fun same => ?_, fun same => congrArg host.digest same⟩
      rcases known content object with old | new
      · exact reliable.objects content old (sha256_eq_of_digest_eq same)
      · exact new

/-- What a target holds is the old file or the new one. -/
theorem Slot.target_eq_some {old : Option Bytes} {new : Bytes} {slot : Slot}
    (holds : slot.target old new = some content) : old = some content ∨ content = new := by
  cases slot with
  | fresh => exact Or.inl holds
  | moved => cases holds
  | installed | cleaned => exact Or.inr (Option.some.inj holds).symm

section Slots

variable {attributes object : Slot} (stands : Stands host call before attributes object view)

include stands

theorem Stands.knownObject (content : Bytes) (holds : view .object = some content) :
    oldFile host call before .object = some content ∨ content = call.body :=
  Slot.target_eq_some (stands.objectTarget ▸ holds)

theorem Stands.knownAttributes (content : Bytes) (holds : view .attributes = some content) :
    oldFile host call before .attributes = some content ∨ content = call.metadata host :=
  Slot.target_eq_some (stands.attributesTarget ▸ holds)

/-- The stored attributes are read, or recovery could not go on anyway. -/
theorem Stands.readAttributes (context : Context) (shows : Shows host call.key before view disk)
    (small : (call.metadata host).length ≤ maxLocalAttributeBytes) :
    readBoundedLocalFile context .attributesRead disk
        (localMetadataPath host call.key (segments call.key)) = .ok (view .attributes) ∨
      (¬Able host call before context ∧ ∃ failure,
        readBoundedLocalFile context .attributesRead disk
          (localMetadataPath host call.key (segments call.key)) = .error failure) := by
  have found : disk.lookup (localMetadataPath host call.key (segments call.key)) =
      view .attributes := shows.cells .attributes
  cases attributes : view .attributes with
  | none => exact Or.inl (readBoundedLocalFile_none (found.trans attributes))
  | some content =>
    rcases readBoundedLocalFile_some (found.trans attributes) with read | ⟨unable, failed⟩
    · exact Or.inl read
    · refine Or.inr ⟨fun able => unable ⟨able.live _, ?_⟩, failed⟩
      rcases stands.knownAttributes content attributes with old | new
      · exact able.bounded content old
      · exact new ▸ small

/-- The attributes have the new digest exactly when they are the new ones. -/
theorem Stands.digest_attributes (reliable : Reliable host call before)
    (holds : view .attributes = some content) :
    host.digest content = host.digest (call.metadata host) ↔ content = call.metadata host := by
  refine ⟨fun same => ?_, fun same => congrArg host.digest same⟩
  rcases stands.knownAttributes content holds with old | new
  · exact reliable.attributes content old (sha256_eq_of_digest_eq same)
  · exact new

/-- The transaction counts as committed exactly when both files are the new ones. -/
theorem Stands.decides_committed (context : Context) (reliable : Reliable host call before)
    (shows : Shows host call.key before view disk)
    (small : (call.metadata host).length ≤ maxLocalAttributeBytes)
    (key : coerce call.key = call.key) (objectText metadataText : RandomText) :
    Decides (Able host call before context)
      (view .attributes = some (call.metadata host) ∧ view .object = some call.body)
      (localTransactionCommitted host context
        (call.transaction host before objectText metadataText) disk) := by
  simp only [localTransactionCommitted, PutCall.transaction, newLocalTransaction]
  rcases stands.readAttributes context shows small with read | ⟨unable, failure, failed⟩
  · rw [read]
    cases holds : view .attributes with
    | none => simp [Decides, bind, Except.bind]
    | some content =>
      simp only [bind, Except.bind]
      by_cases same : content = call.metadata host
      · subst same
        obtain ⟨attrs, decoded, size, digest⟩ := decodeLocalAttributes_metadata reliable key
        simp only [ne_eq, not_true_eq_false, if_false, decoded, size, digest, or_self, true_and]
        exact decides_localBodyMatches context reliable shows stands.knownObject
      · have differs := mt (stands.digest_attributes reliable holds).mp same
        simp [Decides, same, differs]
  · rw [failed]
    exact unable

end Slots

end Decision

end Golusoris.Storage
