import Golusoris.Storage.Decision

/-!
# Recovery keeps the invariant and ends it

Every step of `lockAndRecover` keeps `Recoverable`, and a run that completes
leaves the old pair or the new one.
-/

namespace Golusoris.Storage

open List
open Function (update update_of_ne update_self)
open Lib
open Script (Safe)

section Steps

variable {host : Host} {call : PutCall} {before : Disk} {view : View} {disk : Disk}
variable {attributes object : Slot} {content : Option Bytes}

/-- The slot once the backup is gone. -/
def Slot.dropped : Slot → Slot
  | .fresh => .fresh
  | .moved => .moved
  | .installed => .cleaned
  | .cleaned => .cleaned

theorem Slot.target_dropped (old : Option Bytes) (new : Bytes) (slot : Slot) :
    slot.dropped.target old new = slot.target old new := by
  cases slot <;> rfl

theorem Slot.backup_dropped (old : Option Bytes) {slot : Slot} (kept : slot ≠ .moved) :
    slot.dropped.backup old = none := by
  cases slot with
  | moved => exact absurd rfl kept
  | fresh | installed | cleaned => rfl

/-- The four files of the pair. -/
def Cell.paired : Cell → Bool
  | .object | .attributes | .objectBackup | .attributesBackup => true
  | .journal | .stage _ => false

variable (stands : Stands host call before attributes object view)

include stands in
theorem Stands.update {cell : Cell} (unpaired : cell.paired = false) :
    Stands host call before attributes object (Function.update view cell content) := by
  have other : ∀ {pair : Cell}, pair.paired = true → pair ≠ cell := by
    rintro pair paired rfl
    exact absurd (unpaired.symm.trans paired) Bool.false_ne_true
  exact ⟨by rw [update_of_ne (other rfl), stands.attributesTarget],
    by rw [update_of_ne (other rfl), stands.attributesBackup],
    by rw [update_of_ne (other rfl), stands.objectTarget],
    by rw [update_of_ne (other rfl), stands.objectBackup]⟩

include stands in
theorem Stands.dropObject (kept : object ≠ .moved) :
    Stands host call before attributes object.dropped (Function.update view .objectBackup none) :=
  ⟨stands.attributesTarget, stands.attributesBackup,
    (Slot.target_dropped _ _ object).symm ▸ stands.objectTarget,
    (Slot.backup_dropped _ kept).symm⟩

include stands in
theorem Stands.dropAttributes (kept : attributes ≠ .moved) :
    Stands host call before attributes.dropped object
      (Function.update view .attributesBackup none) :=
  ⟨(Slot.target_dropped _ _ attributes).symm ▸ stands.attributesTarget,
    (Slot.backup_dropped _ kept).symm, stands.objectTarget, stands.objectBackup⟩

theorem Staged.erase {limit : Nat} (staged : Staged limit view) (cell : Cell) :
    Staged limit (Function.update view cell none) := by
  obtain ⟨names, few, temporary, all⟩ := staged
  refine ⟨names, few, temporary, fun name present => all name ?_⟩
  by_cases same : .stage name = cell
  · subst same
    exact absurd (update_self _ _ _) present
  · rwa [update_of_ne same] at present

theorem Staged.update {limit : Nat} (staged : Staged limit view) {cell : Cell}
    (unstaged : ∀ name, cell ≠ .stage name) : Staged limit (Function.update view cell content) := by
  obtain ⟨names, few, temporary, all⟩ := staged
  refine ⟨names, few, temporary, fun name present => all name ?_⟩
  rwa [update_of_ne (unstaged name).symm] at present

theorem Journalled.update {objectText metadataText : RandomText}
    (journalled : Journalled host call before objectText metadataText view) {cell : Cell}
    (other : cell ≠ .journal) :
    Journalled host call before objectText metadataText (Function.update view cell content) := by
  obtain ⟨objectDrawn, metadataDrawn, apart, bounded, small, written⟩ := journalled
  exact ⟨objectDrawn, metadataDrawn, apart, bounded, small,
    by rw [update_of_ne other.symm, written]⟩

theorem Journalled.bounded {objectText metadataText : RandomText}
    (journalled : Journalled host call before objectText metadataText view) :
    (call.metadata host).length ≤ maxLocalAttributeBytes :=
  journalled.2.2.2.1

/-- The state in the middle of a transaction. -/
structure Midway (host : Host) (call : PutCall) (before : Disk)
    (objectText metadataText : RandomText) (attributes object : Slot) (view : View) (disk : Disk) :
    Prop where
  shows : Shows host call.key before view disk
  staged : Staged 3 view
  journalled : Journalled host call before objectText metadataText view
  stands : Stands host call before attributes object view

variable {objectText metadataText : RandomText}

theorem Midway.recoverable
    (midway : Midway host call before objectText metadataText attributes object view disk)
    (moving : Moving attributes object) : Recoverable host call before disk :=
  ⟨view, midway.shows, midway.staged, attributes, object, midway.stands,
    Or.inr ⟨⟨objectText, metadataText, midway.journalled⟩, moving⟩⟩

/-- The state once the journal is gone. -/
structure Settled (host : Host) (call : PutCall) (before : Disk) (slot : Slot) (view : View)
    (disk : Disk) : Prop where
  shows : Shows host call.key before view disk
  staged : Staged 3 view
  quiet : view .journal = none
  stands : Stands host call before slot slot view

theorem Settled.recoverable {slot : Slot} (settled : Settled host call before slot view disk)
    (resting : slot = .fresh ∨ slot = .cleaned) : Recoverable host call before disk :=
  ⟨view, settled.shows, settled.staged, slot, slot, settled.stands,
    Or.inl ⟨settled.quiet, rfl, resting⟩⟩

/-- How a program that changes nothing but the bucket ends. -/
def Ends (able : Prop) (good : Disk → Prop) : Except LocalError Unit → Disk → Prop
  | .ok (), disk => good disk
  | .error _, _ => ¬able

theorem Ends.mono {able : Prop} {crash good better : Disk → Prop} {program : Program Unit}
    (safe : Safe crash program (Ends able good) disk)
    (implied : ∀ disk, good disk → better disk) :
    Safe crash program (Ends able better) disk := by
  refine Script.Safe.mono safe (fun _ holds => holds) ?_
  intro result disk ends
  cases result with
  | error failure => exact ends
  | ok value => exact implied disk ends

theorem Ends.attempt {able : Prop} {crash middle good : Disk → Prop} {first : Program Unit}
    {next : Unit → Program Unit}
    (safe : Safe crash first (Ends able middle) disk)
    (rest : ∀ disk, middle disk → Safe crash (next ()) (Ends able good) disk) :
    Safe crash (first.attempt next) (Ends able good) disk := by
  refine Script.Safe.attempt (safe.mono (fun _ holds => holds) ?_)
  intro result disk ends
  cases result with
  | error failure => exact ends
  | ok value => exact rest disk ends

end Steps

section Transaction

variable {host : Host} {call : PutCall} {before : Disk} {view : View} {disk : Disk}
variable {attributes object : Slot} {objectText metadataText : RandomText} {context : Context}

/-- The slots from which a transaction is finished. -/
def Final (attributes object : Slot) : Prop :=
  (attributes = .fresh ∧ object = .fresh) ∨
    ((attributes = .installed ∨ attributes = .cleaned) ∧
      (object = .installed ∨ object = .cleaned))

variable (final : Final attributes object)

include final in
theorem Final.moving : Moving attributes object := by
  rcases final with ⟨rfl, rfl⟩ | ⟨first, second⟩
  · exact .preparing (by decide)
  · exact .finishing first second

include final in
theorem Final.kept : attributes ≠ .moved ∧ object ≠ .moved := by
  rcases final with ⟨rfl, rfl⟩ | ⟨rfl | rfl, rfl | rfl⟩ <;> decide

include final in
theorem Final.dropObject : Final attributes object.dropped := by
  rcases final with ⟨rfl, rfl⟩ | ⟨first, rfl | rfl⟩
  · exact Or.inl ⟨rfl, rfl⟩
  · exact Or.inr ⟨first, Or.inr rfl⟩
  · exact Or.inr ⟨first, Or.inr rfl⟩

include final in
theorem Final.dropAttributes : Final attributes.dropped object := by
  rcases final with ⟨rfl, rfl⟩ | ⟨rfl | rfl, second⟩
  · exact Or.inl ⟨rfl, rfl⟩
  · exact Or.inr ⟨Or.inr rfl, second⟩
  · exact Or.inr ⟨Or.inr rfl, second⟩

include final in
theorem Final.resting :
    attributes.dropped = object.dropped ∧
      (object.dropped = .fresh ∨ object.dropped = .cleaned) := by
  rcases final with ⟨rfl, rfl⟩ | ⟨rfl | rfl, rfl | rfl⟩ <;> simp [Slot.dropped]

variable (unreserved : ∀ segment ∈ segments call.key, ¬Reserved segment)

include unreserved

variable (midway : Midway host call before objectText metadataText attributes object view disk)
variable {first second : Slot}

include midway in
/-- A file other than the journal is removed. -/
theorem Midway.erase (cell : Cell) (other : cell ≠ .journal)
    (stands : Stands host call before first second (update view cell none)) :
    Midway host call before objectText metadataText first second
      (update view cell none) (disk.erase (cell.path host call.key)) where
  shows := midway.shows.erase unreserved cell
  staged := midway.staged.erase _
  journalled := midway.journalled.update other
  stands := stands

include midway in
/-- A file other than the journal becomes one of the pair. -/
theorem Midway.move (source target : Cell) {content : Bytes} (other : source ≠ .journal)
    (paired : target.paired = true)
    (stands : Stands host call before first second
      (update (update view source none) target (some content))) :
    Midway host call before objectText metadataText first second
      (update (update view source none) target (some content))
      ((disk.erase (source.path host call.key)).insert (target.path host call.key) content) where
  shows := (midway.shows.erase unreserved source).insert unreserved target content
  staged := (midway.staged.erase _).update (by rintro name rfl; cases paired)
  journalled := (midway.journalled.update other).update (by rintro rfl; cases paired)
  stands := stands

include midway in
theorem Midway.eraseStage (name : Bytes) :
    Midway host call before objectText metadataText attributes object
      (update view (.stage name) none) (disk.erase (stage name)) :=
  midway.erase unreserved (.stage name) nofun (midway.stands.update rfl)

include midway in
/-- Finishing removes stages, backups and, last, the journal. -/
theorem safe_finishLocalTransaction (able : Prop) (final : Final attributes object) :
    Safe (Recoverable host call before)
      (finishLocalTransaction (call.transaction host before objectText metadataText))
      (Ends able fun disk => ∃ view, Settled host call before object.dropped view disk) disk := by
  have noObject := midway.eraseStage unreserved (tempName objectText)
  have noStages := noObject.eraseStage unreserved (tempName metadataText)
  have noObjectBackup := noStages.erase unreserved .objectBackup nofun
    (noStages.stands.dropObject final.kept.2)
  have noBackups := noObjectBackup.erase unreserved .attributesBackup nofun
    (noObjectBackup.stands.dropAttributes final.kept.1)
  obtain ⟨same, resting⟩ := final.resting
  have stands := noBackups.stands
  rw [same] at stands
  have settled : Settled host call before object.dropped _ _ :=
    { shows := noBackups.shows.erase unreserved .journal
      staged := noBackups.staged.erase _
      quiet := update_self _ _ _
      stands := stands.update rfl }
  exact ⟨midway.recoverable final.moving, noObject.recoverable final.moving,
    noStages.recoverable final.moving, noObjectBackup.recoverable final.dropObject.moving,
    noBackups.recoverable final.dropObject.dropAttributes.moving, settled.recoverable resting,
    _, settled⟩

omit unreserved in
theorem safe_rename {crash : Disk → Prop} {post : Except LocalError Unit → Disk → Prop}
    {source target : Path} {content : Bytes} (found : disk.lookup source = some content)
    (now : crash disk) (renamed : crash ((disk.erase source).insert target content))
    (after : post (.ok ()) ((disk.erase source).insert target content)) :
    Safe crash (rename source target) post disk := by
  rw [rename, Safe, found]
  exact ⟨now, renamed, after⟩

omit unreserved in
theorem safe_restoreLocalBackup {crash : Disk → Prop}
    {post : Except LocalError Unit → Disk → Prop} {target backup : Path} {content : Bytes}
    (found : (disk.erase target).lookup backup = some content) (now : crash disk)
    (removed : crash (disk.erase target))
    (restored : crash (((disk.erase target).erase backup).insert target content))
    (after : post (.ok ()) (((disk.erase target).erase backup).insert target content)) :
    Safe crash (restoreLocalBackup target backup) post disk :=
  ⟨now, safe_rename found removed restored after⟩

/-- Restoring the old object from its backup. -/
theorem safe_restoreObject {able : Prop}
    (midway : Midway host call before objectText metadataText .installed .moved view disk)
    {content : Bytes} (old : oldFile host call before .object = some content) :
    Safe (Recoverable host call before)
      (restoreLocalBackup (Cell.object.path host call.key) (Cell.objectBackup.path host call.key))
      (Ends able fun disk => ∃ view,
        Midway host call before objectText metadataText .installed .fresh view disk) disk := by
  have stands := midway.stands
  have removed : Midway host call before objectText metadataText .installed .moved _ _ :=
    midway.erase unreserved .object nofun
      ⟨stands.attributesTarget, stands.attributesBackup, rfl, stands.objectBackup⟩
  have restored : Midway host call before objectText metadataText .installed .fresh _ _ :=
    removed.move unreserved .objectBackup .object nofun rfl
      ⟨stands.attributesTarget, stands.attributesBackup, old.symm, rfl⟩
  exact safe_restoreLocalBackup
    ((removed.shows.cells .objectBackup).trans (removed.stands.objectBackup.trans old))
    (midway.recoverable .swapping) (removed.recoverable .swapping)
    (restored.recoverable (.preparing (by decide))) ⟨_, restored⟩

/-- Restoring the old attributes from their backup. -/
theorem safe_restoreAttributes {able : Prop}
    (midway : Midway host call before objectText metadataText attributes .fresh view disk)
    (unfinished : attributes ≠ .cleaned) {content : Bytes}
    (old : oldFile host call before .attributes = some content)
    (saved : view .attributesBackup = some content) :
    Safe (Recoverable host call before)
      (restoreLocalBackup (Cell.attributes.path host call.key)
        (Cell.attributesBackup.path host call.key))
      (Ends able fun disk => ∃ view,
        Midway host call before objectText metadataText .fresh .fresh view disk) disk := by
  have stands := midway.stands
  have removed : Midway host call before objectText metadataText .moved .fresh _ _ :=
    midway.erase unreserved .attributes nofun
      ⟨rfl, saved.trans old.symm, stands.objectTarget, stands.objectBackup⟩
  have restored : Midway host call before objectText metadataText .fresh .fresh _ _ :=
    removed.move unreserved .attributesBackup .attributes nofun rfl
      ⟨old.symm, rfl, stands.objectTarget, stands.objectBackup⟩
  exact safe_restoreLocalBackup
    ((removed.shows.cells .attributesBackup).trans (removed.stands.attributesBackup.trans old))
    (midway.recoverable (.preparing unfinished)) (removed.recoverable (.preparing (by decide)))
    (restored.recoverable (.preparing (by decide))) ⟨_, restored⟩

omit unreserved in
include midway in
/-- Without a backup a body that is not installed yet is the old one. -/
theorem Midway.freshObject (unplaced : object = .fresh ∨ object = .moved)
    (unsaved : view .objectBackup = none) :
    Midway host call before objectText metadataText attributes .fresh view disk := by
  rcases unplaced with rfl | rfl
  · exact midway
  · have absent : oldFile host call before .object = none :=
      midway.stands.objectBackup.symm.trans unsaved
    exact { midway with
      stands := ⟨midway.stands.attributesTarget, midway.stands.attributesBackup,
        midway.stands.objectTarget.trans absent.symm, unsaved⟩ }

/-- The slots from which a transaction is rolled back. -/
def Open (attributes object : Slot) : Prop :=
  (attributes ≠ .cleaned ∧ object = .fresh) ∨ (attributes = .installed ∧ object = .moved)

omit unreserved in
theorem Open.moving (unfinished : Open attributes object) : Moving attributes object := by
  rcases unfinished with ⟨first, rfl⟩ | ⟨rfl, rfl⟩
  · exact .preparing first
  · exact .swapping

include midway in
theorem safe_rollbackLocalBody (reliable : Reliable host call before)
    (unfinished : Open attributes object) :
    Safe (Recoverable host call before)
      (rollbackLocalBody host context (call.transaction host before objectText metadataText))
      (Ends (Able host call before context) fun disk => ∃ view,
        Midway host call before objectText metadataText attributes .fresh view disk) disk := by
  have backup : (call.transaction host before objectText metadataText).objectBackup ∈ disk ↔
      view .objectBackup ≠ none := midway.shows.mem_iff .objectBackup
  rw [rollbackLocalBody, Safe]
  by_cases saved : view .objectBackup = none
  · rw [if_neg (mt backup.mp (not_not.mpr saved))]
    have fresh := midway.freshObject (unfinished.imp And.right And.right) saved
    have decides := decides_localBodyMatches context reliable midway.shows fresh.stands.knownObject
    refine Script.Safe.check (midway.recoverable unfinished.moving) (fun failure failed => ?_)
      fun matched decided => ?_
    · exact (congrArg (Decides _ _) failed).mp decides
    · have decides := (congrArg (Decides _ _) decided).mp decides
      have keep : ¬(matched && !(call.transaction host before objectText metadataText).hadObject)
          = true := by
        intro removes
        obtain ⟨matched, absent⟩ := Bool.and_eq_true_iff.mp removes
        have present : oldFile host call before .object = some call.body :=
          fresh.stands.objectTarget.symm.trans (decides.mp matched)
        change (!(oldFile host call before .object).isSome) = true at absent
        rw [present] at absent
        cases absent
      rw [if_neg keep]
      exact ⟨midway.recoverable unfinished.moving, view, fresh⟩
  · rw [if_pos (backup.mpr saved)]
    obtain ⟨-, rfl⟩ | ⟨rfl, rfl⟩ := unfinished
    · exact absurd midway.stands.objectBackup saved
    · obtain ⟨content, old⟩ : ∃ content, oldFile host call before .object = some content :=
        Option.ne_none_iff_exists'.mp fun absent =>
          saved (midway.stands.objectBackup.trans absent)
      exact safe_restoreObject unreserved midway old

omit unreserved in
/-- Without a backup the attributes are the old ones, or new where there were none. -/
theorem Midway.unsavedAttributes
    (midway : Midway host call before objectText metadataText attributes .fresh view disk)
    (unfinished : attributes ≠ .cleaned) (unsaved : view .attributesBackup = none) :
    Midway host call before objectText metadataText .fresh .fresh view disk ∨
      (oldFile host call before .attributes = none ∧
        view .attributes = some (call.metadata host)) := by
  have absent (moved : attributes.backup (oldFile host call before .attributes) =
      oldFile host call before .attributes) : oldFile host call before .attributes = none :=
    moved.symm.trans (midway.stands.attributesBackup.symm.trans unsaved)
  cases attributes with
  | fresh => exact Or.inl midway
  | moved =>
    exact Or.inl { midway with
      stands := ⟨midway.stands.attributesTarget.trans (absent rfl).symm, unsaved,
        midway.stands.objectTarget, midway.stands.objectBackup⟩ }
  | installed => exact Or.inr ⟨absent rfl, midway.stands.attributesTarget⟩
  | cleaned => exact absurd rfl unfinished

theorem safe_rollbackLocalMetadata (reliable : Reliable host call before)
    (midway : Midway host call before objectText metadataText attributes .fresh view disk)
    (unfinished : attributes ≠ .cleaned) :
    Safe (Recoverable host call before)
      (rollbackLocalMetadata host context (call.transaction host before objectText metadataText))
      (Ends (Able host call before context) fun disk => ∃ view,
        Midway host call before objectText metadataText .fresh .fresh view disk) disk := by
  have recoverable := midway.recoverable (.preparing unfinished)
  have small := midway.journalled.bounded
  have backup : (call.transaction host before objectText metadataText).metadataBackup ∈ disk ↔
      view .attributesBackup ≠ none := midway.shows.mem_iff .attributesBackup
  rw [rollbackLocalMetadata, Safe]
  by_cases saved : view .attributesBackup = none
  · rw [if_neg (mt backup.mp (not_not.mpr saved))]
    refine Script.Safe.check recoverable (fun failure failed => ?_) fun found read => ?_
    · rcases midway.stands.readAttributes context midway.shows small with read | ⟨unable, -⟩
      · cases failed.symm.trans read
      · exact unable
    obtain rfl : found = view .attributes := by
      rcases midway.stands.readAttributes context midway.shows small with same | ⟨-, _, failed⟩
      · exact Except.ok.inj (read.symm.trans same)
      · cases read.symm.trans failed
    cases held : view .attributes with
    | none =>
      rcases midway.unsavedAttributes unfinished saved with fresh | ⟨-, present⟩
      · exact ⟨recoverable, view, fresh⟩
      · cases held.symm.trans present
    | some data =>
      have same := midway.stands.digest_attributes reliable held
      dsimp only
      split_ifs with removes
      · have absent : oldFile host call before .attributes = none :=
          Option.isSome_eq_false_iff.mp removes.2 |> Option.isNone_iff_eq_none.mp
        have removed : Midway host call before objectText metadataText .fresh .fresh _ _ :=
          midway.erase unreserved .attributes nofun
            ⟨absent.symm, saved, midway.stands.objectTarget, midway.stands.objectBackup⟩
        exact ⟨recoverable, removed.recoverable (.preparing (by decide)), _, removed⟩
      · rcases midway.unsavedAttributes unfinished saved with fresh | ⟨absent, present⟩
        · exact ⟨recoverable, view, fresh⟩
        · refine absurd ⟨same.mpr (Option.some.inj (held.symm.trans present)), ?_⟩ removes
          change (oldFile host call before .attributes).isSome = false
          rw [absent]
          rfl
  · rw [if_pos (backup.mpr saved)]
    obtain ⟨content, found⟩ := Option.ne_none_iff_exists'.mp saved
    refine safe_restoreAttributes unreserved midway unfinished ?_ found
    cases attributes with
    | fresh => exact absurd midway.stands.attributesBackup saved
    | moved | installed => exact midway.stands.attributesBackup.symm.trans found
    | cleaned => exact absurd rfl unfinished

omit unreserved in
include midway in
/-- Committed files are in place, whatever they were before. -/
theorem Midway.committed (newAttributes : view .attributes = some (call.metadata host))
    (newObject : view .object = some call.body) :
    ∃ attributes object, Midway host call before objectText metadataText attributes object view
        disk ∧ (attributes = .installed ∨ attributes = .cleaned) ∧
      (object = .installed ∨ object = .cleaned) := by
  obtain ⟨first, stands, placed⟩ : ∃ first, Stands host call before first object view ∧
      (first = .installed ∨ first = .cleaned) := by
    have stands := midway.stands
    cases attributes with
    | fresh =>
      exact ⟨.cleaned, ⟨newAttributes, stands.attributesBackup, stands.objectTarget,
        stands.objectBackup⟩, Or.inr rfl⟩
    | moved => cases stands.attributesTarget.symm.trans newAttributes
    | installed => exact ⟨.installed, stands, Or.inl rfl⟩
    | cleaned => exact ⟨.cleaned, stands, Or.inr rfl⟩
  obtain ⟨second, stands, settled⟩ : ∃ second, Stands host call before first second view ∧
      (second = .installed ∨ second = .cleaned) := by
    cases object with
    | fresh =>
      exact ⟨.cleaned, ⟨stands.attributesTarget, stands.attributesBackup, newObject,
        stands.objectBackup⟩, Or.inr rfl⟩
    | moved => cases stands.objectTarget.symm.trans newObject
    | installed => exact ⟨.installed, stands, Or.inl rfl⟩
    | cleaned => exact ⟨.cleaned, stands, Or.inr rfl⟩
  exact ⟨first, second, { midway with stands := stands }, placed, settled⟩

omit unreserved in
include midway in
/-- Files that do not count as committed are still to be rolled back. -/
theorem Midway.uncommitted (moving : Moving attributes object)
    (old : ¬(view .attributes = some (call.metadata host) ∧ view .object = some call.body)) :
    Open attributes object := by
  cases moving with
  | preparing unfinished => exact Or.inl ⟨unfinished, rfl⟩
  | swapping => exact Or.inr ⟨rfl, rfl⟩
  | finishing first second =>
    refine absurd ⟨midway.stands.attributesTarget.trans ?_, midway.stands.objectTarget.trans ?_⟩ old
    · rcases first with rfl | rfl <;> rfl
    · rcases second with rfl | rfl <;> rfl

omit unreserved in
include midway in
/-- Recovery under a journal finishes the transaction or rolls it back. -/
theorem safe_recover_journalled (reliable : Reliable host call before)
    (accepted : cleanKey call.key maxKeyBytes = .ok call.key) (moving : Moving attributes object) :
    Safe (Recoverable host call before) (recoverPendingLocalTransaction host context)
      (Ends (Able host call before context) fun disk => ∃ slot view,
        (slot = .fresh ∨ slot = .cleaned) ∧ Settled host call before slot view disk) disk := by
  have unreserved := not_reserved_of_cleanKey accepted
  have recoverable := midway.recoverable moving
  rw [recoverPendingLocalTransaction, Safe]
  rcases readLocalTransaction_journalled context reliable accepted midway.shows
    midway.journalled with ⟨key, read⟩ | ⟨unable, failure, failed⟩
  swap
  · rw [failed]
    exact ⟨recoverable, unable⟩
  rw [read]
  change Safe _ (Script.check (localTransactionCommitted host context _ disk) _) _ _
  have decides := midway.stands.decides_committed context reliable midway.shows
    midway.journalled.bounded key objectText metadataText
  refine Script.Safe.check recoverable (fun failure failed => ?_) fun committed decided => ?_
  · rw [failed] at decides
    exact decides
  rw [decided] at decides
  cases committed with
  | true =>
    obtain ⟨newAttributes, newObject⟩ := decides.mp rfl
    obtain ⟨first, second, placed, attributesPlaced, objectPlaced⟩ :=
      midway.committed newAttributes newObject
    have final : Final first second := Or.inr ⟨attributesPlaced, objectPlaced⟩
    exact Ends.mono (safe_finishLocalTransaction unreserved placed _ final)
      fun disk ⟨view, settled⟩ => ⟨_, view, final.resting.2, settled⟩
  | false =>
    have unfinished := midway.uncommitted moving fun both => Bool.false_ne_true (decides.mpr both)
    have first : attributes ≠ .cleaned := by
      rcases unfinished with ⟨first, -⟩ | ⟨rfl, -⟩
      · exact first
      · decide
    refine Ends.attempt (Ends.attempt (safe_rollbackLocalBody unreserved midway reliable unfinished)
      fun disk ⟨view, fresh⟩ => safe_rollbackLocalMetadata unreserved reliable fresh first)
      fun disk ⟨view, fresh⟩ => ?_
    exact Ends.mono (safe_finishLocalTransaction unreserved fresh _ (Or.inl ⟨rfl, rfl⟩))
      fun disk ⟨view, settled⟩ => ⟨.fresh, view, Or.inl rfl, settled⟩

end Transaction

section Orphans

variable {host : Host} {call : PutCall} {before : Disk} {view : View} {disk : Disk}
variable {slot : Slot} {context : Context}

theorem Able.check {phase : Phase} {failure : LocalError} (able : Able host call before context)
    (failed : checkLocalContext context phase = .error failure) : False := by
  rw [checkLocalContext, able.live, if_neg Bool.false_ne_true] at failed
  cases failed

/-- The state without a journal, whatever is staged. -/
def Rests (host : Host) (call : PutCall) (before : Disk) (slot : Slot) (disk : Disk) : Prop :=
  ∃ view, Settled host call before slot view disk

/-- The state without a journal and without stages. -/
def Clear (host : Host) (call : PutCall) (before : Disk) (slot : Slot) (disk : Disk) : Prop :=
  ∃ view, Settled host call before slot view disk ∧ ∀ name, view (.stage name) = none

variable (unreserved : ∀ segment ∈ segments call.key, ¬Reserved segment)

include unreserved in
theorem Settled.eraseStage (settled : Settled host call before slot view disk) (name : Bytes) :
    Settled host call before slot (update view (.stage name) none) (disk.erase (stage name)) where
  shows := settled.shows.erase unreserved (.stage name)
  staged := settled.staged.erase _
  quiet := by rw [update_of_ne (by simp), settled.quiet]
  stands := settled.stands.update rfl

include unreserved in
/-- Removing the listed stages, each of which is there when its turn comes. -/
theorem safe_removeLocalOrphanStages (names : List Bytes) (distinct : names.Nodup)
    (settled : Settled host call before slot view disk)
    (listed : ∀ name, view (.stage name) ≠ none ↔ name ∈ names) :
    Safe (Rests host call before slot) (removeLocalOrphanStages context (names.map stage))
      (Ends (Able host call before context) (Clear host call before slot)) disk := by
  induction names generalizing view disk with
  | nil =>
    refine ⟨⟨view, settled⟩, view, settled, fun name => ?_⟩
    exact not_not.mp (mt (listed name).mp not_mem_nil)
  | cons name names ih =>
    obtain ⟨fresh, distinct⟩ := nodup_cons.mp distinct
    rw [map_cons, removeLocalOrphanStages]
    refine Script.Safe.check ⟨view, settled⟩ (fun _ failed able => able.check failed) fun _ _ => ?_
    have present : stage name ∈ disk :=
      (settled.shows.mem_iff (.stage name)).mpr ((listed name).mpr mem_cons_self)
    rw [Safe, if_pos present]
    refine ⟨⟨view, settled⟩, ih distinct (settled.eraseStage unreserved name) fun other => ?_⟩
    by_cases same : other = name
    · subst same
      simp [fresh]
    · rw [update_of_ne (by simpa using same), listed, mem_cons]
      exact or_iff_right same

include unreserved in
theorem staging_ne_path (cell : Cell) : [localStagingDirectoryName] ≠ cell.path host call.key := by
  have last {path : Path} {name : Bytes} (same : [localStagingDirectoryName] = sibling path name) :
      localStagingDirectoryName = name := by
    simpa [sibling] using congrArg getLast? same
  intro same
  cases cell with
  | object =>
    have path : [localStagingDirectoryName] = segments call.key := same
    exact unreserved _ (path ▸ mem_singleton_self _) reserved_localStagingDirectoryName
  | attributes =>
    have names := last same
    rw [localMetadataName, append_assoc, ← append_nil localStagingDirectoryName] at names
    exact append_ne_of_take_ne 12 _ _ (by decide) (by decide) names
  | objectBackup | attributesBackup =>
    have names := last same
    simp only [localBackupName, append_assoc] at names
    rw [← append_nil localStagingDirectoryName] at names
    exact append_ne_of_take_ne 12 _ _ (by decide) (by decide) names
  | journal =>
    have path : [localStagingDirectoryName] = localTransactionName := same
    exact absurd path (by decide)
  | stage name => cases same

/-- Collecting the stages lists all of them, or fails. -/
theorem collectLocalOrphanStages_eq_ok {orphans : List Path}
    (collected : collectLocalOrphanStages host context disk [] = .ok orphans) :
    orphans = (host.readDir disk).map stage := by
  rw [collectLocalOrphanStages] at collected
  split_ifs at collected with full ended
  have whole : (host.readDir disk).take (maxLocalOrphanStages + 1) = host.readDir disk := by
    refine take_of_length_le ?_
    rw [length_take] at full
    omega
  rw [whole] at collected
  split at collected
  · cases collected
  · simpa using (Except.ok.inj collected).symm

theorem Settled.readDir_length_le (settled : Settled host call before slot view disk) :
    (host.readDir disk).length ≤ 3 ∧ ∀ name ∈ host.readDir disk, isLocalTempName name := by
  obtain ⟨names, few, temporary, all⟩ := settled.staged
  have known : ∀ name ∈ host.readDir disk, name ∈ names := fun name found =>
    all name ((settled.shows.mem_iff (.stage name)).mp ((host.mem_readDir disk name).mp found))
  have fits := ((host.nodup_readDir disk).subperm known).length_le
  exact ⟨fits.trans few, fun name found => temporary name (known name found)⟩

theorem collectLocalOrphanStages_ne_error (settled : Settled host call before slot view disk)
    (able : Able host call before context) {failure : LocalError} :
    collectLocalOrphanStages host context disk [] ≠ .error failure := by
  obtain ⟨few, temporary⟩ := settled.readDir_length_le
  have whole : (host.readDir disk).take (maxLocalOrphanStages + 1) = host.readDir disk :=
    take_of_length_le (few.trans (by decide))
  have quiet : (host.readDir disk).find? (fun name => !isLocalTempName name) = none := by
    simpa using temporary
  rw [collectLocalOrphanStages, whole, if_neg (by rw [maxLocalOrphanStages]; omega),
    if_neg (by simp [able.live]), quiet]
  simp

include unreserved in
theorem safe_reclaimLocalOrphanStages (settled : Settled host call before slot view disk) :
    Safe (Rests host call before slot) (reclaimLocalOrphanStages host context)
      (Ends (Able host call before context) (Clear host call before slot)) disk := by
  have rests : Rests host call before slot disk := ⟨view, settled⟩
  rw [reclaimLocalOrphanStages]
  refine Script.Safe.check rests (fun _ failed able => able.check failed) fun _ _ => ?_
  have keep : protectedLocalTransactionStages host context disk = .ok [] := by
    rw [protectedLocalTransactionStages, readLocalTransaction_none settled.shows settled.quiet]
    rfl
  rw [Safe, keep]
  change Safe _ (if _ then _ else _) _ _
  split_ifs with occupied
  · refine ⟨rests, fun able => able.directory ?_⟩
    rw [← Finmap.lookup_isSome] at occupied ⊢
    rwa [settled.shows.others _ (staging_ne_path unreserved)] at occupied
  refine Script.Safe.check rests (fun failure failed able => ?_) fun orphans collected => ?_
  · exact collectLocalOrphanStages_ne_error settled able failed
  · rw [collectLocalOrphanStages_eq_ok collected]
    refine safe_removeLocalOrphanStages unreserved _ (host.nodup_readDir disk) settled fun name => ?_
    rw [host.mem_readDir]
    exact (settled.shows.mem_iff (.stage name)).symm

/-- Without a journal, `lockAndRecover` changes nothing but the stages. -/
theorem safe_lockAndRecover_settled (context : Context)
    (unreserved : ∀ segment ∈ segments call.key, ¬Reserved segment)
    (settled : Settled host call before slot view disk) :
    Safe (Rests host call before slot) (lockAndRecover host context)
      (Ends (Able host call before context) (Clear host call before slot)) disk := by
  have rests : Rests host call before slot disk := ⟨view, settled⟩
  refine Script.Safe.check rests (fun _ failed able => able.check failed) fun _ _ => ?_
  have recovered : Safe (Rests host call before slot) (recoverPendingLocalTransaction host context)
      (Ends (Able host call before context) (Rests host call before slot)) disk := by
    rw [recoverPendingLocalTransaction, Safe, readLocalTransaction_none settled.shows settled.quiet]
    exact ⟨rests, rests⟩
  exact Ends.attempt recovered fun disk ⟨view, settled⟩ =>
    safe_reclaimLocalOrphanStages unreserved settled

/-- `lockAndRecover` keeps the bucket recoverable and, once it completes, leaves
the old pair or the new one and nothing of the transaction. -/
theorem safe_lockAndRecover (context : Context) (reliable : Reliable host call before)
    (accepted : cleanKey call.key maxKeyBytes = .ok call.key)
    (recoverable : Recoverable host call before disk) :
    Safe (Recoverable host call before) (lockAndRecover host context)
      (Ends (Able host call before context) fun disk => ∃ slot,
        (slot = .fresh ∨ slot = .cleaned) ∧ Clear host call before slot disk) disk := by
  have unreserved := not_reserved_of_cleanKey accepted
  obtain ⟨view, shows, staged, attributes, object, stands, slots⟩ := recoverable
  rcases slots with ⟨quiet, rfl, resting⟩ | ⟨⟨objectText, metadataText, journalled⟩, moving⟩
  · have settled : Settled host call before attributes view disk := ⟨shows, staged, quiet, stands⟩
    refine Script.Safe.mono (safe_lockAndRecover_settled _ unreserved settled)
      (fun disk ⟨_, settled⟩ => settled.recoverable resting) ?_
    intro result disk ends
    cases result with
    | error failure => exact ends
    | ok value => exact ⟨attributes, resting, ends⟩
  · have midway : Midway host call before objectText metadataText attributes object view disk :=
      ⟨shows, staged, journalled, stands⟩
    refine Script.Safe.check (midway.recoverable moving) (fun _ failed able => able.check failed)
      fun _ _ => ?_
    refine Ends.attempt (safe_recover_journalled midway reliable accepted moving) ?_
    rintro disk ⟨slot, view, resting, settled⟩
    refine Script.Safe.mono (safe_reclaimLocalOrphanStages unreserved settled)
      (fun disk ⟨_, settled⟩ => settled.recoverable resting) ?_
    intro result disk ends
    cases result with
    | error failure => exact ends
    | ok value => exact ⟨slot, resting, ends⟩

end Orphans

end Golusoris.Storage
