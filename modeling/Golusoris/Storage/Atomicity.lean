import Golusoris.Storage.Recovery
import Mathlib.Data.Finset.Sort
import Mathlib.Data.List.Lex
import Mathlib.Logic.Relation

/-!
# Crash atomicity of put

A put stages its two files, writes the journal, moves the old files aside and the
new ones into place, and removes what is left. Wherever it stops, and wherever
the recoveries that follow stop, a recovery that completes leaves the old pair
or the new one.
-/

namespace Golusoris.Storage

open List (append_assoc append_nil dropLast_subset eq_nil_iff_forall_not_mem flatten_nil getLast?
  isPrefixOf_iff_prefix mem_append mem_cons mem_cons_of_mem mem_cons_self mem_of_getLast?
  mem_of_head? mem_singleton nil_append)
open Function (update update_idem update_of_ne update_self)
open Lib
open Script (Safe)

/-- The state before the journal is written. -/
structure Preparing (host : Host) (call : PutCall) (before : Disk) (limit : Nat) (view : View)
    (disk : Disk) : Prop where
  shows : Shows host call.key before view disk
  staged : Staged limit view
  quiet : view .journal = none
  stands : Stands host call before .fresh .fresh view

variable {name content : Bytes}

section Staging

variable {host : Host} {call : PutCall} {before : Disk} {view : View} {disk : Disk} {limit : Nat}

variable {larger : Nat}

theorem Staged.mono (staged : Staged limit view) (fits : limit ≤ larger) : Staged larger view := by
  obtain ⟨names, few, temporary, all⟩ := staged
  exact ⟨names, few.trans fits, temporary, all⟩

theorem Staged.create (staged : Staged limit view) (temporary : isLocalTempName name) :
    Staged (limit + 1) (Function.update view (.stage name) (some content)) := by
  obtain ⟨names, few, all, listed⟩ := staged
  refine ⟨name :: names, Nat.succ_le_succ few, ?_, fun other present => ?_⟩
  · intro other found
    rcases mem_cons.mp found with rfl | found
    · exact temporary
    · exact all other found
  · by_cases same : other = name
    · exact same ▸ mem_cons_self
    · rw [update_of_ne (by simpa using same)] at present
      exact mem_cons_of_mem name (listed other present)

/-- Writing to a staged file stages nothing more. -/
theorem Staged.write (staged : Staged limit view) (present : view (.stage name) ≠ none) :
    Staged limit (Function.update view (.stage name) (some content)) := by
  obtain ⟨names, few, temporary, listed⟩ := staged
  refine ⟨names, few, temporary, fun other held => ?_⟩
  by_cases same : other = name
  · exact listed other (same ▸ present)
  · rw [update_of_ne (by simpa using same)] at held
    exact listed other held

variable (preparing : Preparing host call before limit view disk)

include preparing in
theorem Preparing.recoverable (few : limit ≤ 3) : Recoverable host call before disk :=
  ⟨view, preparing.shows, preparing.staged.mono few, .fresh, .fresh, preparing.stands,
    Or.inl ⟨preparing.quiet, rfl, Or.inl rfl⟩⟩

include preparing in
theorem Preparing.mono (fits : limit ≤ larger) : Preparing host call before larger view disk :=
  { preparing with staged := preparing.staged.mono fits }

variable (unreserved : ∀ segment ∈ segments call.key, ¬Reserved segment)

include unreserved

include preparing in
/-- Giving a staging file a content. -/
theorem Preparing.insertStage (name content : Bytes)
    (staged : Staged larger (update view (.stage name) (some content))) :
    Preparing host call before larger (update view (.stage name) (some content))
      (disk.insert (stage name) content) where
  shows := preparing.shows.insert unreserved (.stage name) content
  staged := staged
  quiet := by rw [update_of_ne (by simp), preparing.quiet]
  stands := preparing.stands.update rfl

include preparing in
theorem Preparing.eraseStage (name : Bytes) :
    Preparing host call before limit (update view (.stage name) none)
      (disk.erase (stage name)) where
  shows := preparing.shows.erase unreserved (.stage name)
  staged := preparing.staged.erase _
  quiet := by rw [update_of_ne (by simp), preparing.quiet]
  stands := preparing.stands.update rfl

/-- Stages may be abandoned at any time before the journal is written. -/
theorem safe_abandon {Result : Type} (few : limit ≤ 3) (failure : LocalError) (names : List Bytes)
    (preparing : Preparing host call before limit view disk) :
    Safe (Recoverable host call before) (abandon (names.map stage) failure : Program Result)
      (fun result disk => result = .error failure ∧
        ∃ view, Preparing host call before limit view disk) disk := by
  induction names generalizing view disk with
  | nil => exact ⟨preparing.recoverable few, rfl, view, preparing⟩
  | cons name names ih =>
    exact ⟨preparing.recoverable few, ih (preparing.eraseStage unreserved name)⟩

/-- How the creation of a stage ends: no further file, or one with this content. -/
def StageEnds (host : Host) (call : PutCall) (before : Disk) (limit : Nat) (view : View)
    (draws : Draws) (content : Bytes) : Except LocalError Path → Disk → Prop
  | .error _, disk => ∃ view, Preparing host call before (limit + 1) view disk
  | .ok path, disk => ∃ text ∈ draws.toList, path = stage (tempName text) ∧
      view (.stage (tempName text)) = none ∧
      Preparing host call before (limit + 1)
        (update view (.stage (tempName text)) (some content)) disk

variable (few : limit + 1 ≤ 3) (draws : Draws)

include few in
theorem safe_openLocalTemp (preparing : Preparing host call before limit view disk) :
    Safe (Recoverable host call before) (openLocalTemp draws)
      (StageEnds host call before limit view draws []) disk := by
  have recoverable := preparing.recoverable (Nat.le_of_succ_le few)
  suffices among : ∀ texts : List RandomText, (∀ text ∈ texts, text ∈ draws.toList) →
      Safe (Recoverable host call before) (openLocalTempAmong texts)
        (StageEnds host call before limit view draws []) disk from
    among draws.toList fun _ found => found
  intro texts drawn
  induction texts with
  | nil => exact ⟨recoverable, view, preparing.mono (Nat.le_succ limit)⟩
  | cons text texts ih =>
    rw [openLocalTempAmong, Safe]
    split_ifs with taken
    · exact ih fun other found => drawn other (mem_cons_of_mem text found)
    · have absent : view (.stage (tempName text)) = none :=
        not_not.mp (mt (preparing.shows.mem_iff (.stage (tempName text))).mpr taken)
      have created := preparing.insertStage unreserved (tempName text) []
        (preparing.staged.create (isLocalTempName_tempName text))
      exact ⟨recoverable, created.recoverable few, text, drawn text mem_cons_self, rfl,
        absent, created⟩

include preparing in
/-- One write to a staging file. -/
theorem Preparing.write (held : view (.stage name) = some content) (chunk : Bytes) :
    Preparing host call before limit (update view (.stage name) (some (content ++ chunk)))
      (write (stage name) chunk disk) := by
  have found : disk.lookup (stage name) = some content :=
    (preparing.shows.cells (.stage name)).trans held
  rw [Storage.write, found]
  exact preparing.insertStage unreserved name _
    (preparing.staged.write (held ▸ Option.some_ne_none content))

theorem safe_writeAll (few : limit ≤ 3) (chunks : List Bytes)
    (preparing : Preparing host call before limit (update view (.stage name) (some content)) disk) :
    Safe (Recoverable host call before) (writeAll (stage name) chunks)
      (fun _ => Preparing host call before limit
        (update view (.stage name) (some (content ++ chunks.flatten)))) disk := by
  induction chunks generalizing content disk with
  | nil =>
    refine ⟨preparing.recoverable few, ?_⟩
    rwa [flatten_nil, append_nil]
  | cons chunk chunks ih =>
    have written := preparing.write unreserved (update_self _ _ _) chunk
    rw [update_idem] at written
    have rest := ih written
    rw [append_assoc] at rest
    exact ⟨preparing.recoverable few, rest⟩

include few in
/-- Opening a stage and going on with it. -/
theorem StageEnds.attempt
    (preparing : Preparing host call before limit view disk) {next : Path → Program Path}
    (rest : ∀ text ∈ draws.toList, ∀ disk, view (.stage (tempName text)) = none →
      Preparing host call before (limit + 1) (update view (.stage (tempName text)) (some [])) disk →
      Safe (Recoverable host call before) (next (stage (tempName text)))
        (StageEnds host call before limit view draws content) disk) :
    Safe (Recoverable host call before) ((openLocalTemp draws).attempt next)
      (StageEnds host call before limit view draws content) disk := by
  refine Script.Safe.attempt ((safe_openLocalTemp unreserved few draws preparing).mono
    (fun _ holds => holds) ?_)
  rintro (failure | path) disk ends
  · exact ends
  · obtain ⟨text, drawn, rfl, absent, created⟩ := ends
    exact rest text drawn disk absent created

include few in
theorem safe_stageLocalObject (source : Source)
    (preparing : Preparing host call before limit view disk) :
    Safe (Recoverable host call before) (stageLocalObject draws source)
      (StageEnds host call before limit view draws source.chunks.flatten) disk := by
  refine StageEnds.attempt unreserved few draws preparing fun text drawn disk absent created => ?_
  refine Script.Safe.bind ((safe_writeAll unreserved few source.chunks created).mono
    (fun _ holds => holds) ?_)
  intro _ disk written
  cases source.failure with
  | none => exact ⟨written.recoverable few, text, drawn, rfl, absent, written⟩
  | some failure =>
    refine (safe_abandon unreserved few failure [tempName text] written).mono
      (fun _ holds => holds) ?_
    rintro result disk ⟨rfl, abandoned⟩
    exact abandoned

variable (data : Bytes)

include few in
/-- Writing a stage in one piece, unless the context ends in between. -/
theorem safe_stageData (context : Context) (phase : Phase)
    (preparing : Preparing host call before limit view disk) :
    Safe (Recoverable host call before)
      ((openLocalTemp draws).attempt fun path =>
        .act (write path data)
          (match checkLocalContext context phase with
            | .error failure => abandon [path] failure
            | .ok () => .give path))
      (StageEnds host call before limit view draws data) disk := by
  refine StageEnds.attempt unreserved few draws preparing fun text drawn disk absent created => ?_
  have written := created.write unreserved (update_self _ _ _) data
  rw [update_idem, nil_append] at written
  refine ⟨created.recoverable few, ?_⟩
  cases checkLocalContext context phase with
  | ok => exact ⟨written.recoverable few, text, drawn, rfl, absent, written⟩
  | error failure =>
    refine (safe_abandon unreserved few failure [tempName text] written).mono
      (fun _ holds => holds) ?_
    rintro result disk ⟨rfl, abandoned⟩
    exact abandoned

include few in
theorem safe_stageLocalAttributes (context : Context)
    (preparing : Preparing host call before limit view disk) :
    Safe (Recoverable host call before) (stageLocalAttributes context draws data)
      (StageEnds host call before limit view draws data) disk :=
  Script.Safe.check (preparing.recoverable (Nat.le_of_succ_le few))
    (fun _ _ => ⟨view, preparing.mono (Nat.le_succ limit)⟩)
    fun _ _ => safe_stageData unreserved few draws data context .afterMetadataWrite preparing

include few in
theorem safe_stageLocalTransaction (context : Context)
    (preparing : Preparing host call before limit view disk) :
    Safe (Recoverable host call before) (stageLocalTransaction context draws data)
      (StageEnds host call before limit view draws data) disk :=
  safe_stageData unreserved few draws data context .afterTransactionWrite preparing

end Staging

section Publishing

variable {host : Host} {call : PutCall} {before : Disk} {view : View} {disk : Disk}
variable {objectText metadataText : RandomText} {attributes object : Slot}

theorem localRegularPathExists_eq_ok {path : Path} {found : Bool}
    (inspected : localRegularPathExists disk path = .ok found) : found = decide (path ∈ disk) := by
  rw [localRegularPathExists] at inspected
  split_ifs at inspected with present
  · rw [← Except.ok.inj inspected, decide_eq_true present]
  · rw [← Except.ok.inj inspected, decide_eq_false present]

/-- The transaction that is prepared records what was there before. -/
theorem Preparing.transaction {limit : Nat} {tx : LocalTransaction}
    (preparing : Preparing host call before limit view disk)
    (prepared : prepareLocalTransaction host disk call.key (segments call.key)
      (stage (tempName objectText)) (stage (tempName metadataText)) call.body.length
      (host.digest call.body) (call.metadata host) = .ok tx) :
    tx = call.transaction host before objectText metadataText := by
  have had (cell : Cell) (same : view cell = oldFile host call before cell) :
      decide (cell.path host call.key ∈ disk) = (oldFile host call before cell).isSome := by
    rw [Bool.eq_iff_iff, decide_eq_true_iff, preparing.shows.mem_iff, same,
      ← Option.isSome_iff_ne_none]
  obtain ⟨hadObject, object, prepared⟩ := exists_of_bind_eq_ok prepared
  obtain ⟨hadMetadata, metadata, prepared⟩ := exists_of_bind_eq_ok prepared
  rw [← Except.ok.inj prepared, localRegularPathExists_eq_ok object,
    localRegularPathExists_eq_ok metadata]
  rw [PutCall.transaction, ← had .object preparing.stands.objectTarget,
    ← had .attributes preparing.stands.attributesTarget]
  rfl

variable (unreserved : ∀ segment ∈ segments call.key, ¬Reserved segment)

include unreserved

/-- Under the name of the journal the transaction counts. -/
theorem Preparing.journal {limit : Nat} (few : limit ≤ 3) (name : Bytes)
    (preparing : Preparing host call before limit view disk)
    (objectDrawn : objectText ∈ call.objectDraws.toList)
    (metadataDrawn : metadataText ∈ call.metadataDraws.toList)
    (apart : tempName objectText ≠ tempName metadataText)
    (bounded : (call.metadata host).length ≤ maxLocalAttributeBytes)
    (small : (host.marshalTransaction
      (call.transaction host before objectText metadataText)).length ≤ maxLocalTransactionBytes) :
    Midway host call before objectText metadataText .fresh .fresh
      (update (update view (.stage name) none) .journal
        (some (host.marshalTransaction (call.transaction host before objectText metadataText))))
      ((disk.erase (stage name)).insert localTransactionName
        (host.marshalTransaction (call.transaction host before objectText metadataText))) where
  shows := (preparing.shows.erase unreserved (.stage name)).insert unreserved .journal _
  staged := ((preparing.staged.mono few).erase _).update (by simp)
  journalled := ⟨objectDrawn, metadataDrawn, apart, bounded, small, update_self _ _ _⟩
  stands := (preparing.stands.update rfl).update rfl

variable (midway : Midway host call before objectText metadataText .fresh .fresh view disk)

include midway in
theorem Midway.moveAttributes (old : oldFile host call before .attributes = some content) :
    Midway host call before objectText metadataText .moved .fresh
      (update (update view .attributes none) .attributesBackup (some content))
      ((disk.erase (Cell.attributes.path host call.key)).insert
        (Cell.attributesBackup.path host call.key) content) :=
  midway.move unreserved .attributes .attributesBackup nofun rfl
    ⟨rfl, old.symm, midway.stands.objectTarget, midway.stands.objectBackup⟩

theorem Midway.installAttributes (name : Bytes)
    (midway : Midway host call before objectText metadataText attributes .fresh view disk)
    (saved : view .attributesBackup = oldFile host call before .attributes) :
    Midway host call before objectText metadataText .installed .fresh
      (update (update view (.stage name) none) .attributes (some (call.metadata host)))
      ((disk.erase (stage name)).insert (Cell.attributes.path host call.key)
        (call.metadata host)) :=
  midway.move unreserved (.stage name) .attributes nofun rfl
    ⟨rfl, saved, midway.stands.objectTarget, midway.stands.objectBackup⟩

theorem Midway.moveObject
    (midway : Midway host call before objectText metadataText .installed .fresh view disk)
    (old : oldFile host call before .object = some content) :
    Midway host call before objectText metadataText .installed .moved
      (update (update view .object none) .objectBackup (some content))
      ((disk.erase (Cell.object.path host call.key)).insert
        (Cell.objectBackup.path host call.key) content) :=
  midway.move unreserved .object .objectBackup nofun rfl
    ⟨midway.stands.attributesTarget, midway.stands.attributesBackup, rfl, old.symm⟩

theorem Midway.installObject (name : Bytes)
    (midway : Midway host call before objectText metadataText .installed object view disk)
    (saved : view .objectBackup = oldFile host call before .object) :
    Midway host call before objectText metadataText .installed .installed
      (update (update view (.stage name) none) .object (some call.body))
      ((disk.erase (stage name)).insert (Cell.object.path host call.key) call.body) :=
  midway.move unreserved (.stage name) .object nofun rfl
    ⟨midway.stands.attributesTarget, midway.stands.attributesBackup, rfl, saved⟩

omit unreserved in
/-- Installing a staged file: the old one is moved aside if there is one. -/
theorem safe_installLocalTransactionFile {crash : Disk → Prop}
    {post : Except LocalError Unit → Disk → Prop} {staged target backup : Path}
    {old : Option Bytes} {new : Bytes} (now : crash disk) (unsaved : disk.lookup backup = none)
    (current : disk.lookup target = old) (ready : disk.lookup staged = some new)
    (moved : ∀ content, old = some content →
      let aside := (disk.erase target).insert backup content
      crash aside ∧ aside.lookup staged = some new ∧
        crash ((aside.erase staged).insert target new) ∧
        post (.ok ()) ((aside.erase staged).insert target new))
    (created : old = none → crash ((disk.erase staged).insert target new) ∧
      post (.ok ()) ((disk.erase staged).insert target new)) :
    Safe crash (installLocalTransactionFile staged target backup old.isSome) post disk := by
  have present : target ∈ disk ↔ old.isSome := by
    rw [← Finmap.lookup_isSome, current]
  rw [installLocalTransactionFile, Safe, if_neg (Finmap.lookup_eq_none.mp unsaved),
    if_neg (by simp [present])]
  cases old with
  | none =>
    obtain ⟨installed, after⟩ := created rfl
    exact safe_rename ready now installed after
  | some content =>
    obtain ⟨aside, held, installed, after⟩ := moved content rfl
    exact Script.Safe.attempt (safe_rename current now aside
      (safe_rename held aside installed after))

variable (objectReady : view (.stage (tempName objectText)) = some call.body)
variable (metadataReady : view (.stage (tempName metadataText)) = some (call.metadata host))

include midway objectReady metadataReady in
theorem safe_installAttributes :
    Safe (Recoverable host call before)
      (installLocalTransactionFile (stage (tempName metadataText))
        (Cell.attributes.path host call.key) (Cell.attributesBackup.path host call.key)
        (oldFile host call before .attributes).isSome)
      (fun result disk => result = .ok () ∧ ∃ view,
        Midway host call before objectText metadataText .installed .fresh view disk ∧
          view (.stage (tempName objectText)) = some call.body) disk := by
  have apart : tempName objectText ≠ tempName metadataText := midway.journalled.2.2.1
  have kept {view : View} (held : view (.stage (tempName objectText)) = some call.body) :
      update view (.stage (tempName metadataText)) none (.stage (tempName objectText)) =
        some call.body := by
    rw [update_of_ne (by simpa using apart), held]
  refine safe_installLocalTransactionFile (midway.recoverable (.preparing (by decide)))
    ((midway.shows.cells .attributesBackup).trans midway.stands.attributesBackup)
    ((midway.shows.cells .attributes).trans midway.stands.attributesTarget)
    ((midway.shows.cells (.stage _)).trans metadataReady) (fun content old => ?_) fun absent => ?_
  · have aside := midway.moveAttributes unreserved old
    have installed := aside.installAttributes unreserved (tempName metadataText)
      aside.stands.attributesBackup
    exact ⟨aside.recoverable (.preparing (by decide)),
      (aside.shows.cells (.stage _)).trans metadataReady,
      installed.recoverable (.preparing (by decide)), rfl, _, installed, kept objectReady⟩
  · have installed := midway.installAttributes unreserved (tempName metadataText)
      (midway.stands.attributesBackup.trans absent.symm)
    exact ⟨installed.recoverable (.preparing (by decide)), rfl, _, installed, kept objectReady⟩

theorem safe_installObject
    (midway : Midway host call before objectText metadataText .installed .fresh view disk)
    (objectReady : view (.stage (tempName objectText)) = some call.body) :
    Safe (Recoverable host call before)
      (installLocalTransactionFile (stage (tempName objectText)) (Cell.object.path host call.key)
        (Cell.objectBackup.path host call.key) (oldFile host call before .object).isSome)
      (fun result disk => result = .ok () ∧ ∃ view,
        Midway host call before objectText metadataText .installed .installed view disk) disk := by
  have done : Moving .installed .installed := .finishing (Or.inl rfl) (Or.inl rfl)
  refine safe_installLocalTransactionFile (midway.recoverable (.preparing (by decide)))
    ((midway.shows.cells .objectBackup).trans midway.stands.objectBackup)
    ((midway.shows.cells .object).trans midway.stands.objectTarget)
    ((midway.shows.cells (.stage _)).trans objectReady) (fun content old => ?_) fun absent => ?_
  · have aside := midway.moveObject unreserved old
    have installed := aside.installObject unreserved (tempName objectText) aside.stands.objectBackup
    exact ⟨aside.recoverable .swapping, (aside.shows.cells (.stage _)).trans objectReady,
      installed.recoverable done, rfl, _, installed⟩
  · have installed := midway.installObject unreserved (tempName objectText)
      (midway.stands.objectBackup.trans absent.symm)
    exact ⟨installed.recoverable done, rfl, _, installed⟩

include midway objectReady metadataReady in
/-- Publishing moves the attributes into place and then the object. -/
theorem safe_publishLocalTransaction :
    Safe (Recoverable host call before)
      (publishLocalTransaction (call.transaction host before objectText metadataText))
      (fun result disk => result = .ok () ∧ ∃ view,
        Midway host call before objectText metadataText .installed .installed view disk) disk := by
  refine Script.Safe.attempt ((safe_installAttributes unreserved midway objectReady
    metadataReady).mono (fun _ holds => holds) ?_)
  rintro result disk ⟨rfl, view, installed, ready⟩
  exact safe_installObject unreserved installed ready

/-- The journal is staged and then takes its name. -/
theorem safe_beginLocalTransaction (context : Context) (draws : Draws)
    (preparing : Preparing host call before 2 view disk)
    (objectDrawn : objectText ∈ call.objectDraws.toList)
    (metadataDrawn : metadataText ∈ call.metadataDraws.toList)
    (apart : tempName objectText ≠ tempName metadataText)
    (bounded : (call.metadata host).length ≤ maxLocalAttributeBytes)
    (objectReady : view (.stage (tempName objectText)) = some call.body)
    (metadataReady : view (.stage (tempName metadataText)) = some (call.metadata host)) :
    Safe (Recoverable host call before)
      (beginLocalTransaction host context draws
        (call.transaction host before objectText metadataText))
      (fun result disk =>
        match result with
        | .error _ => ∃ view, Preparing host call before 3 view disk
        | .ok () => ∃ view, Midway host call before objectText metadataText .fresh .fresh view disk ∧
            view (.stage (tempName objectText)) = some call.body ∧
            view (.stage (tempName metadataText)) = some (call.metadata host)) disk := by
  have recoverable := preparing.recoverable (by decide)
  have unchanged : ∃ view, Preparing host call before 3 view disk :=
    ⟨view, preparing.mono (by decide)⟩
  refine Script.Safe.check recoverable (fun _ _ => unchanged) fun _ _ => ?_
  dsimp only
  split_ifs with large
  · exact ⟨recoverable, unchanged⟩
  rw [Safe]
  split_ifs with pending
  · exact ⟨recoverable, unchanged⟩
  refine Script.Safe.attempt ((safe_stageLocalTransaction unreserved (by decide) draws _ context
    preparing).mono (fun _ holds => holds) ?_)
  rintro (failure | path) disk ends
  · exact ends
  obtain ⟨text, -, rfl, absent, created⟩ := ends
  have midway := created.journal unreserved (by decide) (tempName text) objectDrawn
    metadataDrawn apart bounded (Nat.le_of_not_lt large)
  have other {name content : Bytes} (held : view (.stage name) = some content) :
      name ≠ tempName text := by
    rintro rfl
    cases absent.symm.trans held
  have keeps {name content : Bytes} (held : view (.stage name) = some content) :
      update (update (update view (.stage (tempName text))
        (some (host.marshalTransaction (call.transaction host before objectText metadataText))))
        (.stage (tempName text)) none) .journal
        (some (host.marshalTransaction (call.transaction host before objectText metadataText)))
        (.stage name) = some content := by
    have apart : Cell.stage name ≠ .stage (tempName text) := by simpa using other held
    rw [update_of_ne (by simp), update_of_ne apart, update_of_ne apart, held]
  refine Script.Safe.bind (safe_rename ((created.shows.cells (.stage _)).trans (update_self _ _ _))
    (created.recoverable (by decide)) (midway.recoverable (.preparing (by decide))) ?_)
  exact ⟨midway.recoverable (.preparing (by decide)), _, midway, keeps objectReady,
    keeps metadataReady⟩

theorem safe_publishStagedLocalObject (preparing : Preparing host call before 2 view disk)
    (objectDrawn : objectText ∈ call.objectDraws.toList)
    (metadataDrawn : metadataText ∈ call.metadataDraws.toList)
    (apart : tempName objectText ≠ tempName metadataText)
    (bounded : (call.metadata host).length ≤ maxLocalAttributeBytes)
    (objectReady : view (.stage (tempName objectText)) = some call.body)
    (metadataReady : view (.stage (tempName metadataText)) = some (call.metadata host)) :
    Safe (Recoverable host call before)
      (publishStagedLocalObject host call call.key (segments call.key)
        (stage (tempName objectText)) (stage (tempName metadataText)) call.body.length
        (host.digest call.body) (call.metadata host))
      (fun _ _ => True) disk := by
  have abandons {limit : Nat} (few : limit ≤ 3) {disk : Disk} {view : View}
      (preparing : Preparing host call before limit view disk) (failure : LocalError) :
      Safe (Recoverable host call before)
        (abandon [stage (tempName objectText), stage (tempName metadataText)] failure :
          Program Unit) (fun _ _ => True) disk :=
    (safe_abandon unreserved few failure [tempName objectText, tempName metadataText]
      preparing).mono (fun _ holds => holds) fun _ _ _ => trivial
  rw [publishStagedLocalObject]
  cases checkLocalContext call.context .beforePublish with
  | error failure => exact abandons (by decide) preparing failure
  | ok =>
    dsimp only
    rw [Safe]
    cases prepared : prepareLocalTransaction host disk call.key (segments call.key)
      (stage (tempName objectText)) (stage (tempName metadataText)) call.body.length
      (host.digest call.body) (call.metadata host) with
    | error failure => exact abandons (by decide) preparing failure
    | ok tx =>
      obtain rfl := preparing.transaction prepared
      refine Script.Safe.bind ((safe_beginLocalTransaction unreserved call.context
        call.journalDraws preparing objectDrawn metadataDrawn apart bounded objectReady
        metadataReady).mono (fun _ holds => holds) ?_)
      rintro (failure | ⟨⟩) disk begun
      · obtain ⟨view, preparing⟩ := begun
        exact abandons le_rfl preparing failure
      obtain ⟨view, midway, objectReady, metadataReady⟩ := begun
      refine Script.Safe.bind ((safe_publishLocalTransaction unreserved midway objectReady
        metadataReady).mono (fun _ holds => holds) ?_)
      rintro result disk ⟨rfl, view, installed⟩
      have final : Final .installed .installed := Or.inr ⟨Or.inl rfl, Or.inl rfl⟩
      dsimp only
      split_ifs with unsynced
      · exact ⟨installed.recoverable final.moving, trivial⟩
      · exact Script.Safe.mono (safe_finishLocalTransaction unreserved installed True final)
          (fun _ holds => holds) fun _ _ _ => trivial

end Publishing

section Put

variable {host : Host} {call : PutCall} {before : Disk} {view : View} {disk : Disk}

theorem bindLocalAttributes_eq_ok {bound : LocalAttributes × Bytes}
    (encoded : bindLocalAttributes host (snapshotLocalAttributes call.key call.options)
      call.body.length (host.digest call.body) = .ok bound) :
    bound = (call.attributes host, call.metadata host) ∧
      (call.metadata host).length ≤ maxLocalAttributeBytes := by
  rw [bindLocalAttributes] at encoded
  split_ifs at encoded with large
  exact ⟨(Except.ok.inj encoded).symm, Nat.le_of_not_lt large⟩

variable (unreserved : ∀ segment ∈ segments call.key, ¬Reserved segment)

include unreserved in
theorem safe_putLocalObject (preparing : Preparing host call before 0 view disk) :
    Safe (Recoverable host call before)
      (putLocalObject host call call.key (segments call.key)
        (snapshotLocalAttributes call.key call.options)) (fun _ _ => True) disk := by
  have recoverable := preparing.recoverable (by decide)
  refine Script.Safe.check recoverable (fun _ _ => trivial) fun _ _ => ?_
  rw [Safe]
  refine Script.Safe.check recoverable (fun _ _ => trivial) fun _ _ => ?_
  refine Script.Safe.attempt ((safe_stageLocalObject unreserved (by decide) call.objectDraws
    call.source preparing).mono (fun _ holds => holds) ?_)
  rintro (failure | path) disk ends
  · trivial
  obtain ⟨objectText, objectDrawn, rfl, -, objectStaged⟩ := ends
  dsimp only
  rw [← PutCall.body]
  cases bound : bindLocalAttributes host (snapshotLocalAttributes call.key call.options)
      call.body.length (host.digest call.body) with
  | error failure =>
    exact (safe_abandon unreserved (by decide) failure [tempName objectText]
      objectStaged).mono (fun _ holds => holds) fun _ _ _ => trivial
  | ok attributes =>
    obtain ⟨rfl, bounded⟩ := bindLocalAttributes_eq_ok bound
    refine Script.Safe.bind ((safe_stageLocalAttributes unreserved (by decide)
      call.metadataDraws (call.metadata host) call.context objectStaged).mono
      (fun _ holds => holds) ?_)
    rintro (failure | path) disk ends
    · obtain ⟨view, preparing⟩ := ends
      exact (safe_abandon unreserved (by decide) failure [tempName objectText]
        preparing).mono (fun _ holds => holds) fun _ _ _ => trivial
    obtain ⟨metadataText, metadataDrawn, rfl, absent, bothStaged⟩ := ends
    have apart : tempName objectText ≠ tempName metadataText := by
      intro same
      rw [← same, update_self] at absent
      cases absent
    have objectReady : update (update view (.stage (tempName objectText))
        (some call.body)) (.stage (tempName metadataText)) (some (call.metadata host))
        (.stage (tempName objectText)) = some call.body := by
      rw [update_of_ne (by simpa using apart), update_self]
    refine Script.Safe.attempt ((safe_publishStagedLocalObject unreserved bothStaged objectDrawn
      metadataDrawn apart bounded objectReady (update_self _ _ _)).stopped.mono
      (fun _ holds => holds) ?_)
    rintro (failure | ⟨⟩) disk ⟨stopped, -⟩
    · trivial
    · rw [Safe]
      split_ifs
      · exact ⟨stopped, trivial⟩
      · exact ⟨stopped, trivial⟩

/-- A bucket without a file of the bucket's own but attributes: no journal, no
stage and no backup, of whatever key. -/
def Clean (disk : Disk) : Prop :=
  ∀ path ∈ disk, path ≠ localTransactionName ∧ path.head? ≠ some localStagingDirectoryName ∧
    ∀ name, path.getLast? = some name → ¬isLocalTempName name

theorem Clean.preparing (host : Host) (call : PutCall) (clean : Clean before) :
    ∃ view, Preparing host call before 0 view before ∧ ∀ name, view (.stage name) = none := by
  have absent (cell : Cell) (marked : ¬(cell.path host call.key ≠ localTransactionName ∧
      (cell.path host call.key).head? ≠ some localStagingDirectoryName ∧
      ∀ name, (cell.path host call.key).getLast? = some name → ¬isLocalTempName name)) :
      before.lookup (cell.path host call.key) = none :=
    Finmap.lookup_eq_none.mpr fun present => marked (clean _ present)
  have backup (kind : String) : before.lookup
      (localBackupPath host call.key (segments call.key) kind) = none := by
    refine Finmap.lookup_eq_none.mpr fun present => (clean _ present).2.2 _ ?_
      (isLocalTempName_localBackupName host call.key kind)
    simp [localBackupPath, sibling]
  have staged (name : Bytes) : before.lookup (Cell.path host call.key (.stage name)) = none :=
    absent _ fun marked => marked.2.1 rfl
  refine ⟨_, ⟨shows_self before, ⟨[], le_rfl, by simp, fun name present => ?_⟩, ?_, ?_⟩, staged⟩
  · exact absurd (staged name) present
  · exact absent .journal fun marked => marked.1 rfl
  · exact ⟨rfl, backup _, rfl, backup _⟩

theorem safe_put (clean : Clean before) :
    Safe (Recoverable host call before) (put host call) (fun _ _ => True) before := by
  obtain ⟨view, preparing, none⟩ := clean.preparing host call
  have recoverable := preparing.recoverable (by decide)
  refine Script.Safe.check recoverable (fun _ _ => trivial) fun _ _ => ?_
  refine Script.Safe.check recoverable (fun _ _ => trivial) ?_
  rintro ⟨clean, name⟩ found
  obtain ⟨accepted, rfl, rfl⟩ := localKey_eq_ok found
  have unreserved := not_reserved_of_cleanKey accepted
  have settled : Settled host call before .fresh view before :=
    ⟨preparing.shows, preparing.staged.mono (by decide), preparing.quiet, preparing.stands⟩
  refine Script.Safe.attempt (Script.Safe.mono
    (safe_lockAndRecover_settled call.context unreserved settled)
    (fun disk held => held.elim fun _ settled => settled.recoverable (Or.inl rfl)) ?_)
  rintro (failure | ⟨⟩) disk ends
  · trivial
  · obtain ⟨view, settled, empty⟩ := ends
    refine safe_putLocalObject unreserved ⟨settled.shows, ⟨[], le_rfl, by simp, ?_⟩, settled.quiet,
      settled.stands⟩
    exact fun name present => absurd (empty name) present

theorem safe_put_refused (refused : ¬∃ path, localKey call.key = .ok path) :
    Safe (· = before) (put host call) (fun _ _ => True) before := by
  refine Script.Safe.check rfl (fun _ _ => trivial) fun _ _ => ?_
  exact Script.Safe.check rfl (fun _ _ => trivial) fun path found => absurd ⟨path, found⟩ refused

/-- Recovery does nothing to a clean bucket. -/
theorem safe_lockAndRecover_clean (host : Host) (call : PutCall) (context : Context)
    (clean : Clean before) :
    Safe (· = before) (lockAndRecover host context)
      (Ends (Able host call before context) (· = before)) before := by
  have journal : before.lookup localTransactionName = none :=
    Finmap.lookup_eq_none.mpr fun present => (clean _ present).1 rfl
  have read : readLocalTransaction host context before = .ok none := by
    rw [readLocalTransaction, readBoundedLocalFile_none journal]
    rfl
  have entries : host.readDir before = [] := by
    refine eq_nil_iff_forall_not_mem.mpr fun name found => ?_
    exact (clean _ ((host.mem_readDir before name).mp found)).2.1 rfl
  have recovered : Safe (· = before) (recoverPendingLocalTransaction host context)
      (Ends (Able host call before context) (· = before)) before := by
    rw [recoverPendingLocalTransaction, Safe, read]
    exact ⟨rfl, rfl⟩
  have reclaimed : Safe (· = before) (reclaimLocalOrphanStages host context)
      (Ends (Able host call before context) (· = before)) before := by
    refine Script.Safe.check rfl (fun _ failed able => able.check failed) fun _ _ => ?_
    rw [Safe, protectedLocalTransactionStages, read]
    change Safe _ (if _ then _ else _) _ _
    split_ifs with occupied
    · exact ⟨rfl, fun able => able.directory occupied⟩
    · rw [collectLocalOrphanStages, entries]
      exact ⟨rfl, rfl⟩
  refine Script.Safe.check rfl (fun _ failed able => able.check failed) fun _ _ => ?_
  refine Ends.attempt recovered ?_
  rintro disk rfl
  exact reclaimed

/-- The object file and the attributes file of a key. -/
def filePair (host : Host) (key : Bytes) (disk : Disk) : Option Bytes × Option Bytes :=
  (disk.lookup (Cell.object.path host key), disk.lookup (Cell.attributes.path host key))

theorem not_isLocalTempName_localMetadataName (host : Host) (key : Bytes) :
    ¬isLocalTempName (localMetadataName host key) := by
  intro temporary
  rw [isLocalTempName, Bool.and_eq_true_iff] at temporary
  obtain ⟨rest, same⟩ := isPrefixOf_iff_prefix.mp temporary.1
  rw [localMetadataName, append_assoc] at same
  exact append_ne_of_take_ne 12 _ _ (by decide) (by decide) same

theorem staging_ne_localMetadataName (host : Host) (key : Bytes) :
    localStagingDirectoryName ≠ localMetadataName host key := by
  rw [localMetadataName, append_assoc, ← append_nil localStagingDirectoryName]
  exact append_ne_of_take_ne 12 _ _ (by decide) (by decide)

include unreserved in
/-- Object and attributes are no transient files. -/
theorem Clear.clean {slot : Slot} (resting : slot = .fresh ∨ slot = .cleaned)
    (clean : Clean before) (clear : Clear host call before slot disk) : Clean disk := by
  obtain ⟨view, settled, empty⟩ := clear
  have unsaved (old : Option Bytes) : slot.backup old = none := by
    rcases resting with rfl | rfl <;> rfl
  have gone {cell : Cell} (absent : view cell = none) : cell.path host call.key ∉ disk :=
    mt (settled.shows.mem_iff cell).mp (not_not.mpr absent)
  intro path present
  by_cases own : ∃ cell : Cell, path = cell.path host call.key
  · obtain ⟨cell, rfl⟩ := own
    cases cell with
    | objectBackup => exact absurd present (gone (settled.stands.objectBackup.trans (unsaved _)))
    | attributesBackup =>
      exact absurd present (gone (settled.stands.attributesBackup.trans (unsaved _)))
    | journal => exact absurd present (gone settled.quiet)
    | stage name => exact absurd present (gone (empty name))
    | object =>
      refine ⟨(journal_ne_object unreserved).symm, fun first => ?_, fun name last => ?_⟩
      · exact unreserved _ (mem_of_head? first) reserved_localStagingDirectoryName
      · exact fun temporary => unreserved name (mem_of_getLast? last)
          (reserved_of_isLocalTempName temporary)
    | attributes =>
      refine ⟨fun same => journal_ne_localMetadataName host call.key
        (journal_eq_sibling same.symm), fun first => ?_, fun name last => ?_⟩
      · have found : localStagingDirectoryName ∈ (segments call.key).dropLast ++
          [localMetadataName host call.key] := mem_of_head? first
        rcases mem_append.mp found with found | found
        · exact unreserved _ (dropLast_subset _ found) reserved_localStagingDirectoryName
        · exact staging_ne_localMetadataName host call.key (mem_singleton.mp found)
      · have same : localMetadataName host call.key = name := by
          simpa [Cell.path, localMetadataPath, sibling] using last
        exact same ▸ not_isLocalTempName_localMetadataName host call.key
  · rw [not_exists] at own
    rw [← Finmap.lookup_isSome, settled.shows.others path own, Finmap.lookup_isSome] at present
    exact clean path present

include unreserved in
/-- The files of another key are no cells of this one. -/
theorem Shows.others_pair (shows : Shows host call.key before view disk) {other : Bytes}
    (accepted : cleanKey other maxKeyBytes = .ok other) (apart : other ≠ call.key)
    (digests : host.sha256 other ≠ host.sha256 call.key) :
    filePair host other disk = filePair host other before := by
  have foreign := not_reserved_of_cleanKey accepted
  have object : ∀ cell : Cell, Cell.object.path host other ≠ cell.path host call.key := by
    intro cell same
    cases cell with
    | object => exact apart (segments_injective same)
    | attributes => exact object_ne_sibling _ foreign (reserved_localMetadataName host _) same
    | objectBackup | attributesBackup =>
      exact object_ne_sibling _ foreign (reserved_of_isLocalTempName
        (isLocalTempName_localBackupName host _ _)) same
    | journal => exact journal_ne_object foreign same.symm
    | stage name => exact stage_ne_object foreign name same.symm
  have last {path path' : Path} {name name' : Bytes} (same : sibling path name = sibling path' name') :
      name = name' := by
    simpa [sibling] using congrArg getLast? same
  have attributes : ∀ cell : Cell, Cell.attributes.path host other ≠ cell.path host call.key := by
    intro cell same
    cases cell with
    | object => exact object_ne_sibling _ unreserved (reserved_localMetadataName host _) same.symm
    | attributes => exact digests (localMetadataName_injective (last same))
    | objectBackup | attributesBackup =>
      exact localMetadataName_ne_localBackupName host other call.key _ (last same)
    | journal => exact journal_ne_localMetadataName host other (journal_eq_sibling same.symm)
    | stage name => exact stage_ne_sibling foreign same.symm
  rw [filePair, filePair, shows.others _ object, shows.others _ attributes]

/-- The outcome of a put that was cut off: the old pair or the new one, nothing
transient, and every other key as it was. -/
structure Atomic (host : Host) (call : PutCall) (before after : Disk) : Prop where
  pair : filePair host call.key after = filePair host call.key before ∨
    filePair host call.key after = (some call.body, some (call.metadata host))
  clean : Clean after
  others : ∀ other, cleanKey other maxKeyBytes = .ok other → other ≠ call.key →
    host.sha256 other ≠ host.sha256 call.key → filePair host other after = filePair host other before

include unreserved in
theorem Clear.atomic {slot : Slot} {after : Disk} (resting : slot = .fresh ∨ slot = .cleaned)
    (clean : Clean before) (clear : Clear host call before slot after) :
    Atomic host call before after := by
  refine ⟨?_, clear.clean unreserved resting clean, fun other accepted apart digests => ?_⟩
  · obtain ⟨view, settled, -⟩ := clear
    have object := (settled.shows.cells .object).trans settled.stands.objectTarget
    have attributes := (settled.shows.cells .attributes).trans settled.stands.attributesTarget
    rw [filePair, object, attributes]
    rcases resting with rfl | rfl
    · exact Or.inl rfl
    · exact Or.inr rfl
  · obtain ⟨view, settled, -⟩ := clear
    exact settled.shows.others_pair unreserved accepted apart digests

/-- A run of recovery that cannot fail completes, and any that completes is good. -/
theorem run_of_ends {able : Prop} {crash good : Disk → Prop} {program : Program Unit}
    (safe : Safe crash program (Ends able good) disk) :
    (∀ after, program.run disk = (.ok (), after) → good after) ∧
      (able → ∃ after, program.run disk = (.ok (), after)) := by
  have ends := safe.run
  refine ⟨fun after run => ?_, fun able => ?_⟩
  · rw [run] at ends
    exact ends
  · cases result : (program.run disk).1 with
    | error failure =>
      rw [result] at ends
      exact absurd able ends
    | ok value => exact ⟨(program.run disk).2, Prod.ext result rfl⟩

/-- Wherever a put stops and however often recovery stops after it, a recovery
that completes leaves the old pair or the new one, nothing transient and every
other key as it was; and with a live context, a textual key and attributes
within their bound it does complete. -/
theorem put_crash_atomic {crashed reached : Disk} (clean : Clean before)
    (reliable : Reliable host call before) (stopped : Script.Stops (put host call) before crashed)
    (recoveries : Relation.ReflTransGen
      (fun disk next => ∃ context, Script.Stops (lockAndRecover host context) disk next)
      crashed reached) (context : Context) :
    (∀ after, (lockAndRecover host context).run reached = (.ok (), after) →
      Atomic host call before after) ∧
    (Able host call before context →
      ∃ after, (lockAndRecover host context).run reached = (.ok (), after)) := by
  by_cases accepted : ∃ path, localKey call.key = .ok path
  · obtain ⟨path, found⟩ := accepted
    obtain ⟨accepted, -, -⟩ := localKey_eq_ok found
    have unreserved := not_reserved_of_cleanKey accepted
    have recoverable : Recoverable host call before reached := by
      induction recoveries with
      | refl => exact (safe_put clean).stops stopped
      | tail _ step ih =>
        obtain ⟨context, stops⟩ := step
        exact (safe_lockAndRecover context reliable accepted ih).stops stops
    obtain ⟨good, completes⟩ := run_of_ends
      (safe_lockAndRecover context reliable accepted recoverable)
    refine ⟨fun after run => ?_, completes⟩
    obtain ⟨slot, resting, clear⟩ := good after run
    exact clear.atomic unreserved resting clean
  · -- A refused key leaves the bucket alone, and so does recovery.
    have untouched : reached = before := by
      induction recoveries with
      | refl => exact (safe_put_refused accepted).stops stopped
      | tail _ step ih =>
        obtain ⟨context, stops⟩ := step
        subst ih
        exact (safe_lockAndRecover_clean host call context clean).stops stops
    subst untouched
    obtain ⟨good, completes⟩ := run_of_ends (safe_lockAndRecover_clean host call context clean)
    refine ⟨fun after run => ?_, completes⟩
    obtain rfl := good after run
    exact ⟨Or.inl rfl, clean, fun _ _ _ _ => rfl⟩

end Put

/-- The names in the staging directory, in order. -/
def sortedReadDir (disk : Disk) : List Bytes :=
  ((disk.keys.filter fun path => path = stage (path.getLast?.getD [])).image
    fun path => path.getLast?.getD []).sort (· ≤ ·)

theorem mem_sortedReadDir (disk : Disk) (name : Bytes) :
    name ∈ sortedReadDir disk ↔ stage name ∈ disk := by
  simp only [sortedReadDir, Finset.mem_sort, Finset.mem_image, Finset.mem_filter, Finmap.mem_keys]
  constructor
  · rintro ⟨path, ⟨present, staged⟩, rfl⟩
    exact staged ▸ present
  · intro present
    exact ⟨stage name, ⟨present, by simp [stage]⟩, by simp [stage]⟩

/-- The records of one put of `new` over `old` under the key `a`. -/
@[irreducible] def recordedAttributes : Bytes :=
  textBytes (
    "\x7b\"schema\":2,\"key\":\"a\",\"body_size\":3,\"body_sha256\":\"11507a0e2f5e69d5dfa40a6" ++
    "2a1bd7b6ee57e6bcd85c67c9b8431b36fff21c437\",\"content_type\":\"application/octet-stream" ++
    "\"\x7d")

@[irreducible] def recordedTransaction : Bytes :=
  textBytes (
    "\x7b\"schema\":1,\"key\":\"a\",\"object_stage\":\".golusoris-staging/.golusoris-put-AAAA" ++
    "AAAAAAAAAAAAAAAAAAAAAA.tmp\",\"metadata_stage\":\".golusoris-staging/.golusoris-put-BBBB" ++
    "BBBBBBBBBBBBBBBBBBBBBB.tmp\",\"body_size\":3,\"body_sha256\":\"11507a0e2f5e69d5dfa40a62a" ++
    "1bd7b6ee57e6bcd85c67c9b8431b36fff21c437\",\"metadata_sha256\":\"3d50bcea1d93a814d1922b49" ++
    "935477c1759216124b43fe0afff3bd72d207fc31\",\"had_object\":true,\"had_metadata\":false,\"" ++
    "object_backup\":\".golusoris-put-backup-object-ca978112ca1bbdcafac231b39a23dc4da786eff81" ++
    "47c4e72b9807785afee48bb.tmp\",\"metadata_backup\":\".golusoris-put-backup-metadata-ca978" ++
    "112ca1bbdcafac231b39a23dc4da786eff8147c4e72b9807785afee48bb.tmp\",\"object_target\":\"a" ++
    "\",\"metadata_target\":\".golusoris-meta-ca978112ca1bbdcafac231b39a23dc4da786eff8147c4e7" ++
    "2b9807785afee48bb.json\"\x7d")

/-- SHA-256 on the contents of that put. -/
def recordedSha256 (content : Bytes) : Vector UInt8 32 :=
  if content = textBytes "a" then
    #v[202, 151, 129, 18, 202, 27, 189, 202, 250, 194, 49, 179, 154, 35, 220, 77,
      167, 134, 239, 248, 20, 124, 78, 114, 185, 128, 119, 133, 175, 238, 72, 187]
  else if content = textBytes "old" then
    #v[203, 160, 107, 87, 54, 250, 246, 126, 84, 176, 123, 86, 30, 174, 148, 57,
      94, 119, 76, 81, 122, 125, 145, 10, 84, 54, 158, 18, 99, 204, 251, 212]
  else if content = textBytes "new" then
    #v[17, 80, 122, 14, 47, 94, 105, 213, 223, 164, 10, 98, 161, 189, 123, 110,
      229, 126, 107, 205, 133, 198, 124, 155, 132, 49, 179, 111, 255, 33, 196, 55]
  else if content = recordedAttributes then
    #v[61, 80, 188, 234, 29, 147, 168, 20, 209, 146, 43, 73, 147, 84, 119, 193,
      117, 146, 22, 18, 75, 67, 254, 10, 255, 243, 189, 114, 210, 7, 252, 49]
  else .replicate 32 0

/-- The host of that put before it can read its records back. -/
def writingHost : Host where
  sha256 := recordedSha256
  marshalTransaction _ := recordedTransaction
  decodeTransaction _ := .error .invalid
  marshalAttributes _ := recordedAttributes
  decodeAttributes _ := .error .invalid
  readDir := sortedReadDir
  mem_readDir := mem_sortedReadDir
  nodup_readDir _ := Finset.sort_nodup _ _

def recordedCall : PutCall where
  key := textBytes "a"
  source := { chunks := [textBytes "new"] }
  objectDraws := .replicate 4 (.replicate 26 0)
  metadataDraws := .replicate 4 (.replicate 26 1)
  journalDraws := .replicate 4 (.replicate 26 2)

def recordedBucket : Disk := Finmap.singleton [textBytes "a"] (textBytes "old")

def recordedHost : Host :=
  { writingHost with
    decodeTransaction := fun data =>
      if data = recordedTransaction then
        .ok (recordedCall.transaction writingHost recordedBucket (.replicate 26 0)
          (.replicate 26 1)).coerced
      else .error .invalid
    decodeAttributes := fun data =>
      if data = recordedAttributes then .ok (recordedCall.attributes writingHost)
      else .error .invalid }

theorem clean_recordedBucket : Clean recordedBucket := by
  intro path present
  obtain rfl : path = [textBytes "a"] := by simpa [recordedBucket] using present
  refine ⟨by decide, by decide, fun name last => ?_⟩
  obtain rfl : textBytes "a" = name := by simpa using last
  decide

/-- A transaction uses the digest and the attributes' text of its host only. -/
theorem transaction_congr (host other : Host) (call : PutCall) (before : Disk)
    (digests : host.sha256 = other.sha256) (texts : host.marshalAttributes = other.marshalAttributes)
    (objectText metadataText : RandomText) :
    call.transaction host before objectText metadataText =
      call.transaction other before objectText metadataText := by
  obtain ⟨sha256, _, _, marshalAttributes⟩ := host
  obtain ⟨_, _, _, _⟩ := other
  subst digests
  subst texts
  rfl

theorem recordedBucket_object :
    oldFile recordedHost recordedCall recordedBucket .object = some (textBytes "old") := by
  decide

theorem recordedBucket_attributes :
    oldFile recordedHost recordedCall recordedBucket .attributes = none := by
  decide

theorem recordedCall_metadata : recordedCall.metadata recordedHost = recordedAttributes := rfl

theorem recordedAttributes_ne_nil : recordedAttributes ≠ [] := by
  unfold recordedAttributes
  simp [textBytes]

theorem reliable_recorded : Reliable recordedHost recordedCall recordedBucket where
  keys _ := by decide
  objects old found same := by
    obtain rfl := Option.some.inj (recordedBucket_object.symm.trans found)
    exact absurd same (by decide)
  attributes old found _ := by
    cases recordedBucket_attributes.symm.trans found
  transactionJson objectText objectDrawn metadataText metadataDrawn := by
    obtain rfl : objectText = .replicate 26 0 := by simpa [recordedCall] using objectDrawn
    obtain rfl : metadataText = .replicate 26 1 := by simpa [recordedCall] using metadataDrawn
    rw [transaction_congr recordedHost writingHost recordedCall recordedBucket rfl rfl]
    exact if_pos rfl
  attributesText := by
    rw [recordedCall_metadata]
    exact recordedAttributes_ne_nil
  attributesJson := by
    have key : Utf8.coerce recordedCall.key = recordedCall.key := by decide
    have content : Utf8.coerce (recordedCall.attributes recordedHost).contentType =
        defaultContentType := Utf8.coerce_ascii (Utf8.ascii_of_all (by decide))
    refine ⟨∅, ?_⟩
    rw [recordedCall_metadata, key, content, coerce_digest]
    exact if_pos rfl

theorem able_recorded : Able recordedHost recordedCall recordedBucket fun _ => false where
  live _ := rfl
  valid := by decide
  segments := by decide
  bounded old found := by
    cases recordedBucket_attributes.symm.trans found
  directory := by decide

/-- The put is cut off with the old object moved aside and the new one not yet in
place; one recovery brings a whole pair back. -/
theorem put_crash_atomic_moved :
    ∃ after, (lockAndRecover recordedHost fun _ => false).run
        ((put recordedHost recordedCall).runFor 9 recordedBucket) = (.ok (), after) ∧
      Atomic recordedHost recordedCall recordedBucket after := by
  obtain ⟨good, completes⟩ := put_crash_atomic clean_recordedBucket reliable_recorded
    (Script.stops_runFor (put recordedHost recordedCall) 9 recordedBucket) .refl fun _ => false
  obtain ⟨after, run⟩ := completes able_recorded
  exact ⟨after, run, good after run⟩

end Golusoris.Storage
