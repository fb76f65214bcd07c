import Golusoris.Tus.Handler

/-!
# Coherent uploads

One invariant of an upload carries what is claimed of its completion: what the
record says of the scratch files, what has happened by each stage, and where the
call that holds the lock stands. `Past` is what the run so far says of the
upload. The invariant is kept by every step except the termination of an upload
whose record still needs the scratch files.
-/

namespace Golusoris.Tus.Completion

open Lib

variable {sha : Sha256} {keyFn : KeyFunc}

/-- The record is the one of these scratch files, and they are complete. -/
structure Settled (sha : Sha256) (keyFn : KeyFunc) (id : Text) (record : CompletionRecord)
    (content : Bytes) (info : Info) : Prop where
  complete : info.size = some content.length
  bounded : content.length ≠ maxInt64
  key : resolveKey keyFn info = some record.upload.key
  upload : record.upload =
    ⟨id, record.upload.key, content.length, hexEncode (sha.sum content), info.metaData⟩

/-- What has happened to an upload. -/
structure Past where
  terminated : Prop
  registered : Text → Prop
  delivers : List Text → Prop
  returned : Text → Prop
  checkpointed : Text → Prop
  held : CompletionUpload → Prop

/-- Everything that has happened still has, and no callback was checkpointed since. -/
structure Past.Extends (earlier later : Past) : Prop where
  terminated : earlier.terminated → later.terminated
  registered : ∀ {callback}, earlier.registered callback → later.registered callback
  delivers : ∀ {callbacks}, earlier.delivers callbacks → later.delivers callbacks
  returned : ∀ {callback}, earlier.returned callback → later.returned callback
  checkpointed : ∀ {callback}, later.checkpointed callback → earlier.checkpointed callback
  held : ∀ {upload}, earlier.held upload → later.held upload

/-- `runCallbacks` in its loop. -/
structure Calling (past : Past) (saved : Option CompletionRecord) (record : CompletionRecord)
    (rest callbacks : List Text) : Prop where
  current : saved = some record
  stage : record.stage = .persisted
  delivers : past.delivers callbacks
  before : ∀ callback ∈ callbacks, callback ∈ rest ∨ past.returned callback
  known : ∀ callback ∈ rest, past.registered callback ∧ validateCallbackID callback = true

/-- Every callback of the delivery has returned nil. -/
structure Delivered (past : Past) (saved : Option CompletionRecord) (callbacks : List Text) :
    Prop where
  current : ∃ record, saved = some record ∧ record.stage = .persisted
  delivers : past.delivers callbacks
  returned : ∀ callback ∈ callbacks, past.returned callback

def Upload.file (upload : Upload) : File → Bool
  | .data => upload.data.isSome
  | .info => upload.info.isSome

/-- What the call that holds the lock has established. -/
def Stands (sha : Sha256) (keyFn : KeyFunc) (id : Text) (past : Past) (upload : Upload) :
    Work → Prop
  | .creating info => info.id = id ∧ upload.info = none ∧ upload.record = none ∧
      ∀ callback, ¬past.checkpointed callback
  | .finishing => ∃ content info, upload.data = some content ∧ upload.info = some info ∧
      info.size = some content.length
  | .preparing record => upload.record = none ∧ record.stage = .prepared ∧
      record.completedCallbackIDs = [] ∧ ∃ content info, upload.data = some content ∧
      upload.info = some info ∧ Settled sha keyFn id record content info
  | .resuming record => upload.record = some record
  | .reconciling record | .putting record =>
      upload.record = some record ∧ record.stage = .putting
  | .persisting record =>
      upload.record = some record ∧ record.stage = .putting ∧ past.held record.upload
  | .delivering => True
  | .calling record rest callbacks => Calling past upload.record record rest callbacks
  | .called record callback rest callbacks =>
      Calling past upload.record record (callback :: rest) callbacks ∧
      callback ∉ record.completedCallbackIDs
  | .checkpointing record callback rest callbacks =>
      Calling past upload.record record (callback :: rest) callbacks ∧
      callback ∉ record.completedCallbackIDs ∧ past.returned callback
  | .removing (.delivery callbacks) files failed => Delivered past upload.record callbacks ∧
      (failed = false → ∀ file, file ∉ files → upload.file file = false)
  | .removing .expiry _ _ => upload.record = none
  | .removing .termination _ _ => past.terminated ∧
      ∀ record, upload.record = some record → record.stage = .persisted
  | .acknowledging callbacks => Delivered past upload.record callbacks ∧
      upload.data = none ∧ upload.info = none

/-- The upload is over: it has no record and cannot get one. -/
def Gone (upload : Upload) : Prop :=
  upload.created = true ∧ upload.record = none ∧ (upload.data = none ∨ upload.info = none)

structure Coherent (sha : Sha256) (keyFn : KeyFunc) (id : Text) (past : Past)
    (upload : Upload) : Prop where
  unborn : upload.created = false →
    upload.data = none ∧ upload.info = none ∧ upload.record = none ∧ upload.work = none
  named : ∀ info, upload.info = some info → info.id = id
  valid : ∀ record, upload.record = some record →
    record.upload.id = id ∧ record.validate = true
  present : ∀ record, upload.record = some record → record.stage ≠ .persisted →
    upload.data ≠ none ∧ upload.info ≠ none
  settled : ∀ record content info, upload.record = some record → upload.data = some content →
    upload.info = some info → Settled sha keyFn id record content info
  completed : ∀ record, upload.record = some record → ∀ callback ∈ record.completedCallbackIDs,
    past.returned callback ∧ past.registered callback
  held : ∀ record, upload.record = some record → record.stage = .persisted →
    past.held record.upload
  checkpoints : ∀ callback, past.checkpointed callback →
    (∃ record, upload.record = some record ∧ callback ∈ record.completedCallbackIDs) ∨
      Gone upload
  work : ∀ work, upload.work = some work → Stands sha keyFn id past upload work

variable {id : Text} {past later : Past} {upload : Upload}

variable {record : CompletionRecord} {callbacks : List Text}

theorem Calling.mono {saved : Option CompletionRecord} {rest : List Text}
    (calling : Calling past saved record rest callbacks) (extends_ : past.Extends later) :
    Calling later saved record rest callbacks where
  current := calling.current
  stage := calling.stage
  delivers := extends_.delivers calling.delivers
  before callback member := (calling.before callback member).imp_right extends_.returned
  known callback member := (calling.known callback member).imp_left extends_.registered

theorem Delivered.mono {saved : Option CompletionRecord}
    (delivered : Delivered past saved callbacks) (extends_ : past.Extends later) :
    Delivered later saved callbacks where
  current := delivered.current
  delivers := extends_.delivers delivered.delivers
  returned callback member := extends_.returned (delivered.returned callback member)

variable {work : Work}

theorem Stands.mono (stands : Stands sha keyFn id past upload work)
    (extends_ : past.Extends later) : Stands sha keyFn id later upload work := by
  cases work with
  | creating info =>
    exact ⟨stands.1, stands.2.1, stands.2.2.1,
      fun callback done => stands.2.2.2 callback (extends_.checkpointed done)⟩
  | finishing | preparing _ | resuming _ | reconciling _ | putting _ => exact stands
  | persisting record => exact ⟨stands.1, stands.2.1, extends_.held stands.2.2⟩
  | delivering => trivial
  | calling record rest callbacks => exact Calling.mono stands extends_
  | called _ _ _ _ | acknowledging _ => exact ⟨stands.1.mono extends_, stands.2⟩
  | checkpointing record callback rest callbacks =>
    exact ⟨stands.1.mono extends_, stands.2.1, extends_.returned stands.2.2⟩
  | removing cause files failed =>
    cases cause with
    | delivery callbacks => exact ⟨stands.1.mono extends_, stands.2⟩
    | expiry => exact stands
    | termination => exact ⟨extends_.terminated stands.1, stands.2⟩

variable (coherent : Coherent sha keyFn id past upload)

include coherent in
theorem Coherent.mono (extends_ : past.Extends later) : Coherent sha keyFn id later upload where
  unborn := coherent.unborn
  named := coherent.named
  valid := coherent.valid
  present := coherent.present
  settled := coherent.settled
  completed record saved callback member :=
    (coherent.completed record saved callback member).imp extends_.returned extends_.registered
  held record saved stage := extends_.held (coherent.held record saved stage)
  checkpoints callback done := coherent.checkpoints callback (extends_.checkpointed done)
  work work stands := (coherent.work work stands).mono extends_

include coherent in
/-- The lock is released. -/
theorem Coherent.release : Coherent sha keyFn id past { upload with work := none } where
  unborn fresh := ⟨(coherent.unborn fresh).1, (coherent.unborn fresh).2.1,
    (coherent.unborn fresh).2.2.1, rfl⟩
  named := coherent.named
  valid := coherent.valid
  present := coherent.present
  settled := coherent.settled
  completed := coherent.completed
  held := coherent.held
  checkpoints := coherent.checkpoints
  work := by rintro work ⟨⟩

include coherent in
/-- A call goes on without a durable operation. -/
theorem Coherent.move (born : upload.created = true)
    (stands : Stands sha keyFn id past upload work) :
    Coherent sha keyFn id past { upload with work := some work } where
  unborn fresh := absurd (born.symm.trans fresh) (by decide)
  named := coherent.named
  valid := coherent.valid
  present := coherent.present
  settled := coherent.settled
  completed := coherent.completed
  held := coherent.held
  checkpoints := coherent.checkpoints
  work := by
    rintro _ ⟨⟩
    exact stands

include coherent in
theorem Coherent.born_of_work (busy : upload.work = some work) : upload.created = true := by
  by_contra fresh
  have idle := (coherent.unborn (Bool.not_eq_true _ ▸ fresh)).2.2.2
  rw [busy] at idle
  cases idle

variable {content : Bytes}

include coherent in
theorem Coherent.born_of_data (data : upload.data = some content) : upload.created = true := by
  by_contra fresh
  have absent := (coherent.unborn (Bool.not_eq_true _ ▸ fresh)).1
  rw [data] at absent
  cases absent

variable {info : Info}

theorem Upload.get_spec (found : upload.get id = some (content, info)) :
    upload.data = some content ∧ upload.info = some info := by
  unfold Upload.get at found
  cases data : upload.data with
  | none => cases described : upload.info <;> simp [data, described] at found
  | some bytes =>
    cases described : upload.info with
    | none => simp [data, described] at found
    | some value =>
      simp only [data, described, Option.ite_none_right_eq_some, Option.some.injEq,
        Prod.mk.injEq] at found
      exact ⟨by rw [found.2.1], by rw [found.2.2]⟩

theorem Upload.completion_spec (loaded : upload.completion id = some (some record)) :
    upload.record = some record := by
  unfold Upload.completion at loaded
  cases saved : upload.record with
  | none => simp [saved] at loaded
  | some value =>
    simp only [saved, Option.ite_none_right_eq_some, Option.some.injEq] at loaded
    rw [loaded.2]

theorem Upload.completion_none (absent : upload.completion id = some none) :
    upload.record = none := by
  unfold Upload.completion at absent
  cases saved : upload.record with
  | none => rfl
  | some value => simp [saved] at absent

theorem Upload.complete_spec (data : upload.data = some content)
    (described : upload.info = some info) :
    upload.complete = true ↔ info.size = some content.length := by
  simp [Upload.complete, data, described]

include coherent in
/-- The callbacks checkpointed so far are those of the record. -/
theorem Coherent.checkpoints_current (saved : upload.record = some record) {callback : Text}
    (done : past.checkpointed callback) : callback ∈ record.completedCallbackIDs := by
  rcases coherent.checkpoints callback done with ⟨other, savedOther, member⟩ | gone
  · obtain rfl : other = record := Option.some.inj (savedOther.symm.trans saved)
    exact member
  · rw [gone.2.1] at saved
    cases saved

include coherent in
/-- An upload with its files and no record has no callback checkpointed. -/
theorem Coherent.checkpoints_none (unsaved : upload.record = none) (data : upload.data ≠ none)
    (described : upload.info ≠ none) {callback : Text} : ¬past.checkpointed callback := by
  intro done
  rcases coherent.checkpoints callback done with ⟨record, saved, _⟩ | gone
  · rw [unsaved] at saved
    cases saved
  · rcases gone.2.2 with absent | absent
    · exact data absent
    · exact described absent

include coherent in
/-- A record is saved. -/
theorem Coherent.save (born : upload.created = true)
    (named : record.upload.id = id) (valid : record.validate = true)
    (present : record.stage ≠ .persisted → upload.data ≠ none ∧ upload.info ≠ none)
    (settled : ∀ content info, upload.data = some content → upload.info = some info →
      Settled sha keyFn id record content info)
    (completed : ∀ callback ∈ record.completedCallbackIDs,
      later.returned callback ∧ later.registered callback)
    (held : record.stage = .persisted → later.held record.upload)
    (checkpoints : ∀ callback, later.checkpointed callback → callback ∈ record.completedCallbackIDs)
    (stands : Stands sha keyFn id later { upload with record := some record } work) :
    Coherent sha keyFn id later { upload with record := some record, work := some work } where
  unborn fresh := absurd (born.symm.trans fresh) (by decide)
  named := coherent.named
  valid := by
    rintro _ ⟨⟩
    exact ⟨named, valid⟩
  present := by
    rintro _ ⟨⟩
    exact present
  settled := by
    rintro _ content info ⟨⟩ data described
    exact settled content info data described
  completed := by
    rintro _ ⟨⟩
    exact completed
  held := by
    rintro _ ⟨⟩
    exact held
  checkpoints callback done := .inl ⟨record, rfl, checkpoints callback done⟩
  work := by
    rintro _ ⟨⟩
    exact stands

/-- The record advances and keeps what it says of the files. -/
theorem Settled.advance {next : CompletionRecord}
    (settled : Settled sha keyFn id record content info) (same : next.upload = record.upload) :
    Settled sha keyFn id next content info where
  complete := settled.complete
  bounded := settled.bounded
  key := same ▸ settled.key
  upload := by
    rw [same]
    exact settled.upload

include coherent in
/-- An upload without a record changes its files before it is complete. -/
theorem Coherent.write (unsaved : upload.record = none) (idle : upload.work = none)
    (data : upload.data = some content) (described : upload.info = some info)
    {written : Option Bytes} {rewritten : Option Info}
    (named : ∀ info, rewritten = some info → info.id = id) :
    Coherent sha keyFn id past { upload with data := written, info := rewritten } where
  unborn fresh := absurd ((coherent.born_of_data data).symm.trans fresh) (by decide)
  named := named
  valid record saved := by
    rw [unsaved] at saved
    cases saved
  present record saved := by
    rw [unsaved] at saved
    cases saved
  settled record content info saved := by
    rw [unsaved] at saved
    cases saved
  completed record saved := by
    rw [unsaved] at saved
    cases saved
  held record saved := by
    rw [unsaved] at saved
    cases saved
  checkpoints callback done := by
    refine absurd done (coherent.checkpoints_none unsaved ?_ ?_)
    · simp [data]
    · simp [described]
  work work busy := by
    rw [idle] at busy
    cases busy

include coherent in
/-- Removing a file, for one of the three reasons. -/
theorem Coherent.remove {cause : Cause} {file : File} {rest : List File} {failed : Bool}
    (stands : upload.work = some (.removing cause (file :: rest) failed)) :
    Coherent sha keyFn id past
      { upload.remove file with work := some (.removing cause rest failed) } := by
  have established := coherent.work _ stands
  have born := coherent.born_of_work stands
  have stage : ∀ record, upload.record = some record → record.stage = .persisted := by
    intro record saved
    cases cause with
    | delivery callbacks =>
      obtain ⟨other, savedOther, persisted⟩ := established.1.current
      obtain rfl : other = record := Option.some.inj (savedOther.symm.trans saved)
      exact persisted
    | expiry =>
      rw [show upload.record = none from established] at saved
      cases saved
    | termination => exact established.2 record saved
  cases file with
  | data =>
    refine ⟨fun fresh => absurd (born.symm.trans fresh) (by decide), coherent.named,
      coherent.valid, fun record saved unfinished => absurd (stage record saved) unfinished,
      ?_, coherent.completed, coherent.held, ?_, ?_⟩
    · rintro record content info _ ⟨⟩
    · intro callback done
      exact (coherent.checkpoints callback done).imp_right fun gone => ⟨gone.1, gone.2.1, .inl rfl⟩
    · rintro _ ⟨⟩
      cases cause with
      | delivery callbacks =>
        refine ⟨established.1, fun clean other gone => ?_⟩
        cases other with
        | data => rfl
        | info => exact established.2 clean .info (by simpa using gone)
      | expiry | termination => exact established
  | info =>
    refine ⟨fun fresh => absurd (born.symm.trans fresh) (by decide), ?_, coherent.valid,
      fun record saved unfinished => absurd (stage record saved) unfinished, ?_,
      coherent.completed, coherent.held, ?_, ?_⟩
    · rintro info ⟨⟩
    · rintro record content info _ _ ⟨⟩
    · intro callback done
      exact (coherent.checkpoints callback done).imp_right fun gone => ⟨gone.1, gone.2.1, .inr rfl⟩
    · rintro _ ⟨⟩
      cases cause with
      | delivery callbacks =>
        refine ⟨established.1, fun clean other gone => ?_⟩
        cases other with
        | data => exact established.2 clean .data (by simpa using gone)
        | info => rfl
      | expiry | termination => exact established

include coherent in
/-- The record is deleted after the files. -/
theorem Coherent.delete (stands : upload.work = some (.acknowledging callbacks)) :
    Coherent sha keyFn id past { upload with record := none, work := none } := by
  have born := coherent.born_of_work stands
  obtain ⟨_, data, described⟩ := coherent.work _ stands
  exact {
    unborn := fun fresh => absurd (born.symm.trans fresh) (by decide)
    named := coherent.named
    valid := nofun
    present := nofun
    settled := nofun
    completed := nofun
    held := nofun
    checkpoints := fun callback done => .inr ⟨born, rfl, .inl data⟩
    work := by rintro _ ⟨⟩ }

end Golusoris.Tus.Completion
