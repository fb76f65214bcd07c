import Golusoris.Tus.Termination

/-!
# Durable completion

From every coherent state with a record, a completion that meets no failure goes
to its end: the chain below follows `ResumeCompletion` backwards, from the
deletion of the record to the free lock. The number of callback ids that a record
can hold is bounded, so the callbacks of the run must be as few.
-/

namespace Golusoris.Tus.Completion

open List
open Lib
open State
open CompletionRecord

variable {sha : Sha256} {keyFn : KeyFunc} {history : List Label} {label : Label}
variable {state next : State} {id : Text} {record : CompletionRecord}

@[simp] theorem State.set_self (upload : Upload) : (state.set id upload).uploads id = upload := by
  simp [set]

@[simp] theorem State.move_self (work : Option Work) :
    (state.move id work).uploads id = { state.uploads id with work := work } := by
  simp [move]

theorem State.set_work (upload : Upload) :
    ((state.set id upload).uploads id).work = upload.work := by
  simp

theorem State.move_work (work : Option Work) : ((state.move id work).uploads id).work = work := by
  simp

/-- A failure, or an interference with the completion. -/
def Label.disturbs : Label → Bool
  | .crashed | .bucketChanged _ | .failed _ | .expired _ | .terminated _ _ => true
  | _ => false

/-- Without a disturbance the record gets deleted. -/
def Completes (sha : Sha256) (keyFn : KeyFunc) (state : State) (id : Text) : Prop :=
  ∃ labels finish, (handler sha keyFn).Trace state labels finish ∧
    (∀ label ∈ labels, label.disturbs = false) ∧ (finish.uploads id).record = none

theorem Completes.step (rest : Completes sha keyFn next id)
    (step : Step sha keyFn state label next) (quiet : label.disturbs = false) :
    Completes sha keyFn state id := by
  obtain ⟨labels, finish, trace, undisturbed, deleted⟩ := rest
  refine ⟨label :: labels, finish, .cons step trace, ?_, deleted⟩
  intro other member
  rcases mem_cons.mp member with rfl | member
  · exact quiet
  · exact undisturbed other member

theorem CompletionRecord.validate_iff :
    record.validate = true ↔ record.version = completionRecordVersion ∧
      validateCompletionUpload record.upload (record.stage ≠ .persisted) = true ∧
      validateCompletedCallbackIDs record.completedCallbackIDs = true := by
  simp [validate]

theorem validateCompletedCallbackIDs_iff {ids : List Text} :
    validateCompletedCallbackIDs ids = true ↔ ids.length ≤ maxCompletionCallbacks ∧
      (∀ callback ∈ ids, validateCallbackID callback = true) ∧ ids.Nodup := by
  simp [validateCompletedCallbackIDs, all_eq_true]

theorem validate_putting (valid : record.validate = true) (stage : record.stage = .prepared) :
    { record with stage := .putting : CompletionRecord }.validate = true := by
  obtain ⟨version, upload, callbacks⟩ := validate_iff.mp valid
  refine validate_iff.mpr ⟨version, ?_, callbacks⟩
  simpa [stage] using upload

theorem validate_persisted (valid : record.validate = true) :
    { record with stage := .persisted : CompletionRecord }.validate = true := by
  obtain ⟨version, upload, callbacks⟩ := validate_iff.mp valid
  refine validate_iff.mpr ⟨version, ?_, callbacks⟩
  simp only [validateCompletionUpload, decide_eq_true_eq] at upload ⊢
  exact ⟨upload.1, by simp, upload.2.2⟩

/-- One more callback of few enough can be checkpointed. -/
theorem validate_checkpoint {callbacks : List Text} (valid : record.validate = true)
    (few : callbacks.length ≤ maxCompletionCallbacks)
    (known : ∀ callback ∈ record.completedCallbackIDs, callback ∈ callbacks) {callback : Text}
    (member : callback ∈ callbacks) (named : validateCallbackID callback = true)
    (due : callback ∉ record.completedCallbackIDs) :
    { record with completedCallbackIDs := record.completedCallbackIDs ++ [callback] :
      CompletionRecord }.validate = true := by
  obtain ⟨version, upload, completed⟩ := validate_iff.mp valid
  obtain ⟨_, each, nodup⟩ := validateCompletedCallbackIDs_iff.mp completed
  refine validate_iff.mpr ⟨version, upload, ?_⟩
  have distinct : (record.completedCallbackIDs ++ [callback]).Nodup := by
    rw [nodup_append]
    refine ⟨nodup, nodup_singleton callback, ?_⟩
    rintro other before _ last rfl
    exact due (mem_singleton.mp last ▸ before)
  have subset : record.completedCallbackIDs ++ [callback] ⊆ callbacks := by
    intro other found
    rcases mem_append.mp found with before | last
    · exact known other before
    · exact mem_singleton.mp last ▸ member
  refine validateCompletedCallbackIDs_iff.mpr
    ⟨(distinct.length_le_of_subset subset).trans few, ?_, distinct⟩
  intro other found
  rcases mem_append.mp found with before | last
  · exact each other before
  · exact mem_singleton.mp last ▸ named

theorem completes_acknowledging {callbacks : List Text}
    (stands : (state.uploads id).work = some (.acknowledging callbacks)) :
    Completes sha keyFn state id :=
  ⟨[_], _, .singleton (.deleted stands), by simp [Label.disturbs], by simp⟩

theorem completes_removing {callbacks : List Text} {files : List File}
    (stands : (state.uploads id).work = some (.removing (.delivery callbacks) files false)) :
    Completes sha keyFn state id := by
  induction files generalizing state with
  | nil =>
    have rest : Completes sha keyFn (state.move id (some (.acknowledging callbacks))) id :=
      completes_acknowledging (move_work _)
    exact rest.step (.cleaned stands) rfl
  | cons file files ih =>
    have rest : Completes sha keyFn
        (state.set id { (state.uploads id).remove file with
          work := some (.removing (.delivery callbacks) files false) }) id :=
      ih (set_work _)
    exact rest.step (.removed stands) rfl

/-- The callbacks registered in the run are among these few. -/
structure Few (callbacks : List Text) (history : List Label) : Prop where
  few : callbacks.length ≤ maxCompletionCallbacks
  known : ∀ callback, .registered callback ∈ history → callback ∈ callbacks

theorem Few.snoc {callbacks : List Text} (few : Few callbacks history)
    (quiet : ∀ callback, label ≠ .registered callback) : Few callbacks (history ++ [label]) where
  few := few.few
  known := by
    intro callback member
    rcases mem_append.mp member with before | last
    · exact few.known callback before
    · exact absurd (mem_singleton.mp last).symm (quiet callback)

variable {universe_ : List Text}

variable (sound : Sound sha keyFn history state) (few : Few universe_ history)

include sound few in
theorem completes_calling {rest callbacks : List Text}
    (stands : (state.uploads id).work = some (.calling record rest callbacks)) :
    Completes sha keyFn state id := by
  induction rest generalizing state history record with
  | nil =>
    have rest : Completes sha keyFn
        (state.move id (some (.removing (.delivery callbacks) [.data, .info] false))) id :=
      completes_removing (move_work _)
    exact rest.step (.cleanup stands) rfl
  | cons callback rest ih =>
    by_cases done : callback ∈ record.completedCallbackIDs
    · have step : Step sha keyFn state (.progressed id)
          (state.move id (some (.calling record rest callbacks))) := .skip stands done
      exact (ih (sound_step sound step rfl) (few.snoc (by simp)) (move_work _)).step step rfl
    · -- The callback runs, returns nil and is checkpointed.
      have coherent := sound.uploads id
      have calling : Calling _ _ _ _ _ := coherent.work _ stands
      have known := calling.known callback mem_cons_self
      have ran : Step sha keyFn state (.ran id callback record.upload.completed)
          (state.move id (some (.called record callback rest callbacks))) := .ran stands done
      have returned : Step sha keyFn _ (.returned id callback)
          ((state.move id (some (.called record callback rest callbacks))).move id
            (some (.checkpointing record callback rest callbacks))) := .returned (by simp)
      have valid := validate_checkpoint (coherent.valid record calling.current).2 few.few
        (fun other member => few.known other
          (coherent.completed record calling.current other member).2)
        (few.known callback known.1) known.2 done
      have checkpointed := @Step.checkpointed sha keyFn
        ((state.move id (some (.called record callback rest callbacks))).move id
          (some (.checkpointing record callback rest callbacks)))
        id callback record _ rest callbacks (by simp) rfl valid
      have after := ih
        (sound_step (sound_step (sound_step sound ran rfl) returned rfl) checkpointed rfl)
        (((few.snoc (by simp)).snoc (by simp)).snoc (by simp)) (set_work _)
      exact ((after.step checkpointed rfl).step returned rfl).step ran rfl

include sound few in
theorem completes_delivering {callbacks : List Text} (running : state.callbacks = some callbacks)
    (stands : (state.uploads id).work = some .delivering)
    (saved : (state.uploads id).record = some record) (stage : record.stage = .persisted) :
    Completes sha keyFn state id := by
  have valid := (sound.uploads id).valid record saved
  have loaded : (state.uploads id).completion id = some (some record) := by
    simp [Upload.completion, saved, valid]
  have step : Step sha keyFn state (.delivers id callbacks)
      (state.move id (some (.calling record callbacks callbacks))) :=
    .delivers stands loaded stage running
  have rest := completes_calling (sound_step sound step rfl) (few.snoc (by simp)) (move_work _)
  exact rest.step step rfl

include sound few in
theorem completes_persisting {callbacks : List Text} (running : state.callbacks = some callbacks)
    (stands : (state.uploads id).work = some (.persisting record)) :
    Completes sha keyFn state id := by
  have coherent := sound.uploads id
  obtain ⟨saved, _, _⟩ := coherent.work _ stands
  have step := @Step.persisted sha keyFn state id record _ stands rfl
    (validate_persisted (coherent.valid record saved).2)
  have rest := @completes_delivering sha keyFn _ _ id { record with stage := .persisted } _
    (sound_step sound step rfl) (few.snoc (by simp)) callbacks running (set_work _)
    (by simp) rfl
  exact rest.step step rfl

/-- The probe of the destination decides. -/
theorem objectMatchesScratch_decides {content : Bytes} {info : Info} (found : Option Object)
    (settled : Settled sha keyFn id record content info) :
    objectMatchesScratch sha found record.upload = some false ∨
      ∃ object, found = some object ∧
        objectMatchesScratch sha (some object) record.upload = some true := by
  cases found with
  | none => exact .inl rfl
  | some object =>
    by_cases other : object.content.length ≠ record.upload.size ∨
        ¬objectAttributesMatch object record.upload.metaData = true
    · exact .inl (by simp only [objectMatchesScratch, if_pos other])
    · have digest : completionDigest record.upload = some (sha.sum content) := by
        rw [completionDigest, settled.upload]
        exact decodeDigest_sum sha content
      have size : record.upload.size = content.length := by
        rw [settled.upload]
      have hashed : hashExact sha object.content record.upload.size =
          some (sha.sum object.content) := by
        simp only [not_or, not_not] at other
        simp [hashExact, other.1, size, settled.bounded]
      have decided : objectMatchesScratch sha (some object) record.upload =
          some (decide (sha.sum object.content = sha.sum content)) := by
        simp only [objectMatchesScratch, if_neg other, digest, hashed]
        rfl
      by_cases same : sha.sum object.content = sha.sum content
      · exact .inr ⟨object, rfl, by simp [decided, same]⟩
      · exact .inl (by simp [decided, same])

theorem verifyScratchIdentity_settled {content : Bytes} {info : Info}
    (settled : Settled sha keyFn id record content info) :
    verifyScratchIdentity sha content record.upload = true := by
  have digest : completionDigest record.upload = some (sha.sum content) := by
    rw [completionDigest, settled.upload]
    exact decodeDigest_sum sha content
  have hashed : hashExact sha content record.upload.size = some (sha.sum content) := by
    rw [settled.upload]
    simp [hashExact, settled.bounded]
  simp [verifyScratchIdentity, digest, hashed]

include sound few in
theorem completes_reconciling {callbacks : List Text} (running : state.callbacks = some callbacks)
    (stands : (state.uploads id).work = some (.reconciling record)) :
    Completes sha keyFn state id := by
  have coherent := sound.uploads id
  obtain ⟨saved, stage⟩ := coherent.work _ stands
  obtain ⟨present, described⟩ := coherent.present record saved (by simp [stage])
  obtain ⟨content, data⟩ := Option.ne_none_iff_exists'.mp present
  obtain ⟨info, described⟩ := Option.ne_none_iff_exists'.mp described
  have settled := coherent.settled record content info saved data described
  have intact := verifyScratchIdentity_settled settled
  rcases objectMatchesScratch_decides (state.bucket record.upload.key) settled with
    differs | ⟨object, held, same⟩
  · have probed : Step sha keyFn state (.progressed id) (state.move id (some (.putting record))) :=
      .differs stands data intact differs
    have size : content.length = record.upload.size := by
      rw [settled.upload]
    have put := @Step.put sha keyFn (state.move id (some (.putting record))) id record content
      (move_work _) (by simpa using data) size
    have after := completes_persisting (sound_step (sound_step sound probed rfl) put rfl)
      ((few.snoc (by simp)).snoc (by simp)) running (move_work _)
    exact (after.step put rfl).step probed rfl
  · have probed : Step sha keyFn state (.matched id object content)
        (state.move id (some (.persisting record))) := .matched stands data intact held same
    have after := completes_persisting (sound_step sound probed rfl) (few.snoc (by simp)) running
      (move_work _)
    exact after.step probed rfl

include sound few in
theorem completes_resuming {callbacks : List Text} (running : state.callbacks = some callbacks)
    (stands : (state.uploads id).work = some (.resuming record)) :
    Completes sha keyFn state id := by
  have coherent := sound.uploads id
  have saved : (state.uploads id).record = some record := coherent.work _ stands
  cases stage : record.stage with
  | prepared =>
    have step := @Step.attempt sha keyFn state id record _ stands stage rfl
      (validate_putting (coherent.valid record saved).2 stage)
    have rest := completes_reconciling (sound_step sound step rfl) (few.snoc (by simp)) running
      (set_work _)
    exact rest.step step rfl
  | putting =>
    have step : Step sha keyFn state (.progressed id)
        (state.move id (some (.reconciling record))) := .reattempt stands stage
    have rest := completes_reconciling (sound_step sound step rfl) (few.snoc (by simp)) running
      (move_work _)
    exact rest.step step rfl
  | persisted =>
    have step : Step sha keyFn state (.progressed id) (state.move id (some .delivering)) :=
      .redeliver stands stage
    have rest := completes_delivering (sound_step sound step rfl) (few.snoc (by simp)) running
      (move_work _) (by simpa using saved) stage
    exact rest.step step rfl

include sound few in
/-- A completion that is resumed with the lock free goes to its end. -/
theorem completes_idle {callbacks : List Text} (running : state.callbacks = some callbacks)
    (idle : (state.uploads id).work = none) (saved : (state.uploads id).record = some record) :
    Completes sha keyFn state id := by
  have coherent := sound.uploads id
  have loaded : (state.uploads id).completion id = some (some record) := by
    simp [Upload.completion, saved, coherent.valid record saved]
  cases found : (state.uploads id).get id with
  | none =>
    have stage : record.stage = .persisted := by
      by_contra unfinished
      obtain ⟨present, described⟩ := coherent.present record saved unfinished
      obtain ⟨content, data⟩ := Option.ne_none_iff_exists'.mp present
      obtain ⟨info, described⟩ := Option.ne_none_iff_exists'.mp described
      simp [Upload.get, data, described, coherent.named info described] at found
    have step : Step sha keyFn state (.progressed id) (state.move id (some .delivering)) :=
      .acknowledge running idle found loaded stage
    have rest := completes_delivering (sound_step sound step rfl) (few.snoc (by simp)) running
      (move_work _) (by simpa using saved) stage
    exact rest.step step rfl
  | some files =>
    have finish : Step sha keyFn state (.progressed id) (state.move id (some .finishing)) :=
      .finish running idle found (coherent.complete_of_get found saved)
    have loads : Step sha keyFn (state.move id (some .finishing)) (.progressed id)
        ((state.move id (some .finishing)).move id (some (.resuming record))) :=
      .loaded (move_work _) (by simpa [Upload.completion] using loaded)
    have rest := completes_resuming (sound_step (sound_step sound finish rfl) loads rfl)
      ((few.snoc (by simp)).snoc (by simp)) running (move_work _)
    exact (rest.step loads rfl).step finish rfl

/-- Once the call that holds the lock has returned, and a process runs, the
completion can be resumed to its end. -/
def Resumable (sha : Sha256) (keyFn : KeyFunc) (state : State) (id : Text) : Prop :=
  ∃ labels free callbacks, (handler sha keyFn).Trace state labels free ∧
    (∀ label ∈ labels, label = .failed id ∨ label = .started) ∧
    free.callbacks = some callbacks ∧ (free.uploads id).work = none ∧
    Completes sha keyFn free id

theorem Resumable.step (rest : Resumable sha keyFn next id)
    (step : Step sha keyFn state label next) (expected : label = .failed id ∨ label = .started) :
    Resumable sha keyFn state id := by
  obtain ⟨labels, free, callbacks, trace, only, ready⟩ := rest
  refine ⟨label :: labels, free, callbacks, .cons step trace, ?_, ready⟩
  intro other member
  rcases mem_cons.mp member with rfl | member
  · exact expected
  · exact only other member

include sound few in
theorem resumable_idle (idle : (state.uploads id).work = none)
    (saved : (state.uploads id).record = some record) : Resumable sha keyFn state id := by
  cases running : state.callbacks with
  | some callbacks =>
    exact ⟨[], state, callbacks, .nil state, by simp, running, idle,
      completes_idle sound few running idle saved⟩
  | none =>
    have start : Step sha keyFn state .started { state with callbacks := some [] } :=
      .started running
    have completes : Completes sha keyFn { state with callbacks := some [] } id :=
      completes_idle (sound_step sound start rfl) (few.snoc (by simp)) rfl idle saved
    exact ⟨[.started], _, [], .singleton start, by simp, rfl, idle, completes⟩

include sound few in
theorem resumable (saved : (state.uploads id).record = some record) :
    Resumable sha keyFn state id := by
  cases busy : (state.uploads id).work with
  | none => exact resumable_idle sound few busy saved
  | some work =>
    have gives : Step sha keyFn state (.failed id) (state.move id none) := .failed busy
    have rest := resumable_idle (sound_step sound gives rfl) (few.snoc (by simp))
      (move_work none) (by simpa using saved)
    exact rest.step gives (.inl rfl)

/-- A delivery whose every callback has returned nil. -/
def Acknowledged (events : List Label) (id : Text) (callbacks : List Text) : Prop :=
  .delivers id callbacks ∈ events ∧ ∀ callback ∈ callbacks, .returned id callback ∈ events

variable {events : List Label}

end Golusoris.Tus.Completion
