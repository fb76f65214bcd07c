import Golusoris.Tus.Durable

/-!
# Records and their scratch files

A record that is prepared or putting needs the scratch files. The delivery
removes them only once it is persisted, and the expiry sweep only where there is
no record. The termination by a client looks at neither.
-/

namespace Golusoris.Tus.Completion

open Lib

variable {sha : Sha256} {keyFn : KeyFunc} {events : List Label} {state : State}

/-- A completion that still has to copy the object can be retried. -/
def Retriable (upload : Upload) : Prop :=
  ∀ record, upload.record = some record → record.stage ≠ .persisted →
    upload.data ≠ none ∧ upload.info ≠ none

/-- In a run without the termination of an upload whose record is prepared or
putting, every completion stays retriable. -/
theorem completion_retriable (run : (handler sha keyFn).Run events state)
    (safe : ∀ label ∈ events, label.strands = false) (id : Text) :
    Retriable (state.uploads id) :=
  ((handler_sound run safe).uploads id).present

def sampleSum : Bytes :=
  [0x8f, 0x43, 0x43, 0x46, 0x64, 0x8f, 0x6b, 0x96, 0xdf, 0x89, 0xdd, 0xa9, 0x01, 0xc5, 0x17, 0x6b,
    0x10, 0xa6, 0xd8, 0x39, 0x61, 0xdd, 0x3c, 0x1a, 0xc8, 0x8b, 0x59, 0xb2, 0xdc, 0x32, 0x7a, 0xa4]

/-- The sum of the one content of the run. -/
def sampleSha : Sha256 := ⟨fun _ => sampleSum, fun _ => rfl⟩

def sampleKeyFn : KeyFunc := defaultKeyFunc (textBytes "uploads/")

def sampleID : Text := textBytes "u1"

def sampleContent : Bytes := textBytes "hi"

def sampleInfo : Info := ⟨sampleID, some 2, ∅⟩

def sampleRecord : CompletionRecord where
  version := 1
  stage := .prepared
  upload := ⟨sampleID, textBytes "uploads/u1", 2, hexEncode sampleSum, ∅⟩
  completedCallbackIDs := []

def puttingRecord : CompletionRecord := { sampleRecord with stage := .putting }

def putFails : List Label :=
  [.started, .progressed sampleID, .progressed sampleID, .progressed sampleID,
    .progressed sampleID, .progressed sampleID, .progressed sampleID, .progressed sampleID,
    .progressed sampleID, .failed sampleID]

/-- A complete upload whose Put failed. -/
def waitingUpload : Upload where
  created := true
  data := some sampleContent
  info := some sampleInfo
  record := some puttingRecord

theorem putFails_run : ∃ state, (handler sampleSha sampleKeyFn).Run putFails state ∧
    state.callbacks = some [] ∧ state.uploads sampleID = waitingUpload ∧
    state.bucket = fun _ => none := by
  have start : (handler sampleSha sampleKeyFn).Run [] {} := ⟨{}, rfl, .nil _⟩
  have started := start.snoc (@Step.started sampleSha sampleKeyFn _ rfl)
  have create := started.snoc (@Step.create sampleSha sampleKeyFn _ [] sampleInfo rfl rfl rfl)
  have created := create.snoc (@Step.created sampleSha sampleKeyFn _ sampleID sampleInfo rfl)
  have patched := created.snoc
    (@Step.patch sampleSha sampleKeyFn _ [] sampleID [] sampleInfo sampleContent rfl rfl rfl rfl)
  have finish := patched.snoc
    (@Step.finish sampleSha sampleKeyFn _ [] sampleID sampleContent sampleInfo rfl rfl rfl rfl)
  have fingerprinted := finish.snoc
    (@Step.fingerprinted sampleSha sampleKeyFn _ sampleID sampleContent sampleInfo sampleRecord
      rfl rfl rfl rfl)
  have prepared := fingerprinted.snoc
    (@Step.prepared sampleSha sampleKeyFn _ sampleID sampleRecord rfl rfl)
  have attempted := prepared.snoc
    (@Step.attempt sampleSha sampleKeyFn _ sampleID sampleRecord puttingRecord rfl rfl rfl rfl)
  have probed := attempted.snoc
    (@Step.differs sampleSha sampleKeyFn _ sampleID puttingRecord sampleContent rfl rfl rfl rfl)
  have failed := probed.snoc (@Step.failed sampleSha sampleKeyFn _ sampleID _ rfl)
  exact ⟨_, failed, rfl, rfl, rfl⟩

/-- The client terminates the upload before the completion is retried. -/
theorem terminated_not_retriable :
    ¬∀ events state, (handler sampleSha sampleKeyFn).Run events state →
      ∀ id, Retriable (state.uploads id) := by
  intro always
  obtain ⟨state, run, running, upload, _⟩ := putFails_run
  have terminated := run.snoc
    (@Step.terminate sampleSha sampleKeyFn state [] sampleID sampleContent sampleInfo running
      (by rw [upload]; rfl) (by rw [upload]; rfl))
  have removedData := terminated.snoc
    (@Step.removed sampleSha sampleKeyFn _ sampleID .termination .data [.info] false rfl)
  have removedInfo := removedData.snoc
    (@Step.removed sampleSha sampleKeyFn _ sampleID .termination .info [] false rfl)
  have ended := removedInfo.snoc
    (@Step.ended sampleSha sampleKeyFn _ sampleID .termination rfl (by rintro _ ⟨⟩))
  have saved : (state.uploads sampleID).record = some puttingRecord := by
    rw [upload]
    rfl
  exact (always _ _ ended sampleID puttingRecord saved (by decide)).1 rfl

theorem putFails_retriable : ∃ state, (handler sampleSha sampleKeyFn).Run putFails state ∧
    (state.uploads sampleID).record = some puttingRecord ∧
    Retriable (state.uploads sampleID) := by
  obtain ⟨state, run, _, upload, _⟩ := putFails_run
  refine ⟨state, run, ?_, completion_retriable run (by decide) sampleID⟩
  rw [upload]
  rfl

end Golusoris.Tus.Completion
