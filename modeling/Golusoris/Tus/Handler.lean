import Golusoris.Lib.Machine
import Golusoris.Tus.Completion

/-!
# Uploads from creation to acknowledgement

The handler of `storage/tus` over its durable state: the scratch files, the
completion record, the bucket. The upload locker admits one request or one
maintenance attempt per upload, so an upload has at most one `Work`; each step
does at most one durable operation. `failed` is the return of an error, at any
step; `crashed` is the end of the process between any two. What an operation may
have left behind when it failed is covered by the step of its success followed by
`failed`, and for the bucket by `bucketChanged`.

A request goes to the store only as tusd sends it there: a chunk or a length to
an upload that is not complete, `FinishUpload` to one that is. Upload ids are
random, so no id is created twice. The scratch directory is a configured one; a
private one goes with its process.
-/

namespace Golusoris.Tus.Completion

open Lib

inductive File where
  | data
  | info
  deriving DecidableEq

/-- Why `RemoveUpload` runs. -/
inductive Cause where
  /-- `deliverCompletion`, with the callbacks that it found registered. -/
  | delivery (callbacks : List Text)
  | expiry
  | termination
  deriving DecidableEq

/-- How far the call that holds the upload's lock is. -/
inductive Work where
  /-- `Create`, with the data file made. -/
  | creating (info : Info)
  /-- `FinishUpload` at its start. -/
  | finishing
  /-- `FinishUpload` before it saves the intent. -/
  | preparing (record : CompletionRecord)
  | resuming (record : CompletionRecord)
  /-- `reconcileObject`, before it probes the destination. -/
  | reconciling (record : CompletionRecord)
  /-- `reconcileObject`, about to put the object. -/
  | putting (record : CompletionRecord)
  /-- `resumeCompletion`, with the object in place. -/
  | persisting (record : CompletionRecord)
  /-- `deliverCompletion` at its start. -/
  | delivering
  /-- `runCallbacks`, with the callbacks that are left and all of them. -/
  | calling (record : CompletionRecord) (rest callbacks : List Text)
  | called (record : CompletionRecord) (callback : Text) (rest callbacks : List Text)
  | checkpointing (record : CompletionRecord) (callback : Text) (rest callbacks : List Text)
  /-- `RemoveUpload`, with the files that are left and whether one could not be removed. -/
  | removing (cause : Cause) (files : List File) (failed : Bool)
  /-- `deliverCompletion`, about to delete the record. -/
  | acknowledging (callbacks : List Text)

structure Upload where
  created : Bool := false
  data : Option Bytes := none
  info : Option Info := none
  record : Option CompletionRecord := none
  work : Option Work := none

/-- `callbacks` are those of the running process, if one runs. -/
structure State where
  callbacks : Option (List Text) := none
  uploads : Text → Upload := fun _ => {}
  bucket : Text → Option Object := fun _ => none

def State.set (state : State) (id : Text) (upload : Upload) : State :=
  { state with uploads := Function.update state.uploads id upload }

/-- The upload with its lock released or the call a step further. -/
def State.move (state : State) (id : Text) (work : Option Work) : State :=
  state.set id { state.uploads id with work := work }

def Upload.remove (upload : Upload) : File → Upload
  | .data => { upload with data := none }
  | .info => { upload with info := none }

/-- tusd takes the upload for finished. -/
def Upload.complete (upload : Upload) : Bool :=
  match upload.data, upload.info with
  | some content, some info => info.size = some content.length
  | _, _ => false

/-- `scratch.Get`. -/
def Upload.get (upload : Upload) (id : Text) : Option (Bytes × Info) :=
  match upload.info, upload.data with
  | some info, some content => if info.id = id then some (content, info) else none
  | _, _ => none

/-- `scratch.Completion`: an error, or what it found. -/
def Upload.completion (upload : Upload) (id : Text) : Option (Option CompletionRecord) :=
  match upload.record with
  | none => some none
  | some record => if record.upload.id = id ∧ record.validate then some (some record) else none

/-- What `FinishUpload` records for a scratch file. -/
def prepare (sha : Sha256) (keyFn : KeyFunc) (id : Text) (content : Bytes) (info : Info) :
    Option CompletionRecord := do
  let key ← resolveKey keyFn info
  let digest ← hashExact sha content content.length
  return newPreparedCompletionRecord ⟨id, key, content.length, info.metaData⟩ (hexEncode digest)

/-- `OnComplete`. -/
def onComplete (callbacks : List Text) (id : Text) : Option (List Text) :=
  if ¬validateCallbackID id then none
  else if maxCompletionCallbacks ≤ callbacks.length then none
  else if id ∈ callbacks then none
  else some (callbacks ++ [id])

inductive Label where
  | started
  | registered (callback : Text)
  | crashed
  | bucketChanged (key : Text)
  | failed (id : Text)
  | progressed (id : Text)
  /-- The destination held the scratch file's content already. -/
  | matched (id : Text) (object : Object) (content : Bytes)
  | delivers (id : Text) (callbacks : List Text)
  | ran (id callback : Text) (upload : CompletedUpload)
  | returned (id callback : Text)
  | checkpointed (id callback : Text)
  | removed (id : Text) (file : File) (cause : Cause)
  | deleted (id : Text) (callbacks : List Text)
  | expired (id : Text)
  | terminated (id : Text) (stage : Option Stage)

inductive Step (sha : Sha256) (keyFn : KeyFunc) : State → Label → State → Prop where
  | started {state : State} (down : state.callbacks = none) :
      Step sha keyFn state .started { state with callbacks := some [] }
  | registered {state : State} {callbacks next : List Text} (callback : Text)
      (running : state.callbacks = some callbacks)
      (accepted : onComplete callbacks callback = some next) :
      Step sha keyFn state (.registered callback) { state with callbacks := some next }
  | crashed {state : State} :
      Step sha keyFn state .crashed {
        state with
        callbacks := none
        uploads := fun id => { state.uploads id with work := none } }
  | bucketChanged {state : State} (key : Text) (object : Option Object) :
      Step sha keyFn state (.bucketChanged key)
        { state with bucket := Function.update state.bucket key object }
  | failed {state : State} {id : Text} {work : Work} (busy : (state.uploads id).work = some work) :
      Step sha keyFn state (.failed id) (state.move id none)
  /- Requests -/
  | create {state : State} {callbacks : List Text} (info : Info)
      (running : state.callbacks = some callbacks) (valid : validID info.id = true)
      (fresh : (state.uploads info.id).created = false) :
      Step sha keyFn state (.progressed info.id)
        (state.set info.id { created := true, data := some [], work := some (.creating info) })
  | created {state : State} {id : Text} {info : Info}
      (stands : (state.uploads id).work = some (.creating info)) :
      Step sha keyFn state (.progressed id)
        (state.set id { state.uploads id with info := some info, work := none })
  | createFailed {state : State} {id : Text} {info : Info}
      (stands : (state.uploads id).work = some (.creating info)) :
      Step sha keyFn state (.failed id)
        (state.set id { state.uploads id with data := none, work := none })
  | patch {state : State} {callbacks : List Text} {id : Text} {content : Bytes} {info : Info}
      (chunk : Bytes) (running : state.callbacks = some callbacks)
      (idle : (state.uploads id).work = none)
      (found : (state.uploads id).get id = some (content, info))
      (incomplete : (state.uploads id).complete = false) :
      Step sha keyFn state (.progressed id)
        (state.set id { state.uploads id with data := some (content ++ chunk) })
  | declareLength {state : State} {callbacks : List Text} {id : Text} {content : Bytes}
      {info : Info} (length : Nat) (running : state.callbacks = some callbacks)
      (idle : (state.uploads id).work = none)
      (found : (state.uploads id).get id = some (content, info)) (deferred : info.size = none) :
      Step sha keyFn state (.progressed id)
        (state.set id { state.uploads id with info := some { info with size := some length } })
  | terminate {state : State} {callbacks : List Text} {id : Text} {content : Bytes} {info : Info}
      (running : state.callbacks = some callbacks) (idle : (state.uploads id).work = none)
      (found : (state.uploads id).get id = some (content, info)) :
      Step sha keyFn state
        (.terminated id ((state.uploads id).record.map CompletionRecord.stage))
        (state.move id (some (.removing .termination [.data, .info] false)))
  /- `sweepExpired`; `IsExpired` is false for an upload with a record. -/
  | expire {state : State} {callbacks : List Text} {id : Text} {content : Bytes} {info : Info}
      (running : state.callbacks = some callbacks) (idle : (state.uploads id).work = none)
      (pending : (state.uploads id).record = none) (data : (state.uploads id).data = some content)
      (described : (state.uploads id).info = some info) :
      Step sha keyFn state (.expired id)
        (state.move id (some (.removing .expiry [.data, .info] false)))
  /- `FinishUpload` for a request, or for `ResumeCompletion`. -/
  | finish {state : State} {callbacks : List Text} {id : Text} {content : Bytes} {info : Info}
      (running : state.callbacks = some callbacks) (idle : (state.uploads id).work = none)
      (found : (state.uploads id).get id = some (content, info))
      (complete : (state.uploads id).complete = true) :
      Step sha keyFn state (.progressed id) (state.move id (some .finishing))
  /- `ResumeCompletion` without scratch files. -/
  | acknowledge {state : State} {callbacks : List Text} {id : Text} {record : CompletionRecord}
      (running : state.callbacks = some callbacks) (idle : (state.uploads id).work = none)
      (missing : (state.uploads id).get id = none)
      (loaded : (state.uploads id).completion id = some (some record))
      (persisted : record.stage = .persisted) :
      Step sha keyFn state (.progressed id) (state.move id (some .delivering))
  /- `FinishUpload` -/
  | loaded {state : State} {id : Text} {record : CompletionRecord}
      (stands : (state.uploads id).work = some .finishing)
      (loaded : (state.uploads id).completion id = some (some record)) :
      Step sha keyFn state (.progressed id) (state.move id (some (.resuming record)))
  | fingerprinted {state : State} {id : Text} {content : Bytes} {info : Info}
      {record : CompletionRecord} (stands : (state.uploads id).work = some .finishing)
      (absent : (state.uploads id).completion id = some none)
      (found : (state.uploads id).get id = some (content, info))
      (prepared : prepare sha keyFn id content info = some record) :
      Step sha keyFn state (.progressed id) (state.move id (some (.preparing record)))
  | prepared {state : State} {id : Text} {record : CompletionRecord}
      (stands : (state.uploads id).work = some (.preparing record))
      (valid : record.validate = true) :
      Step sha keyFn state (.progressed id)
        (state.set id { state.uploads id with
          record := some record, work := some (.resuming record) })
  /- `resumeCompletion` -/
  | attempt {state : State} {id : Text} {record next : CompletionRecord}
      (stands : (state.uploads id).work = some (.resuming record))
      (stage : record.stage = .prepared) (advanced : { record with stage := .putting } = next)
      (valid : next.validate = true) :
      Step sha keyFn state (.progressed id)
        (state.set id { state.uploads id with
          record := some next, work := some (.reconciling next) })
  | reattempt {state : State} {id : Text} {record : CompletionRecord}
      (stands : (state.uploads id).work = some (.resuming record))
      (stage : record.stage = .putting) :
      Step sha keyFn state (.progressed id) (state.move id (some (.reconciling record)))
  | redeliver {state : State} {id : Text} {record : CompletionRecord}
      (stands : (state.uploads id).work = some (.resuming record))
      (stage : record.stage = .persisted) :
      Step sha keyFn state (.progressed id) (state.move id (some .delivering))
  | matched {state : State} {id : Text} {record : CompletionRecord} {content : Bytes}
      {object : Object} (stands : (state.uploads id).work = some (.reconciling record))
      (data : (state.uploads id).data = some content)
      (intact : verifyScratchIdentity sha content record.upload = true)
      (held : state.bucket record.upload.key = some object)
      (same : objectMatchesScratch sha (some object) record.upload = some true) :
      Step sha keyFn state (.matched id object content)
        (state.move id (some (.persisting record)))
  | differs {state : State} {id : Text} {record : CompletionRecord} {content : Bytes}
      (stands : (state.uploads id).work = some (.reconciling record))
      (data : (state.uploads id).data = some content)
      (intact : verifyScratchIdentity sha content record.upload = true)
      (other : objectMatchesScratch sha (state.bucket record.upload.key) record.upload =
        some false) :
      Step sha keyFn state (.progressed id) (state.move id (some (.putting record)))
  | put {state : State} {id : Text} {record : CompletionRecord} {content : Bytes}
      (stands : (state.uploads id).work = some (.putting record))
      (data : (state.uploads id).data = some content)
      (size : content.length = record.upload.size) :
      Step sha keyFn state (.progressed id)
        { state.move id (some (.persisting record)) with
          bucket := Function.update state.bucket record.upload.key
            (some (putObject content record.upload.metaData)) }
  | persisted {state : State} {id : Text} {record next : CompletionRecord}
      (stands : (state.uploads id).work = some (.persisting record))
      (advanced : { record with stage := .persisted } = next) (valid : next.validate = true) :
      Step sha keyFn state (.progressed id)
        (state.set id { state.uploads id with record := some next, work := some .delivering })
  /- `deliverCompletion` -/
  | nothing {state : State} {id : Text} (stands : (state.uploads id).work = some .delivering)
      (absent : (state.uploads id).completion id = some none) :
      Step sha keyFn state (.progressed id) (state.move id none)
  | delivers {state : State} {id : Text} {record : CompletionRecord} {callbacks : List Text}
      (stands : (state.uploads id).work = some .delivering)
      (loaded : (state.uploads id).completion id = some (some record))
      (stage : record.stage = .persisted) (running : state.callbacks = some callbacks) :
      Step sha keyFn state (.delivers id callbacks)
        (state.move id (some (.calling record callbacks callbacks)))
  | skip {state : State} {id callback : Text} {record : CompletionRecord}
      {rest callbacks : List Text}
      (stands : (state.uploads id).work = some (.calling record (callback :: rest) callbacks))
      (done : callback ∈ record.completedCallbackIDs) :
      Step sha keyFn state (.progressed id)
        (state.move id (some (.calling record rest callbacks)))
  | ran {state : State} {id callback : Text} {record : CompletionRecord}
      {rest callbacks : List Text}
      (stands : (state.uploads id).work = some (.calling record (callback :: rest) callbacks))
      (due : callback ∉ record.completedCallbackIDs) :
      Step sha keyFn state (.ran id callback record.upload.completed)
        (state.move id (some (.called record callback rest callbacks)))
  | returned {state : State} {id callback : Text} {record : CompletionRecord}
      {rest callbacks : List Text}
      (stands : (state.uploads id).work = some (.called record callback rest callbacks)) :
      Step sha keyFn state (.returned id callback)
        (state.move id (some (.checkpointing record callback rest callbacks)))
  | checkpointed {state : State} {id callback : Text} {record next : CompletionRecord}
      {rest callbacks : List Text}
      (stands : (state.uploads id).work = some (.checkpointing record callback rest callbacks))
      (advanced : { record with
        completedCallbackIDs := record.completedCallbackIDs ++ [callback] } = next)
      (valid : next.validate = true) :
      Step sha keyFn state (.checkpointed id callback)
        (state.set id { state.uploads id with
          record := some next, work := some (.calling next rest callbacks) })
  | cleanup {state : State} {id : Text} {record : CompletionRecord} {callbacks : List Text}
      (stands : (state.uploads id).work = some (.calling record [] callbacks)) :
      Step sha keyFn state (.progressed id)
        (state.move id (some (.removing (.delivery callbacks) [.data, .info] false)))
  /- `RemoveUpload` -/
  | removed {state : State} {id : Text} {cause : Cause} {file : File} {rest : List File}
      {failed : Bool}
      (stands : (state.uploads id).work = some (.removing cause (file :: rest) failed)) :
      Step sha keyFn state (.removed id file cause)
        (state.set id { (state.uploads id).remove file with
          work := some (.removing cause rest failed) })
  | kept {state : State} {id : Text} {cause : Cause} {file : File} {rest : List File}
      {failed : Bool}
      (stands : (state.uploads id).work = some (.removing cause (file :: rest) failed)) :
      Step sha keyFn state (.failed id) (state.move id (some (.removing cause rest true)))
  | cleaned {state : State} {id : Text} {callbacks : List Text}
      (stands : (state.uploads id).work = some (.removing (.delivery callbacks) [] false)) :
      Step sha keyFn state (.progressed id) (state.move id (some (.acknowledging callbacks)))
  | ended {state : State} {id : Text} {cause : Cause}
      (stands : (state.uploads id).work = some (.removing cause [] false))
      (other : ∀ callbacks, cause ≠ .delivery callbacks) :
      Step sha keyFn state (.progressed id) (state.move id none)
  | deleted {state : State} {id : Text} {callbacks : List Text}
      (stands : (state.uploads id).work = some (.acknowledging callbacks)) :
      Step sha keyFn state (.deleted id callbacks)
        (state.set id { state.uploads id with record := none, work := none })

/-- The runs of a handler over an empty scratch directory. -/
def handler (sha : Sha256) (keyFn : KeyFunc) : Machine State Label where
  Initial state := state = {}
  Step := Step sha keyFn

end Golusoris.Tus.Completion
