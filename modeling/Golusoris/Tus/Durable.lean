import Golusoris.Tus.Coherence

/-!
# Coherence along a run

Every step is one of the changes of an upload that keep it coherent, and leaves
the other uploads alone. What a run says of an upload is read off its labels; the
object in the bucket is read off a state on the way.
-/

namespace Golusoris.Tus.Completion

open List
open Lib
open Upload

variable {sha : Sha256} {keyFn : KeyFunc} {history : List Label} {label : Label}
variable {state next : State} {id : Text}

/-- The bucket has, at the key of the upload, an object with the content, the
size and the attributes of its scratch file. -/
def Holds (keyFn : KeyFunc) (id : Text) (upload : CompletedUpload) (state : State) : Prop :=
  ∃ content info object, (state.uploads id).data = some content ∧
    (state.uploads id).info = some info ∧ resolveKey keyFn info = some upload.key ∧
    state.bucket upload.key = some object ∧ object.content = content ∧
    content.length = upload.size ∧ object.contentType = contentType info.metaData ∧
    object.metaData = info.metaData

/-- Two different contents with one SHA-256 sum were taken for the same. -/
def Collides (sha : Sha256) (history : List Label) : Prop :=
  ∃ id object content, .matched id object content ∈ history ∧
    sha.sum object.content = sha.sum content ∧ object.content ≠ content

/-- What a run says of an upload. -/
def past (sha : Sha256) (keyFn : KeyFunc) (history : List Label) (state : State) (id : Text) :
    Past where
  terminated := ∃ stage, .terminated id stage ∈ history
  registered callback := .registered callback ∈ history
  delivers callbacks := .delivers id callbacks ∈ history
  returned callback := .returned id callback ∈ history
  checkpointed callback := .checkpointed id callback ∈ history
  held upload := (handler sha keyFn).Visits history state (Holds keyFn id upload.completed) ∨
    Collides sha history

theorem held_snoc (step : Step sha keyFn state label next) {upload : CompletionUpload}
    (held : (past sha keyFn history state id).held upload) :
    (past sha keyFn (history ++ [label]) next id).held upload := by
  rcases held with visits | ⟨other, object, content, member, collides⟩
  · exact .inl (visits.snoc step)
  · exact .inr ⟨other, object, content, mem_append_left _ member, collides⟩

theorem past_extends (step : Step sha keyFn state label next)
    (quiet : ∀ callback, label ≠ .checkpointed id callback) :
    (past sha keyFn history state id).Extends (past sha keyFn (history ++ [label]) next id) where
  terminated := by
    rintro ⟨stage, member⟩
    exact ⟨stage, mem_append_left _ member⟩
  registered member := mem_append_left _ member
  delivers member := mem_append_left _ member
  returned member := mem_append_left _ member
  checkpointed := by
    intro callback member
    rcases mem_append.mp member with before | last
    · exact before
    · exact absurd (mem_singleton.mp last).symm (quiet callback)
  held held := held_snoc step held

/-- The upload that a step is about. -/
def Label.about : Label → Option Text
  | .failed id | .progressed id | .matched id _ _ | .delivers id _ | .ran id _ _ | .returned id _
  | .checkpointed id _ | .removed id _ _ | .deleted id _ | .expired id | .terminated id _ =>
      some id
  | .started | .registered _ | .crashed | .bucketChanged _ => none

structure Sound (sha : Sha256) (keyFn : KeyFunc) (history : List Label) (state : State) :
    Prop where
  run : (handler sha keyFn).Run history state
  callbacks : ∀ callbacks, state.callbacks = some callbacks → ∀ callback ∈ callbacks,
    .registered callback ∈ history ∧ validateCallbackID callback = true
  uploads : ∀ id, Coherent sha keyFn id (past sha keyFn history state id) (state.uploads id)

variable (sound : Sound sha keyFn history state)

include sound in
/-- A step about one upload that leaves it coherent keeps the state sound. -/
theorem Sound.update (step : Step sha keyFn state label next) (about : label.about = some id)
    (callbacks : next.callbacks = state.callbacks) {upload : Upload}
    (uploads : next.uploads = Function.update state.uploads id upload)
    (coherent : Coherent sha keyFn id (past sha keyFn (history ++ [label]) next id) upload) :
    Sound sha keyFn (history ++ [label]) next where
  run := sound.run.snoc step
  callbacks := by
    intro registered running callback member
    rw [callbacks] at running
    exact (sound.callbacks registered running callback member).imp_left (mem_append_left _)
  uploads := by
    intro other
    rw [uploads]
    by_cases same : other = id
    · subst same
      rw [Function.update_self]
      exact coherent
    · rw [Function.update_of_ne same]
      refine (sound.uploads other).mono (past_extends step ?_)
      rintro callback rfl
      exact same (Option.some.inj about)

include sound in
theorem Sound.later (step : Step sha keyFn state label next) (id : Text)
    (quiet : ∀ callback, label ≠ .checkpointed id callback) :
    Coherent sha keyFn id (past sha keyFn (history ++ [label]) next id) (state.uploads id) :=
  (sound.uploads id).mono (past_extends step quiet)

include sound in
/-- A step about no upload in particular. -/
theorem Sound.global (step : Step sha keyFn state label next) (about : label.about = none)
    (callbacks : ∀ callbacks, next.callbacks = some callbacks → ∀ callback ∈ callbacks,
      .registered callback ∈ history ++ [label] ∧ validateCallbackID callback = true)
    (uploads : ∀ id, next.uploads id = state.uploads id ∨
      next.uploads id = { state.uploads id with work := none }) :
    Sound sha keyFn (history ++ [label]) next where
  run := sound.run.snoc step
  callbacks := callbacks
  uploads := by
    intro id
    have coherent := sound.later step id (by rintro callback rfl; cases about)
    rcases uploads id with same | released
    · exact same ▸ coherent
    · exact released ▸ coherent.release

include sound in
/-- A step about one upload that moves its call on. -/
theorem Sound.move {work : Work} (step : Step sha keyFn state label (state.move id (some work)))
    (about : label.about = some id) (born : (state.uploads id).created = true)
    (quiet : ∀ callback, label ≠ .checkpointed id callback)
    (stands : Stands sha keyFn id (past sha keyFn (history ++ [label])
      (state.move id (some work)) id) (state.uploads id) work) :
    Sound sha keyFn (history ++ [label]) (state.move id (some work)) :=
  sound.update step about rfl rfl ((sound.later step id quiet).move born stands)

include sound in
/-- A step about one upload that ends its call. -/
theorem Sound.release (step : Step sha keyFn state label (state.move id none))
    (about : label.about = some id) (quiet : ∀ callback, label ≠ .checkpointed id callback) :
    Sound sha keyFn (history ++ [label]) (state.move id none) :=
  sound.update step about rfl rfl (sound.later step id quiet).release

/-- `OnComplete` adds one valid callback. -/
theorem onComplete_spec {callbacks added : List Text} {callback : Text}
    (accepted : onComplete callbacks callback = some added) :
    validateCallbackID callback = true ∧ added = callbacks ++ [callback] := by
  unfold onComplete at accepted
  by_cases valid : validateCallbackID callback = true
  · by_cases full : maxCompletionCallbacks ≤ callbacks.length
    · simp [valid, full] at accepted
    · by_cases known : callback ∈ callbacks
      · simp [valid, full, known] at accepted
      · simp only [valid, not_true_eq_false, if_false, full, known, Option.some.injEq] at accepted
        exact ⟨valid, accepted.symm⟩
  · simp [valid] at accepted

variable {content : Bytes}

theorem hashExact_spec {sum : Bytes} {expected : Nat}
    (hashed : hashExact sha content expected = some sum) :
    expected ≠ maxInt64 ∧ content.length = expected ∧ sum = sha.sum content := by
  unfold hashExact at hashed
  by_cases long : expected = maxInt64
  · simp [long] at hashed
  · by_cases other : content.length ≠ expected
    · simp [long, other] at hashed
    · simp only [long, if_false, other, Option.some.injEq] at hashed
      exact ⟨long, not_not.mp other, hashed.symm⟩

variable {record : CompletionRecord}

/-- The record that `FinishUpload` prepares is the one of the scratch files. -/
theorem prepare_spec {info : Info} (prepared : prepare sha keyFn id content info = some record)
    (complete : info.size = some content.length) :
    Settled sha keyFn id record content info ∧ record.stage = .prepared ∧
      record.completedCallbackIDs = [] := by
  unfold prepare at prepared
  obtain ⟨key, resolved, prepared⟩ := Option.bind_eq_some_iff.mp prepared
  obtain ⟨digest, hashed, prepared⟩ := Option.bind_eq_some_iff.mp prepared
  cases prepared
  obtain ⟨bounded, _, rfl⟩ := hashExact_spec hashed
  exact ⟨⟨complete, bounded, resolved, rfl⟩, rfl, rfl⟩

/-- A destination that matches has the size, the attributes and the digest. -/
theorem objectMatchesScratch_spec {object : Object} {upload : CompletionUpload}
    (matches_ : objectMatchesScratch sha (some object) upload = some true)
    (intact : verifyScratchIdentity sha content upload = true) :
    object.content.length = upload.size ∧ objectAttributesMatch object upload.metaData = true ∧
      sha.sum object.content = sha.sum content := by
  unfold objectMatchesScratch at matches_
  by_cases other : object.content.length ≠ upload.size ∨
      ¬objectAttributesMatch object upload.metaData = true
  · simp only [if_pos other] at matches_
    cases matches_
  · simp only [if_neg other] at matches_
    obtain ⟨want, decoded, matches_⟩ := Option.bind_eq_some_iff.mp matches_
    obtain ⟨got, hashed, matches_⟩ := Option.bind_eq_some_iff.mp matches_
    obtain ⟨_, _, rfl⟩ := hashExact_spec hashed
    have same : sha.sum object.content = want := by
      simpa using Option.some.inj matches_
    have ours : sha.sum content = want := by
      unfold verifyScratchIdentity at intact
      cases hashes : hashExact sha content upload.size with
      | none => simp [decoded, hashes] at intact
      | some sum =>
        obtain ⟨_, _, rfl⟩ := hashExact_spec hashes
        simpa [decoded, hashes] using intact
    simp only [not_or, not_not] at other
    exact ⟨other.1, other.2, same.trans ours.symm⟩

/-- A termination that leaves a record without the scratch files that it needs. -/
def Label.strands : Label → Bool
  | .terminated _ (some .prepared) | .terminated _ (some .putting) => true
  | _ => false

/-- The files of an upload without a record that is complete are those that its
record will be about. -/
theorem Coherent.complete_of_get {past : Past} {upload : Upload}
    (coherent : Coherent sha keyFn id past upload) {info : Info}
    (found : upload.get id = some (content, info)) (saved : upload.record = some record) :
    upload.complete = true := by
  obtain ⟨data, described⟩ := get_spec found
  exact (complete_spec data described).mpr
    (coherent.settled record content info saved data described).complete

include sound in
/-- The probe has found the object, or two contents with one sum. -/
theorem held_of_matched {object : Object}
    (step : Step sha keyFn state (.matched id object content)
      (state.move id (some (.persisting record))))
    (saved : (state.uploads id).record = some record)
    (stage : record.stage = .putting) (data : (state.uploads id).data = some content)
    (intact : verifyScratchIdentity sha content record.upload = true)
    (held : state.bucket record.upload.key = some object)
    (same : objectMatchesScratch sha (some object) record.upload = some true) :
    (past sha keyFn (history ++ [.matched id object content])
      (state.move id (some (.persisting record))) id).held record.upload := by
  obtain ⟨size, attributes, sums⟩ := objectMatchesScratch_spec same intact
  by_cases equal : object.content = content
  · refine .inl ((sound.run.snoc step).visits ?_)
    have coherent := sound.uploads id
    have present := (coherent.present record saved (by simp [stage])).2
    obtain ⟨info, described⟩ := Option.ne_none_iff_exists'.mp present
    have settled := coherent.settled record content info saved data described
    have metaData : record.upload.metaData = info.metaData := congrArg _ settled.upload
    simp only [objectAttributesMatch, decide_eq_true_eq, metaData] at attributes
    refine ⟨content, info, object, ?_, ?_, settled.key, held, equal, equal ▸ size, attributes⟩
    · simpa [State.move, State.set] using data
    · simpa [State.move, State.set] using described
  · exact .inr ⟨id, object, content, mem_append_right _ mem_cons_self, sums, equal⟩

include sound in
/-- The object that was put is the scratch file's. -/
theorem held_of_put (step : Step sha keyFn state label next)
    (saved : (state.uploads id).record = some record) (stage : record.stage = .putting)
    (data : (state.uploads id).data = some content)
    (uploads : next.uploads = (state.move id (some (.persisting record))).uploads)
    (bucket : next.bucket record.upload.key = some (putObject content record.upload.metaData)) :
    (past sha keyFn (history ++ [label]) next id).held record.upload := by
  refine .inl ((sound.run.snoc step).visits ?_)
  have coherent := sound.uploads id
  have present := (coherent.present record saved (by simp [stage])).2
  obtain ⟨info, described⟩ := Option.ne_none_iff_exists'.mp present
  have settled := coherent.settled record content info saved data described
  have metaData : record.upload.metaData = info.metaData := congrArg _ settled.upload
  have size : content.length = record.upload.size := by
    rw [settled.upload]
  refine ⟨content, info, _, ?_, ?_, settled.key, bucket, rfl, size, ?_, metaData⟩
  · simpa [uploads, State.move, State.set] using data
  · simpa [uploads, State.move, State.set] using described
  · exact congrArg contentType metaData

include sound in
theorem sound_step (step : Step sha keyFn state label next) (safe : label.strands = false) :
    Sound sha keyFn (history ++ [label]) next := by
  have taken := step
  cases step with
  | started down =>
    refine sound.global taken rfl ?_ fun id => .inl rfl
    rintro _ ⟨⟩ callback member
    cases member
  | registered callback running accepted =>
    obtain ⟨valid, rfl⟩ := onComplete_spec accepted
    refine sound.global taken rfl ?_ fun id => .inl rfl
    rintro _ ⟨⟩ other member
    rcases mem_append.mp member with before | added
    · exact (sound.callbacks _ running other before).imp_left (mem_append_left _)
    · obtain rfl := mem_singleton.mp added
      exact ⟨mem_append_right _ mem_cons_self, valid⟩
  | crashed =>
    refine sound.global taken rfl ?_ fun id => .inr rfl
    rintro _ ⟨⟩
  | bucketChanged key object =>
    refine sound.global taken rfl ?_ fun id => .inl rfl
    intro callbacks running callback member
    exact (sound.callbacks callbacks running callback member).imp_left (mem_append_left _)
  | failed _ | nothing _ _ | ended _ _ => exact sound.release taken rfl (by simp)
  | create info running valid fresh =>
    have coherent := sound.later taken info.id (by simp)
    obtain ⟨_, _, unsaved, _⟩ := coherent.unborn fresh
    refine sound.update taken rfl rfl rfl ?_
    have clean : ∀ callback, ¬(past sha keyFn (history ++ [.progressed info.id])
        (state.set info.id { created := true, data := some [], work := some (.creating info) })
        info.id).checkpointed callback := by
      intro callback done
      rcases coherent.checkpoints callback done with ⟨record, saved, _⟩ | gone
      · rw [unsaved] at saved
        cases saved
      · exact absurd (gone.1.symm.trans fresh) (by decide)
    exact {
      unborn := nofun
      named := nofun
      valid := nofun
      present := nofun
      settled := nofun
      completed := nofun
      held := nofun
      checkpoints := fun callback done => absurd done (clean callback)
      work := by
        rintro _ ⟨⟩
        exact ⟨rfl, rfl, rfl, clean⟩ }
  | @created id info stands =>
    have coherent := sound.later taken id (by simp)
    obtain ⟨named, _, unsaved, clean⟩ := coherent.work _ stands
    have born := coherent.born_of_work stands
    refine sound.update taken rfl rfl rfl ?_
    exact {
      unborn := fun fresh => absurd (born.symm.trans fresh) (by decide)
      named := by
        rintro _ ⟨⟩
        exact named
      valid := coherent.valid
      present := fun record saved => by rw [unsaved] at saved; cases saved
      settled := fun record content info saved => by rw [unsaved] at saved; cases saved
      completed := coherent.completed
      held := coherent.held
      checkpoints := fun callback done => absurd done (clean callback)
      work := by rintro _ ⟨⟩ }
  | @createFailed id info stands =>
    have coherent := sound.later taken id (by simp)
    obtain ⟨named, undescribed, unsaved, clean⟩ := coherent.work _ stands
    have born := coherent.born_of_work stands
    refine sound.update taken rfl rfl rfl ?_
    exact {
      unborn := fun fresh => absurd (born.symm.trans fresh) (by decide)
      named := coherent.named
      valid := coherent.valid
      present := fun record saved => by rw [unsaved] at saved; cases saved
      settled := fun record content info saved => by rw [unsaved] at saved; cases saved
      completed := coherent.completed
      held := coherent.held
      checkpoints := fun callback done => absurd done (clean callback)
      work := by rintro _ ⟨⟩ }
  | @patch callbacks id content info chunk running idle found incomplete =>
    have coherent := sound.later taken id (by simp)
    obtain ⟨data, described⟩ := get_spec found
    have unsaved : (state.uploads id).record = none := by
      by_contra saved
      obtain ⟨record, saved⟩ := Option.ne_none_iff_exists'.mp saved
      rw [coherent.complete_of_get found saved] at incomplete
      cases incomplete
    refine sound.update taken rfl rfl rfl ?_
    exact coherent.write unsaved idle data described coherent.named
  | @declareLength callbacks id content info length running idle found deferred =>
    have coherent := sound.later taken id (by simp)
    obtain ⟨data, described⟩ := get_spec found
    have unsaved : (state.uploads id).record = none := by
      by_contra saved
      obtain ⟨record, saved⟩ := Option.ne_none_iff_exists'.mp saved
      have complete := (coherent.settled record content info saved data described).complete
      rw [deferred] at complete
      cases complete
    refine sound.update taken rfl rfl rfl ?_
    refine coherent.write unsaved idle data described ?_
    rintro _ ⟨⟩
    exact coherent.named info described
  | @terminate callbacks id content info running idle found =>
    have coherent := sound.uploads id
    refine sound.move taken rfl (coherent.born_of_data (get_spec found).1) (by simp)
      ⟨⟨_, mem_append_right _ mem_cons_self⟩, ?_⟩
    intro record saved
    rw [saved, Option.map_some] at safe
    cases stage : record.stage with
    | prepared | putting => simp [stage, Label.strands] at safe
    | persisted => rfl
  | @expire callbacks id content info running idle pending data described =>
    exact sound.move taken rfl ((sound.uploads id).born_of_data data) (by simp) pending
  | @finish callbacks id content info running idle found complete =>
    obtain ⟨data, described⟩ := get_spec found
    refine sound.move taken rfl ((sound.uploads id).born_of_data data) (by simp) ?_
    exact ⟨content, info, data, described, (complete_spec data described).mp complete⟩
  | @acknowledge callbacks id record running idle missing loaded persisted =>
    refine sound.move taken rfl ?_ (by simp) trivial
    by_contra fresh
    have absent := ((sound.uploads id).unborn (Bool.not_eq_true _ ▸ fresh)).2.2.1
    rw [completion_spec loaded] at absent
    cases absent
  | @loaded id record stands loaded =>
    exact sound.move taken rfl ((sound.uploads id).born_of_work stands) (by simp)
      (completion_spec loaded)
  | @fingerprinted id content info record stands absent found prepared =>
    have coherent := sound.uploads id
    obtain ⟨content', info', data', described', complete⟩ := coherent.work _ stands
    obtain ⟨data, described⟩ := get_spec found
    obtain rfl : content' = content := Option.some.inj (data'.symm.trans data)
    obtain rfl : info' = info := Option.some.inj (described'.symm.trans described)
    obtain ⟨settled, stage, none⟩ := prepare_spec prepared complete
    exact sound.move taken rfl (coherent.born_of_work stands) (by simp)
      ⟨completion_none absent, stage, none, content', info', data, described, settled⟩
  | @prepared id record stands valid =>
    have coherent := sound.later taken id (by simp)
    obtain ⟨unsaved, stage, none, content, info, data, described, settled⟩ :=
      coherent.work _ stands
    refine sound.update taken rfl rfl rfl (coherent.save (coherent.born_of_work stands)
      (congrArg CompletionUpload.id settled.upload) valid ?_ ?_ ?_ ?_ ?_ rfl)
    · exact fun _ => ⟨by simp [data], by simp [described]⟩
    · intro content' info' data' described'
      obtain rfl : content = content' := Option.some.inj (data.symm.trans data')
      obtain rfl : info = info' := Option.some.inj (described.symm.trans described')
      exact settled
    · simp [none]
    · simp [stage]
    · intro callback done
      exact absurd done (coherent.checkpoints_none unsaved (by simp [data]) (by simp [described]))
  | @attempt id record advanced stands stage advances valid =>
    subst advances
    have coherent := sound.later taken id (by simp)
    have saved := coherent.work _ stands
    refine sound.update taken rfl rfl rfl (coherent.save (coherent.born_of_work stands)
      (coherent.valid record saved).1 valid ?_ ?_ (coherent.completed record saved) ?_ ?_
      ⟨rfl, rfl⟩)
    · exact fun _ => coherent.present record saved (by simp [stage])
    · intro content info data described
      exact (coherent.settled record content info saved data described).advance rfl
    · rintro ⟨⟩
    · exact fun callback done => coherent.checkpoints_current saved done
  | @reattempt id record stands stage =>
    have coherent := sound.uploads id
    exact sound.move taken rfl (coherent.born_of_work stands) (by simp)
      ⟨coherent.work _ stands, stage⟩
  | @redeliver id record stands stage =>
    exact sound.move taken rfl ((sound.uploads id).born_of_work stands) (by simp) trivial
  | @matched id record content object stands data intact held same =>
    have coherent := sound.uploads id
    obtain ⟨saved, stage⟩ := coherent.work _ stands
    exact sound.move taken rfl (coherent.born_of_work stands) (by simp)
      ⟨saved, stage, held_of_matched sound taken saved stage data intact held same⟩
  | @differs id record content stands data intact other =>
    have coherent := sound.uploads id
    exact sound.move taken rfl (coherent.born_of_work stands) (by simp) (coherent.work _ stands)
  | @put id record content stands data size =>
    have coherent := sound.later taken id (by simp)
    obtain ⟨saved, stage⟩ := coherent.work _ stands
    refine sound.update taken rfl rfl rfl (coherent.move (coherent.born_of_work stands) ?_)
    exact ⟨saved, stage, held_of_put sound taken saved stage data rfl (by simp)⟩
  | @persisted id record advanced stands advances valid =>
    subst advances
    have coherent := sound.later taken id (by simp)
    obtain ⟨saved, stage, held⟩ := coherent.work _ stands
    refine sound.update taken rfl rfl rfl (coherent.save (coherent.born_of_work stands)
      (coherent.valid record saved).1 valid ?_ ?_ (coherent.completed record saved) ?_ ?_
      trivial)
    · intro unfinished
      exact absurd rfl unfinished
    · intro content info data described
      exact (coherent.settled record content info saved data described).advance rfl
    · exact fun _ => held
    · exact fun callback done => coherent.checkpoints_current saved done
  | @delivers id record callbacks stands loaded stage running =>
    refine sound.move taken rfl ((sound.uploads id).born_of_work stands) (by simp) ?_
    exact {
      current := completion_spec loaded
      stage := stage
      delivers := mem_append_right _ mem_cons_self
      before := fun callback member => .inl member
      known := fun callback member =>
        (sound.callbacks callbacks running callback member).imp_left
          (mem_append_left _) }
  | @skip id callback record rest callbacks stands done =>
    have coherent := sound.later taken id (by simp)
    have calling : Calling _ _ _ _ _ := coherent.work _ stands
    refine sound.move taken rfl (coherent.born_of_work stands) (by simp) ?_
    refine ⟨calling.current, calling.stage, calling.delivers, ?_,
      fun other member => calling.known other (mem_cons_of_mem _ member)⟩
    intro other member
    rcases calling.before other member with ahead | returned
    · rcases mem_cons.mp ahead with rfl | ahead
      · exact .inr (coherent.completed record calling.current other done).1
      · exact .inl ahead
    · exact .inr returned
  | @ran id callback record rest callbacks stands due =>
    have coherent := sound.later taken id (by simp)
    exact sound.move taken rfl (coherent.born_of_work stands) (by simp)
      ⟨coherent.work _ stands, due⟩
  | @returned id callback record rest callbacks stands =>
    have coherent := sound.later taken id (by simp)
    obtain ⟨calling, due⟩ := coherent.work _ stands
    exact sound.move taken rfl (coherent.born_of_work stands) (by simp)
      ⟨calling, due, mem_append_right _ mem_cons_self⟩
  | @checkpointed id callback record advanced rest callbacks stands advances valid =>
    subst advances
    have coherent := sound.uploads id
    obtain ⟨calling, due, returned⟩ := coherent.work _ stands
    have saved := calling.current
    have known := calling.known callback mem_cons_self
    refine sound.update taken rfl rfl rfl (coherent.save (coherent.born_of_work stands)
      (coherent.valid record saved).1 valid ?_ ?_ ?_ ?_ ?_ ?_)
    · intro unfinished
      exact absurd calling.stage unfinished
    · intro content info data described
      exact (coherent.settled record content info saved data described).advance rfl
    · intro other member
      rcases mem_append.mp member with before | added
      · exact (coherent.completed record saved other before).imp
          (mem_append_left _) (mem_append_left _)
      · obtain rfl := mem_singleton.mp added
        exact ⟨mem_append_left _ returned, mem_append_left _ known.1⟩
    · exact fun _ => held_snoc taken (coherent.held record saved calling.stage)
    · intro other done
      rcases mem_append.mp done with before | last
      · exact mem_append_left _ (coherent.checkpoints_current saved before)
      · obtain ⟨_, rfl⟩ := Label.checkpointed.inj (mem_singleton.mp last)
        exact mem_append_right _ mem_cons_self
    · refine ⟨rfl, calling.stage, mem_append_left _ calling.delivers, ?_, ?_⟩
      · intro other member
        rcases calling.before other member with ahead | before
        · rcases mem_cons.mp ahead with rfl | ahead
          · exact .inr (mem_append_left _ returned)
          · exact .inl ahead
        · exact .inr (mem_append_left _ before)
      · intro other member
        exact (calling.known other (mem_cons_of_mem _ member)).imp_left
          (mem_append_left _)
  | @cleanup id record callbacks stands =>
    have coherent := sound.later taken id (by simp)
    have calling : Calling _ _ _ _ _ := coherent.work _ stands
    refine sound.move taken rfl (coherent.born_of_work stands) (by simp) ?_
    refine ⟨⟨⟨record, calling.current, calling.stage⟩, calling.delivers, ?_⟩, ?_⟩
    · intro callback member
      exact (calling.before callback member).resolve_left not_mem_nil
    · intro _ file gone
      cases file <;> simp at gone
  | @removed id cause file rest failed stands =>
    exact sound.update taken rfl rfl rfl ((sound.later taken id (by simp)).remove stands)
  | @kept id cause file rest failed stands =>
    have coherent := sound.later taken id (by simp)
    have established := coherent.work _ stands
    refine sound.move taken rfl (coherent.born_of_work stands) (by simp) ?_
    cases cause with
    | delivery callbacks => exact ⟨established.1, nofun⟩
    | expiry | termination => exact established
  | @cleaned id callbacks stands =>
    have coherent := sound.later taken id (by simp)
    obtain ⟨delivered, gone⟩ := coherent.work _ stands
    refine sound.move taken rfl (coherent.born_of_work stands) (by simp) ?_
    have data := gone rfl .data not_mem_nil
    have info := gone rfl .info not_mem_nil
    simp only [file, Option.isSome_eq_false_iff, Option.isNone_iff_eq_none] at data info
    exact ⟨delivered, data, info⟩
  | @deleted id callbacks stands =>
    exact sound.update taken rfl rfl rfl ((sound.later taken id (by simp)).delete stands)

variable {events : List Label}

theorem handler_sound (run : (handler sha keyFn).Run events state)
    (safe : ∀ label ∈ events, label.strands = false) : Sound sha keyFn events state := by
  refine run.history_invariant (fun history state =>
    (∀ label ∈ history, label.strands = false) → Sound sha keyFn history state) ?_ ?_ safe
  · rintro _ rfl _
    refine ⟨⟨{}, rfl, .nil _⟩, ?_, ?_⟩
    · rintro _ ⟨⟩
    · intro id
      exact {
        unborn := fun _ => ⟨rfl, rfl, rfl, rfl⟩
        named := nofun
        valid := nofun
        present := nofun
        settled := nofun
        completed := nofun
        held := nofun
        checkpoints := nofun
        work := by rintro _ ⟨⟩ }
  · intro history before label after sound step safe
    have earlier : ∀ label ∈ history, label.strands = false :=
      fun other member => safe other (mem_append_left _ member)
    exact sound_step (sound earlier) step (safe label (mem_append_right _ mem_cons_self))

end Golusoris.Tus.Completion
