import Golusoris.Twotier.Cache

/-!
# The epoch fence

As long as the epoch does not wrap, every step leaves it alone or raises it by
one, and no load or call can hold an epoch the cache has not reached. `Sound`
says so, ties each waiting call to the load of its key and epoch, and keeps
the lock with the one mutation between its write of L2 and its change of L1.
-/

namespace Golusoris.Twotier

open Function (update update_of_ne update_self)
open Golusoris.Lib
open Local

variable {V Origin : Type*} [DecidableEq Origin]
variable {codec : Codec V} {self : Origin}
variable {cache before after : Local V} {store store' : Store} {event : Event V Origin}

theorem Local.setL1IfCurrent_eq (key : Key) (value : V) (epoch : Nat) :
    cache.setL1IfCurrent key value epoch =
      { cache with
        l1 := if cache.epoch = epoch then update cache.l1 key (some value)
          else cache.l1 } := by
  unfold setL1IfCurrent
  split_ifs with current
  · rfl
  · rfl

theorem Local.applyInvalidation_cases (cache : Local V) (self : Origin)
    (notice : Invalidation Origin) :
    ((notice.origin = self ∨ notice.scope = none) ∧ cache.applyInvalidation self notice = cache) ∨
      ∃ scope, notice.origin ≠ self ∧ notice.scope = some scope ∧
        cache.applyInvalidation self notice = cache.raise.evictL1 scope := by
  unfold applyInvalidation
  by_cases own : notice.origin = self
  · exact .inl ⟨.inl own, if_pos own⟩
  · rw [if_neg own]
    cases covered : notice.scope with
    | none => exact .inl ⟨.inr rfl, rfl⟩
    | some scope => exact .inr ⟨scope, own, rfl, rfl⟩

/-- A notice changes L1 and the epoch only. -/
theorem Local.applyInvalidation_eq (self : Origin) (notice : Invalidation Origin) :
    cache.applyInvalidation self notice =
      { cache with
        l1 := (cache.applyInvalidation self notice).l1
        epoch := (cache.applyInvalidation self notice).epoch } := by
  rcases applyInvalidation_cases cache self notice with ⟨-, same⟩ | ⟨scope, -, -, same⟩
  · rw [same]
  · rw [same]
    rfl

/-- An epoch that did not fall when it was raised did not wrap. -/
theorem Local.raise_epoch (kept : cache.epoch ≤ cache.raise.epoch) :
    cache.raise.epoch = cache.epoch + 1 := by
  simp only [raise] at kept ⊢
  omega

/-- The loads of one cache persist: each keeps its key and its epoch, and one
that is done does not change. -/
def Persist (before after : Local V) : Prop :=
  ∀ number flight, before.flights number = some flight →
    ∃ flight', after.flights number = some flight' ∧ flight'.key = flight.key ∧
      flight'.epoch = flight.epoch ∧ (flight.stage.finished = true → flight' = flight)

theorem Persist.same (same : after.flights = before.flights) : Persist before after := by
  intro number flight found
  exact ⟨flight, same ▸ found, rfl, rfl, fun _ => rfl⟩

variable {number other : Nat}

theorem Persist.advance {flight flight' : Flight} (found : before.flights number = some flight)
    (running : flight.stage.finished = false) (key : flight'.key = flight.key)
    (epoch : flight'.epoch = flight.epoch) : Persist before (before.advance number flight') := by
  intro other flight₀ found₀
  by_cases equal : other = number
  · subst equal
    obtain rfl : flight = flight₀ := Option.some.inj (found.symm.trans found₀)
    refine ⟨flight', update_self .., key, epoch, ?_⟩
    intro finished
    rw [running] at finished
    cases finished
  · exact ⟨flight₀, (update_of_ne equal ..).trans found₀, rfl, rfl, fun _ => rfl⟩

/-- A load found after one load advanced. -/
theorem Local.advance_flights {flight flight' : Flight}
    (found : (cache.advance number flight).flights other = some flight') :
    other = number ∧ flight' = flight ∨ other ≠ number ∧ cache.flights other = some flight' := by
  by_cases equal : other = number
  · subst equal
    simp only [advance, update_self, Option.some.injEq] at found
    exact .inl ⟨rfl, found.symm⟩
  · exact .inr ⟨equal, (update_of_ne equal ..).symm.trans found⟩

variable {call : Call V}

/-- A call found after one call moved. -/
theorem Local.move_calls {moved : Option (Call V)}
    (found : (cache.move number moved).calls other = some call) :
    other = number ∧ moved = some call ∨ other ≠ number ∧ cache.calls other = some call := by
  by_cases equal : other = number
  · subst equal
    simp only [move, update_self] at found
    exact .inl ⟨rfl, found⟩
  · exact .inr ⟨equal, (update_of_ne equal ..).symm.trans found⟩

/-- What a call in progress rests on. -/
def Linked (codec : Codec V) (cache : Local V) (number : Nat) : Call V → Prop
  | .looking _ epoch => epoch ≤ cache.epoch
  | .waiting other key epoch =>
      ∃ flight, cache.flights other = some flight ∧ flight.key = key ∧ flight.epoch = epoch
  | .filling other key epoch value =>
      ∃ flight raw, cache.flights other = some flight ∧ flight.key = key ∧
        flight.epoch = epoch ∧ flight.stage = .done (some raw) ∧ codec.unmarshal raw = some value
  | .setting _ _ => cache.holder = some number
  | .erasing _ => cache.holder = some number
  | .broadcasting _ => True

theorem Linked.mono (linked : Linked codec before number call)
    (epoch : before.epoch ≤ after.epoch) (persist : Persist before after)
    (holder : before.holder = some number → after.holder = some number) :
    Linked codec after number call := by
  cases call with
  | looking key seen => exact Nat.le_trans linked epoch
  | waiting other key seen =>
    obtain ⟨flight, found, rfl, rfl⟩ := linked
    obtain ⟨flight', found', sameKey, sameEpoch, -⟩ := persist other flight found
    exact ⟨flight', found', sameKey, sameEpoch⟩
  | filling other key seen value =>
    obtain ⟨flight, raw, found, rfl, rfl, stage, decodes⟩ := linked
    obtain ⟨flight', found', -, -, done⟩ := persist other flight found
    obtain rfl := done (by rw [stage]; rfl)
    exact ⟨flight', raw, found', rfl, rfl, stage, decodes⟩
  | setting _ _ | erasing _ => exact holder linked
  | broadcasting scope => trivial

/-- The mutations between their write of L2 and their change of L1. -/
def Call.mutating : Call V → Bool
  | .setting _ _ => true
  | .erasing _ => true
  | _ => false

/-- The invariant of one cache between epoch wraps. -/
structure Local.Sound (codec : Codec V) (cache : Local V) : Prop where
  holder : ∀ number, cache.holder = some number →
    ∃ call, cache.calls number = some call ∧ call.mutating = true
  flights : ∀ number flight, cache.flights number = some flight →
    number < cache.nextFlight ∧ flight.epoch ≤ cache.epoch
  calls : ∀ number call, cache.calls number = some call →
    number < cache.nextCall ∧ Linked codec cache number call

theorem Local.Fresh.sound (fresh : cache.Fresh) : cache.Sound codec where
  holder := by
    intro number held
    rw [fresh.holder] at held
    cases held
  flights := by
    intro number flight found
    rw [fresh.flights number] at found
    cases found
  calls := by
    intro number call found
    rw [fresh.calls number] at found
    cases found

variable {key : Key}

theorem Local.Sound.waiting {epoch : Nat} (sound : cache.Sound codec)
    (call : cache.calls number = some (.waiting other key epoch)) :
    ∃ flight, cache.flights other = some flight ∧ flight.key = key ∧ flight.epoch = epoch :=
  (sound.calls number _ call).2

theorem Local.Sound.filling {epoch : Nat} {value : V} (sound : cache.Sound codec)
    (call : cache.calls number = some (.filling other key epoch value)) :
    ∃ flight raw, cache.flights other = some flight ∧ flight.key = key ∧
      flight.epoch = epoch ∧ flight.stage = .done (some raw) ∧
      codec.unmarshal raw = some value :=
  (sound.calls number _ call).2

/-- While the lock is free no mutation is between its two tiers. -/
theorem Local.Sound.free_setting {value : V} (sound : cache.Sound codec)
    (free : cache.holder = none) : cache.calls number ≠ some (.setting key value) := by
  intro call
  have held : cache.holder = some number := (sound.calls number _ call).2
  rw [free] at held
  cases held

theorem Local.Sound.free_erasing {scope : Scope} (sound : cache.Sound codec)
    (free : cache.holder = none) : cache.calls number ≠ some (.erasing scope) := by
  intro call
  have held : cache.holder = some number := (sound.calls number _ call).2
  rw [free] at held
  cases held

theorem Step.persist (sound : before.Sound codec)
    (step : Step codec self before store event after store') : Persist before after := by
  cases step with
  | hit _ _ | miss _ _ | join _ _ _ _ _ => exact .same rfl
  | start call alone =>
    intro other flight found
    have below := (sound.flights other flight found).1
    refine ⟨flight, ?_, rfl, rfl, fun _ => rfl⟩
    exact (update_of_ne (Nat.ne_of_lt below) _ _).trans found
  | readHit found stage _ _ | readAbsent found stage _ | readCorrupt found stage _ _
  | purge _ found stage | call found stage | loaded found stage _ | loadFailed found stage
  | store _ found stage =>
    exact .advance found (by rw [stage]; rfl) rfl rfl
  | decode _ _ _ _ | fail _ _ _ _ | write _ _ | set _ _ | erase _ | delete _ _ | send _ =>
    exact .same rfl
  | fill free call =>
    rw [setL1IfCurrent_eq]
    exact .same rfl
  | invalidate notice free =>
    rw [applyInvalidation_eq]
    exact .same rfl

/-- Numbers are handed out in order. -/
theorem Step.grows (step : Step codec self before store event after store') :
    before.nextCall ≤ after.nextCall ∧ before.nextFlight ≤ after.nextFlight := by
  cases step with
  | miss _ _ | write _ _ | erase _ => exact ⟨Nat.le_succ _, Nat.le_refl _⟩
  | start call alone => exact ⟨Nat.le_refl _, Nat.le_succ _⟩
  | fill free call =>
    rw [setL1IfCurrent_eq]
    exact ⟨Nat.le_refl _, Nat.le_refl _⟩
  | invalidate notice free =>
    rw [applyInvalidation_eq]
    exact ⟨Nat.le_refl _, Nat.le_refl _⟩
  | _ => exact ⟨Nat.le_refl _, Nat.le_refl _⟩

/-- A load found after a step was there before it under the same key and epoch,
or the step started it for a call that was looking for it. -/
theorem Step.flight_origin (step : Step codec self before store event after store')
    {flight : Flight} (found : after.flights number = some flight) :
    (∃ flight₀, before.flights number = some flight₀ ∧ flight.key = flight₀.key ∧
        flight.epoch = flight₀.epoch) ∨
      number = before.nextFlight ∧ after.nextFlight = before.nextFlight + 1 ∧
        flight.stage = .reading ∧
        ∃ call, before.calls call = some (.looking flight.key flight.epoch) := by
  cases step with
  | start call alone =>
    rcases advance_flights found with ⟨rfl, rfl⟩ | ⟨-, found⟩
    · exact .inr ⟨rfl, rfl, rfl, _, call⟩
    · exact .inl ⟨flight, found, rfl, rfl⟩
  | readHit found₀ _ _ _ | readAbsent found₀ _ _ | readCorrupt found₀ _ _ _ | purge _ found₀ _
  | call found₀ _ | loaded found₀ _ _ | loadFailed found₀ _ | store _ found₀ _ =>
    rcases advance_flights found with ⟨rfl, rfl⟩ | ⟨-, found⟩
    · exact .inl ⟨_, found₀, rfl, rfl⟩
    · exact .inl ⟨flight, found, rfl, rfl⟩
  | fill free call =>
    rw [setL1IfCurrent_eq] at found
    exact .inl ⟨flight, found, rfl, rfl⟩
  | invalidate notice free =>
    rw [applyInvalidation_eq] at found
    exact .inl ⟨flight, found, rfl, rfl⟩
  | _ => exact .inl ⟨flight, found, rfl, rfl⟩

/-- A call found after a step is new and stands on what the step left, or it
stood before the step and the step did not take the lock from it. -/
theorem Step.call_origin (sound : before.Sound codec)
    (step : Step codec self before store event after store')
    (found : after.calls number = some call) :
    number < after.nextCall ∧ (Linked codec after number call ∨
      before.calls number = some call ∧
        (before.holder = some number → after.holder = some number)) := by
  have stood : before.calls number = some call → number < before.nextCall :=
    fun found => (sound.calls number call found).1
  cases step with
  | miss free absent =>
    rcases move_calls found with ⟨rfl, same⟩ | ⟨-, found⟩
    · cases same
      exact ⟨Nat.lt_succ_self _, .inl (Nat.le_refl _)⟩
    · exact ⟨Nat.lt_succ_of_lt (stood found), .inr ⟨found, id⟩⟩
  | start waits alone =>
    rcases move_calls found with ⟨rfl, same⟩ | ⟨-, found⟩
    · cases same
      refine ⟨(sound.calls _ _ waits).1, .inl ⟨_, update_self .., rfl, rfl⟩⟩
    · exact ⟨stood found, .inr ⟨found, id⟩⟩
  | join waits flying sameKey sameEpoch running =>
    rcases move_calls found with ⟨rfl, same⟩ | ⟨-, found⟩
    · cases same
      exact ⟨(sound.calls _ _ waits).1, .inl ⟨_, flying, sameKey, sameEpoch⟩⟩
    · exact ⟨stood found, .inr ⟨found, id⟩⟩
  | decode waits flying stage decodes =>
    rcases move_calls found with ⟨rfl, same⟩ | ⟨-, found⟩
    · cases same
      obtain ⟨flight, flying', sameKey, sameEpoch⟩ := sound.waiting waits
      obtain rfl := Option.some.inj (flying.symm.trans flying')
      exact ⟨(sound.calls _ _ waits).1, .inl ⟨_, _, flying, sameKey, sameEpoch, stage, decodes⟩⟩
    · exact ⟨stood found, .inr ⟨found, id⟩⟩
  | fail _ _ _ _ | send _ =>
    rcases move_calls found with ⟨rfl, same⟩ | ⟨-, found⟩
    · cases same
    · exact ⟨stood found, .inr ⟨found, id⟩⟩
  | fill free waits =>
    rw [setL1IfCurrent_eq] at found ⊢
    rcases move_calls found with ⟨rfl, same⟩ | ⟨-, found⟩
    · cases same
    · exact ⟨stood found, .inr ⟨found, id⟩⟩
  | write free _ | erase free =>
    rcases move_calls found with ⟨rfl, same⟩ | ⟨-, found⟩
    · cases same
      exact ⟨Nat.lt_succ_self _, .inl rfl⟩
    · refine ⟨Nat.lt_succ_of_lt (stood found), .inr ⟨found, fun held => ?_⟩⟩
      rw [free] at held
      cases held
  | set mutates held₀ | delete mutates held₀ =>
    rcases move_calls found with ⟨rfl, same⟩ | ⟨other, found⟩
    · cases same
      exact ⟨(sound.calls _ _ mutates).1, .inl trivial⟩
    · refine ⟨stood found, .inr ⟨found, fun held => ?_⟩⟩
      exact absurd (Option.some.inj (held.symm.trans held₀)) other
  | invalidate notice free =>
    rw [applyInvalidation_eq] at found ⊢
    exact ⟨stood found, .inr ⟨found, id⟩⟩
  | _ => exact ⟨stood found, .inr ⟨found, id⟩⟩

/-- The lock is with a mutation after every step. -/
theorem Step.holder_mutates (sound : before.Sound codec)
    (step : Step codec self before store event after store') (held : after.holder = some number) :
    ∃ call, after.calls number = some call ∧ call.mutating = true := by
  -- A step that moves a call that is no mutation does not move the holder.
  have apart : ∀ {other call} moved, before.holder = some number →
      before.calls other = some call → call.mutating = false →
      ∃ call, update before.calls other moved number = some call ∧ call.mutating = true := by
    intro other call moved held found idle
    obtain ⟨holder, found', mutating⟩ := sound.holder number held
    have ne : number ≠ other := by
      intro equal
      subst equal
      rw [found, Option.some.injEq] at found'
      rw [found', mutating] at idle
      cases idle
    exact ⟨holder, (update_of_ne ne ..).trans found', mutating⟩
  cases step with
  | miss free absent =>
    rw [show before.holder = some number from held] at free
    cases free
  | start call _ | join call _ _ _ _ | decode call _ _ _ | fail call _ _ _ | send call =>
    exact apart _ held call rfl
  | fill free call =>
    rw [setL1IfCurrent_eq] at held ⊢
    exact apart _ held call rfl
  | write _ _ | erase _ =>
    cases held
    exact ⟨_, update_self .., rfl⟩
  | set _ _ | delete _ _ => cases held
  | invalidate notice free =>
    rw [applyInvalidation_eq] at held ⊢
    exact sound.holder number held
  | _ => exact sound.holder number held

/-- A step that does not wrap the epoch keeps the invariant. -/
theorem Local.Sound.step (sound : before.Sound codec)
    (step : Step codec self before store event after store')
    (kept : before.epoch ≤ after.epoch) : after.Sound codec where
  holder := fun _ held => step.holder_mutates sound held
  flights := by
    intro number flight found
    rcases step.flight_origin found with
      ⟨flight₀, found₀, -, epoch⟩ | ⟨rfl, next, -, caller, looking⟩
    · obtain ⟨below, reached⟩ := sound.flights number flight₀ found₀
      exact ⟨Nat.lt_of_lt_of_le below step.grows.2, epoch ▸ Nat.le_trans reached kept⟩
    · have reached : flight.epoch ≤ before.epoch := (sound.calls caller _ looking).2
      exact ⟨next ▸ Nat.lt_succ_self _, Nat.le_trans reached kept⟩
  calls := by
    intro number call found
    obtain ⟨below, linked | ⟨stood, holds⟩⟩ := step.call_origin sound found
    · exact ⟨below, linked⟩
    · exact ⟨below, (sound.calls number call stood).2.mono kept (step.persist sound) holds⟩

/-- The steps that raise the epoch. -/
def Event.raises (self : Origin) : Event V Origin → Bool
  | .set _ _ _ => true
  | .deleted _ _ => true
  | .invalidated notice => notice.origin ≠ self ∧ notice.scope ≠ none
  | _ => false

theorem Step.epoch (step : Step codec self before store event after store') :
    event.raises self = false ∧ after.epoch = before.epoch ∨
      event.raises self = true ∧ after.epoch = (before.epoch + 1) % 2 ^ 64 := by
  cases step with
  | set _ _ | delete _ _ => exact .inr ⟨rfl, rfl⟩
  | fill free call =>
    rw [setL1IfCurrent_eq]
    exact .inl ⟨rfl, rfl⟩
  | invalidate notice free =>
    rcases applyInvalidation_cases before self notice with
      ⟨ignored, same⟩ | ⟨scope, foreign, covered, same⟩
    · rw [same]
      refine .inl ⟨?_, rfl⟩
      rcases ignored with own | unknown
      · simp [Event.raises, own]
      · simp [Event.raises, unknown]
    · rw [same]
      exact .inr ⟨by simp [Event.raises, foreign, covered], rfl⟩
  | _ => exact .inl ⟨rfl, rfl⟩

theorem Step.process (step : Step codec self before store event after store') :
    (process codec self).Step (before, store) event (after, store') :=
  step

/-- The moves of one cache that do not wrap its epoch. -/
def fenced (codec : Codec V) (self : Origin) : Machine (Local V × Store) (Event V Origin) where
  Initial := fun state => state.1.Fresh
  Step := fun before event after =>
    Step codec self before.1 before.2 event after.1 after.2 ∧ before.1.epoch ≤ after.1.epoch

/-- Fewer than `2 ^ 64` raises do not wrap the epoch. -/
theorem fenced_run {events : List (Event V Origin)} {finish : Local V × Store}
    (run : (process codec self).Run events finish)
    (bounded : events.countP (Event.raises self) < 2 ^ 64) :
    (fenced codec self).Run events finish := by
  have counted : events.countP (Event.raises self) < 2 ^ 64 →
      finish.1.epoch = events.countP (Event.raises self) ∧
        (fenced codec self).Run events finish := by
    refine run.history_invariant
      (fun history state => history.countP (Event.raises self) < 2 ^ 64 →
        state.1.epoch = history.countP (Event.raises self) ∧
          (fenced codec self).Run history state) ?_ ?_
    · intro state fresh _
      exact ⟨fresh.epoch, state, fresh, .nil state⟩
    · intro history before event after holds step bound
      rw [List.countP_append, List.countP_singleton] at bound ⊢
      obtain ⟨epoch, ran⟩ := holds (by omega)
      rcases Step.epoch step with ⟨quiet, same⟩ | ⟨raises, raised⟩
      · rw [quiet, same, epoch]
        refine ⟨by simp, ran.snoc ⟨step, Nat.le_of_eq same.symm⟩⟩
      · rw [raises] at bound ⊢
        simp only [if_true] at bound ⊢
        have exact : after.1.epoch = before.1.epoch + 1 := by
          rw [raised, epoch]
          exact Nat.mod_eq_of_lt bound
        refine ⟨by rw [exact, epoch], ran.snoc ⟨step, ?_⟩⟩
        exact exact ▸ Nat.le_succ _
  exact (counted bounded).2

end Golusoris.Twotier
