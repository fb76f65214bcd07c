import Golusoris.Twotier.Coherence

/-!
# What one step does to the tiers

The replicas of a cluster meet only in L2 and in their notices, so their
arguments need each step from the outside: which entries of L2 it changes and
on whose behalf, where a value in L1 or a finished load comes from, and which
mutations still have to be announced.
-/

namespace Golusoris.Twotier

open Golusoris.Lib
open Local

variable {V Origin : Type*}

/-- A load that did not find a usable entry in L2. -/
def Stage.missed : Stage → Bool
  | .reading => false
  | .done _ => false
  | _ => true

/-- A load writes L2 although the entry was written since the load read it. -/
def Event.overwrites : Event V Origin → Bool
  | .purged _ _ current overtaken => current && overtaken
  | .stored _ _ current overtaken => current && overtaken
  | _ => false

/-- A mutation of the key that peers have not been told of yet. -/
def Call.announces (key : Key) : Call V → Bool
  | .setting other _ => other == key
  | .erasing scope => scope.covers key
  | .broadcasting scope => scope.covers key
  | _ => false

/-- The steps that replace or evict the key in L1 and raise the epoch. -/
def Event.clears [DecidableEq Origin] (self : Origin) (key : Key) : Event V Origin → Bool
  | .set _ other _ => other == key
  | .deleted _ scope => scope.covers key
  | .invalidated notice => notice.origin ≠ self ∧ (notice.scope.any (·.covers key)) = true
  | _ => false

variable [DecidableEq Origin]
variable {codec : Codec V} {self : Origin}
variable {before after : Local V} {store store' : Store} {event : Event V Origin}
variable {key : Key} {value : V} {raw : Bytes} {number : Nat}

variable (step : Step codec self before store event after store')

include step in
/-- A step that clears a key of L1 raises the epoch. -/
theorem Step.not_clears (same : after.epoch = before.epoch) : event.clears self key = false := by
  have quiet : event.raises self = false := by
    rcases step.epoch with ⟨quiet, -⟩ | ⟨-, raised⟩
    · exact quiet
    · omega
  cases event with
  | set | deleted => cases quiet
  | invalidated notice =>
    simp only [Event.raises, decide_eq_false_iff_not, not_and, not_not] at quiet
    by_cases own : notice.origin = self
    · simp [Event.clears, own]
    · simp [Event.clears, quiet own]
  | _ => rfl

theorem Store.set_writes_self : (store.set key raw).writes key = store.writes key + 1 :=
  Function.update_self ..

theorem Store.set_writes_of_ne {other : Key} (ne : other ≠ key) :
    (store.set other raw).writes key = store.writes key :=
  Function.update_of_ne (Ne.symm ne) ..

theorem Store.del_writes {scope : Scope} :
    (store.del scope).writes key =
      if scope.covers key then store.writes key + 1 else store.writes key :=
  rfl

include step in
/-- An entry of L2 changes by a mutation of the key, or by a load of the key
that missed and still has the current epoch. -/
theorem Step.l2_effect (key : Key) :
    (store'.entry key = store.entry key ∧ store'.writes key = store.writes key) ∨
      store'.writes key = store.writes key + 1 ∧ before.holder = none ∧
        (event.mutates key = true ∨
          ∃ number flight, before.flights number = some flight ∧ flight.key = key ∧
            flight.stage.missed = true ∧
            (flight.seen = store.writes key ∨ event.overwrites = true)) := by
  cases step with
  | @purge number flight free found stage =>
    unfold deleteL2IfCurrent
    split_ifs with current
    · by_cases same : flight.key = key
      · subst same
        refine .inr ⟨by simp [Store.del_writes, Scope.covers], free, .inr ⟨number, flight, found,
          rfl, by rw [stage]; rfl, ?_⟩⟩
        by_cases seen : flight.seen = store.writes flight.key
        · exact .inl seen
        · exact .inr (by simp [Event.overwrites, current, seen])
      · have uncovered := Scope.key_covers_of_ne same
        exact .inl ⟨Store.del_entry_of_not uncovered, by simp [Store.del_writes, uncovered]⟩
    · exact .inl ⟨rfl, rfl⟩
  | @store number flight raw free found stage =>
    unfold setL2IfCurrent
    split_ifs with current
    · by_cases same : flight.key = key
      · subst same
        refine .inr ⟨Store.set_writes_self, free, .inr ⟨number, flight, found, rfl,
          by rw [stage]; rfl, ?_⟩⟩
        by_cases seen : flight.seen = store.writes flight.key
        · exact .inl seen
        · exact .inr (by simp [Event.overwrites, current, seen])
      · exact .inl ⟨Store.set_entry_of_ne same, Store.set_writes_of_ne same⟩
    · exact .inl ⟨rfl, rfl⟩
  | @write other value raw free encodes =>
    by_cases same : other = key
    · subst same
      exact .inr ⟨Store.set_writes_self, free, .inl (by simp [Event.mutates])⟩
    · exact .inl ⟨Store.set_entry_of_ne same, Store.set_writes_of_ne same⟩
  | @erase scope free =>
    by_cases covered : scope.covers key = true
    · exact .inr ⟨by simp [Store.del_writes, covered], free, .inl covered⟩
    · have uncovered : scope.covers key = false := by simpa using covered
      exact .inl ⟨Store.del_entry_of_not uncovered, by simp [Store.del_writes, uncovered]⟩
  | _ => exact .inl ⟨rfl, rfl⟩

include step in
/-- An entry found in L2 stood there before, was just written by a mutation, or
was just back-filled by a load. -/
theorem Step.entry_origin (found : store'.entry key = some raw) :
    store.entry key = some raw ∨ event.mutates key = true ∨
      ∃ number flight, before.flights number = some flight ∧ flight.key = key ∧
        flight.stage = .storing raw ∧
        (flight.seen = store.writes key ∨ event.overwrites = true) := by
  cases step with
  | @purge number flight free found₀ stage =>
    unfold deleteL2IfCurrent at found
    split_ifs at found with current
    · simp only [Store.del] at found
      split_ifs at found
      exact .inl found
    · exact .inl found
  | @store number flight raw' free found₀ stage =>
    unfold setL2IfCurrent at found
    split_ifs at found with current
    · by_cases same : flight.key = key
      · subst same
        obtain rfl : raw' = raw := by simpa [Store.set] using found
        refine .inr (.inr ⟨number, flight, found₀, rfl, stage, ?_⟩)
        by_cases seen : flight.seen = store.writes flight.key
        · exact .inl seen
        · exact .inr (by simp [Event.overwrites, current, seen])
      · rw [Store.set_entry_of_ne same] at found
        exact .inl found
    · exact .inl found
  | @write other value raw' free encodes =>
    by_cases same : other = key
    · exact .inr (.inl (by simp [Event.mutates, same]))
    · rw [Store.set_entry_of_ne same] at found
      exact .inl found
  | @erase scope free =>
    simp only [Store.del] at found
    split_ifs at found
    exact .inl found
  | _ => exact .inl found

include step in
/-- A value found in L1 stood there before, was back-filled by a `Get` of the
current epoch, or is the one a `Set` has just put there. -/
theorem Step.l1_origin (found : after.l1 key = some value) :
    (before.l1 key = some value ∧ event.clears self key = false) ∨
      (∃ number other, before.calls number = some (.filling other key before.epoch value) ∧
        event.clears self key = false ∧ store' = store) ∨
      ∃ number, before.calls number = some (.setting key value) ∧
        event = .set number key value ∧ store' = store := by
  cases step with
  | @fill number other key' epoch filled free call =>
    rw [setL1IfCurrent_eq] at found
    by_cases current : before.epoch = epoch
    · subst current
      by_cases same : key = key'
      · subst same
        obtain rfl : filled = value := by simpa [move] using found
        exact .inr (.inl ⟨number, other, call, rfl, rfl⟩)
      · exact .inl ⟨by simpa [move, same] using found, rfl⟩
    · exact .inl ⟨by simpa [move, current] using found, rfl⟩
  | @set number key' written call held =>
    have here : (before.raise.setL1 key' written).l1 key = some value := found
    by_cases same : key = key'
    · subst same
      obtain rfl : written = value := by simpa [setL1] using here
      exact .inr (.inr ⟨number, call, rfl, rfl⟩)
    · refine .inl ⟨?_, by simp [Event.clears, Ne.symm same]⟩
      simpa [setL1, raise, same] using here
  | @delete number scope call held =>
    have here : (before.raise.evictL1 scope).l1 key = some value := found
    refine .inl ⟨evictL1_l1 before.raise here, ?_⟩
    by_contra covered
    simp only [Event.clears, Bool.not_eq_false] at covered
    simp [evictL1, covered] at here
  | invalidate notice free =>
    rcases applyInvalidation_cases before self notice with
      ⟨ignored, same⟩ | ⟨scope, -, covers, same⟩
    · rw [same] at found
      refine .inl ⟨found, ?_⟩
      rcases ignored with own | unknown
      · simp [Event.clears, own]
      · simp [Event.clears, unknown]
    · rw [same] at found
      refine .inl ⟨evictL1_l1 before.raise found, ?_⟩
      by_contra covered
      simp only [Event.clears, covers, Option.any_some, Bool.not_eq_false,
        decide_eq_true_eq] at covered
      simp [evictL1, covered.2] at found
  | _ => exact .inl ⟨found, rfl⟩

variable {flight : Flight}

variable (found : after.flights number = some flight)

include step found in
/-- A finished load was finished before, has just read its entry from L2, or
has just back-filled L2. -/
theorem Step.done_origin (stage : flight.stage = .done (some raw)) :
    before.flights number = some flight ∨
      (store.entry flight.key = some raw ∧ codec.unmarshal raw ≠ none ∧ store' = store) ∨
      ∃ flight₀, before.flights number = some flight₀ ∧ flight₀.stage = .storing raw ∧
        flight.key = flight₀.key ∧ flight.epoch = flight₀.epoch ∧
        after.epoch = before.epoch ∧
        store' = before.setL2IfCurrent store flight₀.key raw flight₀.epoch := by
  cases step with
  | start call alone =>
    rcases advance_flights found with ⟨-, rfl⟩ | ⟨-, found⟩
    · cases stage
    · exact .inl found
  | readHit found₀ reading present decodes =>
    rcases advance_flights found with ⟨-, rfl⟩ | ⟨-, found⟩
    · cases stage
      exact .inr (.inl ⟨present, by rw [decodes]; nofun, rfl⟩)
    · exact .inl found
  | readAbsent _ _ _ | readCorrupt _ _ _ _ | purge _ _ _ | call _ _ | loaded _ _ _
  | loadFailed _ _ =>
    rcases advance_flights found with ⟨-, rfl⟩ | ⟨-, found⟩
    · cases stage
    · exact .inl found
  | store free found₀ storing =>
    rcases advance_flights found with ⟨rfl, rfl⟩ | ⟨-, found⟩
    · cases stage
      exact .inr (.inr ⟨_, found₀, storing, rfl, rfl, rfl, rfl⟩)
    · exact .inl found
  | fill free call =>
    rw [setL1IfCurrent_eq] at found
    exact .inl found
  | invalidate notice free =>
    rw [applyInvalidation_eq] at found
    exact .inl found
  | _ => exact .inl found

include step found in
theorem Step.loading_origin (stage : flight.stage = .loading) :
    before.flights number = some flight ∨ event = .called number := by
  cases step with
  | call found₀ calling =>
    rcases advance_flights found with ⟨rfl, -⟩ | ⟨-, found⟩
    · exact .inr rfl
    · exact .inl found
  | start _ _ | readHit _ _ _ _ | readAbsent _ _ _ | readCorrupt _ _ _ _ | purge _ _ _
  | loaded _ _ _ | loadFailed _ _ | store _ _ _ =>
    rcases advance_flights found with ⟨-, rfl⟩ | ⟨-, found⟩
    · cases stage
    · exact .inl found
  | fill free call =>
    rw [setL1IfCurrent_eq] at found
    exact .inl found
  | invalidate notice free =>
    rw [applyInvalidation_eq] at found
    exact .inl found
  | _ => exact .inl found

include step found in
/-- A load that is about to back-fill L2 holds marshalled bytes. -/
theorem Step.storing_origin (stage : flight.stage = .storing raw) :
    before.flights number = some flight ∨
      ∃ value flight₀, codec.marshal value = some raw ∧ event = .loaded number value ∧
        before.flights number = some flight₀ ∧ flight₀.stage = .loading ∧
        flight.key = flight₀.key ∧ flight.seen = flight₀.seen := by
  cases step with
  | @loaded number' flight' value raw' found₀ loading encodes =>
    rcases advance_flights found with ⟨rfl, rfl⟩ | ⟨-, found⟩
    · cases stage
      exact .inr ⟨value, flight', encodes, rfl, found₀, loading, rfl, rfl⟩
    · exact .inl found
  | start _ _ | readHit _ _ _ _ | readAbsent _ _ _ | readCorrupt _ _ _ _ | purge _ _ _ | call _ _
  | loadFailed _ _ | store _ _ _ =>
    rcases advance_flights found with ⟨-, rfl⟩ | ⟨-, found⟩
    · cases stage
    · exact .inl found
  | fill free call =>
    rw [setL1IfCurrent_eq] at found
    exact .inl found
  | invalidate notice free =>
    rw [applyInvalidation_eq] at found
    exact .inl found
  | _ => exact .inl found

include step found in
/-- A load past its read has just missed, has just purged its own corrupt
entry, or was past its read before with the same knowledge of L2. -/
theorem Step.missed_origin (missed : flight.stage.missed = true) :
    (flight.seen = store.writes flight.key ∧ store' = store ∧
        ∀ raw, store.entry flight.key = some raw → codec.unmarshal raw = none) ∨
      ∃ flight₀, before.flights number = some flight₀ ∧ flight.key = flight₀.key ∧
        flight₀.stage.missed = true ∧
        (flight.seen = flight₀.seen ∨
          flight.seen = flight₀.seen + 1 ∧ store'.entry flight.key = none ∧
            store'.writes flight.key = store.writes flight.key + 1 ∧
            (event.overwrites = true ∨ flight₀.seen = store.writes flight.key)) := by
  cases step with
  | start _ _ | readHit _ _ _ _ | loadFailed _ _ | store _ _ _ =>
    rcases advance_flights found with ⟨-, rfl⟩ | ⟨-, found⟩
    · cases missed
    · exact .inr ⟨flight, found, rfl, missed, .inl rfl⟩
  | readAbsent found₀ reading absent =>
    rcases advance_flights found with ⟨-, rfl⟩ | ⟨-, found⟩
    · refine .inl ⟨rfl, rfl, fun raw present => ?_⟩
      rw [absent] at present
      cases present
    · exact .inr ⟨flight, found, rfl, missed, .inl rfl⟩
  | readCorrupt found₀ reading present corrupt =>
    rcases advance_flights found with ⟨-, rfl⟩ | ⟨-, found⟩
    · refine .inl ⟨rfl, rfl, fun raw present' => ?_⟩
      obtain rfl := Option.some.inj (present.symm.trans present')
      exact corrupt
    · exact .inr ⟨flight, found, rfl, missed, .inl rfl⟩
  | @purge number' flight' free found₀ purging =>
    rcases advance_flights found with ⟨rfl, rfl⟩ | ⟨-, found⟩
    · refine .inr ⟨flight', found₀, rfl, by rw [purging]; rfl, ?_⟩
      by_cases current : before.epoch = flight'.epoch
      · refine .inr ⟨if_pos current, ?_, ?_, ?_⟩
        · simp [deleteL2IfCurrent, current, Store.del, Scope.covers]
        · simp [deleteL2IfCurrent, current, Store.del, Scope.covers]
        · by_cases seen : flight'.seen = store.writes flight'.key
          · exact .inr seen
          · exact .inl (by simp [Event.overwrites, current, seen])
      · exact .inl (if_neg current)
    · exact .inr ⟨flight, found, rfl, missed, .inl rfl⟩
  | call found₀ stage | loaded found₀ stage _ =>
    rcases advance_flights found with ⟨rfl, rfl⟩ | ⟨-, found⟩
    · exact .inr ⟨_, found₀, rfl, by rw [stage]; rfl, .inl rfl⟩
    · exact .inr ⟨flight, found, rfl, missed, .inl rfl⟩
  | fill free call =>
    rw [setL1IfCurrent_eq] at found
    exact .inr ⟨flight, found, rfl, missed, .inl rfl⟩
  | invalidate notice free =>
    rw [applyInvalidation_eq] at found
    exact .inr ⟨flight, found, rfl, missed, .inl rfl⟩
  | _ => exact .inr ⟨flight, found, rfl, missed, .inl rfl⟩

/-- A mutation stays to be announced until its notice is sent; one between its
tiers stays so until it clears L1. -/
theorem Step.announcing_call (sound : before.Sound codec)
    (step : Step codec self before store event after store') {call : Call V}
    (found : before.calls number = some call) (announces : call.announces key = true) :
    (∃ call', after.calls number = some call' ∧ call'.announces key = true ∧
        (call.mutating = true → event.clears self key = false → call'.mutating = true)) ∨
      ∃ scope, event = .sent number scope ∧ scope.covers key = true ∧ call.mutating = false := by
  have below := (sound.calls number call found).1
  have began : ∀ new, (before.begin new).calls number = some call :=
    fun new => (Function.update_of_ne (Nat.ne_of_lt below) ..).trans found
  have apart : ∀ {other} moved, number ≠ other →
      Function.update before.calls other moved number = some call :=
    fun moved ne => (Function.update_of_ne ne ..).trans found
  have stays : ∀ {cache : Local V}, cache.calls number = some call →
      ∃ call', cache.calls number = some call' ∧ call'.announces key = true ∧
        (call.mutating = true → event.clears self key = false → call'.mutating = true) :=
    fun found => ⟨call, found, announces, fun mutating _ => mutating⟩
  have other : ∀ {moved call₀}, before.calls moved = some call₀ → call₀.announces key = false →
      number ≠ moved := by
    rintro moved call₀ held silent rfl
    obtain rfl := Option.some.inj (found.symm.trans held)
    cases silent.symm.trans announces
  cases step with
  | miss _ _ | write _ _ | erase _ => exact .inl (stays (began _))
  | start waits _ | join waits _ _ _ _ | decode waits _ _ _ | fail waits _ _ _ =>
    exact .inl (stays (apart _ (other waits rfl)))
  | fill free waits =>
    rw [setL1IfCurrent_eq]
    exact .inl (stays (apart _ (other waits rfl)))
  | @set moved other written mutates held =>
    by_cases equal : number = moved
    · subst equal
      obtain rfl := Option.some.inj (found.symm.trans mutates)
      refine .inl ⟨_, Function.update_self .., announces, fun _ uncleared => ?_⟩
      rw [show other = key from beq_iff_eq.mp announces] at uncleared
      simp [Event.clears] at uncleared
    · exact .inl (stays (apart _ equal))
  | @delete moved scope mutates held =>
    by_cases equal : number = moved
    · subst equal
      obtain rfl := Option.some.inj (found.symm.trans mutates)
      refine .inl ⟨_, Function.update_self .., announces, fun _ uncleared => ?_⟩
      have covered : scope.covers key = true := announces
      simp [Event.clears, covered] at uncleared
    · exact .inl (stays (apart _ equal))
  | @send moved scope mutates =>
    by_cases equal : number = moved
    · subst equal
      obtain rfl := Option.some.inj (found.symm.trans mutates)
      exact .inr ⟨scope, rfl, announces, rfl⟩
    · exact .inl (stays (apart _ equal))
  | invalidate notice free =>
    rw [applyInvalidation_eq]
    exact .inl (stays found)
  | _ => exact .inl (stays found)

theorem Step.invalidated_free {notice : Invalidation Origin}
    (step : Step codec self before store (.invalidated notice) after store') :
    before.holder = none := by
  cases step with
  | invalidate _ free => exact free

theorem Step.wrote_entry (step : Step codec self before store (.wrote number key value) after store') :
    ∃ raw, codec.marshal value = some raw ∧ store'.entry key = some raw := by
  cases step with
  | write free encodes => exact ⟨_, encodes, Function.update_self ..⟩

theorem Step.erased_entry {scope : Scope} (covers : scope.covers key = true)
    (step : Step codec self before store (.erased number scope) after store') :
    store'.entry key = none ∧ store'.writes key = store.writes key + 1 ∧
      after.flights = before.flights := by
  cases step with
  | erase free => exact ⟨if_pos covers, if_pos covers, rfl⟩

include step in
/-- A mutation that takes effect on L2 is between its tiers afterwards. -/
theorem Step.mutates_announces (mutates : event.mutates key = true) :
    ∃ number call, after.calls number = some call ∧ call.announces key = true ∧
      call.mutating = true := by
  cases step with
  | write _ _ | erase _ => exact ⟨_, _, Function.update_self .., mutates, rfl⟩
  | _ => cases mutates

end Golusoris.Twotier
