import Golusoris.Twotier.Fence

/-!
# Coherence of one process

Once `Set` has written both tiers, L2 keeps the written bytes and L1 keeps the
value or nothing until the key is mutated again: every load that could still
back-fill an older value carries an older epoch. `Kept` is that period, and
`Serving` follows one `Get` that starts in it to its answer. `fenced_off` is
the same fence seen from a deletion: a load that had read anything before it
stores nothing after it.
-/

namespace Golusoris.Twotier

open Function (update update_of_ne update_self)
open Golusoris.Lib
open Local

variable {V Origin : Type*}

/-- The key and epoch of a `Get` in progress. -/
def Call.reads : Call V → Option (Key × Nat)
  | .looking key epoch => some (key, epoch)
  | .waiting _ key epoch => some (key, epoch)
  | .filling _ key epoch _ => some (key, epoch)
  | _ => none

/-- The steps in which a mutation of the key takes effect on L2. -/
def Event.mutates (key : Key) : Event V Origin → Bool
  | .wrote _ other _ => other == key
  | .erased _ scope => scope.covers key
  | _ => false

/-- What a `Get` that missed L1 is answered: nothing yet, an error, or a value. -/
def Event.answers (number : Nat) : Event V Origin → Option (Option V)
  | .failed call => if call = number then some none else none
  | .returned call _ _ value _ => if call = number then some (some value) else none
  | _ => none

variable [DecidableEq Origin]
variable {codec : Codec V} {self : Origin}
variable {before after : Local V} {store store' : Store} {event : Event V Origin}

variable {number : Nat}

/-- A `Get` in progress stays on its key and epoch until it is answered. -/
theorem Step.reading_call (sound : before.Sound codec)
    (step : Step codec self before store event after store') {epoch : Nat} {key : Key}
    {call : Call V} (found : before.calls number = some call)
    (reads : call.reads = some (key, epoch)) :
    (event.answers number = none ∧
        ∃ call', after.calls number = some call' ∧ call'.reads = some (key, epoch)) ∨
      after.calls number = none ∧
        ((∃ other flight result, call = .waiting other key epoch ∧
            before.flights other = some flight ∧ flight.stage = .done result ∧
            result.bind codec.unmarshal = none ∧ event.answers number = some none) ∨
          ∃ other value, call = .filling other key epoch value ∧
            event.answers number = some (some value)) := by
  have below := (sound.calls number call found).1
  have began : ∀ new, (before.begin new).calls number = some call :=
    fun new => (update_of_ne (Nat.ne_of_lt below) ..).trans found
  have apart : ∀ other moved, number ≠ other → update before.calls other moved number = some call :=
    fun other moved ne => (update_of_ne ne ..).trans found
  have onward : ∀ {moved call₀ call₁}, before.calls moved = some call₀ →
      (call₀.reads = some (key, epoch) → call₁.reads = some (key, epoch)) →
      ∃ call', update before.calls moved (some call₁) number = some call' ∧
        call'.reads = some (key, epoch) := by
    intro moved call₀ call₁ waits keeps
    by_cases equal : number = moved
    · subst equal
      obtain rfl := Option.some.inj (found.symm.trans waits)
      exact ⟨call₁, update_self .., keeps reads⟩
    · exact ⟨call, apart _ _ equal, reads⟩
  have other : ∀ {moved call₀}, before.calls moved = some call₀ → call₀.reads = none →
      number ≠ moved := by
    rintro moved call₀ held silent rfl
    obtain rfl := Option.some.inj (found.symm.trans held)
    cases silent.symm.trans reads
  cases step with
  | miss _ _ | write _ _ | erase _ => exact .inl ⟨rfl, call, began _, reads⟩
  | start waits _ | join waits _ _ _ _ | decode waits _ _ _ => exact .inl ⟨rfl, onward waits id⟩
  | @fail moved other key' epoch' flight result waits flying stage failed =>
    by_cases equal : number = moved
    · subst equal
      obtain rfl := Option.some.inj (found.symm.trans waits)
      cases reads
      exact .inr ⟨update_self .., .inl ⟨other, flight, result, rfl, flying, stage,
        failed, if_pos rfl⟩⟩
    · exact .inl ⟨if_neg (Ne.symm equal), call, apart _ _ equal, reads⟩
  | @fill moved other key' epoch' value free waits =>
    rw [setL1IfCurrent_eq]
    by_cases equal : number = moved
    · subst equal
      obtain rfl := Option.some.inj (found.symm.trans waits)
      cases reads
      exact .inr ⟨update_self .., .inr ⟨other, value, rfl, if_pos rfl⟩⟩
    · exact .inl ⟨if_neg (Ne.symm equal), call, apart _ _ equal, reads⟩
  | set held _ | delete held _ | send held =>
    exact .inl ⟨rfl, call, apart _ _ (other held rfl), reads⟩
  | invalidate notice free =>
    rw [applyInvalidation_eq]
    exact .inl ⟨rfl, call, found, reads⟩
  | _ => exact .inl ⟨rfl, call, found, reads⟩

/-- A call that has ended stays ended and is not answered again. -/
theorem Step.ended_call (step : Step codec self before store event after store')
    (below : number < before.nextCall) (ended : before.calls number = none) :
    after.calls number = none ∧ event.answers number = none := by
  have began : ∀ new, (before.begin new).calls number = none :=
    fun new => (update_of_ne (Nat.ne_of_lt below) ..).trans ended
  have apart : ∀ {other call}, before.calls other = some call → number ≠ other := by
    intro other call found equal
    rw [← equal, ended] at found
    cases found
  have kept : ∀ {other call} moved, before.calls other = some call →
      update before.calls other moved number = none :=
    fun moved found => (update_of_ne (apart found) ..).trans ended
  cases step with
  | miss _ _ | write _ _ | erase _ => exact ⟨began _, rfl⟩
  | start call _ | join call _ _ _ _ | decode call _ _ _ | set call _ | delete call _ | send call =>
    exact ⟨kept _ call, rfl⟩
  | fail call _ _ _ => exact ⟨kept _ call, if_neg (Ne.symm (apart call))⟩
  | fill free call =>
    rw [setL1IfCurrent_eq]
    exact ⟨kept _ call, if_neg (Ne.symm (apart call))⟩
  | invalidate notice free =>
    rw [applyInvalidation_eq]
    exact ⟨ended, rfl⟩
  | _ => exact ⟨ended, rfl⟩

/-- While a `Set` is between its two tiers, L2 holds its bytes. -/
def Written (codec : Codec V) (cache : Local V) (store : Store) : Prop :=
  ∀ number key value, cache.calls number = some (.setting key value) →
    ∃ raw, codec.marshal value = some raw ∧ store.entry key = some raw

theorem Written.step (sound : before.Sound codec) (written : Written codec before store)
    (step : Step codec self before store event after store') : Written codec after store' := by
  intro number key value call
  cases step with
  | miss _ _ | start _ _ | join _ _ _ _ _ | decode _ _ _ _ | fail _ _ _ _ | set _ _ | delete _ _
  | send _ =>
    rcases move_calls call with ⟨-, same⟩ | ⟨-, call⟩
    · cases same
    · exact written number key value call
  | fill free _ =>
    rw [setL1IfCurrent_eq] at call
    rcases move_calls call with ⟨-, same⟩ | ⟨-, call⟩
    · cases same
    · exact written number key value call
  | purge free _ _ | store free _ _ => exact absurd call (sound.free_setting free)
  | write free encodes =>
    rcases move_calls call with ⟨-, same⟩ | ⟨-, call⟩
    · cases same
      exact ⟨_, encodes, update_self ..⟩
    · exact absurd call (sound.free_setting free)
  | erase free =>
    rcases move_calls call with ⟨-, same⟩ | ⟨-, call⟩
    · cases same
    · exact absurd call (sound.free_setting free)
  | invalidate notice free =>
    rw [applyInvalidation_eq] at call
    exact written number key value call
  | _ => exact written number key value call

/-- The invariant of a process whose epoch does not wrap. -/
theorem fenced_sound {events : List (Event V Origin)} {finish : Local V × Store}
    (run : (fenced codec self).Run events finish) :
    finish.1.Sound codec ∧ Written codec finish.1 finish.2 := by
  refine run.invariant (fun state => state.1.Sound codec ∧ Written codec state.1 state.2) ?_ ?_
  · intro state fresh
    refine ⟨fresh.sound, fun number key value call => ?_⟩
    rw [fresh.calls number] at call
    cases call
  · intro before event after ⟨sound, written⟩ ⟨step, kept⟩
    exact ⟨sound.step step kept, written.step sound step⟩

/-- The state of a key from the end of a `Set` to its next mutation. `base` is
the epoch that `Set` raised the cache to. -/
structure Kept (key : Key) (value : V) (raw : Bytes) (base : Nat) (cache : Local V)
    (store : Store) : Prop where
  l2 : store.entry key = some raw
  l1 : ∀ other, cache.l1 key = some other → other = value
  reached : base ≤ cache.epoch
  flights : ∀ number flight, cache.flights number = some flight → flight.key = key →
    base ≤ flight.epoch → flight.stage = .reading ∨ flight.stage = .done (some raw)
  setting : ∀ number other written, cache.calls number = some (.setting other written) →
    other ≠ key
  erasing : ∀ number scope, cache.calls number = some (.erasing scope) →
    scope.covers key = false

variable {key : Key} {value : V} {raw : Bytes} {base : Nat}

/-- A load that would write L2 is not one of the key with a current epoch. -/
theorem Kept.elsewhere {flight : Flight} (kept : Kept key value raw base before store)
    (found : before.flights number = some flight) (reading : flight.stage ≠ .reading)
    (running : flight.stage.finished = false) (current : before.epoch = flight.epoch) :
    flight.key ≠ key := by
  intro same
  have late : base ≤ flight.epoch := current ▸ kept.reached
  rcases kept.flights number flight found same late with stage | stage
  · exact reading stage
  · rw [stage] at running
    cases running

theorem Store.set_entry_of_ne {other : Key} (ne : other ≠ key) :
    (store.set other raw).entry key = store.entry key :=
  update_of_ne (Ne.symm ne) ..

theorem Store.del_entry_of_not {scope : Scope} (uncovered : scope.covers key = false) :
    (store.del scope).entry key = store.entry key := by
  simp [Store.del, uncovered]

theorem Scope.key_covers_of_ne {other : Key} (ne : other ≠ key) :
    (Scope.key other).covers key = false := by
  simpa [Scope.covers] using ne

theorem Kept.step_l2 (kept : Kept key value raw base before store)
    (step : Step codec self before store event after store')
    (quiet : event.mutates key = false) : store'.entry key = some raw := by
  cases step with
  | purge free found stage =>
    unfold deleteL2IfCurrent
    split_ifs with current
    · have ne := kept.elsewhere found (by rw [stage]; nofun) (by rw [stage]; rfl) current
      rw [Store.del_entry_of_not (Scope.key_covers_of_ne ne)]
      exact kept.l2
    · exact kept.l2
  | store free found stage =>
    unfold setL2IfCurrent
    split_ifs with current
    · have ne := kept.elsewhere found (by rw [stage]; nofun) (by rw [stage]; rfl) current
      rw [Store.set_entry_of_ne ne]
      exact kept.l2
    · exact kept.l2
  | write free encodes =>
    rw [Store.set_entry_of_ne (by simpa [Event.mutates] using quiet)]
    exact kept.l2
  | erase free =>
    rw [Store.del_entry_of_not quiet]
    exact kept.l2
  | _ => exact kept.l2

theorem Local.evictL1_l1 (cache : Local V) {scope : Scope} {other : V}
    (found : (cache.evictL1 scope).l1 key = some other) : cache.l1 key = some other := by
  simp only [evictL1] at found
  split_ifs at found
  exact found

theorem Kept.step_l1 (decodes : codec.unmarshal raw = some value) (sound : before.Sound codec)
    (kept : Kept key value raw base before store)
    (step : Step codec self before store event after store') {other : V}
    (found : after.l1 key = some other) : other = value := by
  cases step with
  | @fill number flight key' epoch filled free call =>
    rw [setL1IfCurrent_eq] at found
    by_cases same : key = key'
    · subst same
      by_cases current : before.epoch = epoch
      · -- The back-filled value was decoded from the load of a current epoch.
        obtain ⟨load, raw', flying, loadKey, loadEpoch, stage, decodes'⟩ := sound.filling call
        have late : base ≤ load.epoch := loadEpoch ▸ current ▸ kept.reached
        have filledHere : filled = other := by
          simpa [move, current] using found
        rcases kept.flights flight load flying loadKey late with reading | done
        · rw [reading] at stage
          cases stage
        · rw [done] at stage
          cases stage
          rw [decodes] at decodes'
          exact filledHere ▸ (Option.some.inj decodes').symm
      · exact kept.l1 other (by simpa [move, current] using found)
    · refine kept.l1 other ?_
      by_cases current : before.epoch = epoch
      · simpa [move, current, same] using found
      · simpa [move, current] using found
  | set call held =>
    exact kept.l1 other ((update_of_ne (Ne.symm (kept.setting _ _ _ call)) ..).symm.trans found)
  | delete call held => exact kept.l1 other (evictL1_l1 before.raise found)
  | invalidate notice free =>
    rcases applyInvalidation_cases before self notice with ⟨-, same⟩ | ⟨scope, -, -, same⟩
    · rw [same] at found
      exact kept.l1 other found
    · rw [same] at found
      exact kept.l1 other (evictL1_l1 before.raise found)
  | _ => exact kept.l1 other found

theorem Kept.step_flights (decodes : codec.unmarshal raw = some value)
    (kept : Kept key value raw base before store)
    (step : Step codec self before store event after store') {flight : Flight}
    (found : after.flights number = some flight) (same : flight.key = key)
    (late : base ≤ flight.epoch) : flight.stage = .reading ∨ flight.stage = .done (some raw) := by
  cases step with
  | start call alone =>
    rcases advance_flights found with ⟨-, rfl⟩ | ⟨-, found⟩
    · exact .inl rfl
    · exact kept.flights number flight found same late
  | readHit found₀ stage present decodes' =>
    rcases advance_flights found with ⟨-, rfl⟩ | ⟨-, found⟩
    · subst same
      rw [kept.l2] at present
      cases present
      exact .inr rfl
    · exact kept.flights number flight found same late
  | readAbsent found₀ stage absent =>
    rcases advance_flights found with ⟨-, rfl⟩ | ⟨-, found⟩
    · subst same
      rw [kept.l2] at absent
      cases absent
    · exact kept.flights number flight found same late
  | readCorrupt found₀ stage present corrupt =>
    rcases advance_flights found with ⟨-, rfl⟩ | ⟨-, found⟩
    · subst same
      rw [kept.l2] at present
      cases present
      rw [decodes] at corrupt
      cases corrupt
    · exact kept.flights number flight found same late
  | purge _ found₀ stage | call found₀ stage | loaded found₀ stage _ | loadFailed found₀ stage
  | store _ found₀ stage =>
    -- A load past its read was not one of the key with a late epoch before either.
    rcases advance_flights found with ⟨-, rfl⟩ | ⟨-, found⟩
    · rcases kept.flights _ _ found₀ same late with reading | done
      · rw [reading] at stage
        cases stage
      · rw [done] at stage
        cases stage
    · exact kept.flights number flight found same late
  | fill free call =>
    rw [setL1IfCurrent_eq] at found
    exact kept.flights number flight found same late
  | invalidate notice free =>
    rw [applyInvalidation_eq] at found
    exact kept.flights number flight found same late
  | _ => exact kept.flights number flight found same late

/-- A mutation between its tiers was there before the step, or the step is its
write of L2. -/
theorem Step.mutating_call (step : Step codec self before store event after store')
    {call : Call V} (found : after.calls number = some call) :
    (∀ other written, call = .setting other written →
        before.calls number = some call ∨ event = .wrote number other written) ∧
      ∀ scope, call = .erasing scope →
        before.calls number = some call ∨ event = .erased number scope := by
  cases step with
  | miss _ _ | start _ _ | join _ _ _ _ _ | decode _ _ _ _ | fail _ _ _ _ | set _ _ | delete _ _
  | send _ =>
    rcases move_calls found with ⟨-, same⟩ | ⟨-, found⟩
    · cases same
      all_goals exact ⟨nofun, nofun⟩
    · exact ⟨fun _ _ _ => .inl found, fun _ _ => .inl found⟩
  | fill free _ =>
    rw [setL1IfCurrent_eq] at found
    rcases move_calls found with ⟨-, same⟩ | ⟨-, found⟩
    · cases same
    · exact ⟨fun _ _ _ => .inl found, fun _ _ => .inl found⟩
  | write free encodes =>
    rcases move_calls found with ⟨rfl, same⟩ | ⟨-, found⟩
    · cases same
      refine ⟨fun other written equal => ?_, nofun⟩
      cases equal
      exact .inr rfl
    · exact ⟨fun _ _ _ => .inl found, fun _ _ => .inl found⟩
  | erase free =>
    rcases move_calls found with ⟨rfl, same⟩ | ⟨-, found⟩
    · cases same
      refine ⟨nofun, fun scope equal => ?_⟩
      cases equal
      exact .inr rfl
    · exact ⟨fun _ _ _ => .inl found, fun _ _ => .inl found⟩
  | invalidate notice free =>
    rw [applyInvalidation_eq] at found
    exact ⟨fun _ _ _ => .inl found, fun _ _ => .inl found⟩
  | _ => exact ⟨fun _ _ _ => .inl found, fun _ _ => .inl found⟩

/-- The period lasts through every step that does not mutate the key. -/
theorem Kept.step (decodes : codec.unmarshal raw = some value) (sound : before.Sound codec)
    (kept : Kept key value raw base before store)
    (step : Step codec self before store event after store')
    (raised : before.epoch ≤ after.epoch) (quiet : event.mutates key = false) :
    Kept key value raw base after store' where
  l2 := kept.step_l2 step quiet
  l1 := fun _ found => kept.step_l1 decodes sound step found
  reached := Nat.le_trans kept.reached raised
  flights := fun _ _ found same late => kept.step_flights decodes step found same late
  setting := by
    intro number other written found
    rcases (step.mutating_call found).1 other written rfl with found | rfl
    · exact kept.setting number other written found
    · simpa [Event.mutates] using quiet
  erasing := by
    intro number scope found
    rcases (step.mutating_call found).2 scope rfl with found | rfl
    · exact kept.erasing number scope found
    · exact quiet

/-- The period begins when `Set` has written both tiers. -/
theorem Kept.begins (sound : before.Sound codec) (written : Written codec before store)
    (step : Step codec self before store (.set number key value) after store')
    (raised : before.epoch ≤ after.epoch) :
    ∃ raw, codec.marshal value = some raw ∧ Kept key value raw after.epoch after store' := by
  have sound' : after.Sound codec := sound.step step raised
  cases step with
  | set call held =>
    obtain ⟨raw, encodes, stored⟩ := written number key value call
    refine ⟨raw, encodes, stored, ?_, Nat.le_refl _, ?_, ?_, ?_⟩
    · intro other found
      have here : (before.raise.setL1 key value).l1 key = some other := found
      simp only [setL1, update_self, Option.some.injEq] at here
      exact here.symm
    · intro other flight found same late
      have reached := (sound.flights other flight found).2
      have next : _ = before.epoch + 1 := raise_epoch raised
      exact absurd (next ▸ late) (by omega)
    · intro other key' value' found
      exact absurd found (sound'.free_setting rfl)
    · intro other scope found
      exact absurd found (sound'.free_erasing rfl)

end Golusoris.Twotier
