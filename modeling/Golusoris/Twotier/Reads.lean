import Golusoris.Twotier.Coherence

/-!
# What reads return and loads store

`Serving` follows a `Get` that starts while the key is kept: it can only be
answered with the kept value, and `Completes` says that it always can be, by
steps of its own load and of the mutation that holds the lock. `fenced_off` is
about the loads themselves: one that had read L2 or called its loader before a
deletion stores nothing afterwards.
-/

namespace Golusoris.Twotier

open List
open Golusoris.Lib

variable {V Origin : Type*} [DecidableEq Origin]
variable {codec : Codec V} {self : Origin}
variable {before after : Local V} {store store' : Store} {event : Event V Origin}
variable {key : Key} {value : V} {raw : Bytes} {base number : Nat}

/-- A `Get` of the period: still on its way, or answered with the value. -/
def Serving (number : Nat) (key : Key) (value : V) (base : Nat)
    (history : List (Event V Origin)) (cache : Local V) : Prop :=
  (∃ call epoch, cache.calls number = some call ∧ call.reads = some (key, epoch) ∧
      base ≤ epoch ∧ ∀ event ∈ history, event.answers number = none) ∨
    number < cache.nextCall ∧ cache.calls number = none ∧
      (∃ event ∈ history, event.answers number = some (some value)) ∧
      ∀ event ∈ history, ∀ answer, event.answers number = some answer → answer = some value

variable {other epoch : Nat}

/-- The load of a `Get` of the period ends with the written bytes. -/
theorem Kept.load_of {flight : Flight} {result : Option Bytes} (sound : before.Sound codec)
    (kept : Kept key value raw base before store)
    (waits : before.calls number = some (.waiting other key epoch)) (late : base ≤ epoch)
    (found : before.flights other = some flight) (stage : flight.stage = .done result) :
    result = some raw := by
  obtain ⟨flight', found', sameKey, sameEpoch⟩ := sound.waiting waits
  obtain rfl := Option.some.inj (found.symm.trans found')
  rcases kept.flights other flight found sameKey (sameEpoch ▸ late) with reading | done
  · rw [reading] at stage
    cases stage
  · rw [done] at stage
    cases stage
    rfl

variable (decodes : codec.unmarshal raw = some value)

include decodes in
theorem Kept.filled_value {filled : V} (sound : before.Sound codec)
    (kept : Kept key value raw base before store)
    (fills : before.calls number = some (.filling other key epoch filled)) (late : base ≤ epoch) :
    filled = value := by
  obtain ⟨flight, raw', found, sameKey, sameEpoch, stage, decodes'⟩ := sound.filling fills
  rcases kept.flights other flight found sameKey (sameEpoch ▸ late) with reading | done
  · rw [reading] at stage
    cases stage
  · rw [done] at stage
    cases stage
    exact Option.some.inj (decodes'.symm.trans decodes)

include decodes in
theorem Serving.step {history : List (Event V Origin)} (sound : before.Sound codec)
    (kept : Kept key value raw base before store)
    (serving : Serving number key value base history before)
    (step : Step codec self before store event after store') :
    Serving number key value base (history ++ [event]) after := by
  rcases serving with ⟨call, epoch, found, reads, late, silent⟩ | ⟨below, ended, answered, right⟩
  · rcases step.reading_call sound found reads with
      ⟨quiet, call', found', reads'⟩ | ⟨ended, failed | returned⟩
    · refine .inl ⟨call', epoch, found', reads', late, ?_⟩
      intro other member
      rcases mem_append.mp member with member | member
      · exact silent other member
      · rw [mem_singleton.mp member]
        exact quiet
    · obtain ⟨other, flight, result, rfl, flying, stage, undecoded, -⟩ := failed
      obtain rfl := kept.load_of sound found late flying stage
      rw [Option.bind_some, decodes] at undecoded
      cases undecoded
    · obtain ⟨other, filled, rfl, answers⟩ := returned
      obtain rfl := kept.filled_value decodes sound found late
      have below := Nat.lt_of_lt_of_le (sound.calls number _ found).1 step.grows.1
      refine .inr ⟨below, ended, ⟨event, by simp, answers⟩, ?_⟩
      intro other member answer heard
      rcases mem_append.mp member with member | member
      · rw [silent other member] at heard
        cases heard
      · rw [mem_singleton.mp member, answers] at heard
        exact (Option.some.inj heard).symm
  · obtain ⟨ended', quiet⟩ := step.ended_call below ended
    obtain ⟨event₀, member₀, answers⟩ := answered
    refine .inr ⟨Nat.lt_of_lt_of_le below step.grows.1, ended',
      ⟨event₀, mem_append_left _ member₀, answers⟩, ?_⟩
    intro other member answer heard
    rcases mem_append.mp member with member | member
    · exact right other member answer heard
    · rw [mem_singleton.mp member, quiet] at heard
      cases heard

/-- The cache can go on, without a mutation of the key, to an answer. -/
def Completes (codec : Codec V) (self : Origin) (number : Nat) (key : Key) (value : V)
    (state : Local V × Store) : Prop :=
  ∃ more final, (process codec self).Trace state more final ∧
    (∀ event ∈ more, event.mutates key = false) ∧
    ∃ event ∈ more, event.answers number = some (some value)

theorem Completes.cons (step : Step codec self before store event after store')
    (quiet : event.mutates key = false)
    (rest : Completes codec self number key value (after, store')) :
    Completes codec self number key value (before, store) := by
  obtain ⟨more, final, trace, still, answer, member, answers⟩ := rest
  refine ⟨event :: more, final, .cons step.process trace, ?_, answer, mem_cons_of_mem _ member,
    answers⟩
  intro other member
  rcases mem_cons.mp member with rfl | member
  · exact quiet
  · exact still other member

/-- A caller that has its value needs the lock once. -/
theorem Completes.of_filling (sound : before.Sound codec)
    (fills : before.calls number = some (.filling other key epoch value)) :
    Completes codec self number key value (before, store) := by
  have free : ∀ {cache : Local V}, cache.holder = none →
      cache.calls number = some (.filling other key epoch value) →
      Completes codec self number key value (cache, store) := by
    intro cache free fills
    have fill : Step codec self cache store _ _ store := .fill free fills
    refine ⟨_, _, .singleton fill.process, ?_, _, mem_singleton_self _, if_pos rfl⟩
    intro event member
    rw [mem_singleton.mp member]
    rfl
  cases held : before.holder with
  | none => exact free held fills
  | some holder =>
    obtain ⟨call, found, mutating⟩ := sound.holder holder held
    have ne : number ≠ holder := by
      intro equal
      subst equal
      obtain rfl := Option.some.inj (fills.symm.trans found)
      cases mutating
    have kept : ∀ moved, Function.update before.calls holder moved number =
        some (.filling other key epoch value) :=
      fun moved => (Function.update_of_ne ne ..).trans fills
    cases call with
    | setting one written => exact .cons (.set found held) rfl (free rfl (kept _))
    | erasing scope => exact .cons (.delete found held) rfl (free rfl (kept _))
    | looking | waiting | filling | broadcasting => cases mutating

include decodes in
theorem Completes.of_waiting (sound : before.Sound codec)
    (kept : Kept key value raw base before store)
    (waits : before.calls number = some (.waiting other key epoch)) (late : base ≤ epoch) :
    Completes codec self number key value (before, store) := by
  obtain ⟨flight, found, rfl, sameEpoch⟩ := sound.waiting waits
  rcases kept.flights other flight found rfl (sameEpoch ▸ late) with reading | done
  · let landed : Flight := { flight with stage := .done (some raw) }
    have read : Step codec self before store _ (before.advance other landed) store :=
      .readHit found reading kept.l2 decodes
    have decode : Step codec self (before.advance other landed) store _ _ store :=
      .decode waits (Function.update_self ..) rfl decodes
    have sound' := (sound.step read (Nat.le_refl _)).step decode (Nat.le_refl _)
    exact .cons read rfl (.cons decode rfl (.of_filling sound' (Function.update_self ..)))
  · have decode : Step codec self before store _ _ store := .decode waits found done decodes
    have sound' := sound.step decode (Nat.le_refl _)
    exact .cons decode rfl (.of_filling sound' (Function.update_self ..))

include decodes in
/-- A `Get` that starts in the period can always be run to its answer. -/
theorem Completes.of_reading {call : Call V} (sound : before.Sound codec)
    (kept : Kept key value raw base before store) (found : before.calls number = some call)
    (reads : call.reads = some (key, epoch)) (late : base ≤ epoch) :
    Completes codec self number key value (before, store) := by
  cases call with
  | looking key' epoch' =>
    cases reads
    by_cases shared : ∃ other flight, before.flights other = some flight ∧ flight.key = key ∧
        flight.epoch = epoch ∧ flight.stage.finished = false
    · obtain ⟨other, flight, flying, sameKey, sameEpoch, running⟩ := shared
      have join : Step codec self before store _ _ store :=
        .join found flying sameKey sameEpoch running
      exact .cons join rfl (.of_waiting decodes (sound.step join (Nat.le_refl _))
        (kept.step decodes sound join (Nat.le_refl _) rfl) (Function.update_self ..) late)
    · have alone : ∀ other flight, before.flights other = some flight → flight.key = key →
          flight.epoch = epoch → flight.stage.finished = true := by
        intro other flight flying sameKey sameEpoch
        by_contra running
        exact shared ⟨other, flight, flying, sameKey, sameEpoch, by simpa using running⟩
      have start : Step codec self before store _ _ store := .start found alone
      exact .cons start rfl (.of_waiting decodes (sound.step start (Nat.le_refl _))
        (kept.step decodes sound start (Nat.le_refl _) rfl) (Function.update_self ..) late)
  | waiting other key' epoch' =>
    cases reads
    exact .of_waiting decodes sound kept found late
  | filling other key' epoch' filled =>
    cases reads
    obtain rfl := kept.filled_value decodes sound found late
    exact .of_filling sound found
  | setting | erasing | broadcasting => cases reads

section Runs

variable {events earlier later : List (Event V Origin)} {start finish : Local V × Store}

include decodes in
/-- The period as an invariant of the steps that follow the write. -/
theorem kept_trace (trace : (fenced codec self).Trace start later finish)
    (sound : start.1.Sound codec) (kept : Kept key value raw base start.1 start.2)
    (quiet : ∀ event ∈ later, event.mutates key = false) :
    finish.1.Sound codec ∧ Kept key value raw base finish.1 finish.2 := by
  refine trace.invariant_of
    (fun state => state.1.Sound codec ∧ Kept key value raw base state.1 state.2)
    (fun event => event.mutates key = false) ?_ quiet ⟨sound, kept⟩
  intro before event after still ⟨sound, kept⟩ ⟨step, raised⟩
  exact ⟨sound.step step raised, kept.step decodes sound step raised still⟩

include decodes in
theorem hit_value (trace : (fenced codec self).Trace start later finish)
    (sound : start.1.Sound codec) (kept : Kept key value raw base start.1 start.2)
    (quiet : ∀ event ∈ later, event.mutates key = false) {other : V}
    (hit : .hit key other ∈ later) : other = value := by
  obtain ⟨first, second, rfl⟩ := append_of_mem hit
  obtain ⟨⟨before, stored⟩, ⟨after, stored'⟩, prior, ⟨step, -⟩, -⟩ := trace.cut
  simp only at step
  have here := kept_trace decodes prior sound kept
    (fun event member => quiet event (mem_append_left _ member))
  cases step with
  | hit free present => exact here.2.l1 other present

include decodes in
/-- A `Get` of the period is answered with the value or can still be. -/
theorem read_answered
    (trace : (fenced codec self).Trace start (earlier ++ .missed number key :: later) finish)
    (sound : start.1.Sound codec) (kept : Kept key value raw base start.1 start.2)
    (quiet : ∀ event ∈ earlier ++ .missed number key :: later, event.mutates key = false) :
    (∀ event ∈ later, ∀ answer, event.answers number = some answer → answer = some value) ∧
      ((∃ event ∈ later, event.answers number = some (some value)) ∨
        Completes codec self number key value finish) := by
  obtain ⟨⟨before, stored⟩, ⟨after, stored'⟩, prior, ⟨step, raised⟩, rest⟩ := trace.cut
  simp only at step
  have quietLater : ∀ event ∈ later, event.mutates key = false :=
    fun event member => quiet event (mem_append_right _ (mem_cons_of_mem _ member))
  obtain ⟨soundBefore, keptBefore⟩ := kept_trace decodes prior sound kept
    (fun event member => quiet event (mem_append_left _ member))
  have soundAfter := soundBefore.step step raised
  have keptAfter := keptBefore.step decodes soundBefore step raised rfl
  have serving : Serving number key value base ([] : List (Event V Origin)) after := by
    cases step with
    | miss free absent =>
      exact .inl ⟨_, _, Function.update_self .., rfl, keptBefore.reached, nofun⟩
  -- The induction carries the period beside the call that is served in it.
  obtain ⟨soundFinish, keptFinish⟩ := kept_trace decodes rest soundAfter keptAfter quietLater
  have served : Serving number key value base later finish.1 := by
    have carried := rest.history_invariant
      (fun history state => (∀ event ∈ history, event.mutates key = false) →
        state.1.Sound codec ∧ Kept key value raw base state.1 state.2 ∧
          Serving number key value base history state.1)
      (by
        intro history before event after holds ⟨step, raised⟩ still
        obtain ⟨sound, kept, serving⟩ :=
          holds (fun other member => still other (mem_append_left _ member))
        have here : event.mutates key = false := still event (by simp)
        exact ⟨sound.step step raised, kept.step decodes sound step raised here,
          serving.step decodes sound kept step⟩)
      (fun _ => ⟨soundAfter, keptAfter, serving⟩)
    exact (carried quietLater).2.2
  rcases served with ⟨call, epoch, found, reads, late, silent⟩ | ⟨-, -, answered, right⟩
  · refine ⟨fun event member answer heard => ?_, .inr ?_⟩
    · rw [silent event member] at heard
      cases heard
    · exact .of_reading decodes soundFinish keptFinish found reads late
  · exact ⟨right, .inl answered⟩

/-- The steps in which a load reads L2, calls its loader or gets its value. -/
def Event.fetches (number : Nat) : Event V Origin → Bool
  | .read flight => flight == number
  | .called flight => flight == number
  | .loaded flight _ => flight == number
  | _ => false

/-- The steps in which a load's value for a key enters a tier. -/
def Event.backfills (number : Nat) (key : Key) : Event V Origin → Bool
  | .stored flight other current _ => flight == number && other == key && current
  | .returned _ flight other _ current => flight == number && other == key && current
  | _ => false

/-- A load whose epoch is behind. -/
def Outdated (number base : Nat) (cache : Local V) : Prop :=
  base ≤ cache.epoch ∧ number < cache.nextFlight ∧
    ∀ flight, cache.flights number = some flight → flight.epoch < base

theorem Outdated.step (outdated : Outdated number base before)
    (step : Step codec self before store event after store')
    (raised : before.epoch ≤ after.epoch) : Outdated number base after := by
  obtain ⟨reached, below, behind⟩ := outdated
  refine ⟨Nat.le_trans reached raised, Nat.lt_of_lt_of_le below step.grows.2, ?_⟩
  intro flight found
  rcases step.flight_origin found with ⟨flight₀, found₀, -, epoch⟩ | ⟨new, -⟩
  · exact epoch ▸ behind flight₀ found₀
  · exact absurd new (Nat.ne_of_lt below)

theorem Outdated.not_backfills (outdated : Outdated number base before) (sound : before.Sound codec)
    (step : Step codec self before store event after store') :
    event.backfills number key = false := by
  obtain ⟨reached, -, behind⟩ := outdated
  cases step with
  | @store flight load raw free found stage =>
    by_contra stores
    simp only [Event.backfills, Bool.and_eq_true, Bool.not_eq_false, beq_iff_eq,
      decide_eq_true_eq] at stores
    obtain ⟨⟨rfl, -⟩, current⟩ := stores
    have late := behind load found
    omega
  | @fill call flight key' epoch value free fills =>
    by_contra stores
    simp only [Event.backfills, Bool.and_eq_true, Bool.not_eq_false, beq_iff_eq,
      decide_eq_true_eq] at stores
    obtain ⟨⟨rfl, -⟩, current⟩ := stores
    obtain ⟨load, raw, found, -, sameEpoch, -⟩ := sound.filling fills
    have late := behind load found
    omega
  | _ => rfl

/-- A load that fetches is one the group has started. -/
theorem Step.fetches_below (sound : before.Sound codec)
    (step : Step codec self before store event after store')
    (fetches : event.fetches number = true) : number < before.nextFlight := by
  cases step with
  | readHit found _ _ _ | readAbsent found _ _ | readCorrupt found _ _ _ | call found _
  | loaded found _ _ =>
    obtain rfl := beq_iff_eq.mp fetches
    exact (sound.flights _ _ found).1
  | _ => cases fetches

/-- A load that had fetched anything before a deletion ended back-fills nothing
after it. -/
theorem fenced_off {call : Nat} {scope : Scope}
    (run : (fenced codec self).Run (earlier ++ .deleted call scope :: later) finish)
    (fetched : ∃ event ∈ earlier, event.fetches number = true) :
    ∀ event ∈ later, event.backfills number key = false := by
  intro event member
  obtain ⟨before, after, ran, ⟨step, raised⟩, rest⟩ := run.cut
  have sound := (fenced_sound ran).1
  have below : number < before.1.nextFlight := by
    obtain ⟨fetch, member, fetches⟩ := fetched
    obtain ⟨first, second, rfl⟩ := append_of_mem member
    obtain ⟨prior, next, ranPrior, ⟨fetching, -⟩, onward⟩ := ran.cut
    have early := fetching.fetches_below (fenced_sound ranPrior).1 fetches
    refine onward.invariant (fun state => number < state.1.nextFlight) ?_
      (Nat.lt_of_lt_of_le early fetching.grows.2)
    intro before event after holds ⟨step, _⟩
    exact Nat.lt_of_lt_of_le holds step.grows.2
  have outdated : Outdated number after.1.epoch after.1 := by
    refine ⟨Nat.le_refl _, Nat.lt_of_lt_of_le below step.grows.2, ?_⟩
    intro flight found
    rcases step.flight_origin found with ⟨flight₀, found₀, -, epoch⟩ | ⟨new, -⟩
    · have reached := (sound.flights number flight₀ found₀).2
      have next : after.1.epoch = before.1.epoch + 1 := by
        rcases step.epoch with ⟨quiet, -⟩ | ⟨-, next⟩
        · cases quiet
        · omega
      omega
    · exact absurd new (Nat.ne_of_lt below)
  obtain ⟨first, second, rfl⟩ := append_of_mem member
  obtain ⟨prior, next, before', ⟨step', -⟩, -⟩ := rest.cut
  have carried := before'.invariant
    (fun state => state.1.Sound codec ∧ Outdated number after.1.epoch state.1)
    (by
      intro before event after ⟨sound, outdated⟩ ⟨step, raised⟩
      exact ⟨sound.step step raised, outdated.step step raised⟩)
    ⟨sound.step step raised, outdated⟩
  exact carried.2.not_backfills carried.1 step'

end Runs

/-- One process with fewer than `2 ^ 64` epochs and values that survive their
encoding. From the moment `Set` has written both tiers until the next mutation
of the key, L1 holds the value or nothing, L2 holds its bytes, and every `Get`
that starts is answered with the value, or can be without that mutation. After
a deletion that covers the key, no load that had fetched anything before it
back-fills the key. -/
theorem two_tier_coherence (codec : Codec V) (roundTrip : codec.RoundTrip) (self : Origin)
    (events : List (Event V Origin)) (finish : Local V × Store)
    (run : (process codec self).Run events finish)
    (bounded : events.countP (Event.raises self) < 2 ^ 64) :
    (∀ earlier number key value later, events = earlier ++ .set number key value :: later →
      (∀ event ∈ later, event.mutates key = false) →
      (finish.1.l1 key = none ∨ finish.1.l1 key = some value) ∧
      (∃ raw, codec.marshal value = some raw ∧ finish.2.entry key = some raw) ∧
      (∀ other, .hit key other ∈ later → other = value) ∧
      ∀ first call rest, later = first ++ .missed call key :: rest →
        (∀ event ∈ rest, ∀ answer, event.answers call = some answer → answer = some value) ∧
        ((∃ event ∈ rest, event.answers call = some (some value)) ∨
          Completes codec self call key value finish)) ∧
    ∀ earlier number scope key later, events = earlier ++ .deleted number scope :: later →
      scope.covers key = true → ∀ flight,
      (∃ event ∈ earlier, event.fetches flight = true) →
      ∀ event ∈ later, event.backfills flight key = false := by
  have fences := fenced_run run bounded
  refine ⟨?_, ?_⟩
  · intro earlier number key value later same quiet
    subst same
    obtain ⟨before, after, ran, ⟨step, raised⟩, rest⟩ := fences.cut
    obtain ⟨sound, written⟩ := fenced_sound ran
    obtain ⟨raw, encodes, kept⟩ := Kept.begins sound written step raised
    have decodes := roundTrip value raw encodes
    have sound' := sound.step step raised
    have ends := (kept_trace decodes rest sound' kept quiet).2
    refine ⟨?_, ⟨raw, encodes, ends.l2⟩, ?_, ?_⟩
    · cases found : finish.1.l1 key with
      | none => exact .inl rfl
      | some other => exact .inr (congrArg some (ends.l1 other found))
    · intro other hit
      exact hit_value decodes rest sound' kept quiet hit
    · intro first call later' same
      subst same
      exact read_answered decodes rest sound' kept quiet
  · intro earlier number scope key later same _ flight fetched
    subst same
    exact fenced_off fences fetched

/-- A cache that has just been built, over an empty L2. -/
def built (V : Type*) : Local V × Store :=
  (⟨fun _ => none, 0, none, fun _ => none, 0, fun _ => none, 0⟩, ⟨fun _ => none, fun _ => 0⟩)

theorem built_fresh (V : Type*) : (built V).1.Fresh where
  l1 := fun _ => rfl
  epoch := rfl
  holder := rfl
  calls := fun _ => rfl
  flights := fun _ => rfl

/-- One byte as its own encoding. -/
def byteCodec : Codec UInt8 where
  marshal := fun value => some [value]
  unmarshal := fun
    | [value] => some value
    | _ => none

theorem byteCodec_roundTrip : byteCodec.RoundTrip := by
  intro value raw encodes
  cases encodes
  rfl

/-- A pair of which only the first half is encoded. -/
def exportedCodec : Codec (UInt8 × UInt8) where
  marshal := fun value => some [value.1]
  unmarshal := fun
    | [value] => some (value, 0)
    | _ => none

/-- Notices of a peer. -/
def peerNotice (key : Key) : Invalidation Bool :=
  ⟨true, .key, key⟩

/-- A `Set`, a notice for its key, and a `Get` that reads it back from L2. -/
def sampleReads : List (Event UInt8 Bool) :=
  [.wrote 0 [107] 1, .set 0 [107] 1, .invalidated (peerNotice [107]), .missed 1 [107],
    .started 1 0, .read 0, .decoded 1, .returned 1 0 [107] 1 true]

theorem sampleReads_run : ∃ finish, (process byteCodec false).Run sampleReads finish := by
  apply Exists.intro
  refine ⟨built UInt8, built_fresh UInt8, ?_⟩
  exact .cons (Step.write rfl rfl).process (.cons (Step.set rfl rfl).process
    (.cons (Step.invalidate _ rfl).process
    (.cons (Step.miss rfl rfl).process
    (.cons (Step.start rfl (fun _ _ found => by cases found)).process
    (.cons (Step.readHit rfl rfl rfl rfl).process
    (.cons (Step.decode rfl rfl rfl rfl).process
    (.cons (@Step.fill _ _ _ byteCodec false _ _ 1 0 [107] 2 1 rfl rfl).process (.nil _))))))))

theorem sampleReads_coherent : ∃ finish, (process byteCodec false).Run sampleReads finish ∧
    (finish.1.l1 [107] = none ∨ finish.1.l1 [107] = some 1) ∧
    (∃ raw, byteCodec.marshal 1 = some raw ∧ finish.2.entry [107] = some raw) ∧
    ∀ event ∈ sampleReads.drop 4, ∀ answer, event.answers 1 = some answer → answer = some 1 := by
  obtain ⟨finish, run⟩ := sampleReads_run
  have coherent := two_tier_coherence byteCodec byteCodec_roundTrip false sampleReads finish run
    (by decide)
  obtain ⟨l1, l2, -, reads⟩ := coherent.1 (sampleReads.take 1) 0 [107] 1 (sampleReads.drop 2) rfl
    (by decide)
  exact ⟨finish, run, l1, l2, (reads (sampleReads.take 3 |>.drop 2) 1 (sampleReads.drop 4) rfl).1⟩

/-- A `Get` that starts while the key holds `1` returns the `2` that replaced it
before its load read L2. -/
theorem replaced_while_read : ∃ finish, (process byteCodec false).Run
    [.wrote 0 [107] 1, .set 0 [107] 1, .sent 0 (.key [107]), .invalidated (peerNotice [107]),
      .missed 1 [107], .wrote 2 [107] 2, .set 2 [107] 2, .started 1 0, .read 0, .decoded 1,
      .returned 1 0 [107] 2 false] finish := by
  apply Exists.intro
  refine ⟨built UInt8, built_fresh UInt8, ?_⟩
  exact .cons (Step.write rfl rfl).process (.cons (Step.set rfl rfl).process
    (.cons (Step.send rfl).process
    (.cons (Step.invalidate _ rfl).process
    (.cons (Step.miss rfl rfl).process
    (.cons (Step.write rfl rfl).process
    (.cons (Step.set rfl rfl).process
    (.cons (Step.start rfl (fun _ _ found => by cases found)).process
    (.cons (Step.readHit rfl rfl rfl rfl).process
    (.cons (Step.decode rfl rfl rfl rfl).process
    (.cons (@Step.fill _ _ _ byteCodec false _ _ 1 0 [107] 2 2 rfl rfl).process (.nil _)))))))))))

/-- When `Set` returns, another `Set` may already have replaced its value. -/
theorem replaced_before_return : ∃ finish, (process byteCodec false).Run
    [.wrote 0 [107] 1, .set 0 [107] 1, .wrote 1 [107] 2, .set 1 [107] 2, .sent 0 (.key [107])]
    finish ∧ finish.1.l1 [107] = some 2 := by
  apply Exists.intro
  exact ⟨⟨built UInt8, built_fresh UInt8, .cons (Step.write rfl rfl).process
    (.cons (Step.set rfl rfl).process
    (.cons (Step.write rfl rfl).process
    (.cons (Step.set rfl rfl).process
    (.cons (Step.send rfl).process (.nil _)))))⟩, rfl⟩

/-- A value that does not survive its encoding is read back as another one. -/
theorem lossy_read_back : ∃ finish, (process exportedCodec false).Run
    [.wrote 0 [107] (1, 2), .set 0 [107] (1, 2), .invalidated (peerNotice [107]),
      .missed 1 [107], .started 1 0, .read 0, .decoded 1, .returned 1 0 [107] (1, 0) true]
    finish := by
  apply Exists.intro
  refine ⟨built _, built_fresh _, ?_⟩
  exact .cons (Step.write rfl rfl).process (.cons (Step.set rfl rfl).process
    (.cons (Step.invalidate _ rfl).process
    (.cons (Step.miss rfl rfl).process
    (.cons (Step.start rfl (fun _ _ found => by cases found)).process
    (.cons (Step.readHit rfl rfl rfl rfl).process
    (.cons (Step.decode rfl rfl rfl rfl).process
    (.cons (@Step.fill _ _ _ exportedCodec false _ _ 1 0 [107] 2 (1, 0) rfl rfl).process
      (.nil _))))))))

/-- Notices that cover other keys raise the epoch and leave loads alone. -/
theorem noticed (codec : Codec V) (notice : Invalidation Origin) {scope : Scope}
    (foreign : notice.origin ≠ self)
    (covered : notice.scope = some scope) (store : Store) (count : Nat) :
    ∀ cache : Local V, cache.holder = none → cache.epoch < 2 ^ 64 →
      ∃ cache', (process codec self).Trace (cache, store)
          (List.replicate count (.invalidated notice)) (cache', store) ∧
        cache'.holder = none ∧ cache'.flights = cache.flights ∧
        cache'.epoch = (cache.epoch + count) % 2 ^ 64 := by
  induction count with
  | zero =>
    intro cache free small
    exact ⟨cache, .nil _, free, rfl, (Nat.mod_eq_of_lt small).symm⟩
  | succ count ih =>
    intro cache free small
    have applied : cache.applyInvalidation self notice = cache.raise.evictL1 scope := by
      rw [Local.applyInvalidation, if_neg foreign, covered]
    obtain ⟨cache', trace, free', flights, epoch⟩ :=
      ih (cache.raise.evictL1 scope) free (Nat.mod_lt _ (by decide))
    refine ⟨cache', .cons (Step.invalidate notice free).process ?_, free', flights, ?_⟩
    · rw [applied]
      exact trace
    · rw [epoch]
      simp only [Local.raise, Local.evictL1]
      omega

/-- After `2 ^ 64` epochs a load from before the deletion is current again. -/
theorem wrapped_backfill : ∃ finish, (process byteCodec false).Run
    ([.missed 0 [107], .started 0 0, .read 0, .called 0, .loaded 0 1,
        .erased 1 (.key [107]), .deleted 1 (.key [107])] ++
      List.replicate (2 ^ 64 - 1) (.invalidated (peerNotice [106])) ++
      [.stored 0 [107] true true]) finish ∧ finish.2.entry [107] = some [1] := by
  have first : ∃ (cache : Local UInt8) (store : Store) (seen : Nat),
      (process byteCodec false).Trace (built UInt8)
        [.missed 0 [107], .started 0 0, .read 0, .called 0, .loaded 0 1,
          .erased 1 (.key [107]), .deleted 1 (.key [107])] (cache, store) ∧
        cache.holder = none ∧ cache.epoch = 1 ∧
        cache.flights 0 = some ⟨[107], 0, seen, .storing [1]⟩ ∧ seen ≠ store.writes [107] := by
    exact ⟨_, _, _, .cons (Step.miss rfl rfl).process
      (.cons (Step.start rfl (fun _ _ found => by cases found)).process
      (.cons (Step.readAbsent rfl rfl rfl).process
      (.cons (Step.call rfl rfl).process
      (.cons (Step.loaded rfl rfl rfl).process
      (.cons (Step.erase rfl).process
      (.cons (Step.delete rfl rfl).process (.nil _))))))), rfl, rfl, rfl, by decide⟩
  obtain ⟨cache, store, seen, trace, free, epoch, flight, overtaken⟩ := first
  obtain ⟨cache', notices, free', flights, epoch'⟩ :=
    noticed byteCodec (peerNotice [106]) (show true ≠ false by decide) rfl store (2 ^ 64 - 1)
      cache free (by rw [epoch]; decide)
  have wraps : (1 + (2 ^ 64 - 1)) % 2 ^ 64 = 0 := by decide
  have current : cache'.epoch = 0 := by
    rw [epoch', epoch, wraps]
  have back := @Step.store _ _ _ byteCodec false cache' store 0 _ _ free'
    ((congrFun flights 0).trans flight) rfl
  simp only [current, decide_true, Local.setL2IfCurrent, overtaken, ne_eq, not_false_eq_true,
    if_true] at back
  refine ⟨_, ⟨built UInt8, built_fresh UInt8, (trace.append notices).snoc back.process⟩, ?_⟩
  simp [Store.set]

/-- Without its three limits coherence fails: a `Get` that starts in the period
may return a later value, a `Set` may return after the end of its period, a
value may not survive its encoding, and the epoch may wrap. -/
theorem coherence_limits :
    (∃ finish, (process byteCodec false).Run
      [.wrote 0 [107] 1, .set 0 [107] 1, .sent 0 (.key [107]), .invalidated (peerNotice [107]),
        .missed 1 [107], .wrote 2 [107] 2, .set 2 [107] 2, .started 1 0, .read 0, .decoded 1,
        .returned 1 0 [107] 2 false] finish) ∧
    (∃ finish, (process byteCodec false).Run
      [.wrote 0 [107] 1, .set 0 [107] 1, .wrote 1 [107] 2, .set 1 [107] 2, .sent 0 (.key [107])]
      finish ∧ finish.1.l1 [107] = some 2) ∧
    (∃ finish, (process exportedCodec false).Run
      [.wrote 0 [107] (1, 2), .set 0 [107] (1, 2), .invalidated (peerNotice [107]),
        .missed 1 [107], .started 1 0, .read 0, .decoded 1, .returned 1 0 [107] (1, 0) true]
      finish) ∧
    ∃ finish, (process byteCodec false).Run
      ([.missed 0 [107], .started 0 0, .read 0, .called 0, .loaded 0 1,
          .erased 1 (.key [107]), .deleted 1 (.key [107])] ++
        List.replicate (2 ^ 64 - 1) (.invalidated (peerNotice [106])) ++
        [.stored 0 [107] true true]) finish ∧ finish.2.entry [107] = some [1] :=
  ⟨replaced_while_read, replaced_before_return, lossy_read_back, wrapped_backfill⟩

end Golusoris.Twotier
