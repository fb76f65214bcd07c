import Golusoris.Twotier.Cluster
import Golusoris.Twotier.Reads

/-!
# Convergence of the replicas

`Agreed` carries through every steady step, so at rest each L1 holds nothing or
what L2 holds. What L2 holds is the business of its writers: after the last
`Set` of a key no steady load writes over it, and after the last deletion only
a load whose loader ran afterwards can fill it. The race that `steady` leaves
out is real, and it leaves an old value behind for good.
-/

namespace Golusoris.Twotier

open Golusoris.Lib

variable {V Origin : Type*} [DecidableEq Origin]

/-- L2 holds this value of the key. -/
def Store.Holds (codec : Codec V) (store : Store) (key : Key) (value : V) : Prop :=
  ∃ raw, store.entry key = some raw ∧ codec.unmarshal raw = some value

/-- The invariant of a steady cluster. -/
structure Agreed (codec : Codec V) (state : Cluster V Origin) : Prop where
  sound : ∀ replica, (state.replicas replica).Sound codec
  l1 : ∀ replica key value, (state.replicas replica).l1 key = some value →
    state.store.Holds codec key value ∨ state.Unsettled replica key
  done : ∀ replica number flight raw, (state.replicas replica).flights number = some flight →
    flight.stage = .done (some raw) → codec.unmarshal raw ≠ none ∧
      (flight.epoch = (state.replicas replica).epoch →
        state.store.entry flight.key = some raw ∨ state.Unsettled replica flight.key)
  setting : ∀ replica number key value,
    (state.replicas replica).calls number = some (.setting key value) →
    state.store.Holds codec key value ∨ state.Coming replica key
  storing : ∀ replica number flight raw, (state.replicas replica).flights number = some flight →
    flight.stage = .storing raw → codec.unmarshal raw ≠ none
  seen : ∀ replica number flight, (state.replicas replica).flights number = some flight →
    flight.stage.missed = true → flight.seen ≤ state.store.writes flight.key
  missed : ∀ replica number flight, (state.replicas replica).flights number = some flight →
    flight.stage.missed = true → flight.seen = state.store.writes flight.key →
    ∀ raw, state.store.entry flight.key = some raw → codec.unmarshal raw = none

variable {replica : Origin}

section Steps

variable {codec : Codec V} {before after : Cluster V Origin} {act : Act V Origin}

/-- In a steady step an entry of L2 stays, is mutated, or was unusable. -/
theorem Agreed.l2_effect (agreed : Agreed codec before)
    (step : (steady Origin codec).Step before act after) (key : Key) :
    (after.store.entry key = before.store.entry key ∧
        after.store.writes key = before.store.writes key) ∨
      after.store.writes key = before.store.writes key + 1 ∧
        (before.replicas act.replica).holder = none ∧
        (act.event.mutates key = true ∨
          ∀ raw, before.store.entry key = some raw → codec.unmarshal raw = none) := by
  obtain ⟨⟨moves, -, -⟩, -, undisturbed⟩ := step
  rcases moves.l2_effect key with same | ⟨written, free, mutates | ⟨number, flight, found, rfl,
    missed, seen | overwrites⟩⟩
  · exact .inl same
  · exact .inr ⟨written, free, .inl mutates⟩
  · exact .inr ⟨written, free, .inr (agreed.missed _ number flight found missed seen)⟩
  · rw [undisturbed] at overwrites
    cases overwrites

variable {key : Key} {value : V}

/-- What L2 held before a steady step it still holds, or the key is mutated. -/
theorem Agreed.holds_step (agreed : Agreed codec before)
    (step : (steady Origin codec).Step before act after)
    (holds : before.store.Holds codec key value) :
    after.store.Holds codec key value ∨
      act.event.mutates key = true ∧ (before.replicas act.replica).holder = none := by
  obtain ⟨raw, entry, decodes⟩ := holds
  rcases agreed.l2_effect step key with ⟨same, -⟩ | ⟨-, free, mutates | unusable⟩
  · exact .inl ⟨raw, same ▸ entry, decodes⟩
  · exact .inr ⟨mutates, free⟩
  · rw [unusable raw entry] at decodes
    cases decodes

/-- A replica that is not cleared of a key stays unsettled about it. -/
theorem Agreed.unsettled_step (agreed : Agreed codec before)
    (step : (steady Origin codec).Step before act after)
    (unsettled : before.Unsettled replica key)
    (uncleared : act.replica = replica → act.event.clears replica key = false) :
    after.Unsettled replica key := by
  rcases unsettled.step agreed.sound step.1 with unsettled | ⟨same, clears⟩
  · exact unsettled
  · rw [uncleared same] at clears
    cases clears

theorem Agreed.step_sound (agreed : Agreed codec before)
    (step : (steady Origin codec).Step before act after) (replica : Origin) :
    (after.replicas replica).Sound codec := by
  obtain ⟨⟨moves, others, -⟩, raised, -⟩ := step
  by_cases same : replica = act.replica
  · subst same
    exact (agreed.sound _).step moves raised
  · rw [others replica same]
    exact agreed.sound replica

theorem Agreed.step_l1 (agreed : Agreed codec before)
    (step : (steady Origin codec).Step before act after)
    (found : (after.replicas replica).l1 key = some value) :
    after.store.Holds codec key value ∨ after.Unsettled replica key := by
  -- Either side of the invariant survives unless the replica is cleared.
  have kept : (before.store.Holds codec key value ∨ before.Unsettled replica key) →
      (act.replica = replica → act.event.clears replica key = false) →
      after.store.Holds codec key value ∨ after.Unsettled replica key := by
    intro invariant uncleared
    rcases invariant with holds | unsettled
    · rcases agreed.holds_step step holds with holds | ⟨mutates, -⟩
      · exact .inl holds
      · exact .inr (unsettled_of_mutates step.1 mutates replica).1
    · exact .inr (agreed.unsettled_step step unsettled uncleared)
  obtain ⟨moves, others, -⟩ := step.1
  by_cases same : replica = act.replica
  · subst same
    rcases moves.l1_origin found with ⟨found, uncleared⟩ | ⟨number, other, call, uncleared, -⟩ |
      ⟨number, call, event, unchanged⟩
    · exact kept (agreed.l1 _ key value found) (fun _ => uncleared)
    · obtain ⟨flight, raw, flying, rfl, sameEpoch, stage, decodes⟩ := (agreed.sound _).filling call
      refine kept ?_ (fun _ => uncleared)
      rcases (agreed.done _ other flight raw flying stage).2 sameEpoch with entry | unsettled
      · exact .inl ⟨raw, entry, decodes⟩
      · exact .inr unsettled
    · rcases agreed.setting _ number key value call with holds | coming
      · exact .inl (unchanged ▸ holds)
      · rcases coming.step agreed.sound step.1 with coming | ⟨-, -, notice, delivered⟩
        · exact .inr (.inl coming)
        · rw [event] at delivered
          cases delivered
  · rw [others replica same] at found
    exact kept (agreed.l1 replica key value found) (fun equal => absurd equal.symm same)

variable {number : Nat} {flight : Flight}

theorem Agreed.step_done (agreed : Agreed codec before)
    (step : (steady Origin codec).Step before act after) {raw : Bytes}
    (found : (after.replicas replica).flights number = some flight)
    (stage : flight.stage = .done (some raw)) :
    codec.unmarshal raw ≠ none ∧ (flight.epoch = (after.replicas replica).epoch →
      after.store.entry flight.key = some raw ∨ after.Unsettled replica flight.key) := by
  -- A load that was done before keeps its bytes current while its epoch is.
  have kept : (before.replicas replica).flights number = some flight →
      codec.unmarshal raw ≠ none ∧ (flight.epoch = (after.replicas replica).epoch →
        after.store.entry flight.key = some raw ∨ after.Unsettled replica flight.key) := by
    intro found
    obtain ⟨decodes, current⟩ := agreed.done replica number flight raw found stage
    have reached := ((agreed.sound replica).flights number flight found).2
    refine ⟨decodes, fun epoch => ?_⟩
    have same : (after.replicas replica).epoch = (before.replicas replica).epoch := by
      by_cases acting : replica = act.replica
      · subst acting
        have raised := step.2.1
        omega
      · rw [step.1.2.1 replica acting]
    rcases current (epoch.trans same) with entry | unsettled
    · rcases agreed.l2_effect step flight.key with ⟨equal, -⟩ | ⟨-, -, mutates | unusable⟩
      · exact .inl (equal.trans entry)
      · exact .inr (unsettled_of_mutates step.1 mutates replica).1
      · exact absurd (unusable raw entry) decodes
    · refine .inr (agreed.unsettled_step step unsettled fun acting => ?_)
      subst acting
      exact step.1.1.not_clears same
  obtain ⟨moves, others, -⟩ := step.1
  by_cases acting : replica = act.replica
  · subst acting
    rcases moves.done_origin found stage with found | ⟨entry, decodes, unchanged⟩ |
      ⟨flight₀, found₀, storing, sameKey, sameEpoch, unraised, stored⟩
    · exact kept found
    · exact ⟨decodes, fun _ => .inl (unchanged ▸ entry)⟩
    · refine ⟨agreed.storing _ number flight₀ raw found₀ storing, fun epoch => .inl ?_⟩
      have current : (before.replicas act.replica).epoch = flight₀.epoch := by
        rw [← sameEpoch, epoch, unraised]
      rw [stored, Local.setL2IfCurrent, if_pos current, sameKey]
      exact Function.update_self ..
  · rw [others replica acting] at found
    exact kept found

theorem Agreed.step_setting (roundTrip : codec.RoundTrip) (agreed : Agreed codec before)
    (step : (steady Origin codec).Step before act after)
    (found : (after.replicas replica).calls number = some (.setting key value)) :
    after.store.Holds codec key value ∨ after.Coming replica key := by
  obtain ⟨moves, others, -⟩ := step.1
  -- A `Set` between its tiers has the lock, so only a peer can change the entry.
  have kept : (before.replicas replica).calls number = some (.setting key value) →
      (act.replica = replica → (before.replicas replica).holder ≠ none) →
      after.store.Holds codec key value ∨ after.Coming replica key := by
    intro found held
    rcases agreed.setting replica number key value found with holds | coming
    · rcases agreed.holds_step step holds with holds | ⟨mutates, free⟩
      · exact .inl holds
      · refine .inr ((unsettled_of_mutates step.1 mutates replica).2 fun acting => ?_)
        exact held acting (acting ▸ free)
    · rcases coming.step agreed.sound step.1 with coming | ⟨acting, -, notice, delivered⟩
      · exact .inr coming
      · subst acting
        rw [delivered] at moves
        exact absurd moves.invalidated_free (held rfl)
  by_cases acting : replica = act.replica
  · subst acting
    rcases (moves.mutating_call found).1 key value rfl with found | wrote
    · refine kept found (fun _ free => ?_)
      exact (agreed.sound act.replica).free_setting free found
    · rw [wrote] at moves
      obtain ⟨raw, encodes, entry⟩ := moves.wrote_entry
      exact .inl ⟨raw, entry, roundTrip value raw encodes⟩
  · rw [others replica acting] at found
    exact kept found (fun equal => absurd equal.symm acting)

theorem Agreed.step_storing (roundTrip : codec.RoundTrip) (agreed : Agreed codec before)
    (step : (steady Origin codec).Step before act after) {raw : Bytes}
    (found : (after.replicas replica).flights number = some flight)
    (stage : flight.stage = .storing raw) : codec.unmarshal raw ≠ none := by
  obtain ⟨moves, others, -⟩ := step.1
  by_cases acting : replica = act.replica
  · subst acting
    rcases moves.storing_origin found stage with found | ⟨value, -, encodes, -⟩
    · exact agreed.storing _ number flight raw found stage
    · rw [roundTrip value raw encodes]
      nofun
  · rw [others replica acting] at found
    exact agreed.storing replica number flight raw found stage

theorem Agreed.writes_mono (agreed : Agreed codec before)
    (step : (steady Origin codec).Step before act after) (key : Key) :
    before.store.writes key ≤ after.store.writes key := by
  rcases agreed.l2_effect step key with ⟨-, same⟩ | ⟨more, -⟩
  · exact Nat.le_of_eq same.symm
  · exact more ▸ Nat.le_succ _

/-- A load that missed keeps behind the writes of its entry, and while it is
level with them the entry is unusable. -/
theorem Agreed.step_missed (agreed : Agreed codec before)
    (step : (steady Origin codec).Step before act after)
    (found : (after.replicas replica).flights number = some flight)
    (missed : flight.stage.missed = true) :
    flight.seen ≤ after.store.writes flight.key ∧
      (flight.seen = after.store.writes flight.key →
        ∀ raw, after.store.entry flight.key = some raw → codec.unmarshal raw = none) := by
  have kept : ∀ flight₀, (before.replicas replica).flights number = some flight₀ →
      flight.key = flight₀.key → flight₀.stage.missed = true → flight.seen = flight₀.seen →
      flight.seen ≤ after.store.writes flight.key ∧
        (flight.seen = after.store.writes flight.key →
          ∀ raw, after.store.entry flight.key = some raw → codec.unmarshal raw = none) := by
    intro flight₀ found₀ sameKey missed₀ sameSeen
    have behind := agreed.seen replica number flight₀ found₀ missed₀
    have unusable := agreed.missed replica number flight₀ found₀ missed₀
    rw [sameKey, sameSeen]
    rcases agreed.l2_effect step flight₀.key with ⟨equal, same⟩ | ⟨more, -⟩
    · rw [equal, same]
      exact ⟨behind, unusable⟩
    · exact ⟨by omega, fun level => by omega⟩
  obtain ⟨⟨moves, others, -⟩, -, undisturbed⟩ := step
  by_cases acting : replica = act.replica
  · subst acting
    rcases moves.missed_origin found missed with
      ⟨level, unchanged, unusable⟩ | ⟨flight₀, found₀, sameKey, missed₀, same | purged⟩
    · rw [unchanged]
      exact ⟨Nat.le_of_eq level, fun _ => unusable⟩
    · exact kept flight₀ found₀ sameKey missed₀ same
    · obtain ⟨more, erased, writes, overwrites | level⟩ := purged
      · rw [undisturbed] at overwrites
        cases overwrites
      · refine ⟨by omega, fun _ raw entry => ?_⟩
        rw [erased] at entry
        cases entry
  · rw [others replica acting] at found
    exact kept flight found rfl missed rfl

/-- Every steady step keeps the invariant. -/
theorem Agreed.step (roundTrip : codec.RoundTrip) (agreed : Agreed codec before)
    (step : (steady Origin codec).Step before act after) : Agreed codec after where
  sound := agreed.step_sound step
  l1 := fun _ _ _ found => agreed.step_l1 step found
  done := fun _ _ _ _ found stage => agreed.step_done step found stage
  setting := fun _ _ _ _ found => agreed.step_setting roundTrip step found
  storing := fun _ _ _ _ found stage => agreed.step_storing roundTrip step found stage
  seen := fun _ _ _ found missed => (agreed.step_missed step found missed).1
  missed := fun _ _ _ found missed => (agreed.step_missed step found missed).2

end Steps

variable {codec : Codec V}

theorem agreed_initial {state : Cluster V Origin} (initial : (cluster Origin codec).Initial state) :
    Agreed codec state := by
  have noFlight : ∀ {replica number flight},
      (state.replicas replica).flights number ≠ some flight := by
    intro replica number flight found
    rw [(initial.1 replica).flights number] at found
    cases found
  refine ⟨fun replica => (initial.1 replica).sound, ?_, ?_, ?_, ?_, ?_, ?_⟩
  · intro replica key value found
    rw [(initial.1 replica).l1 key] at found
    cases found
  · exact fun _ _ _ _ found => absurd found noFlight
  · intro replica number key value found
    rw [(initial.1 replica).calls number] at found
    cases found
  · exact fun _ _ _ _ found => absurd found noFlight
  · exact fun _ _ _ found => absurd found noFlight
  · exact fun _ _ _ found => absurd found noFlight

theorem agreed_run (roundTrip : codec.RoundTrip) {acts : List (Act V Origin)}
    {finish : Cluster V Origin} (run : (steady Origin codec).Run acts finish) :
    Agreed codec finish := by
  refine run.invariant (Agreed codec) ?_ ?_
  · intro state initial
    exact agreed_initial initial
  · intro before act after agreed step
    exact agreed.step roundTrip step

section Last

variable {codec : Codec V} {before after : Cluster V Origin} {act : Act V Origin}
variable {key : Key} {raw : Bytes} {base : Nat}

/-- L2 after the last `Set` of a key: no load level with its writes has missed. -/
structure LastSet (key : Key) (raw : Bytes) (base : Nat) (state : Cluster V Origin) : Prop where
  entry : state.store.entry key = some raw
  reached : base ≤ state.store.writes key
  behind : ∀ replica number flight, (state.replicas replica).flights number = some flight →
    flight.key = key → flight.stage.missed = true → flight.seen < base

theorem LastSet.step (decodes : codec.unmarshal raw ≠ none) (agreed : Agreed codec before)
    (last : LastSet key raw base before) (step : (steady Origin codec).Step before act after)
    (quiet : act.event.mutates key = false) : LastSet key raw base after := by
  have same : after.store.entry key = some raw := by
    rcases agreed.l2_effect step key with ⟨equal, -⟩ | ⟨-, -, mutates | unusable⟩
    · exact equal.trans last.entry
    · rw [quiet] at mutates
      cases mutates
    · exact absurd (unusable raw last.entry) decodes
  refine ⟨same, Nat.le_trans last.reached (agreed.writes_mono step key), ?_⟩
  intro replica number flight found sameKey missed
  obtain ⟨⟨moves, others, -⟩, -, undisturbed⟩ := step
  by_cases acting : replica = act.replica
  · subst acting
    rcases moves.missed_origin found missed with
      ⟨-, -, unusable⟩ | ⟨flight₀, found₀, equal, missed₀, sameSeen | purged⟩
    · exact absurd (unusable raw (sameKey ▸ last.entry)) decodes
    · rw [sameSeen]
      exact last.behind _ number flight₀ found₀ (equal ▸ sameKey) missed₀
    · obtain ⟨-, erased, -⟩ := purged
      rw [sameKey, same] at erased
      cases erased
  · rw [others replica acting] at found
    exact last.behind replica number flight found sameKey missed

/-- The bytes come from a loader that ran within the history. -/
def LoadedIn (codec : Codec V) (history : List (Act V Origin)) (raw : Bytes) : Prop :=
  ∃ replica number value, ⟨replica, .called number⟩ ∈ history ∧
    ⟨replica, .loaded number value⟩ ∈ history ∧ codec.marshal value = some raw

/-- L2 after the last deletion of a key. -/
structure LastDelete (codec : Codec V) (key : Key) (base : Nat) (history : List (Act V Origin))
    (state : Cluster V Origin) : Prop where
  entry : ∀ raw, state.store.entry key = some raw → LoadedIn codec history raw
  reached : base ≤ state.store.writes key
  loading : ∀ replica number flight, (state.replicas replica).flights number = some flight →
    flight.key = key → flight.stage = .loading → base ≤ flight.seen →
    ⟨replica, .called number⟩ ∈ history
  storing : ∀ replica number flight raw, (state.replicas replica).flights number = some flight →
    flight.key = key → flight.stage = .storing raw → base ≤ flight.seen →
    LoadedIn codec history raw

omit [DecidableEq Origin] in
theorem LoadedIn.snoc {history : List (Act V Origin)} (loaded : LoadedIn codec history raw) :
    LoadedIn codec (history ++ [act]) raw := by
  obtain ⟨replica, number, value, called, returned, encodes⟩ := loaded
  exact ⟨replica, number, value, List.mem_append_left _ called,
    List.mem_append_left _ returned, encodes⟩

theorem LastDelete.step {history : List (Act V Origin)} (agreed : Agreed codec before)
    (last : LastDelete codec key base history before)
    (step : (steady Origin codec).Step before act after)
    (quiet : act.event.mutates key = false) :
    LastDelete codec key base (history ++ [act]) after := by
  have reached := Nat.le_trans last.reached (agreed.writes_mono step key)
  obtain ⟨⟨moves, others, -⟩, -, undisturbed⟩ := step
  refine ⟨?_, reached, ?_, ?_⟩
  · intro raw entry
    rcases moves.entry_origin entry with
      entry | mutates | ⟨number, flight, found, sameKey, stage, level | overwrites⟩
    · exact (last.entry raw entry).snoc
    · rw [quiet] at mutates
      cases mutates
    · have late : base ≤ flight.seen := level ▸ last.reached
      exact (last.storing _ number flight raw found sameKey stage late).snoc
    · rw [undisturbed] at overwrites
      cases overwrites
  · intro replica number flight found sameKey stage late
    by_cases acting : replica = act.replica
    · subst acting
      rcases moves.loading_origin found stage with found | called
      · exact List.mem_append_left _ (last.loading _ number flight found sameKey stage late)
      · exact List.mem_append_right _ (List.mem_singleton.mpr (by rw [← called]))
    · rw [others replica acting] at found
      exact List.mem_append_left _ (last.loading replica number flight found sameKey stage late)
  · intro replica number flight raw found sameKey stage late
    by_cases acting : replica = act.replica
    · subst acting
      rcases moves.storing_origin found stage with
        found | ⟨value, flight₀, encodes, loaded, found₀, loading, equal, sameSeen⟩
      · exact (last.storing _ number flight raw found sameKey stage late).snoc
      · have called := last.loading _ number flight₀ found₀ (equal ▸ sameKey) loading
          (sameSeen ▸ late)
        exact ⟨act.replica, number, value, List.mem_append_left _ called,
          List.mem_append_right _ (List.mem_singleton.mpr (by rw [← loaded])), encodes⟩
    · rw [others replica acting] at found
      exact (last.storing replica number flight raw found sameKey stage late).snoc

end Last

section Convergence

variable {codec : Codec V} {earlier later : List (Act V Origin)} {finish : Cluster V Origin}
variable {replica : Origin} {number : Nat} {key : Key} {value : V} {scope : Scope}

/-- L2 keeps the last `Set` of a key. -/
theorem last_set_holds (roundTrip : codec.RoundTrip)
    (run : (steady Origin codec).Run
      (earlier ++ ⟨replica, .wrote number key value⟩ :: later) finish)
    (quiet : ∀ act ∈ later, act.event.mutates key = false) :
    ∃ raw, codec.marshal value = some raw ∧ finish.store.entry key = some raw := by
  obtain ⟨before, after, ran, step, rest⟩ := run.cut
  have agreed := agreed_run roundTrip ran
  obtain ⟨raw, encodes, entry⟩ := step.1.1.wrote_entry
  have decodes : codec.unmarshal raw ≠ none := by
    rw [roundTrip value raw encodes]
    nofun
  have agreed' := agreed.step roundTrip step
  have last : LastSet key raw (after.store.writes key) after := by
    refine ⟨entry, Nat.le_refl _, ?_⟩
    intro other load flight found sameKey missed
    obtain ⟨behind, unusable⟩ := agreed.step_missed step found missed
    rw [sameKey] at behind unusable
    refine Nat.lt_of_le_of_ne behind fun level => ?_
    exact decodes (unusable level raw entry)
  have carried := rest.invariant_of
    (fun state => Agreed codec state ∧ LastSet key raw (after.store.writes key) state)
    (fun act => act.event.mutates key = false)
    (fun _ _ _ still ⟨agreed, last⟩ step =>
      ⟨agreed.step roundTrip step, last.step decodes agreed step still⟩)
    quiet ⟨agreed', last⟩
  exact ⟨raw, encodes, carried.2.entry⟩

/-- After the last deletion of a key L2 holds nothing, or what a loader that ran
afterwards returned. -/
theorem last_delete_holds (roundTrip : codec.RoundTrip)
    (run : (steady Origin codec).Run (earlier ++ ⟨replica, .erased number scope⟩ :: later) finish)
    (covers : scope.covers key = true)
    (quiet : ∀ act ∈ later, act.event.mutates key = false) :
    ∀ raw, finish.store.entry key = some raw → LoadedIn codec later raw := by
  obtain ⟨before, after, ran, step, rest⟩ := run.cut
  have agreed := agreed_run roundTrip ran
  have agreed' := agreed.step roundTrip step
  obtain ⟨erased, writes, unmoved⟩ := step.1.1.erased_entry covers
  -- Every load in flight read L2 before the deletion.
  have early : ∀ other load flight, (after.replicas other).flights load = some flight →
      flight.key = key → flight.stage.missed = true → ¬ after.store.writes key ≤ flight.seen := by
    intro other load flight found sameKey missed late
    have found₀ : (before.replicas other).flights load = some flight := by
      by_cases acting : other = replica
      · subst acting
        rw [← unmoved]
        exact found
      · rw [← step.1.2.1 other acting]
        exact found
    have behind := agreed.seen other load flight found₀ missed
    rw [sameKey] at behind
    omega
  have last : LastDelete codec key (after.store.writes key) ([] : List (Act V Origin)) after := by
    refine ⟨?_, Nat.le_refl _, ?_, ?_⟩
    · intro raw entry
      rw [erased] at entry
      cases entry
    · intro other load flight found sameKey stage late
      exact absurd late (early other load flight found sameKey (by rw [stage]; rfl))
    · intro other load flight raw found sameKey stage late
      exact absurd late (early other load flight found sameKey (by rw [stage]; rfl))
  have carried := rest.history_invariant
    (fun history state => (∀ act ∈ history, act.event.mutates key = false) →
      Agreed codec state ∧ LastDelete codec key (after.store.writes key) history state)
    (by
      intro history before act after' holds step still
      obtain ⟨agreed, last⟩ :=
        holds (fun other member => still other (List.mem_append_left _ member))
      exact ⟨agreed.step roundTrip step, last.step agreed step (still act (by simp))⟩)
    (fun _ => ⟨agreed', last⟩)
  exact (carried quiet).2.entry

end Convergence

/-- Replicas over one L2, each with fewer than `2 ^ 64` epochs, values that
survive their encoding, and no load that writes L2 after its entry has changed
since the load read it. Once no call and no notice is in flight, every L1 holds
nothing or what L2 holds; L2 holds the last `Set` of a key, and after a last
deletion nothing or a value loaded from the origin since. -/
theorem replicas_converge (codec : Codec V) (roundTrip : codec.RoundTrip)
    (acts : List (Act V Origin)) (finish : Cluster V Origin)
    (run : (cluster Origin codec).Run acts finish)
    (bounded : ∀ replica, acts.countP (Act.raisesAt replica) < 2 ^ 64)
    (undisturbed : ∀ act ∈ acts, act.event.overwrites = false) (quiet : finish.Quiescent) :
    (∀ replica key, (finish.replicas replica).l1 key = none ∨
      ∃ value, (finish.replicas replica).l1 key = some value ∧ finish.store.Holds codec key value) ∧
    (∀ earlier replica number key value later,
      acts = earlier ++ ⟨replica, .wrote number key value⟩ :: later →
      (∀ act ∈ later, act.event.mutates key = false) →
      ∃ raw, codec.marshal value = some raw ∧ finish.store.entry key = some raw) ∧
    ∀ earlier replica number scope key later,
      acts = earlier ++ ⟨replica, .erased number scope⟩ :: later → scope.covers key = true →
      (∀ act ∈ later, act.event.mutates key = false) →
      finish.store.entry key = none ∨
        ∃ raw, finish.store.entry key = some raw ∧ LoadedIn codec later raw := by
  have steadies := steady_run run bounded undisturbed
  have agreed := agreed_run roundTrip steadies
  refine ⟨?_, ?_, ?_⟩
  · intro replica key
    cases found : (finish.replicas replica).l1 key with
    | none => exact .inl rfl
    | some value =>
      have holds := (agreed.l1 replica key value found).resolve_right (quiet.settled replica key)
      exact .inr ⟨value, rfl, holds⟩
  · intro earlier replica number key value later same still
    subst same
    exact last_set_holds roundTrip steadies still
  · intro earlier replica number scope key later same covers still
    subst same
    have loaded := last_delete_holds roundTrip steadies covers still
    cases entry : finish.store.entry key with
    | none => exact .inl rfl
    | some raw => exact .inr ⟨raw, rfl, loaded raw entry⟩

/-- A step of one replica of a cluster. -/
theorem Step.within {state : Cluster V Origin} {event : Event V Origin} {cache : Local V}
    {store : Store} {notices : Origin → List (Invalidation Origin)}
    (step : Step codec replica (state.replicas replica) state.store event cache store)
    (carried : Carried replica state.notices notices event) :
    (cluster Origin codec).Step state ⟨replica, event⟩
      ⟨Function.update state.replicas replica cache, store, notices⟩ := by
  refine ⟨?_, ?_, carried⟩
  · simpa using step
  · intro other ne
    exact Function.update_of_ne ne ..

/-- Two replicas that have just been built. -/
def builtPair : Cluster UInt8 Bool :=
  ⟨fun _ => (built UInt8).1, (built UInt8).2, fun _ => []⟩

theorem builtPair_initial : (cluster Bool byteCodec).Initial builtPair :=
  ⟨fun _ => built_fresh UInt8, fun _ => rfl⟩

/-- One replica sets a key, the other evicts it and reads it back. -/
def samplePair : List (Act UInt8 Bool) :=
  [⟨false, .wrote 0 [107] 2⟩, ⟨false, .set 0 [107] 2⟩, ⟨false, .sent 0 (.key [107])⟩,
    ⟨true, .invalidated ⟨false, .key, [107]⟩⟩, ⟨false, .invalidated ⟨false, .key, [107]⟩⟩,
    ⟨true, .missed 0 [107]⟩, ⟨true, .started 0 0⟩, ⟨true, .read 0⟩, ⟨true, .decoded 0⟩,
    ⟨true, .returned 0 0 [107] 2 true⟩]

theorem samplePair_run : ∃ finish, (cluster Bool byteCodec).Run samplePair finish ∧
    finish.Quiescent := by
  apply Exists.intro
  refine ⟨⟨builtPair, builtPair_initial, .cons ((Step.write rfl rfl).within rfl)
    (.cons ((Step.set rfl rfl).within rfl)
    (.cons ((Step.send rfl).within rfl)
    (.cons ((Step.invalidate _ rfl).within ⟨[], [], rfl, rfl⟩)
    (.cons ((Step.invalidate _ rfl).within ⟨[], [], rfl, rfl⟩)
    (.cons ((Step.miss rfl rfl).within rfl)
    (.cons ((Step.start rfl (fun _ _ found => by cases found)).within rfl)
    (.cons ((Step.readHit rfl rfl rfl rfl).within rfl)
    (.cons ((Step.decode rfl rfl rfl rfl).within rfl)
    (.cons ((@Step.fill _ _ _ byteCodec true _ _ 0 0 [107] 1 2 rfl rfl).within rfl)
      (.nil _))))))))))⟩, ?_, ?_⟩
  · intro replica number
    cases replica with
    | false | true =>
      cases number with
      | zero => rfl
      | succ number => rfl
  · intro replica
    cases replica with
    | false => rfl
    | true => rfl

theorem samplePair_converges : ∃ finish, (cluster Bool byteCodec).Run samplePair finish ∧
    (∀ replica key, (finish.replicas replica).l1 key = none ∨
      ∃ value, (finish.replicas replica).l1 key = some value ∧
        finish.store.Holds byteCodec key value) ∧
    ∃ raw, byteCodec.marshal 2 = some raw ∧ finish.store.entry [107] = some raw := by
  obtain ⟨finish, run, quiet⟩ := samplePair_run
  have converges := replicas_converge byteCodec byteCodec_roundTrip samplePair finish run
    (by decide) (by decide) quiet
  exact ⟨finish, run, converges.1, converges.2.1 [] false 0 [107] 2 samplePair.tail rfl (by decide)⟩

/-- A peer sets a key while a load holds what the origin had before, and the
load stores it before the notice arrives: at rest L2 holds the old value and
the L1 of the peer the new one. -/
theorem stale_load_stays : ∃ finish, (cluster Bool byteCodec).Run
    [⟨true, .missed 0 [107]⟩, ⟨true, .started 0 0⟩, ⟨true, .read 0⟩, ⟨true, .called 0⟩,
      ⟨true, .loaded 0 1⟩, ⟨false, .wrote 0 [107] 2⟩, ⟨false, .set 0 [107] 2⟩,
      ⟨true, .stored 0 [107] true true⟩, ⟨true, .decoded 0⟩,
      ⟨true, .returned 0 0 [107] 1 true⟩, ⟨false, .sent 0 (.key [107])⟩,
      ⟨true, .invalidated ⟨false, .key, [107]⟩⟩,
      ⟨false, .invalidated ⟨false, .key, [107]⟩⟩] finish ∧ finish.Quiescent ∧
    finish.store.entry [107] = some [1] ∧ (finish.replicas false).l1 [107] = some 2 := by
  apply Exists.intro
  refine ⟨⟨builtPair, builtPair_initial, .cons ((Step.miss rfl rfl).within rfl)
    (.cons ((Step.start rfl (fun _ _ found => by cases found)).within rfl)
    (.cons ((Step.readAbsent rfl rfl rfl).within rfl)
    (.cons ((Step.call rfl rfl).within rfl)
    (.cons ((Step.loaded rfl rfl rfl).within rfl)
    (.cons ((Step.write rfl rfl).within rfl)
    (.cons ((Step.set rfl rfl).within rfl)
    (.cons ((@Step.store _ _ _ byteCodec true _ _ 0 ⟨[107], 0, 0, .storing [1]⟩ [1]
      rfl rfl rfl).within rfl)
    (.cons ((Step.decode rfl rfl rfl rfl).within rfl)
    (.cons ((@Step.fill _ _ _ byteCodec true _ _ 0 0 [107] 0 1 rfl rfl).within rfl)
    (.cons ((Step.send rfl).within rfl)
    (.cons ((Step.invalidate _ rfl).within ⟨[], [], rfl, rfl⟩)
    (.cons ((Step.invalidate _ rfl).within ⟨[], [], rfl, rfl⟩)
      (.nil _)))))))))))))⟩, ⟨?_, ?_⟩, rfl, rfl⟩
  · intro replica number
    cases replica with
    | false =>
      cases number with
      | zero => rfl
      | succ number => rfl
    | true =>
      cases number with
      | zero => rfl
      | succ number => rfl
  · intro replica
    cases replica with
    | false => rfl
    | true => rfl

end Golusoris.Twotier
