import Golusoris.Idempotency.Turns

/-!
# Idempotent execution end to end

`Sound` follows one reservation at a time: until its request settles it, the
reservation is in the table under its own token or has outlived its lifetime.
The laws of `Gateway.Laws` are read off this invariant, and `rank` bounds the
steps a request still needs before it settles.
-/

namespace Golusoris.Idempotency

open Lib
open Gateway
open MemoryStore

variable {state : Gateway}

namespace Gateway

variable {before after : Gateway} {signal : Signal} {event : Event}
variable {request : Nat} {next : Phase}

/-- A request that still holds its claim has just been granted it, or held it
before and nothing settled it in between. -/
theorem Advance.holding (advance : Advance before event request next)
    (numbered : Numbered before) (bounded : before.grants ≤ 2 ^ 64) (holding : next.Holding) :
    (∃ execution, next = .running execution ∧
      event.Grants execution.key execution.token execution.fingerprint execution.ttl ∧
      execution.acquiredAt = event.time ∧ execution.serial = before.grants + 1) ∨
    ∃ prior, before.requests request = some prior ∧ prior.Holding ∧
      next.execution = prior.execution ∧ ∀ key, ¬ event.Settles key next.execution.token := by
  cases advance with
  | kept known foreign =>
    refine .inr ⟨next, known, holding, rfl, ?_⟩
    intro key settles
    obtain ⟨other, phase, different, found, _, sameToken⟩ := foreign key _ settles
    exact different (token_unique numbered bounded found known sameToken.symm)
  | turned turn =>
    generalize known : before.requests request = old at turn
    cases turn with
    | start execution grants acquired serial =>
      exact .inl ⟨execution, rfl, grants, acquired, serial⟩
    | finish execution phase _ same _ noSettle =>
      exact .inr ⟨_, rfl, trivial, same, fun key => noSettle key _⟩
    | refuse execution response _ noSettle =>
      exact .inr ⟨_, rfl, trivial, rfl, fun key => noSettle key _⟩
    | commit | release | lose => exact holding.elim

variable {execution : Execution}

/-- A settled request was settled before, or the step settled it. -/
theorem Advance.ended {ending : Ending}
    (advance : Advance before event request (.ended execution ending)) :
    before.requests request = some (.ended execution ending) ∨
      ∃ prior, before.requests request = some prior ∧ prior.Holding ∧ prior.execution = execution ∧
        Turn before event (some prior) (.ended execution ending) := by
  cases advance with
  | kept known => exact .inl known
  | turned turn =>
    generalize known : before.requests request = old at turn
    cases turn with
    | finish _ _ held => exact held.elim
    | commit _ response commits => exact .inr ⟨_, rfl, trivial, rfl, .commit _ response commits⟩
    | release _ releases => exact .inr ⟨_, rfl, trivial, rfl, .release _ releases⟩
    | lose _ noGrant noSettle refused =>
      exact .inr ⟨_, rfl, trivial, rfl, .lose _ noGrant noSettle refused⟩

/-- The claims on one table, request by request. -/
structure Sound (gateway : Gateway) : Prop where
  numbered : Numbered gateway
  /-- A claim in force is in the table. -/
  held : ∀ request phase, gateway.requests request = some phase → phase.Holding →
    phase.execution.Outlived gateway.clock ∨
      gateway.store.entries.lookup phase.execution.key = some phase.execution.reservation
  /-- Only a claim that is not settled is in the table. -/
  owned : ∀ request phase entry, gateway.requests request = some phase →
    gateway.store.entries.lookup phase.execution.key = some entry → entry.state = .inFlight →
    entry.token = phase.execution.token → phase.Holding
  /-- Two claims of one key are held at once only after the first has expired. -/
  spaced : ∀ first second left right, gateway.requests first = some left →
    gateway.requests second = some right → left.Holding → right.Holding →
    left.execution.key = right.execution.key →
    left.execution.serial < right.execution.serial →
    left.execution.Outlived right.execution.acquiredAt
  /-- A committed response is in the table until it expires. -/
  recorded : ∀ request execution time,
    gateway.requests request = some (.ended execution (.committed time)) →
    time ≤ gateway.clock ∧ (time + execution.ttl ≤ gateway.clock ∨
      ∃ entry, gateway.store.entries.lookup execution.key = some entry ∧
        entry.state = .completed ∧ entry.expiresAt = time + execution.ttl)
  /-- Beside a committed response stand only claims that had expired before it
  or were granted after it expired. -/
  cleared : ∀ first second execution time phase,
    gateway.requests first = some (.ended execution (.committed time)) →
    gateway.requests second = some phase → phase.Holding →
    phase.execution.key = execution.key →
    phase.execution.Outlived time ∨ time + execution.ttl ≤ phase.execution.acquiredAt
  /-- A claim is lost to expiry only. -/
  lost : ∀ request execution, gateway.requests request = some (.ended execution .lost) →
    execution.Outlived gateway.clock

theorem Execution.Valid.token_ne_empty (valid : Execution.Valid execution before) :
    execution.token ≠ "" := by
  rw [valid.token]
  exact formatToken_ne_empty _

theorem Outlived.mono {early late : Time} (outlived : execution.Outlived early)
    (order : early ≤ late) : execution.Outlived late :=
  le_trans outlived order

/-- Where a new claim was granted, a record found there had expired. -/
theorem expired_of_grants {key token fingerprint : String} {ttl : Duration} {entry : MemEntry}
    (progress : Progress before after event) (grants : event.Grants key token fingerprint ttl)
    (found : before.store.entries.lookup key = some entry) : entry.expiresAt ≤ event.time := by
  have free := (lookup_of_grants progress.effect grants).1
  by_contra unexpired
  rw [not_le] at unexpired
  have live := live_eq_some.mpr ⟨found, unexpired⟩
  rw [free] at live
  cases live

section Step

variable (sound : Sound before) (progress : Progress before after event)
variable (bounded : after.grants ≤ 2 ^ 64)

include sound progress

theorem recorded_step (request : Nat) (execution : Execution) (time : Time)
    (found : after.requests request = some (.ended execution (.committed time))) :
    time ≤ after.clock ∧ (time + execution.ttl ≤ after.clock ∨
      ∃ entry, after.store.entries.lookup execution.key = some entry ∧
        entry.state = .completed ∧ entry.expiresAt = time + execution.ttl) := by
  rcases (progress.advance request _ found).ended with known | ⟨prior, known, _, _, turn⟩
  · obtain ⟨past, expired | ⟨entry, stored, completed, expiry⟩⟩ :=
      sound.recorded request execution time known
    · exact ⟨past.trans progress.later, .inl (expired.trans progress.later)⟩
    · refine ⟨past.trans progress.later, ?_⟩
      by_cases expired : time + execution.ttl ≤ after.clock
      · exact .inl expired
      · refine .inr ⟨entry, ?_, completed, expiry⟩
        apply lookup_next_of_live progress.effect stored
        · rw [expiry, progress.time]
          exact not_le.mp expired
        · intro inFlight
          rw [completed] at inFlight
          cases inFlight
  · cases turn with
    | finish _ _ held => exact held.elim
    | commit _ response commits =>
      have stored := (lookup_of_commits progress.effect commits).2
      exact ⟨progress.time.le, .inr ⟨_, stored, rfl, rfl⟩⟩

theorem lost_step (request : Nat) (execution : Execution)
    (found : after.requests request = some (.ended execution .lost)) :
    execution.Outlived after.clock := by
  rcases (progress.advance request _ found).ended with known | ⟨prior, known, held, same, turn⟩
  · exact Outlived.mono (sound.lost request execution known) progress.later
  · cases turn with
    | finish _ _ held => exact held.elim
    | lose _ _ _ refused =>
      rcases sound.held request _ known held with outlived | stored
      · exact Outlived.mono outlived progress.later
      · have valid := sound.numbered.valid request _ known
        exact absurd ⟨rfl, rfl⟩ (refused valid.keyed valid.token_ne_empty _ stored)

include bounded

theorem held_step (request : Nat) (phase : Phase) (found : after.requests request = some phase)
    (holding : phase.Holding) :
    phase.execution.Outlived after.clock ∨
      after.store.entries.lookup phase.execution.key = some phase.execution.reservation := by
  rcases (progress.advance request phase found).holding sound.numbered
      (progress.grants.trans bounded) holding with
    ⟨execution, rfl, grants, acquired, _⟩ | ⟨prior, known, priorHolding, same, unsettled⟩
  · refine .inr ?_
    simp only [Phase.execution_running]
    rw [(lookup_of_grants progress.effect grants).2.2, Execution.reservation, acquired]
  · rcases sound.held request prior known priorHolding with outlived | stored
    · rw [same]
      exact .inl (Outlived.mono outlived progress.later)
    · rw [← same] at stored
      by_cases expired : phase.execution.Outlived after.clock
      · exact .inl expired
      · refine .inr (lookup_next_of_live progress.effect stored ?_ ?_)
        · rw [progress.time]
          exact not_le.mp expired
        · intro _
          exact unsettled phase.execution.key

theorem owned_step (numbered : Numbered after) (request : Nat) (phase : Phase)
    (entry : MemEntry) (found : after.requests request = some phase)
    (stored : after.store.entries.lookup phase.execution.key = some entry)
    (inFlight : entry.state = .inFlight)
    (owner : entry.token = phase.execution.token) : phase.Holding := by
  rcases inFlight_cases progress.effect stored inFlight with
    ⟨earlier, unsettled, ungranted⟩ | ⟨ttl, grants, _⟩
  · cases phase with
    | running | committing | releasing => trivial
    | ended execution ending =>
      rcases (progress.advance request _ found).ended with known | ⟨prior, known, _, same, turn⟩
      · exact sound.owned request _ entry known earlier inFlight owner
      · cases turn with
        | finish _ _ held => exact held
        | commit _ response commits =>
          exact absurd (.inl ⟨_, _, _, commits⟩) (unsettled execution.token)
        | release _ releases => exact absurd (.inr releases) (unsettled execution.token)
        | lose _ _ _ refused =>
          have valid := sound.numbered.valid request _ known
          exact absurd ⟨inFlight, owner⟩ (refused valid.keyed valid.token_ne_empty entry earlier)
  · obtain ⟨other, execution, granted, token⟩ := progress.grantee _ _ _ _ grants
    have same := token_unique numbered bounded found granted (owner.symm.trans token.symm)
    subst same
    rw [found] at granted
    cases granted
    trivial

theorem spaced_step (first second : Nat) (left right : Phase)
    (foundLeft : after.requests first = some left)
    (foundRight : after.requests second = some right)
    (holdingLeft : left.Holding) (holdingRight : right.Holding)
    (sameKey : left.execution.key = right.execution.key)
    (order : left.execution.serial < right.execution.serial) :
    left.execution.Outlived right.execution.acquiredAt := by
  have bound := progress.grants.trans bounded
  rcases (progress.advance first left foundLeft).holding sound.numbered bound holdingLeft with
    ⟨newer, rfl, _, _, serialLeft⟩ | ⟨priorLeft, knownLeft, heldLeft, sameLeft, _⟩
  · -- Nothing is numbered above the claim that was just granted.
    rcases (progress.advance second right foundRight).holding sound.numbered bound holdingRight with
      ⟨_, rfl, _, _, serialRight⟩ | ⟨priorRight, knownRight, _, sameRight, _⟩
    · simp only [Phase.execution_running] at order
      omega
    · have counted := (sound.numbered.valid second priorRight knownRight).counted
      rw [sameRight] at order
      simp only [Phase.execution_running] at order
      omega
  · rcases (progress.advance second right foundRight).holding sound.numbered bound holdingRight with
      ⟨execution, rfl, grants, acquired, _⟩ | ⟨priorRight, knownRight, heldRight, sameRight, _⟩
    · simp only [Phase.execution_running] at sameKey ⊢
      rw [acquired]
      rcases sound.held first priorLeft knownLeft heldLeft with outlived | stored
      · rw [sameLeft, progress.time]
        exact Outlived.mono outlived progress.later
      · rw [← sameLeft, sameKey] at stored
        exact expired_of_grants progress grants stored
    · rw [sameLeft, sameRight] at order sameKey ⊢
      exact sound.spaced first second priorLeft priorRight knownLeft knownRight heldLeft
        heldRight sameKey order

theorem cleared_step (first second : Nat) (execution : Execution) (time : Time) (phase : Phase)
    (committed : after.requests first = some (.ended execution (.committed time)))
    (found : after.requests second = some phase) (holding : phase.Holding)
    (sameKey : phase.execution.key = execution.key) :
    phase.execution.Outlived time ∨ time + execution.ttl ≤ phase.execution.acquiredAt := by
  have bound := progress.grants.trans bounded
  rcases (progress.advance second phase found).holding sound.numbered bound holding with
    ⟨granted, rfl, grants, acquired, _⟩ | ⟨prior, known, held, same, unsettled⟩
  · refine .inr ?_
    simp only [Phase.execution_running] at sameKey ⊢
    rw [acquired]
    rcases (progress.advance first _ committed).ended with earlier | ⟨_, _, _, _, turn⟩
    · obtain ⟨_, expired | ⟨entry, stored, _, expiry⟩⟩ :=
        sound.recorded first execution time earlier
      · rw [progress.time]
        exact expired.trans progress.later
      · rw [← expiry]
        exact expired_of_grants progress grants (sameKey ▸ stored)
    · exact absurd ⟨_, _, _, grants⟩ (turn.noGrant granted.key)
  · rw [same] at sameKey ⊢
    rcases (progress.advance first _ committed).ended with earlier | ⟨_, _, _, _, turn⟩
    · exact sound.cleared first second execution time prior earlier known held sameKey
    · -- The commit found its own reservation, so the other claim is not in the table.
      cases turn with
      | finish _ _ held => exact held.elim
      | commit _ response commits =>
        rcases sound.held second prior known held with outlived | stored
        · rw [progress.time]
          exact .inl (Outlived.mono outlived progress.later)
        · obtain ⟨⟨entry, mine, _, owner, _⟩, _⟩ := lookup_of_commits progress.effect commits
          rw [← sameKey, stored] at mine
          cases mine
          have settles : event.Settles execution.key execution.token := .inl ⟨_, _, _, commits⟩
          rw [← owner, Execution.reservation, ← same] at settles
          exact absurd settles (unsettled execution.key)

end Step

theorem sound_step (sound : Sound before) (step : gateway.Step before signal after)
    (bounded : after.grants ≤ 2 ^ 64) : Sound after := by
  obtain ⟨event, progress⟩ := step_advance step
  have numbered := numbered_step sound.numbered step
  exact {
    numbered
    held := held_step sound progress bounded
    owned := owned_step sound progress bounded numbered
    spaced := spaced_step sound progress bounded
    recorded := recorded_step sound progress
    cleared := cleared_step sound progress bounded
    lost := lost_step sound progress }

theorem sound_initial (initial : gateway.Initial state) : Sound state := by
  obtain ⟨store, requests, grants⟩ := initial
  constructor
  · exact ⟨by rw [store, grants]; rfl, by simp [requests], by simp [requests]⟩
  all_goals simp [requests]

theorem sound_run {history : List Signal} (run : gateway.Run history state)
    (bounded : state.grants ≤ 2 ^ 64) : Sound state := by
  refine run.invariant (fun state => state.grants ≤ 2 ^ 64 → Sound state)
    (fun _ initial _ => sound_initial initial) ?_ bounded
  intro before signal after sound step bounded
  obtain ⟨_, progress⟩ := step_advance step
  exact sound_step (sound (progress.grants.trans bounded)) step bounded

variable {time : Time} {other : Nat}

theorem arrive_requests {ctx : Context} {key fingerprint : String} {ttl : Duration}
    (different : request ≠ other) :
    (before.arrive time other ctx key fingerprint ttl).requests request =
      before.requests request := by
  unfold arrive
  split
  dsimp only
  split
  · rfl
  · split
    · exact setPhase_of_ne _ _ different
    · rfl

variable {phase : Phase}

/-- A step brings a request nearer to its end when it is its own step, and never
takes its claim away. -/
theorem rank_step (step : gateway.Step before signal after)
    (found : before.requests request = some phase) :
    ∃ next, after.requests request = some next ∧ next.execution = phase.execution ∧
      next.rank + (if signal.action.Advances request then 1 else 0) ≤ phase.rank := by
  obtain ⟨_, performed⟩ := step
  have other : ∀ {state : Gateway} {actor : Nat} {next : Phase}, request ≠ actor →
      state.requests = before.requests →
      (state.setPhase actor next).requests request = some phase := by
    intro state actor next different same
    rw [setPhase_of_ne _ _ different, same, found]
  cases action : signal.action with
  | arrive actor ctx key fingerprint opts =>
    rw [action] at performed
    cases known : before.requests actor with
    | some _ => simp [perform, known] at performed
    | none =>
      have different : request ≠ actor := by
        rintro rfl
        rw [found] at known
        cases known
      simp only [perform, known, Option.some.injEq] at performed
      subst performed
      exact ⟨phase, by rw [arrive_requests different, found], rfl, by simp [Action.Advances]⟩
  | finish actor outcome =>
    rw [action] at performed
    simp only [perform] at performed
    split at performed
    · rename_i execution running
      cases performed
      by_cases own : request = actor
      · subst own
        rw [found] at running
        cases running
        refine ⟨_, setPhase_self .., ?_, ?_⟩
        · split <;> rfl
        · split <;> simp [Phase.rank, Action.Advances]
      · exact ⟨phase, other own rfl, rfl, by simp [Action.Advances, Ne.symm own]⟩
    · cases performed
  | commit actor =>
    rw [action] at performed
    simp only [perform] at performed
    split at performed
    · rename_i execution response committing
      cases performed
      by_cases own : request = actor
      · subst own
        rw [found] at committing
        cases committing
        refine ⟨_, setPhase_self .., ?_, ?_⟩
        · split <;> rfl
        · split <;> simp [Phase.rank, Action.Advances]
      · exact ⟨phase, other own rfl, rfl, by simp [Action.Advances, Ne.symm own]⟩
    · cases performed
  | release actor =>
    rw [action] at performed
    simp only [perform] at performed
    split at performed
    · rename_i execution releasing
      cases performed
      by_cases own : request = actor
      · subst own
        rw [found] at releasing
        cases releasing
        refine ⟨_, setPhase_self .., ?_, ?_⟩
        · split <;> rfl
        · split <;> simp [Phase.rank, Action.Advances]
      · exact ⟨phase, other own rfl, rfl, by simp [Action.Advances, Ne.symm own]⟩
    · cases performed
  | sweep ctx limit order =>
    rw [action] at performed
    simp only [perform, Option.some.injEq] at performed
    subst performed
    exact ⟨phase, found, rfl, by simp [Action.Advances]⟩

/-- The own steps of a request among the signals. -/
def ownSteps (request : Nat) (signals : List Signal) : Nat :=
  signals.countP fun signal => decide (signal.action.Advances request)

theorem rank_trace {signals : List Signal} (trace : gateway.Trace before signals after)
    (found : before.requests request = some phase) :
    ∃ next, after.requests request = some next ∧ next.execution = phase.execution ∧
      next.rank + ownSteps request signals ≤ phase.rank := by
  have start : ∃ next, before.requests request = some next ∧ next.execution = phase.execution ∧
      next.rank + ownSteps request [] ≤ phase.rank := ⟨phase, found, rfl, le_rfl⟩
  refine trace.history_invariant (fun signals state => ∃ next,
    state.requests request = some next ∧ next.execution = phase.execution ∧
      next.rank + ownSteps request signals ≤ phase.rank) ?_ start
  rintro history state signal successor ⟨middle, reached, same, bound⟩ step
  obtain ⟨next, stepped, kept, nearer⟩ := rank_step step reached
  refine ⟨next, stepped, kept.trans same, ?_⟩
  simp only [ownSteps, List.countP_append, List.countP_singleton, decide_eq_true_eq] at bound ⊢
  omega

theorem next_enabled (found : before.requests request = some phase) (holding : phase.Holding)
    (outcome : Outcome) (later : before.clock ≤ time) :
    ∃ next, gateway.Step before ⟨time, phase.next request outcome⟩ next := by
  cases phase with
  | running _ | committing _ _ | releasing _ =>
    exact ⟨_, later, by simp only [Phase.next, perform, found]; rfl⟩
  | ended => exact holding.elim

/-- What a step of the middleware guarantees. -/
structure Laws (before : Gateway) (signal : Signal) (after : Gateway) : Prop where
  /-- Two handlers run for one key only if the earlier claim had expired. -/
  overlap : ∀ first second left right, first ≠ second →
    after.requests first = some (.running left) → after.requests second = some (.running right) →
    left.key = right.key → left.acquiredAt ≤ right.acquiredAt →
    left.Outlived right.acquiredAt
  /-- No handler is started while a committed response of its key is valid. -/
  noRestart : ∀ request execution, before.requests request = none →
    after.requests request = some (.running execution) →
    ∀ other committed time,
      before.requests other = some (.ended committed (.committed time)) →
      committed.key = execution.key → time + committed.ttl ≤ signal.time
  /-- A handler still running beside a valid committed response had outlived
  its claim when the response was committed. -/
  leftover : ∀ request execution, after.requests request = some (.running execution) →
    ∀ other committed time,
      after.requests other = some (.ended committed (.committed time)) →
      committed.key = execution.key → after.clock < time + committed.ttl →
      execution.Outlived time
  /-- A settled request blocks nothing, and is lost to expiry only. -/
  settled : ∀ request execution ending,
    after.requests request = some (.ended execution ending) →
    (∀ entry, after.store.entries.lookup execution.key = some entry →
      entry.state = .inFlight → entry.token ≠ execution.token) ∧
    (ending = .lost → execution.Outlived after.clock)
  /-- Until then its next step is possible, whatever the handler did. -/
  enabled : ∀ request phase, after.requests request = some phase → phase.Holding →
    ∀ outcome time, after.clock ≤ time →
      ∃ next, gateway.Step after ⟨time, phase.next request outcome⟩ next
  /-- After three steps of its own at most, it has settled. -/
  settles : ∀ request phase, after.requests request = some phase →
    ∀ signals state, gateway.Trace after signals state →
      phase.rank ≤ ownSteps request signals →
      ∃ ending, state.requests request = some (.ended phase.execution ending)

theorem overlap_of_sound {first second : Nat} {left right : Execution} (sound : Sound after)
    (different : first ≠ second) (foundLeft : after.requests first = some (.running left))
    (foundRight : after.requests second = some (.running right)) (sameKey : left.key = right.key)
    (order : left.acquiredAt ≤ right.acquiredAt) : left.Outlived right.acquiredAt := by
  rcases lt_trichotomy left.serial right.serial with earlier | same | later
  · exact sound.spaced first second _ _ foundLeft foundRight trivial trivial sameKey earlier
  · exact absurd (sound.numbered.distinct first second _ _ foundLeft foundRight same) different
  · have spaced : right.Outlived left.acquiredAt :=
      sound.spaced second first _ _ foundRight foundLeft trivial trivial sameKey.symm later
    have lasting : 0 < right.ttl := (sound.numbered.valid second _ foundRight).lasting
    have expired : right.acquiredAt + right.ttl ≤ right.acquiredAt := spaced.trans order
    exact absurd expired (not_le.mpr (Int.lt_add_of_pos_right _ lasting))

theorem noRestart_of_sound {committed : Execution} (sound : Sound before)
    (step : gateway.Step before signal after) (fresh : before.requests request = none)
    (started : after.requests request = some (.running execution))
    (earlier : before.requests other = some (.ended committed (.committed time)))
    (sameKey : committed.key = execution.key) : time + committed.ttl ≤ after.clock := by
  obtain ⟨event, progress⟩ := step_advance step
  have advance := progress.advance request _ started
  cases advance with
  | kept known =>
    rw [fresh] at known
    cases known
  | turned turn =>
    rw [fresh] at turn
    obtain ⟨_, grants⟩ := turn
    obtain ⟨_, expired | ⟨entry, stored, _, expiry⟩⟩ := sound.recorded other committed time earlier
    · exact expired.trans progress.later
    · rw [← expiry, ← progress.time]
      exact expired_of_grants progress grants (sameKey ▸ stored)

theorem leftover_of_sound {committed : Execution} (sound : Sound after)
    (running : after.requests request = some (.running execution))
    (ended : after.requests other = some (.ended committed (.committed time)))
    (sameKey : committed.key = execution.key) (valid : after.clock < time + committed.ttl) :
    execution.Outlived time := by
  rcases sound.cleared other request committed time _ ended running trivial sameKey.symm with
    outlived | restarted
  · exact outlived
  · have past : execution.acquiredAt ≤ after.clock := (sound.numbered.valid request _ running).past
    exact absurd (restarted.trans past) (not_le.mpr valid)

theorem settles_of_trace {signals : List Signal} (found : after.requests request = some phase)
    (trace : gateway.Trace after signals state) (enough : phase.rank ≤ ownSteps request signals) :
    ∃ ending, state.requests request = some (.ended phase.execution ending) := by
  obtain ⟨next, reached, same, bound⟩ := rank_trace trace found
  have spent : next.rank = 0 := by omega
  cases next with
  | ended execution ending => exact ⟨ending, by rw [reached, ← same]; rfl⟩
  | running | committing | releasing => cases spent

end Gateway

/-- Every step of a run that grants at most `2 ^ 64` claims obeys the laws of the
middleware, whatever requests, outcomes and sweeps were interleaved before it. -/
theorem middleware_exclusion (history : List Signal) (before after : Gateway) (signal : Signal)
    (run : gateway.Run history before) (step : gateway.Step before signal after)
    (bounded : after.grants ≤ 2 ^ 64) : Gateway.Laws before signal after := by
  have sound : Gateway.Sound after := Gateway.sound_run (run.snoc step) bounded
  have clock : after.clock = signal.time := by
    cases Gateway.step_move step with
    | idle _ _ _ _ _ clock => exact clock
    | turn _ _ _ _ _ _ clock => exact clock
  constructor
  case overlap =>
    intro first second left right different foundLeft foundRight sameKey order
    exact Gateway.overlap_of_sound sound different foundLeft foundRight sameKey order
  case noRestart =>
    intro request execution fresh started other committed time earlier sameKey
    obtain ⟨_, progress⟩ := Gateway.step_advance step
    rw [← clock]
    exact Gateway.noRestart_of_sound (Gateway.sound_run run (progress.grants.trans bounded)) step
      fresh started earlier sameKey
  case leftover =>
    intro request execution running other committed time ended sameKey valid
    exact Gateway.leftover_of_sound sound running ended sameKey valid
  case settled =>
    intro request execution ending ended
    refine ⟨?_, ?_⟩
    · intro entry stored inFlight owner
      exact sound.owned request _ entry ended stored inFlight owner
    · rintro rfl
      exact sound.lost request execution ended
  case enabled =>
    intro request phase found holding outcome time later
    exact Gateway.next_enabled found holding outcome later
  case settles =>
    intro request phase found signals state trace enough
    exact Gateway.settles_of_trace found trace enough

/-- One request holds `k` for ten nanoseconds. -/
def occupied : Gateway := ({ clock := 0 } : Gateway).arrive 0 0 {} "k" "f" 10

theorem occupied_run : gateway.Run [⟨0, .arrive 0 {} "k" "f" { ttl := 10 }⟩] occupied :=
  ⟨{ clock := 0 }, ⟨rfl, rfl, rfl⟩, .singleton ⟨by decide, rfl⟩⟩

theorem middleware_exclusion_panicked :
    ∃ after, gateway.Step occupied ⟨3, .finish 0 .panicked⟩ after ∧
      Gateway.Laws occupied ⟨3, .finish 0 .panicked⟩ after := by
  have step : gateway.Step occupied ⟨3, .finish 0 .panicked⟩ _ := ⟨by decide, rfl⟩
  exact ⟨_, step, middleware_exclusion _ _ _ _ occupied_run step (by decide)⟩

/-- The claim of the request that arrives as number `index`. -/
def visitor (index : Nat) : Execution where
  key := "k"
  token := MemoryStore.formatToken (UInt64.ofNat (index + 1))
  fingerprint := "f"
  ttl := 1
  acquiredAt := index
  serial := index + 1

/-- The first `count` requests have all claimed `k`, and none has finished. -/
structure Crowded (count : Nat) (state : Gateway) : Prop where
  clock : state.clock ≤ (count - 1 : Nat)
  sequence : state.store.sequence = UInt64.ofNat count
  grants : state.grants = count
  requests : ∀ request, state.requests request =
    if request < count then some (.running (visitor request)) else none
  expired : ∀ entry, state.store.entries.lookup "k" = some entry → entry.expiresAt ≤ count
  stored : 0 < count → state.store.entries.lookup "k" = some (visitor (count - 1)).reservation

theorem crowded_arrive {count : Nat} (crowded : Crowded count state) :
    Crowded (count + 1) (state.arrive count count {} "k" "f" 1) := by
  have free : state.store.live count "k" = none := by
    rw [Option.eq_none_iff_forall_ne_some]
    intro entry live
    obtain ⟨found, unexpired⟩ := live_eq_some.mp live
    exact absurd unexpired (not_lt.mpr (crowded.expired entry found))
  have valid : validateClaim {} "k" "f" 1 = .ok () := rfl
  have token : UInt64.ofNat count + 1 = UInt64.ofNat (count + 1) := by simp
  rw [arrive_of_free valid free, claim_of_free valid free, crowded.sequence, token, crowded.grants]
  constructor
  case clock => exact le_rfl
  case sequence => rfl
  case grants => rfl
  case requests =>
    intro request
    by_cases here : request = count
    · subst here
      simp [visitor]
    · rw [setPhase_of_ne _ _ here, crowded.requests]
      have order : request < count + 1 ↔ request < count := by omega
      simp [order]
  case expired =>
    intro entry found
    simp only [setPhase, Finmap.lookup_insert, Option.some.injEq] at found
    rw [← found]
    exact le_rfl
  case stored =>
    intro _
    simp [setPhase, Execution.reservation, visitor]

theorem exists_crowded_run (count : Nat) : ∃ history state, gateway.Run history state ∧
    Crowded count state := by
  induction count with
  | zero =>
    refine ⟨[], { clock := 0 }, ⟨_, ⟨rfl, rfl, rfl⟩, .nil _⟩, ?_⟩
    exact ⟨le_rfl, rfl, rfl, by simp, by simp, by simp⟩
  | succ count ih =>
    obtain ⟨history, state, run, crowded⟩ := ih
    have fresh : state.requests count = none := by simp [crowded.requests]
    have step : gateway.Step state ⟨count, .arrive count {} "k" "f" { ttl := 1 }⟩
        (state.arrive count count {} "k" "f" 1) := by
      refine ⟨crowded.clock.trans (Int.ofNat_le.mpr (Nat.sub_le count 1)), ?_⟩
      simp only [perform, fresh]
      rfl
    exact ⟨_, _, run.snoc step, crowded_arrive crowded⟩

/-- In a crowd where the last token repeats the first one, the first request
releases the claim of the last, and the next request runs beside it. -/
theorem exists_overlap {last : Nat} (repeated : (visitor last).token = (visitor 0).token)
    (several : 0 < last) :
    ∃ history state, gateway.Run history state ∧
      state.requests last = some (.running (visitor last)) ∧
      ∃ newer, state.requests (last + 1) = some (.running newer) ∧
        newer.key = "k" ∧ newer.acquiredAt = last := by
  obtain ⟨history, state, run, crowded⟩ := exists_crowded_run (last + 1)
  have first : state.requests 0 = some (.running (visitor 0)) := by simp [crowded.requests]
  let failing := { state with clock := last }.setPhase 0 (.releasing (visitor 0))
  have finish : gateway.Step state ⟨last, .finish 0 .panicked⟩ failing := by
    refine ⟨crowded.clock, ?_⟩
    simp only [perform, first]
    rfl
  have stored : state.store.entries.lookup "k" = some (visitor last).reservation :=
    crowded.stored (Nat.succ_pos last)
  have valid : validateRelease {} (visitor 0).key (visitor 0).token = .ok () := rfl
  let emptied := { failing with
    store := { state.store with entries := state.store.entries.erase "k" } }.setPhase 0
      (.ended (visitor 0) .released)
  have release : gateway.Step failing ⟨last, .release 0⟩ emptied := by
    refine ⟨le_rfl, ?_⟩
    have owned : (visitor last).reservation.token = (visitor 0).token := repeated
    have inFlight : (visitor last).reservation.state = .inFlight := rfl
    have found : failing.store.entries.lookup (visitor 0).key = some (visitor last).reservation :=
      stored
    have here : failing.requests 0 = some (.releasing (visitor 0)) := setPhase_self ..
    simp only [perform, here, release, valid, found, owned, inFlight, ne_eq,
      not_true_eq_false, or_self, if_false]
    rfl
  have free : emptied.store.live last "k" = none := by
    simp [emptied, setPhase, live]
  have fresh : emptied.requests (last + 1) = none := by
    simp [emptied, failing, setPhase_of_ne, crowded.requests]
  have arrive : gateway.Step emptied ⟨last, .arrive (last + 1) {} "k" "f" { ttl := 1 }⟩
      (emptied.arrive last (last + 1) {} "k" "f" 1) := by
    refine ⟨le_rfl, ?_⟩
    simp only [perform, fresh]
    rfl
  refine ⟨_, _, ((run.snoc finish).snoc release).snoc arrive, ?_, ?_⟩
  · rw [arrive_requests (Nat.ne_of_lt (Nat.lt_succ_self last))]
    simp [emptied, failing, setPhase_of_ne, crowded.requests, several.ne']
  · rw [arrive_of_free rfl free]
    exact ⟨_, setPhase_self .., rfl, rfl⟩

/-- The state a possible signal leads to. -/
def Gateway.follow (state : Gateway) (signal : Signal) : Gateway :=
  (state.perform signal.time signal.action).getD state

theorem Gateway.step_follow {signal : Signal} (later : state.clock ≤ signal.time)
    (possible : (state.perform signal.time signal.action).isSome) :
    gateway.Step state signal (state.follow signal) := by
  obtain ⟨next, performed⟩ := Option.isSome_iff_exists.mp possible
  exact ⟨later, by rw [follow, performed, Option.getD_some]⟩

/-- A second request takes over the expired claim of the first, returns and
commits. -/
def takeover : Signal := ⟨10, .arrive 1 {} "k" "f" { ttl := 10 }⟩

def success : Signal := ⟨11, .finish 1 (.returned { statusCode := 200 } false)⟩

def settlement : Signal := ⟨11, .commit 1⟩

theorem exists_leftover : ∃ history state, gateway.Run history state ∧
    ∃ first second, state.requests 0 = some (.running first) ∧
      state.requests 1 = some (.ended second (.committed 11)) ∧ first.key = second.key ∧
      state.clock < 11 + second.ttl := by
  have arrive : gateway.Step occupied takeover (occupied.follow takeover) :=
    step_follow (by decide) rfl
  have finish : gateway.Step (occupied.follow takeover) success
      ((occupied.follow takeover).follow success) := step_follow (by decide) rfl
  have commit : gateway.Step ((occupied.follow takeover).follow success) settlement
      (((occupied.follow takeover).follow success).follow settlement) :=
    step_follow (by decide) rfl
  exact ⟨_, _, ((occupied_run.snoc arrive).snoc finish).snoc commit, _, _, rfl, rfl, rfl, by decide⟩

/-- Without the bound on grants two unexpired claims of one key can run, and a
handler that outlived its claim can still run beside a committed response. -/
theorem middleware_exclusion_unbounded :
    (¬ ∀ history state, gateway.Run history state → ∀ first second left right, first ≠ second →
      state.requests first = some (.running left) →
      state.requests second = some (.running right) →
      left.key = right.key → left.acquiredAt ≤ right.acquiredAt →
      left.Outlived right.acquiredAt) ∧
    ¬ ∀ history state, gateway.Run history state → ∀ request other execution committed time,
      state.requests request = some (.running execution) →
      state.requests other = some (.ended committed (.committed time)) →
      execution.key = committed.key → time + committed.ttl ≤ state.clock := by
  constructor
  · intro overlap
    have repeated : (visitor (2 ^ 64)).token = (visitor 0).token := rfl
    obtain ⟨history, state, run, older, newer, found, key, acquired⟩ :=
      exists_overlap repeated (by decide)
    have expired := overlap history state run _ _ _ _ (by decide) older found key.symm
      (by rw [acquired]; exact le_rfl)
    rw [acquired] at expired
    exact absurd expired (not_le.mpr (Int.lt_add_of_pos_right _ Int.one_pos))
  · intro quiet
    obtain ⟨history, state, run, first, second, running, committed, key, early⟩ := exists_leftover
    exact absurd (quiet history state run _ _ _ _ _ running committed key) (not_le.mpr early)

end Golusoris.Idempotency
