import Golusoris.Idempotency.Middleware

/-!
# How requests advance

`Turn` lists how one request can advance and `step_move` shows that a signal
does nothing else. `Numbered` ties each token to the number of its grant, so that
up to `2 ^ 64` grants a token names one request. `step_advance` restates a step
from the side of a single request.
-/

namespace Golusoris.Idempotency

open Lib
open MemoryStore

/-- The record a granted claim leaves in the table. -/
def Execution.reservation (execution : Execution) : MemEntry where
  state := .inFlight
  token := execution.token
  fingerprint := execution.fingerprint
  expiresAt := execution.acquiredAt + execution.ttl

/-- The reservation has outlived its lifetime. -/
def Execution.Outlived (execution : Execution) (clock : Time) : Prop :=
  execution.acquiredAt + execution.ttl ≤ clock

namespace Gateway

variable {before after : Gateway} {signal : Signal} {event : Event}

/-- How the phase of one request changes when `event` happens in the store. -/
inductive Turn (before : Gateway) (event : Event) : Option Phase → Phase → Prop where
  | start (execution : Execution)
      (grants : event.Grants execution.key execution.token execution.fingerprint execution.ttl)
      (acquired : execution.acquiredAt = event.time)
      (serial : execution.serial = before.grants + 1)
      (fresh : execution.token = MemoryStore.formatToken (before.store.sequence + 1))
      (keyed : execution.key ≠ "") (lasting : 0 < execution.ttl) :
      Turn before event none (.running execution)
  | finish (execution : Execution) (phase : Phase) (held : phase.Holding)
      (same : phase.execution = execution)
      (noGrant : ∀ key, ¬ event.GrantsKey key)
      (noSettle : ∀ key token, ¬ event.Settles key token) :
      Turn before event (some (.running execution)) phase
  | commit (execution : Execution) (response : CachedResponse)
      (commits : event.Commits execution.key execution.token execution.fingerprint response
        execution.ttl) :
      Turn before event (some (.committing execution response))
        (.ended execution (.committed event.time))
  | refuse (execution : Execution) (response : CachedResponse)
      (noGrant : ∀ key, ¬ event.GrantsKey key)
      (noSettle : ∀ key token, ¬ event.Settles key token) :
      Turn before event (some (.committing execution response)) (.releasing execution)
  | release (execution : Execution)
      (releases : event.Releases execution.key execution.token) :
      Turn before event (some (.releasing execution)) (.ended execution .released)
  | lose (execution : Execution)
      (noGrant : ∀ key, ¬ event.GrantsKey key)
      (noSettle : ∀ key token, ¬ event.Settles key token)
      (refused : execution.key ≠ "" → execution.token ≠ "" →
        ∀ entry, before.store.entries.lookup execution.key = some entry →
          ¬ (entry.state = .inFlight ∧ entry.token = execution.token)) :
      Turn before event (some (.releasing execution)) (.ended execution .lost)

/-- What a signal can do: a store event and at most one turn. -/
inductive Move (before : Gateway) (signal : Signal) (after : Gateway) : Prop where
  | idle (event : Event) (time : event.time = signal.time)
      (effect : before.store.Effect event after.store)
      (noGrant : ∀ key, ¬ event.GrantsKey key)
      (noSettle : ∀ key token, ¬ event.Settles key token)
      (clock : after.clock = signal.time) (requests : after.requests = before.requests)
      (grants : after.grants = before.grants)
  | turn (event : Event) (time : event.time = signal.time)
      (effect : before.store.Effect event after.store)
      (request : Nat) (phase : Phase) (turn : Turn before event (before.requests request) phase)
      (clock : after.clock = signal.time)
      (requests : after.requests = Function.update before.requests request (some phase))
      (grants : after.grants = before.grants + if before.requests request = none then 1 else 0)

theorem handleClaim_answer (entry : MemEntry) (fingerprint token : String) :
    handleClaim fingerprint (answer entry fingerprint) ≠ .execute token := by
  have denied := answer_state_ne entry fingerprint
  unfold handleClaim
  split
  · rename_i acquired
    exact absurd acquired denied
  · simp
  · simp
  · split
    · simp
    · split <;> simp

/-- An event that stands for a step without a store call. -/
def silent (time : Time) : Event where
  time := time
  call := .release {} "" ""
  reply := .settled (.error .releaseArguments)

theorem silent_noGrant (time : Time) (key : String) : ¬ (silent time).GrantsKey key := by
  rintro ⟨_, _, _, _, _, replied⟩
  cases replied

theorem silent_noSettle (time : Time) (key token : String) : ¬ (silent time).Settles key token := by
  rintro (⟨_, _, _, _, _, replied⟩ | ⟨_, _, replied⟩)
  · cases replied
  · cases replied

theorem silent_effect (store : MemoryStore) (time : Time) : store.Effect (silent time) store :=
  .quiet rfl (silent_noGrant time) (silent_noSettle time)

theorem idle_silent {store : MemoryStore} {before : Gateway} {signal : Signal}
    (same : store = before.store) :
    Move before signal { before with store, clock := signal.time } := by
  subst same
  exact .idle (silent signal.time) rfl (silent_effect _ _) (silent_noGrant _)
    (silent_noSettle _) rfl rfl rfl

variable {request : Nat}

/-- A claim that finds no live record starts the handler. -/
theorem arrive_of_free {time : Time} {ctx : Context} {key fingerprint : String} {ttl : Duration}
    (valid : validateClaim ctx key fingerprint ttl = .ok ())
    (free : before.store.live time key = none) :
    before.arrive time request ctx key fingerprint ttl =
      { before with
        store := (before.store.claim ctx time key fingerprint ttl).2
        clock := time
        grants := before.grants + 1 }.setPhase request
        (.running {
          key, fingerprint, ttl
          token := formatToken (before.store.sequence + 1)
          acquiredAt := time
          serial := before.grants + 1 }) := by
  simp only [arrive, claim_of_free valid free, handleClaim, formatToken_ne_empty,
    if_false]

theorem arrive_move {ctx : Context} {key fingerprint : String} {ttl : Duration}
    (unused : before.requests request = none) :
    Move before signal (before.arrive signal.time request ctx key fingerprint ttl) := by
  cases valid : validateClaim ctx key fingerprint ttl with
  | error cause =>
    simp only [arrive, claim_rejected valid]
    exact idle_silent rfl
  | ok _ =>
    cases live : before.store.live signal.time key with
    | some entry =>
      simp only [arrive, claim_of_live valid live]
      split
      · rename_i token executed
        exact absurd executed (handleClaim_answer entry fingerprint token)
      · exact idle_silent rfl
    | none =>
      have effect := claim_effect before.store signal.time ctx key fingerprint ttl
      rw [arrive_of_free valid live]
      refine .turn _ rfl effect request _ ?_ rfl rfl (by simp [unused])
      rw [unused, claim_of_free valid live]
      exact .start _ ⟨ctx, rfl, rfl⟩ rfl rfl rfl (validateClaim_ok valid).1
        (validateClaim_ok valid).2

theorem finish_move {outcome : Outcome} {execution : Execution}
    (running : before.requests request = some (.running execution)) :
    Move before signal ({ before with clock := signal.time }.setPhase request
      (match outcome.toCommit with
        | some response => .committing execution response
        | none => .releasing execution)) := by
  refine .turn (silent signal.time) rfl (silent_effect _ _) request _ ?_ rfl rfl (by simp [running])
  rw [running]
  refine .finish execution _ ?_ ?_ (silent_noGrant _) (silent_noSettle _)
  · split <;> trivial
  · split <;> rfl

theorem commit_move {execution : Execution} {response : CachedResponse}
    (committing : before.requests request = some (.committing execution response))
    (performed : before.perform signal.time (.commit request) = some after) :
    Move before signal after := by
  have effect := commit_effect before.store signal.time {} execution.key
    execution.token execution.fingerprint response execution.ttl
  simp only [perform, committing, Option.some.injEq] at performed
  subst performed
  refine .turn _ rfl effect request _ ?_ rfl rfl (by simp [committing])
  rw [committing]
  split
  · rename_i replied
    exact .commit execution response ⟨{}, rfl, by rw [replied]⟩
  · rename_i cause replied
    refine .refuse execution response ?_ ?_
    · rintro key ⟨_, _, _, _, called, _⟩
      cases called
    · rintro key token (⟨_, _, _, _, _, settled⟩ | ⟨_, called, _⟩)
      · simp [replied] at settled
      · cases called

/-- A release is refused only to a token that owns nothing. -/
theorem release_refused {store : MemoryStore} {key token : String} {cause : Error}
    (refused : (store.release {} key token).1 = .error cause) (keyed : key ≠ "")
    (named : token ≠ "") (entry : MemEntry) (found : store.entries.lookup key = some entry) :
    ¬ (entry.state = .inFlight ∧ entry.token = token) := by
  rintro ⟨inFlight, owner⟩
  have valid : validateRelease {} key token = .ok () := by
    simp [validateRelease, validateContext, keyed, named, bind, Except.bind, pure, Except.pure]
  simp [release, valid, found, inFlight, owner] at refused

theorem release_move {execution : Execution}
    (releasing : before.requests request = some (.releasing execution))
    (performed : before.perform signal.time (.release request) = some after) :
    Move before signal after := by
  have effect := release_effect before.store signal.time {} execution.key execution.token
  simp only [perform, releasing, Option.some.injEq] at performed
  subst performed
  refine .turn _ rfl effect request _ ?_ rfl rfl (by simp [releasing])
  rw [releasing]
  split
  · rename_i replied
    exact .release execution ⟨{}, rfl, by rw [replied]⟩
  · rename_i cause replied
    refine .lose execution ?_ ?_ (release_refused replied)
    · rintro key ⟨_, _, _, _, called, _⟩
      cases called
    · rintro key token (⟨_, _, _, _, called, _⟩ | ⟨_, _, settled⟩)
      · cases called
      · simp [replied] at settled

/-- Everything a signal can do. -/
theorem step_move (step : gateway.Step before signal after) : Move before signal after := by
  obtain ⟨_, performed⟩ := step
  cases action : signal.action with
  | arrive request ctx key fingerprint opts =>
    rw [action] at performed
    cases known : before.requests request with
    | some phase => simp [perform, known] at performed
    | none =>
      simp only [perform, known, Option.some.injEq] at performed
      subst performed
      exact arrive_move known
  | finish request outcome =>
    rw [action] at performed
    simp only [perform] at performed
    split at performed
    · rename_i execution running
      cases performed
      exact finish_move running
    · cases performed
  | commit request =>
    rw [action] at performed
    cases known : before.requests request with
    | none => simp [perform, known] at performed
    | some phase =>
      cases phase with
      | committing execution response => exact commit_move known performed
      | running | releasing | ended => simp [perform, known] at performed
  | release request =>
    rw [action] at performed
    cases known : before.requests request with
    | none => simp [perform, known] at performed
    | some phase =>
      cases phase with
      | releasing execution => exact release_move known performed
      | running | committing | ended => simp [perform, known] at performed
  | sweep ctx limit order =>
    rw [action] at performed
    simp only [perform, Option.some.injEq] at performed
    subst performed
    have effect := sweep_effect before.store signal.time ctx limit order
    refine .idle _ rfl effect ?_ ?_ rfl rfl rfl
    · rintro key ⟨_, _, _, _, called, _⟩
      cases called
    · rintro key token (⟨_, _, _, _, called, _⟩ | ⟨_, called, _⟩)
      · cases called
      · cases called

/-- What holds of the claim of every request, settled or not. -/
structure Execution.Valid (execution : Execution) (gateway : Gateway) : Prop where
  keyed : execution.key ≠ ""
  lasting : 0 < execution.ttl
  token : execution.token = MemoryStore.formatToken (UInt64.ofNat execution.serial)
  positive : 0 < execution.serial
  counted : execution.serial ≤ gateway.grants
  past : execution.acquiredAt ≤ gateway.clock

/-- Grants are numbered, and a token is made from its number. -/
structure Numbered (gateway : Gateway) : Prop where
  sequence : gateway.store.sequence = UInt64.ofNat gateway.grants
  valid : ∀ request phase, gateway.requests request = some phase →
    Execution.Valid phase.execution gateway
  distinct : ∀ first second phase other, gateway.requests first = some phase →
    gateway.requests second = some other →
    phase.execution.serial = other.execution.serial → first = second

theorem Execution.Valid.mono {execution : Execution} (valid : Execution.Valid execution before)
    (clock : before.clock ≤ after.clock) (grants : before.grants ≤ after.grants) :
    Execution.Valid execution after :=
  { valid with counted := valid.counted.trans grants, past := valid.past.trans clock }

/-- A turn keeps the claim of a request that already had one. -/
theorem Turn.execution {old new : Phase} (turn : Turn before event (some old) new) :
    new.execution = old.execution := by
  cases turn with
  | finish _ _ _ same => exact same
  | commit | refuse | release | lose => rfl

/-- A turn settles nothing but the claim of its own request. -/
theorem Turn.settles {old : Option Phase} {new : Phase} {key token : String}
    (turn : Turn before event old new) (settles : event.Settles key token) :
    ∃ phase, old = some phase ∧ key = phase.execution.key ∧ token = phase.execution.token := by
  cases turn with
  | start _ grants => exact absurd settles grants.not_settles
  | finish _ _ _ _ _ noSettle | refuse _ _ _ noSettle | lose _ _ noSettle =>
    exact absurd settles (noSettle key token)
  | commit _ _ settling | release _ settling =>
    obtain ⟨rfl, rfl⟩ := settling.settles_inj settles
    exact ⟨_, rfl, rfl, rfl⟩

/-- A turn of a request with a claim grants nothing. -/
theorem Turn.noGrant {old new : Phase} (turn : Turn before event (some old) new) (key : String) :
    ¬ event.GrantsKey key := by
  cases turn with
  | finish _ _ _ _ noGrant | refuse _ _ noGrant | lose _ noGrant => exact noGrant key
  | commit _ _ settling | release _ settling => exact settling.not_grants

/-- Nothing new was granted and every claim is an old one. -/
theorem numbered_of_old (numbered : Numbered before) (clock : before.clock ≤ after.clock)
    (sequence : after.store.sequence = before.store.sequence)
    (grants : after.grants = before.grants)
    (old : ∀ request phase, after.requests request = some phase →
      ∃ prior, before.requests request = some prior ∧ phase.execution = prior.execution) :
    Numbered after := by
  refine ⟨by rw [sequence, numbered.sequence, grants], ?_, ?_⟩
  · intro request phase found
    obtain ⟨prior, known, same⟩ := old request phase found
    rw [same]
    exact (numbered.valid request prior known).mono clock grants.ge
  · intro first second left right foundLeft foundRight serial
    obtain ⟨priorLeft, knownLeft, sameLeft⟩ := old first left foundLeft
    obtain ⟨priorRight, knownRight, sameRight⟩ := old second right foundRight
    rw [sameLeft, sameRight] at serial
    exact numbered.distinct first second _ _ knownLeft knownRight serial

/-- A grant takes the next number. -/
theorem numbered_of_start {execution : Execution} (numbered : Numbered before)
    (clock : before.clock ≤ after.clock)
    (sequence : after.store.sequence = before.store.sequence + 1)
    (grants : after.grants = before.grants + 1)
    (requests : after.requests =
      Function.update before.requests request (some (.running execution)))
    (started : Execution.Valid execution after)
    (serial : execution.serial = before.grants + 1) : Numbered after := by
  have old : ∀ other phase, after.requests other = some phase → other ≠ request →
      before.requests other = some phase := by
    intro other phase found different
    rwa [requests, Function.update_of_ne different] at found
  have new : ∀ phase, after.requests request = some phase → phase = .running execution := by
    intro phase found
    rw [requests, Function.update_self] at found
    exact (Option.some.inj found).symm
  have larger : ∀ other phase, after.requests other = some phase → other ≠ request →
      phase.execution.serial ≠ execution.serial := by
    intro other phase found different
    have bound := (numbered.valid other phase (old other phase found different)).counted
    omega
  refine ⟨?_, ?_, ?_⟩
  · rw [sequence, numbered.sequence, grants]
    simp
  · intro other phase found
    by_cases here : other = request
    · subst here
      rw [new phase found]
      exact started
    · exact (numbered.valid other phase (old other phase found here)).mono clock (by omega)
  · intro first second left right foundLeft foundRight same
    by_cases atFirst : first = request
    · by_cases atSecond : second = request
      · rw [atFirst, atSecond]
      · subst atFirst
        rw [new left foundLeft] at same
        exact absurd same.symm (larger second right foundRight atSecond)
    · by_cases atSecond : second = request
      · subst atSecond
        rw [new right foundRight] at same
        exact absurd same (larger first left foundLeft atFirst)
      · exact numbered.distinct first second left right (old first left foundLeft atFirst)
          (old second right foundRight atSecond) same

theorem numbered_step (numbered : Numbered before) (step : gateway.Step before signal after) :
    Numbered after := by
  have later : before.clock ≤ signal.time := step.1
  cases step_move step with
  | idle event _ effect noGrant _ clock requests grants =>
    refine numbered_of_old numbered (clock ▸ later) (sequence_of_noGrant effect noGrant) grants ?_
    intro request phase found
    exact ⟨phase, requests ▸ found, rfl⟩
  | turn event time effect request phase turn clock requests grants =>
    cases known : before.requests request with
    | some old =>
      rw [known] at turn grants
      simp only [reduceCtorEq, if_false, add_zero] at grants
      refine numbered_of_old numbered (clock ▸ later)
        (sequence_of_noGrant effect turn.noGrant) grants ?_
      intro other next found
      rw [requests] at found
      by_cases here : other = request
      · subst here
        rw [Function.update_self] at found
        cases found
        exact ⟨old, known, turn.execution⟩
      · rw [Function.update_of_ne here] at found
        exact ⟨next, found, rfl⟩
    | none =>
      rw [known] at turn grants
      simp only [if_true] at grants
      obtain ⟨execution, granting, acquired, serial, fresh, keyed, lasting⟩ := turn
      have sequence := (lookup_of_grants effect granting).2.1
      refine numbered_of_start numbered (clock ▸ later) sequence grants requests ?_ serial
      refine ⟨keyed, lasting, ?_, by omega, by omega, ?_⟩
      · rw [fresh, serial, numbered.sequence]
        simp
      · rw [acquired, time, clock]

/-- Up to `2 ^ 64` grants a token belongs to one request. -/
theorem token_unique (numbered : Numbered before) (bounded : before.grants ≤ 2 ^ 64)
    {first second : Nat} {left right : Phase} (foundLeft : before.requests first = some left)
    (foundRight : before.requests second = some right)
    (same : left.execution.token = right.execution.token) : first = second := by
  have validLeft := numbered.valid first left foundLeft
  have validRight := numbered.valid second right foundRight
  rw [validLeft.token, validRight.token] at same
  have numbers := congrArg UInt64.toNat (Ledger.formatToken_injective same)
  simp only [UInt64.toNat_ofNat'] at numbers
  have serials : left.execution.serial = right.execution.serial := by
    have := validLeft.positive
    have := validLeft.counted
    have := validRight.positive
    have := validRight.counted
    omega
  exact numbered.distinct first second left right foundLeft foundRight serials

/-- How the claim of one request fares in a step. -/
inductive Advance (before : Gateway) (event : Event) (request : Nat) (next : Phase) : Prop where
  | kept (known : before.requests request = some next)
      (foreign : ∀ key token, event.Settles key token → ∃ other phase, other ≠ request ∧
        before.requests other = some phase ∧ key = phase.execution.key ∧
        token = phase.execution.token)
  | turned (turn : Turn before event (before.requests request) next)

/-- One step, seen from the store and from each request. -/
structure Progress (before after : Gateway) (event : Event) : Prop where
  time : event.time = after.clock
  later : before.clock ≤ after.clock
  grants : before.grants ≤ after.grants
  effect : before.store.Effect event after.store
  advance : ∀ request next, after.requests request = some next →
    Advance before event request next
  grantee : ∀ key token fingerprint ttl, event.Grants key token fingerprint ttl →
    ∃ request execution, after.requests request = some (.running execution) ∧
      execution.token = token

theorem step_advance (step : gateway.Step before signal after) :
    ∃ event, Progress before after event := by
  have later : before.clock ≤ signal.time := step.1
  cases step_move step with
  | idle event time effect noGrant noSettle clock requests grants =>
    refine ⟨event, time.trans clock.symm, clock ▸ later, grants.ge, effect, ?_, ?_⟩
    · intro request next found
      refine .kept (requests ▸ found) ?_
      intro key token settles
      exact absurd settles (noSettle key token)
    · intro key token fingerprint ttl granting
      exact absurd ⟨_, _, _, granting⟩ (noGrant key)
  | turn event time effect request phase turn clock requests grants =>
    have here : after.requests request = some phase := by
      rw [requests, Function.update_self]
    refine ⟨event, time.trans clock.symm, clock ▸ later, by omega, effect, ?_, ?_⟩
    · intro other next found
      by_cases same : other = request
      · subst same
        rw [here] at found
        cases found
        exact .turned turn
      · rw [requests, Function.update_of_ne same] at found
        refine .kept found ?_
        intro key token settles
        obtain ⟨prior, known, sameKey, sameToken⟩ := turn.settles settles
        exact ⟨request, prior, Ne.symm same, known, sameKey, sameToken⟩
    · intro key token fingerprint ttl granting
      cases known : before.requests request with
      | some old =>
        rw [known] at turn
        exact absurd ⟨_, _, _, granting⟩ (turn.noGrant key)
      | none =>
        rw [known] at turn
        obtain ⟨execution, started⟩ := turn
        exact ⟨request, execution, here, started.token_inj granting⟩

end Gateway

end Golusoris.Idempotency
