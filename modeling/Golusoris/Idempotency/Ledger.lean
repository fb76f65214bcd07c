import Golusoris.Idempotency.Calls
import Golusoris.Lib.Lists
import Mathlib.Data.Finmap
import Mathlib.Tactic.Common

/-!
# `MemoryStore` as an idempotency ledger

Runs interleave the calls of any number of clients; the mutex makes each call
one event and the clock readings never decrease. `Origin` ties every in-flight
record to the grant that created it, `granted_eq` ties the tokens handed out to
the counter. The counter is a `uint64`: it repeats after `2 ^ 64` grants, so the
laws that compare tokens are stated for runs with at most that many.
-/

namespace Golusoris.Idempotency

open Lib
open MemoryStore

/-- The store and the last clock reading taken under its mutex. -/
structure Ledger where
  store : MemoryStore := {}
  clock : Time

def ledger : Machine Ledger Event where
  Initial state := state.store = {}
  Step before event after :=
    before.clock ≤ event.time ∧ event.call.Iterates before.store ∧
      before.store.serve event.time event.call = (event.reply, after.store) ∧
      after.clock = event.time

/-- The token an event handed out, if any. -/
def Event.grantedToken (event : Event) : Option String :=
  match event.call, event.reply with
  | .claim _ _ _ _, .claimed (.ok result) =>
      if result = { state := .acquired, token := result.token } then some result.token else none
  | _, _ => none

/-- The tokens handed out by a history, oldest first. -/
def granted (history : List Event) : List String := history.filterMap Event.grantedToken

variable {token key other fingerprint : String}

theorem Event.grantedToken_eq_some {event : Event} :
    event.grantedToken = some token ↔
      ∃ key fingerprint ttl, event.Grants key token fingerprint ttl := by
  obtain ⟨time, call, reply⟩ := event
  constructor
  · intro handed
    unfold grantedToken at handed
    split at handed
    · rename_i ctx key fingerprint ttl result called replied
      split at handed
      · rename_i acquired
        cases handed
        refine ⟨key, fingerprint, ttl, ctx, called, ?_⟩
        rw [replied, ← acquired]
      · cases handed
    · cases handed
  · rintro ⟨key, fingerprint, ttl, ctx, called, replied⟩
    simp only at called replied
    subst called replied
    simp [grantedToken]

theorem Event.grantedToken_eq_none {event : Event} (noGrant : ∀ key, ¬ event.GrantsKey key) :
    event.grantedToken = none := by
  rw [Option.eq_none_iff_forall_ne_some]
  intro token handed
  obtain ⟨key, fingerprint, ttl, grants⟩ := grantedToken_eq_some.mp handed
  exact noGrant key ⟨token, fingerprint, ttl, grants⟩

namespace Ledger

variable {before after start finish : Ledger} {event : Event} {history events : List Event}

theorem step_effect (step : ledger.Step before event after) :
    before.store.Effect event after.store :=
  serve_effect step.2.2.1

/-- Clock readings stay between the readings at the two ends of a trace. -/
theorem trace_times (trace : ledger.Trace start events finish) :
    start.clock ≤ finish.clock ∧
      ∀ event ∈ events, start.clock ≤ event.time ∧ event.time ≤ finish.clock := by
  induction trace with
  | nil => simp
  | cons head _ ih =>
    obtain ⟨advanced, _, _, read⟩ := head
    obtain ⟨later, within⟩ := ih
    rw [read] at later within
    refine ⟨advanced.trans later, ?_⟩
    intro event member
    rcases List.mem_cons.mp member with rfl | member
    · exact ⟨advanced, later⟩
    · exact ⟨advanced.trans (within event member).1, (within event member).2⟩

variable {entry : MemEntry}

/-- An unexpired record survives every trace that does not settle it. -/
theorem lookup_kept (trace : ledger.Trace start events finish)
    (found : start.store.entries.lookup key = some entry)
    (unexpired : ∀ event ∈ events, event.time < entry.expiresAt)
    (unsettled : entry.state = .inFlight → ∀ event ∈ events, ¬ event.Settles key entry.token) :
    finish.store.entries.lookup key = some entry := by
  refine trace.invariant_of (fun state => state.store.entries.lookup key = some entry)
    (fun event => event.time < entry.expiresAt ∧
      (entry.state = .inFlight → ¬ event.Settles key entry.token)) ?_ ?_ found
  · intro before event after ⟨early, kept⟩ found step
    exact lookup_next_of_live (step_effect step) found early kept
  · intro event member
    exact ⟨unexpired event member, fun inFlight => unsettled inFlight event member⟩

/-- A reservation stems from a grant that nothing has superseded since. -/
def Reserved (history : List Event) (key : String) (entry : MemEntry) : Prop :=
  ∃ earlier grant between ttl, history = earlier ++ grant :: between ∧
    grant.Grants key entry.token entry.fingerprint ttl ∧
    entry.expiresAt = grant.time + ttl ∧
    ∀ later ∈ between, ¬ later.GrantsKey key ∧ ¬ later.Settles key entry.token

/-- Every in-flight record is the reservation of such a grant. -/
def Origin (history : List Event) (state : Ledger) : Prop :=
  ∀ key entry, state.store.entries.lookup key = some entry → entry.state = .inFlight →
    Reserved history key entry

theorem Reserved.snoc (reserved : Reserved history key entry) (noGrant : ¬ event.GrantsKey key)
    (noSettle : ¬ event.Settles key entry.token) : Reserved (history ++ [event]) key entry := by
  obtain ⟨earlier, grant, between, ttl, rfl, grants, expiry, quiet⟩ := reserved
  refine ⟨earlier, grant, between ++ [event], ttl, by simp, grants, expiry, ?_⟩
  intro later member
  rcases List.mem_append.mp member with inside | last
  · exact quiet later inside
  · rw [List.mem_singleton.mp last]
    exact ⟨noGrant, noSettle⟩

theorem origin_step (origin : Origin history before) (step : ledger.Step before event after) :
    Origin (history ++ [event]) after := by
  intro key entry found inFlight
  rcases inFlight_cases (step_effect step) found inFlight with
    ⟨kept, noSettle, noGrant⟩ | ⟨ttl, grants, expiry⟩
  · exact (origin key entry kept inFlight).snoc noGrant (noSettle entry.token)
  · exact ⟨history, event, [], ttl, by simp, grants, expiry, by simp⟩

variable (run : ledger.Run history before)

include run in
theorem origin_run : Origin history before := by
  refine run.history_invariant Origin ?_ (fun _ _ _ _ => origin_step)
  intro state initial key entry found
  have empty : state.store = {} := initial
  simp [empty] at found

theorem formatToken_injective {first second : UInt64}
    (same : formatToken first = formatToken second) : first = second := by
  have digits := congrArg String.toList same
  simp only [formatToken, Nat.toList_repr] at digits
  have numbers := congrArg (fun digits => Nat.ofDigitChars 10 digits 0) digits
  simp only [Nat.ofDigitChars_toDigits (b := 10) (by omega) (by omega)] at numbers
  exact UInt64.toNat_inj.mp numbers

/-- The `count` tokens a fresh store hands out first. -/
def tokens (count : Nat) : List String :=
  (List.range count).map fun index => MemoryStore.formatToken (UInt64.ofNat (index + 1))

theorem tokens_succ (count : Nat) :
    tokens (count + 1) = tokens count ++ [formatToken (UInt64.ofNat (count + 1))] := by
  simp [tokens, List.range_succ]

theorem tokens_nodup {count : Nat} (bounded : count ≤ 2 ^ 64) : (tokens count).Nodup := by
  refine List.Nodup.map_on ?_ List.nodup_range
  intro first firstIn second secondIn same
  have numbers := congrArg UInt64.toNat (formatToken_injective same)
  simp only [List.mem_range] at firstIn secondIn
  simp only [UInt64.toNat_ofNat'] at numbers
  omega

/-- The counter and the tokens handed out so far agree. -/
def Counted (history : List Event) (state : Ledger) : Prop :=
  granted history = tokens (granted history).length ∧
    state.store.sequence = UInt64.ofNat (granted history).length

theorem counted_uncounted (counted : Counted history before)
    (noGrant : ∀ key, ¬ event.GrantsKey key)
    (uncounted : after.store.sequence = before.store.sequence) :
    Counted (history ++ [event]) after := by
  have same : granted (history ++ [event]) = granted history := by
    simp [granted, Event.grantedToken_eq_none noGrant]
  simpa [Counted, same, uncounted] using counted

theorem counted_step (counted : Counted history before) (step : ledger.Step before event after) :
    Counted (history ++ [event]) after := by
  have effect := step_effect step
  cases effect with
  | grant key token fingerprint ttl grants _ fresh _ advanced =>
    obtain ⟨listed, sequence⟩ := counted
    have next : UInt64.ofNat (granted history).length + 1 =
        UInt64.ofNat ((granted history).length + 1) := by simp
    have handed : granted (history ++ [event]) = granted history ++ [token] := by
      simp [granted, Event.grantedToken_eq_some.mpr ⟨key, fingerprint, ttl, grants⟩]
    have length : (granted (history ++ [event])).length = (granted history).length + 1 := by
      simp [handed]
    refine ⟨?_, ?_⟩
    · rw [length, tokens_succ, ← listed, handed, fresh, sequence, next]
    · rw [advanced, sequence, length, next]
  | quiet same noGrant => exact counted_uncounted counted noGrant (by rw [same])
  | sweep _ noGrant _ _ uncounted => exact counted_uncounted counted noGrant uncounted
  | commit _ _ _ _ _ commits _ _ _ _ _ uncounted | release _ _ commits _ _ _ _ uncounted =>
    exact counted_uncounted counted (fun _ => commits.not_grants) uncounted

include run in
theorem counted_run : Counted history before := by
  refine run.history_invariant Counted ?_ (fun _ _ _ _ => counted_step)
  intro state initial
  have empty : state.store = {} := initial
  simp [Counted, granted, tokens, empty]

include run in
theorem granted_nodup (bounded : (granted history).length ≤ 2 ^ 64) : (granted history).Nodup := by
  rw [(counted_run run).1]
  exact tokens_nodup bounded

/-- What a client may rely on when `event` follows `history`. -/
structure Laws (history : List Event) (before : Ledger) (event : Event) (after : Ledger) :
    Prop where
  /-- No token is handed out twice. -/
  tokensUnique : (granted (history ++ [event])).Nodup
  /-- A reservation that is neither settled nor expired turns every claim of
  its key away. -/
  exclusive : ∀ earlier grant between key token fingerprint ttl,
    history = earlier ++ grant :: between → grant.Grants key token fingerprint ttl →
    (∀ later ∈ between, ¬ later.Settles key token) → event.time < grant.time + ttl →
    ∀ ctx other period, event.call = .claim ctx key other period →
      validateClaim ctx key other period = .ok () →
      event.reply = .claimed (.ok { state := .inFlight }) ∨
        event.reply = .claimed (.ok { state := .fingerprintMismatch })
  /-- A commit succeeds only for the reservation that is in force. -/
  commitOwned : ∀ key token fingerprint response period,
    event.Commits key token fingerprint response period →
    ∃ earlier grant between ttl, history = earlier ++ grant :: between ∧
      grant.Grants key token fingerprint ttl ∧ event.time < grant.time + ttl ∧
      ∀ later ∈ between, ¬ later.GrantsKey key ∧ ¬ later.Settles key token
  /-- A token whose reservation was superseded or settled releases nothing. -/
  staleRelease : ∀ earlier grant between key token fingerprint ttl,
    history = earlier ++ grant :: between → grant.Grants key token fingerprint ttl →
    (∃ later ∈ between, later.GrantsKey key ∨ later.Settles key token) →
    ∀ ctx, event.call = .release ctx key token →
      event.reply ≠ .settled (.ok ()) ∧ after.store = before.store
  /-- A committed response is what claims of its key see until it expires. -/
  completedKept : ∀ earlier commit between key token fingerprint response ttl,
    history = earlier ++ commit :: between →
    commit.Commits key token fingerprint response ttl → event.time < commit.time + ttl →
    ∀ ctx other period, event.call = .claim ctx key other period →
      validateClaim ctx key other period = .ok () →
      event.reply = .claimed (.ok
        (if other = fingerprint then { state := .completed, fingerprint, response }
         else { state := .fingerprintMismatch }))

variable {between earlier : List Event}

/-- The events of a trace come before the next reading of the clock. -/
theorem between_early {expiresAt : Time} (trace : ledger.Trace start between before)
    (step : ledger.Step before event after) (early : event.time < expiresAt) :
    ∀ later ∈ between, later.time < expiresAt := by
  intro later member
  have bounded := ((trace_times trace).2 later member).2
  exact lt_of_le_of_lt (bounded.trans step.1) early

variable {period ttl : Duration} {ctx : Context}

/-- The reply to a claim that meets a live record. -/
theorem reply_of_live (step : ledger.Step before event after)
    (found : before.store.entries.lookup key = some entry) (early : event.time < entry.expiresAt)
    (called : event.call = .claim ctx key other period)
    (valid : validateClaim ctx key other period = .ok ()) :
    event.reply = .claimed (.ok (answer entry other)) := by
  have served := step.2.2.1
  have live := live_eq_some.mpr ⟨found, early⟩
  rw [called, serve, claim_of_live valid live] at served
  exact (Prod.mk.inj served).1.symm

include run in
theorem exclusive_step (step : ledger.Step before event after) {grant : Event}
    (split : history = earlier ++ grant :: between)
    (grants : grant.Grants key token fingerprint ttl)
    (unsettled : ∀ later ∈ between, ¬ later.Settles key token)
    (early : event.time < grant.time + ttl) (called : event.call = .claim ctx key other period)
    (valid : validateClaim ctx key other period = .ok ()) :
    event.reply = .claimed (.ok { state := .inFlight }) ∨
      event.reply = .claimed (.ok { state := .fingerprintMismatch }) := by
  subst split
  obtain ⟨atGrant, afterGrant, _, granting, rest⟩ := run.cut
  have left := (lookup_of_grants (step_effect granting) grants).2.2
  have found := lookup_kept rest left (between_early rest step early) (fun _ => unsettled)
  rw [reply_of_live step found early called valid]
  unfold answer
  split
  · exact .inr rfl
  · exact .inl rfl

include run in
theorem completedKept_step (step : ledger.Step before event after) {commit : Event}
    {response : CachedResponse} (split : history = earlier ++ commit :: between)
    (commits : commit.Commits key token fingerprint response ttl)
    (early : event.time < commit.time + ttl) (called : event.call = .claim ctx key other period)
    (valid : validateClaim ctx key other period = .ok ()) :
    event.reply = .claimed (.ok
      (if other = fingerprint then { state := .completed, fingerprint, response }
       else { state := .fingerprintMismatch })) := by
  subst split
  obtain ⟨atCommit, afterCommit, _, committing, rest⟩ := run.cut
  have left := (lookup_of_commits (step_effect committing) commits).2
  have found := lookup_kept rest left (between_early rest step early) (by simp)
  rw [reply_of_live step found early called valid]
  unfold answer
  by_cases same : other = fingerprint
  · simp [same]
  · simp [same, Ne.symm same]

include run in
theorem commitOwned_step (step : ledger.Step before event after) {response : CachedResponse}
    (commits : event.Commits key token fingerprint response period) :
    ∃ earlier grant between ttl, history = earlier ++ grant :: between ∧
      grant.Grants key token fingerprint ttl ∧ event.time < grant.time + ttl ∧
      ∀ later ∈ between, ¬ later.GrantsKey key ∧ ¬ later.Settles key token := by
  obtain ⟨⟨entry, found, inFlight, rfl, rfl, unexpired⟩, _⟩ :=
    lookup_of_commits (step_effect step) commits
  obtain ⟨earlier, grant, between, ttl, split, grants, expiry, quiet⟩ :=
    origin_run run key entry found inFlight
  exact ⟨earlier, grant, between, ttl, split, grants, expiry ▸ unexpired, quiet⟩

include run in
theorem staleRelease_step (step : ledger.Step before event after)
    (distinct : (granted history).Nodup) {grant : Event}
    (split : history = earlier ++ grant :: between)
    (grants : grant.Grants key token fingerprint ttl)
    (stale : ∃ later ∈ between, later.GrantsKey key ∨ later.Settles key token)
    (called : event.call = .release ctx key token) :
    event.reply ≠ .settled (.ok ()) ∧ after.store = before.store := by
  have refused : ∀ entry, before.store.entries.lookup key = some entry →
      ¬ (entry.state = .inFlight ∧ entry.token = token) := by
    -- Tokens are distinct, so the reservation in force would stem from this very grant.
    rintro entry found ⟨inFlight, rfl⟩
    obtain ⟨earlier', grant', between', ttl', split', grants', _, quiet⟩ :=
      origin_run run key entry found inFlight
    have cut := split.symm.trans split'
    rw [split] at distinct
    obtain ⟨_, _, rfl⟩ := cut_unique distinct cut (Event.grantedToken_eq_some.mpr ⟨_, _, _, grants⟩)
      (Event.grantedToken_eq_some.mpr ⟨_, _, _, grants'⟩)
    obtain ⟨later, member, newer | settled⟩ := stale
    · exact (quiet later member).1 newer
    · exact (quiet later member).2 settled
  cases step_effect step with
  | quiet same _ noSettle =>
    refine ⟨fun replied => noSettle key token (.inr ⟨ctx, called, replied⟩), same⟩
  | sweep swept =>
    obtain ⟨_, _, _, recalled⟩ := swept
    rw [called] at recalled
    cases recalled
  | grant _ _ _ _ grants' | commit _ _ _ _ _ grants' =>
    obtain ⟨_, recalled, _⟩ := grants'
    rw [called] at recalled
    cases recalled
  | release _ _ releases entry found owned =>
    obtain ⟨_, recalled, _⟩ := releases
    rw [called] at recalled
    cases recalled
    exact absurd owned (refused entry found)

end Ledger

/-- Every event of a run that hands out at most `2 ^ 64` tokens obeys the laws
of the ledger, whatever calls were interleaved before it. -/
theorem memoryStore_ledger (history : List Event) (before after : Ledger) (event : Event)
    (run : ledger.Run history before) (step : ledger.Step before event after)
    (bounded : (granted (history ++ [event])).length ≤ 2 ^ 64) :
    Ledger.Laws history before event after where
  tokensUnique := Ledger.granted_nodup (run.snoc step) bounded
  exclusive := by
    intro earlier grant between key token fingerprint ttl split grants unsettled early
      ctx other period called valid
    exact Ledger.exclusive_step run step split grants unsettled early called valid
  commitOwned := by
    intro key token fingerprint response period commits
    exact Ledger.commitOwned_step run step commits
  staleRelease := by
    intro earlier grant between key token fingerprint ttl split grants stale ctx called
    have shorter : (granted history).length ≤ 2 ^ 64 := by
      simp only [granted, List.filterMap_append, List.length_append] at bounded ⊢
      omega
    exact Ledger.staleRelease_step run step (Ledger.granted_nodup run shorter) split grants
      stale called
  completedKept := by
    intro earlier commit between key token fingerprint response ttl split commits early
      ctx other period called valid
    exact Ledger.completedKept_step run step split commits early called valid

/-- Serve a call at `time` and record what was said. -/
def Ledger.respond (state : Ledger) (time : Time) (call : Call) : Event × Ledger :=
  let (reply, store) := state.store.serve time call
  ({ time, call, reply }, { store, clock := time })

theorem Ledger.step_respond {state : Ledger} {time : Time} {call : Call}
    (later : state.clock ≤ time) (iterates : call.Iterates state.store) :
    ledger.Step state (state.respond time call).1 (state.respond time call).2 :=
  ⟨later, iterates, rfl, rfl⟩

/-- The ledger after a first claim of `k` for ten nanoseconds, and after a
second claim with another payload five nanoseconds later. -/
def reserved : Event × Ledger := ({ clock := 0 } : Ledger).respond 0 (.claim {} "k" "f" 10)

def contested : Event × Ledger := reserved.2.respond 5 (.claim {} "k" "g" 10)

theorem memoryStore_ledger_contested :
    contested.1.reply = .claimed (.ok { state := .fingerprintMismatch }) ∧
      Ledger.Laws [reserved.1] reserved.2 contested.1 contested.2 := by
  refine ⟨rfl, memoryStore_ledger _ _ _ _ ⟨{ clock := 0 }, rfl, .singleton ?_⟩ ?_ ?_⟩
  · exact Ledger.step_respond (by decide) trivial
  · exact Ledger.step_respond (by decide) trivial
  · exact (List.length_filterMap_le _ _).trans (by decide)

/-- Claims with a lifetime of one nanosecond are granted as often as one likes. -/
theorem exists_run_granting (count : Nat) :
    ∃ history state, ledger.Run history state ∧ (granted history).length = count ∧
      ∀ entry, state.store.entries.lookup "k" = some entry → entry.expiresAt ≤ state.clock + 1 := by
  induction count with
  | zero =>
    refine ⟨[], { clock := 0 }, ⟨{ clock := 0 }, rfl, .nil _⟩, rfl, ?_⟩
    intro entry found
    simp at found
  | succ count ih =>
    obtain ⟨history, state, run, handed, expiring⟩ := ih
    have free : state.store.live (state.clock + 1) "k" = none := by
      rw [Option.eq_none_iff_forall_ne_some]
      intro entry live
      obtain ⟨found, unexpired⟩ := live_eq_some.mp live
      exact absurd unexpired (not_lt.mpr (expiring entry found))
    have valid : validateClaim {} "k" "f" 1 = .ok () := rfl
    have claimed := claim_of_free valid free
    let answered := state.respond (state.clock + 1) (.claim {} "k" "f" 1)
    have step : ledger.Step state answered.1 answered.2 :=
      Ledger.step_respond (Int.le_add_one le_rfl) trivial
    refine ⟨history ++ [answered.1], answered.2, run.snoc step, ?_, ?_⟩
    · have fresh : answered.1.grantedToken = some (formatToken (state.store.sequence + 1)) := by
        refine Event.grantedToken_eq_some.mpr ⟨"k", "f", 1, {}, rfl, ?_⟩
        simp [answered, Ledger.respond, serve, claimed]
      simp only [granted] at handed
      simp [granted, fresh, handed]
    · intro entry found
      simp only [answered, Ledger.respond, serve, claimed, Finmap.lookup_insert,
        Option.some.injEq] at found
      simp [answered, Ledger.respond, ← found]

/-- The counter wraps: some run hands out the same token twice. -/
theorem memoryStore_token_repeats :
    ¬ ∀ history state, ledger.Run history state → (granted history).Nodup := by
  intro unique
  obtain ⟨history, state, run, handed, _⟩ := exists_run_granting (2 ^ 64 + 1)
  have listed := (Ledger.counted_run run).1
  rw [handed] at listed
  have distinct := unique history state run
  rw [listed, Ledger.tokens, List.nodup_map_iff_inj_on List.nodup_range] at distinct
  have wrapped : (0 : Nat) = 2 ^ 64 := by
    refine distinct 0 (by simp) (2 ^ 64) (by simp) ?_
    rfl
  omega

end Golusoris.Idempotency
