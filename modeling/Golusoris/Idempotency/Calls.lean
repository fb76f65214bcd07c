import Golusoris.Idempotency.Store
import Golusoris.Lib.Machine

/-!
# What one store call can do

`MemoryStore.serve` runs any of the four methods. `serve_effect` lists
everything such a call can do to the table, guards included; the invariants of
the ledger and of the middleware are derived from it and from
`lookup_serve_of_live`, without unfolding the methods again.
-/

namespace Golusoris.Idempotency

/-- One call of a store method with its arguments. -/
inductive Call where
  | claim (ctx : Context) (key fingerprint : String) (ttl : Duration)
  | commit (ctx : Context) (key token fingerprint : String) (response : CachedResponse)
      (ttl : Duration)
  | release (ctx : Context) (key token : String)
  | sweep (ctx : Context) (limit : Int) (order : List String)

/-- A map iteration visits each key of the map once. -/
def Call.Iterates (call : Call) (store : MemoryStore) : Prop :=
  match call with
  | .sweep _ _ order => order.Nodup ∧ order.toFinset = store.entries.keys
  | _ => True

inductive Reply where
  | claimed (result : Except Error ClaimResult)
  | settled (result : Except Error Unit)
  | swept (result : Except Error Int)

/-- Run a call at the clock reading `now`. -/
def MemoryStore.serve (store : MemoryStore) (now : Time) : Call → Reply × MemoryStore
  | .claim ctx key fingerprint ttl =>
      let (result, next) := store.claim ctx now key fingerprint ttl
      (.claimed result, next)
  | .commit ctx key token fingerprint response ttl =>
      let (result, next) := store.commit ctx now key token fingerprint response ttl
      (.settled result, next)
  | .release ctx key token =>
      let (result, next) := store.release ctx key token
      (.settled result, next)
  | .sweep ctx limit order =>
      let (result, next) := store.sweep ctx now limit order
      (.swept result, next)

/-- A call together with the clock reading it saw and the reply it got. -/
structure Event where
  time : Time
  call : Call
  reply : Reply

variable {key token fingerprint other owner : String} {ttl : Duration} {response : CachedResponse}

namespace Event

/-- The event granted `token` for `key`. -/
def Grants (event : Event) (key token fingerprint : String) (ttl : Duration) : Prop :=
  ∃ ctx, event.call = .claim ctx key fingerprint ttl ∧
    event.reply = .claimed (.ok { state := .acquired, token })

/-- The event granted some token for `key`. -/
def GrantsKey (event : Event) (key : String) : Prop :=
  ∃ token fingerprint ttl, event.Grants key token fingerprint ttl

/-- The event completed the reservation of `token`. -/
def Commits (event : Event) (key token fingerprint : String) (response : CachedResponse)
    (ttl : Duration) : Prop :=
  ∃ ctx, event.call = .commit ctx key token fingerprint response ttl ∧
    event.reply = .settled (.ok ())

/-- The event removed the reservation of `token`. -/
def Releases (event : Event) (key token : String) : Prop :=
  ∃ ctx, event.call = .release ctx key token ∧ event.reply = .settled (.ok ())

/-- The event ended the reservation of `token` by a commit or a release. -/
def Settles (event : Event) (key token : String) : Prop :=
  (∃ fingerprint response ttl, event.Commits key token fingerprint response ttl) ∨
    event.Releases key token

variable {event : Event}

variable (grants : event.Grants key token fingerprint ttl)

include grants in
theorem Grants.not_settles : ¬ event.Settles other owner := by
  obtain ⟨_, called, _⟩ := grants
  rintro (⟨_, _, _, _, settled, _⟩ | ⟨_, settled, _⟩)
  · rw [called] at settled
    cases settled
  · rw [called] at settled
    cases settled

variable (commits : event.Commits key token fingerprint response ttl)

include commits in
theorem Commits.not_grants : ¬ event.GrantsKey other := by
  rintro ⟨_, _, _, grants⟩
  exact grants.not_settles (.inl ⟨_, _, _, commits⟩)

theorem Releases.not_grants (releases : event.Releases key token) : ¬ event.GrantsKey other := by
  rintro ⟨_, _, _, grants⟩
  exact grants.not_settles (.inr releases)

include commits in
theorem Commits.settles_inj (settles : event.Settles other owner) :
    key = other ∧ token = owner := by
  obtain ⟨_, called, _⟩ := commits
  rcases settles with ⟨_, _, _, _, settled, _⟩ | ⟨_, settled, _⟩
  · rw [called] at settled
    cases settled
    exact ⟨rfl, rfl⟩
  · rw [called] at settled
    cases settled

theorem Releases.settles_inj (releases : event.Releases key token)
    (settles : event.Settles other owner) : key = other ∧ token = owner := by
  obtain ⟨_, called, _⟩ := releases
  rcases settles with ⟨_, _, _, _, settled, _⟩ | ⟨_, settled, _⟩
  · rw [called] at settled
    cases settled
  · rw [called] at settled
    cases settled
    exact ⟨rfl, rfl⟩

include grants in
theorem Grants.key_inj (again : event.GrantsKey other) : key = other := by
  obtain ⟨_, called, _⟩ := grants
  obtain ⟨_, _, _, _, recalled, _⟩ := again
  rw [called] at recalled
  cases recalled
  rfl

include grants in
theorem Grants.token_inj {print : String} {period : Duration}
    (again : event.Grants other owner print period) : token = owner := by
  obtain ⟨_, _, replied⟩ := grants
  obtain ⟨_, _, rereplied⟩ := again
  rw [replied] at rereplied
  cases rereplied
  rfl

end Event

variable {ctx : Context}

namespace MemoryStore

variable {store next : MemoryStore} {now : Time} {event : Event}

/-- Sweeping removes expired entries and nothing else. -/
theorem sweepLoop_spec (now : Time) (limit : Int) (order : List String) (removed : Int)
    (store : MemoryStore) (key : String) :
    ((sweepLoop now limit order removed store).2.entries.lookup key =
        store.entries.lookup key ∨
      (sweepLoop now limit order removed store).2.entries.lookup key = none ∧
        ∃ entry, store.entries.lookup key = some entry ∧ entry.Expired now) ∧
    (sweepLoop now limit order removed store).2.sequence = store.sequence := by
  induction order generalizing removed store with
  | nil => exact ⟨.inl rfl, rfl⟩
  | cons head rest ih =>
    rw [sweepLoop]
    split
    · exact ⟨.inl rfl, rfl⟩
    · split
      · exact ih removed store
      · rename_i entry found
        split
        · rename_i expired
          obtain ⟨kept, sequence⟩ := ih (removed + 1)
            { store with entries := store.entries.erase head }
          refine ⟨?_, sequence⟩
          by_cases same : key = head
          · subst same
            simp only [Finmap.lookup_erase] at kept
            refine .inr ⟨?_, entry, found, expired⟩
            rcases kept with unchanged | ⟨gone, _⟩
            · exact unchanged
            · exact gone
          · simpa [Finmap.lookup_erase_ne same] using kept
        · exact ih removed store

/-- What a call does to the table. -/
inductive Effect (store : MemoryStore) (event : Event) (next : MemoryStore) : Prop where
  | quiet (same : next = store)
      (noGrant : ∀ key, ¬ event.GrantsKey key)
      (noSettle : ∀ key token, ¬ event.Settles key token)
  | grant (key token fingerprint : String) (ttl : Duration)
      (grants : event.Grants key token fingerprint ttl)
      (free : store.live event.time key = none)
      (fresh : token = formatToken (store.sequence + 1))
      (lookups : ∀ other, next.entries.lookup other =
        if other = key then
          some { state := .inFlight, token, fingerprint, expiresAt := event.time + ttl }
        else store.entries.lookup other)
      (counted : next.sequence = store.sequence + 1)
  | commit (key token fingerprint : String) (response : CachedResponse) (ttl : Duration)
      (commits : event.Commits key token fingerprint response ttl)
      (entry : MemEntry)
      (found : store.entries.lookup key = some entry)
      (owned : entry.state = .inFlight ∧ entry.token = token ∧ entry.fingerprint = fingerprint)
      (unexpired : event.time < entry.expiresAt)
      (lookups : ∀ other, next.entries.lookup other =
        if other = key then
          some { state := .completed, token, fingerprint, resp := response,
                 expiresAt := event.time + ttl }
        else store.entries.lookup other)
      (uncounted : next.sequence = store.sequence)
  | release (key token : String)
      (releases : event.Releases key token)
      (entry : MemEntry)
      (found : store.entries.lookup key = some entry)
      (owned : entry.state = .inFlight ∧ entry.token = token)
      (lookups : ∀ other, next.entries.lookup other =
        if other = key then none else store.entries.lookup other)
      (uncounted : next.sequence = store.sequence)
  | sweep (swept : ∃ ctx limit order, event.call = .sweep ctx limit order)
      (noGrant : ∀ key, ¬ event.GrantsKey key)
      (noSettle : ∀ key token, ¬ event.Settles key token)
      (kept : ∀ key, next.entries.lookup key = store.entries.lookup key ∨
        next.entries.lookup key = none ∧
          ∃ entry, store.entries.lookup key = some entry ∧ entry.Expired event.time)
      (uncounted : next.sequence = store.sequence)

/-- The answer a live record gives to a claim with `fingerprint`. -/
def answer (entry : MemEntry) (fingerprint : String) : ClaimResult :=
  if entry.fingerprint ≠ fingerprint then { state := .fingerprintMismatch }
  else
    match entry.state with
    | .inFlight => { state := .inFlight }
    | .completed =>
      { state := .completed, fingerprint := entry.fingerprint, response := entry.resp }

variable {entry : MemEntry}

theorem live_eq_some :
    store.live now key = some entry ↔
      store.entries.lookup key = some entry ∧ now < entry.expiresAt := by
  simp [live, MemEntry.Expired]

theorem claim_rejected {cause : Error}
    (invalid : validateClaim ctx key fingerprint ttl = .error cause) :
    store.claim ctx now key fingerprint ttl = (.error cause, store) := by
  simp [claim, invalid]

theorem claim_of_live (valid : validateClaim ctx key fingerprint ttl = .ok ())
    (live : store.live now key = some entry) :
    store.claim ctx now key fingerprint ttl = (.ok (answer entry fingerprint), store) := by
  unfold claim answer
  rw [valid, live]
  by_cases same : entry.fingerprint = fingerprint
  · cases state : entry.state <;> simp [same, state]
  · simp [same]

theorem claim_of_free (valid : validateClaim ctx key fingerprint ttl = .ok ())
    (free : store.live now key = none) :
    store.claim ctx now key fingerprint ttl =
      (.ok { state := .acquired, token := formatToken (store.sequence + 1) },
        { entries := (store.entries.erase key).insert key
            { state := .inFlight, token := formatToken (store.sequence + 1), fingerprint,
              expiresAt := now + ttl },
          sequence := store.sequence + 1 }) := by
  simp [claim, valid, free]

/-- No live record answers a claim with a grant. -/
theorem answer_state_ne (entry : MemEntry) (fingerprint : String) :
    (answer entry fingerprint).state ≠ .acquired := by
  unfold answer
  split
  · simp
  · split <;> simp

/-- A call whose reply is none of the three successes leaves no mark. -/
theorem effect_quiet {time : Time} {call : Call} {reply : Reply}
    (noClaim : ∀ token, reply ≠ .claimed (.ok { state := .acquired, token }))
    (noSettlement : reply ≠ .settled (.ok ())) : Effect store ⟨time, call, reply⟩ store := by
  refine .quiet rfl ?_ ?_
  · rintro key ⟨token, fingerprint, ttl, ctx, _, granted⟩
    exact noClaim token granted
  · rintro key token (⟨fingerprint, response, ttl, ctx, _, settled⟩ | ⟨ctx, _, settled⟩)
    · exact noSettlement settled
    · exact noSettlement settled

variable (store : MemoryStore) (time : Time) (ctx : Context)

theorem claim_effect (key fingerprint : String) (ttl : Duration) :
    Effect store
      ⟨time, .claim ctx key fingerprint ttl, .claimed (store.claim ctx time key fingerprint ttl).1⟩
      (store.claim ctx time key fingerprint ttl).2 := by
  cases valid : validateClaim ctx key fingerprint ttl with
  | error cause =>
    rw [claim_rejected valid]
    exact effect_quiet (by simp) (by simp)
  | ok _ =>
    cases live : store.live time key with
    | some entry =>
      rw [claim_of_live valid live]
      refine effect_quiet ?_ (by simp)
      intro token same
      have acquired : (answer entry fingerprint).state = .acquired := by
        simp only [Reply.claimed.injEq, Except.ok.injEq] at same
        rw [same]
      exact answer_state_ne entry fingerprint acquired
    | none =>
      rw [claim_of_free valid live]
      refine .grant key (formatToken (store.sequence + 1)) fingerprint ttl
        ⟨ctx, rfl, rfl⟩ live rfl ?_ rfl
      intro other
      by_cases same : other = key
      · subst same
        simp
      · simp [same, Finmap.lookup_insert_of_ne, Finmap.lookup_erase_ne]

theorem commit_effect (key token fingerprint : String) (response : CachedResponse)
    (ttl : Duration) :
    Effect store
      ⟨time, .commit ctx key token fingerprint response ttl,
        .settled (store.commit ctx time key token fingerprint response ttl).1⟩
      (store.commit ctx time key token fingerprint response ttl).2 := by
  unfold commit
  cases validateCommit ctx key token ttl with
  | error cause => exact effect_quiet (by simp) (by simp)
  | ok _ =>
    cases found : store.entries.lookup key with
    | none => exact effect_quiet (by simp) (by simp)
    | some entry =>
      by_cases lost : entry.state ≠ .inFlight ∨ entry.token ≠ token ∨ entry.Expired time
      · simp only [if_pos lost]
        exact effect_quiet (by simp) (by simp)
      · by_cases mismatch : entry.fingerprint ≠ fingerprint
        · simp only [if_neg lost, if_pos mismatch]
          exact effect_quiet (by simp) (by simp)
        · simp only [if_neg lost, if_neg mismatch]
          simp only [MemEntry.Expired, not_or, not_not, not_le] at lost
          obtain ⟨inFlight, owner, unexpired⟩ := lost
          refine .commit key token fingerprint response ttl ⟨ctx, rfl, rfl⟩ entry found
            ⟨inFlight, owner, not_not.mp mismatch⟩ unexpired ?_ rfl
          intro other
          by_cases same : other = key
          · subst same
            simp
          · simp [same, Finmap.lookup_insert_of_ne]

theorem release_effect (key token : String) :
    Effect store ⟨time, .release ctx key token, .settled (store.release ctx key token).1⟩
      (store.release ctx key token).2 := by
  unfold release
  cases validateRelease ctx key token with
  | error cause => exact effect_quiet (by simp) (by simp)
  | ok _ =>
    cases found : store.entries.lookup key with
    | none => exact effect_quiet (by simp) (by simp)
    | some entry =>
      by_cases lost : entry.state ≠ .inFlight ∨ entry.token ≠ token
      · simp only [if_pos lost]
        exact effect_quiet (by simp) (by simp)
      · simp only [if_neg lost]
        simp only [not_or, not_not] at lost
        refine .release key token ⟨ctx, rfl, rfl⟩ entry found lost ?_ rfl
        intro other
        by_cases same : other = key
        · subst same
          simp
        · simp [same, Finmap.lookup_erase_ne]

theorem sweep_effect (limit : Int) (order : List String) :
    Effect store ⟨time, .sweep ctx limit order, .swept (store.sweep ctx time limit order).1⟩
      (store.sweep ctx time limit order).2 := by
  unfold sweep
  cases validateSweep ctx limit maxSweepBatch with
  | error cause => exact effect_quiet (by simp) (by simp)
  | ok _ =>
    refine .sweep ⟨ctx, limit, order, rfl⟩ ?_ ?_ (fun key => (sweepLoop_spec time limit order 0 store key).1)
      (sweepLoop_spec time limit order 0 store "").2
    · rintro key ⟨token, fingerprint, ttl, ctx, called, _⟩
      cases called
    · rintro key token (⟨fingerprint, response, ttl, ctx, called, _⟩ | ⟨ctx, called, _⟩)
      · cases called
      · cases called

variable {store}

/-- Everything a call can do. -/
theorem serve_effect (served : store.serve event.time event.call = (event.reply, next)) :
    Effect store event next := by
  obtain ⟨time, call, reply⟩ := event
  cases call with
  | claim ctx key fingerprint ttl =>
    simp only [serve, Prod.mk.injEq] at served
    obtain ⟨rfl, rfl⟩ := served
    exact claim_effect store time ctx key fingerprint ttl
  | commit ctx key token fingerprint response ttl =>
    simp only [serve, Prod.mk.injEq] at served
    obtain ⟨rfl, rfl⟩ := served
    exact commit_effect store time ctx key token fingerprint response ttl
  | release ctx key token =>
    simp only [serve, Prod.mk.injEq] at served
    obtain ⟨rfl, rfl⟩ := served
    exact release_effect store time ctx key token
  | sweep ctx limit order =>
    simp only [serve, Prod.mk.injEq] at served
    obtain ⟨rfl, rfl⟩ := served
    exact sweep_effect store time ctx limit order

variable (effect : Effect store event next)

include effect in
/-- An unexpired record stays as it is until its own token settles it. -/
theorem lookup_next_of_live (found : store.entries.lookup key = some entry)
    (unexpired : event.time < entry.expiresAt)
    (unsettled : entry.state = .inFlight → ¬ event.Settles key entry.token) :
    next.entries.lookup key = some entry := by
  cases effect with
  | quiet same => rw [same, found]
  | grant other token fingerprint ttl _ free _ lookups =>
    have different : key ≠ other := by
      rintro rfl
      have live := live_eq_some.mpr ⟨found, unexpired⟩
      rw [free] at live
      cases live
    rw [lookups, if_neg different, found]
  | commit other token fingerprint response ttl commits held heldFound owned _ lookups =>
    have different : key ≠ other := by
      rintro rfl
      rw [found] at heldFound
      cases heldFound
      exact unsettled owned.1 (.inl ⟨fingerprint, response, ttl, owned.2.1 ▸ commits⟩)
    rw [lookups, if_neg different, found]
  | release other token releases held heldFound owned lookups =>
    have different : key ≠ other := by
      rintro rfl
      rw [found] at heldFound
      cases heldFound
      exact unsettled owned.1 (.inr (owned.2 ▸ releases))
    rw [lookups, if_neg different, found]
  | sweep _ _ _ kept =>
    rcases kept key with same | ⟨_, swept, sweptFound, expired⟩
    · rw [same, found]
    · rw [found] at sweptFound
      cases sweptFound
      exact absurd unexpired (not_lt.mpr expired)

include effect in
/-- A grant finds no live record and leaves its reservation behind. -/
theorem lookup_of_grants (grants : event.Grants key token fingerprint ttl) :
    store.live event.time key = none ∧ next.sequence = store.sequence + 1 ∧
      next.entries.lookup key =
        some { state := .inFlight, token, fingerprint, expiresAt := event.time + ttl } := by
  cases effect with
  | quiet _ noGrant | sweep _ noGrant =>
    exact absurd ⟨token, fingerprint, ttl, grants⟩ (noGrant key)
  | commit _ _ _ _ _ commits | release _ _ commits =>
    exact absurd ⟨token, fingerprint, ttl, grants⟩ commits.not_grants
  | grant other owner print time again free _ lookups counted =>
    obtain ⟨_, called, replied⟩ := grants
    obtain ⟨_, recalled, rereplied⟩ := again
    rw [called] at recalled
    rw [replied] at rereplied
    cases recalled
    cases rereplied
    rw [lookups, if_pos rfl]
    exact ⟨free, counted, rfl⟩

include effect in
/-- A commit finds its own unexpired reservation and leaves the response. -/
theorem lookup_of_commits (commits : event.Commits key token fingerprint response ttl) :
    (∃ entry, store.entries.lookup key = some entry ∧ entry.state = .inFlight ∧
      entry.token = token ∧ entry.fingerprint = fingerprint ∧ event.time < entry.expiresAt) ∧
    next.entries.lookup key =
      some { state := .completed, token, fingerprint, resp := response,
             expiresAt := event.time + ttl } := by
  have settles : event.Settles key token := .inl ⟨_, _, _, commits⟩
  cases effect with
  | quiet _ _ noSettle | sweep _ _ noSettle => exact absurd settles (noSettle key token)
  | grant _ _ _ _ grants => exact absurd settles grants.not_settles
  | release _ _ releases =>
    obtain ⟨_, called, _⟩ := commits
    obtain ⟨_, recalled, _⟩ := releases
    rw [called] at recalled
    cases recalled
  | commit _ _ _ _ _ again entry found owned unexpired lookups =>
    obtain ⟨_, called, _⟩ := commits
    obtain ⟨_, recalled, _⟩ := again
    rw [called] at recalled
    cases recalled
    rw [lookups, if_pos rfl]
    exact ⟨⟨entry, found, owned.1, owned.2.1, owned.2.2, unexpired⟩, rfl⟩

include effect in
/-- An in-flight record was there before, under a key the event did not settle,
or the event granted it. -/
theorem inFlight_cases (found : next.entries.lookup key = some entry)
    (inFlight : entry.state = .inFlight) :
    store.entries.lookup key = some entry ∧ (∀ token, ¬ event.Settles key token) ∧
        ¬ event.GrantsKey key ∨
      ∃ ttl, event.Grants key entry.token entry.fingerprint ttl ∧
        entry.expiresAt = event.time + ttl := by
  cases effect with
  | quiet same noGrant noSettle =>
    rw [same] at found
    exact .inl ⟨found, noSettle key, noGrant key⟩
  | grant other token fingerprint ttl grants _ _ lookups =>
    rw [lookups] at found
    split at found
    · rename_i same
      subst same
      cases found
      exact .inr ⟨ttl, grants, rfl⟩
    · rename_i different
      refine .inl ⟨found, fun _ => grants.not_settles, ?_⟩
      intro again
      exact different (grants.key_inj again).symm
  | commit other token fingerprint response ttl commits _ _ _ _ lookups =>
    rw [lookups] at found
    split at found
    · cases found
      cases inFlight
    · rename_i different
      refine .inl ⟨found, ?_, commits.not_grants⟩
      intro owner settles
      exact different (commits.settles_inj settles).1.symm
  | release other token releases _ _ _ lookups =>
    rw [lookups] at found
    split at found
    · cases found
    · rename_i different
      refine .inl ⟨found, ?_, releases.not_grants⟩
      intro owner settles
      exact different (releases.settles_inj settles).1.symm
  | sweep _ noGrant noSettle kept =>
    rcases kept key with same | ⟨gone, _⟩
    · rw [same] at found
      exact .inl ⟨found, noSettle key, noGrant key⟩
    · rw [gone] at found
      cases found

include effect in
/-- A completed record was there before, or the event committed it. -/
theorem completed_cases (found : next.entries.lookup key = some entry)
    (completed : entry.state = .completed) :
    store.entries.lookup key = some entry ∨
      ∃ token fingerprint ttl, event.Commits key token fingerprint entry.resp ttl := by
  cases effect with
  | quiet same =>
    rw [same] at found
    exact .inl found
  | grant other token fingerprint ttl _ _ _ lookups =>
    rw [lookups] at found
    split at found
    · cases found
      cases completed
    · exact .inl found
  | commit other token fingerprint response ttl commits _ _ _ _ lookups =>
    rw [lookups] at found
    split at found
    · rename_i same
      subst same
      cases found
      exact .inr ⟨token, fingerprint, ttl, commits⟩
    · exact .inl found
  | release other token _ _ _ _ lookups =>
    rw [lookups] at found
    split at found
    · cases found
    · exact .inl found
  | sweep _ _ _ kept =>
    rcases kept key with same | ⟨gone, _⟩
    · rw [same] at found
      exact .inl found
    · rw [gone] at found
      cases found

include effect in
/-- Only a grant advances the counter. -/
theorem sequence_of_noGrant (noGrant : ∀ key, ¬ event.GrantsKey key) :
    next.sequence = store.sequence := by
  cases effect with
  | quiet same => rw [same]
  | grant key token fingerprint ttl grants => exact absurd ⟨_, _, _, grants⟩ (noGrant key)
  | commit _ _ _ _ _ _ _ _ _ _ _ uncounted | release _ _ _ _ _ _ _ uncounted
  | sweep _ _ _ _ uncounted => exact uncounted

end MemoryStore

theorem formatToken_ne_empty (sequence : UInt64) : MemoryStore.formatToken sequence ≠ "" := by
  intro empty
  have digits := congrArg String.toList empty
  simp [MemoryStore.formatToken, Nat.toList_repr] at digits

theorem validateClaim_ok (valid : validateClaim ctx key fingerprint ttl = .ok ()) :
    key ≠ "" ∧ 0 < ttl := by
  unfold validateClaim validateContext at valid
  cases cause : ctx.err with
  | some cause => simp [cause, bind, Except.bind] at valid
  | none =>
    by_cases missing : key = "" ∨ fingerprint = ""
    · simp [cause, missing, bind, Except.bind, throw, throwThe, MonadExceptOf.throw] at valid
    · by_cases short : ttl ≤ 0
      · simp [cause, missing, short, bind, Except.bind, throw, throwThe,
          MonadExceptOf.throw] at valid
      · exact ⟨fun empty => missing (.inl empty), not_le.mp short⟩

theorem validateCommit_ok (valid : validateCommit ctx key token ttl = .ok ()) : 0 < ttl := by
  unfold validateCommit validateContext at valid
  cases cause : ctx.err with
  | some cause => simp [cause, bind, Except.bind] at valid
  | none =>
    by_cases missing : key = "" ∨ token = ""
    · simp [cause, missing, bind, Except.bind, throw, throwThe, MonadExceptOf.throw] at valid
    · by_cases short : ttl ≤ 0
      · simp [cause, missing, short, bind, Except.bind, throw, throwThe,
          MonadExceptOf.throw] at valid
      · exact not_le.mp short

end Golusoris.Idempotency
