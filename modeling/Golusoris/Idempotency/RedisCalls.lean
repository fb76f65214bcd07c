import Golusoris.Idempotency.RedisPair

/-!
# One call to both stores

`Paired` says that the same records are live in both stores at an instant. Each
of the three calls is answered alike and keeps the stores paired, with the one
exception of `ReleaseOutcome.late`.
-/

namespace Golusoris.Idempotency

open Lib
open MemoryStore

variable {memoryTokens redisTokens : List String} {memory : MemoryStore} {space : Redis.Keyspace}
variable {now later : Time} {namespaced : String}

/-- The records that stand for each other at an instant, in both stores. -/
def Paired (namespaced : String) (memoryTokens redisTokens : List String) (memory : MemoryStore)
    (space : Redis.Keyspace) (now : Time) : Prop :=
  ∀ key, Corresponds memoryTokens redisTokens (memory.live now key)
    (space.find now (namespaced ++ key))

variable (paired : Paired namespaced memoryTokens redisTokens memory space now)

include paired in
theorem Paired.advance (order : now ≤ later) :
    Paired namespaced memoryTokens redisTokens memory space later := by
  intro key
  rw [live_later order, Redis.Keyspace.find_later order]
  exact (paired key).filter later

include paired in
/-- Stores that differ from paired ones in the records of one key. -/
theorem Paired.replace {next : MemoryStore} {written : Redis.Keyspace}
    {entry : Option MemEntry} {record : Option Redis.Key} (key : String)
    (corresponds : Corresponds memoryTokens redisTokens entry record)
    (ours : ∀ other, next.live now other = if other = key then entry else memory.live now other)
    (theirs : ∀ name, written.find now name =
      if name = namespaced ++ key then record else space.find now name) :
    Paired namespaced memoryTokens redisTokens next written now := by
  intro other
  rw [ours, theirs]
  by_cases same : other = key
  · rw [if_pos same, if_pos (by rw [same])]
    exact corresponds
  · have apart : namespaced ++ other ≠ namespaced ++ key :=
      fun equal => same (String.append_right_inj _ |>.1 equal)
    rw [if_neg same, if_neg apart]
    exact paired other

variable {key : String}

include paired in
theorem Paired.free (ours : memory.live now key = none) :
    space.find now (namespaced ++ key) = none := by
  have here := paired key
  rw [ours] at here
  cases theirs : space.find now (namespaced ++ key) with
  | none => rfl
  | some record =>
    rw [theirs] at here
    cases here

include paired in
theorem Paired.taken {entry : MemEntry} (ours : memory.live now key = some entry) :
    ∃ record, space.find now (namespaced ++ key) = some record ∧
      Mirrors memoryTokens redisTokens entry record := by
  have here := paired key
  rw [ours] at here
  cases theirs : space.find now (namespaced ++ key) with
  | none =>
    rw [theirs] at here
    cases here
  | some record =>
    rw [theirs] at here
    cases here with
    | some mirrors => exact ⟨record, rfl, mirrors⟩

variable {ttl : Duration}

theorem redisMillis_mul (positive : 0 < ttl) (whole : 1000000 ∣ ttl) :
    Redis.redisMillis ttl * 1000000 = ttl ∧ 0 < Redis.redisMillis ttl := by
  obtain ⟨millis, rfl⟩ := whole
  have exact : (1000000 * millis).tdiv 1000000 = millis := Int.mul_tdiv_cancel_left _ (by decide)
  have positive : (0 : Int) < 1000000 * millis := positive
  unfold Redis.redisMillis
  rw [exact, if_neg (by omega)]
  omega

theorem Redis.Keyspace.find_insert (space : Redis.Keyspace) (now : Time) (name other : String)
    (key : Redis.Key) :
    Redis.Keyspace.find (space.insert name key) now other =
      if other = name then (some key).filter fun key => ¬key.Expired now
      else Redis.Keyspace.find space now other := by
  unfold Redis.Keyspace.find
  by_cases same : other = name
  · rw [if_pos same, same, Finmap.lookup_insert]
  · rw [if_neg same, Finmap.lookup_insert_of_ne _ same]

theorem MemoryStore.live_insert (memory : MemoryStore) (now : Time) (key other : String)
    (entry : MemEntry) (sequence : UInt64) :
    live { entries := memory.entries.insert key entry, sequence := sequence } now other =
      if other = key then (some entry).filter fun entry => ¬entry.Expired now
      else memory.live now other := by
  unfold live
  by_cases same : other = key
  · rw [if_pos same, same, Finmap.lookup_insert]
  · rw [if_neg same, Finmap.lookup_insert_of_ne _ same]

theorem MemoryStore.live_erase (memory : MemoryStore) (now : Time) (key other : String) :
    live { memory with entries := memory.entries.erase key } now other =
      if other = key then none else memory.live now other := by
  unfold live
  by_cases same : other = key
  · rw [if_pos same, same, Finmap.lookup_erase]
    rfl
  · rw [if_neg same, Finmap.lookup_erase_ne same]

theorem Redis.Keyspace.find_erase (space : Redis.Keyspace) (now : Time) (name other : String) :
    Redis.Keyspace.find (space.erase name) now other =
      if other = name then none else Redis.Keyspace.find space now other := by
  unfold Redis.Keyspace.find
  by_cases same : other = name
  · rw [if_pos same, same, Finmap.lookup_erase]
    rfl
  · rw [if_neg same, Finmap.lookup_erase_ne same]

/-- `HSET` followed by `PEXPIRE`: the key with the fields and the deadline. -/
theorem Redis.Keyspace.find_hset_pexpire (space : Redis.Keyspace) (now : Time) (name other : String)
    (fields : List (String × Redis.Value)) {millis : Int} (positive : 0 < millis) :
    ((space.hset now name fields).pexpire now name millis).find now other =
      if other = name then
        some { hash := fields.foldl (fun hash field => hash.insert field.1 field.2)
                ((space.find now name).getD {}).hash
               deadline := some (now + millis * 1000000) }
      else space.find now other := by
  have unexpired : ¬((space.find now name).getD {}).Expired now := by
    cases found : space.find now name with
    | none => simp [Redis.Key.Expired]
    | some key =>
      have kept := (Option.filter_eq_some_iff.1 found).2
      simpa using kept
  have written : (space.hset now name fields).find now name =
      some { (space.find now name).getD {} with
        hash := fields.foldl (fun hash field => hash.insert field.1 field.2)
          ((space.find now name).getD {}).hash } := by
    rw [Redis.Keyspace.hset, Redis.Keyspace.find_insert, if_pos rfl]
    exact Option.filter_eq_some_iff.2 ⟨rfl, by simpa [Redis.Key.Expired] using unexpired⟩
  have future : ∀ hash : Redis.Hash,
      ¬Redis.Key.Expired { hash := hash, deadline := some (now + millis * 1000000) } now := by
    intro hash
    rw [Redis.Key.expired_iff rfl]
    have later : (0 : Int) < millis * 1000000 := by omega
    exact not_le.2 (lt_add_of_pos_right now later)
  rw [Redis.Keyspace.pexpire, written]
  simp only [if_neg (not_le.2 positive)]
  rw [Redis.Keyspace.find_insert]
  by_cases same : other = name
  · rw [if_pos same, if_pos same]
    exact Option.filter_eq_some_iff.2 ⟨rfl, by simpa using future _⟩
  · rw [if_neg same, if_neg same, Redis.Keyspace.hset, Redis.Keyspace.find_insert, if_neg same]

theorem Redis.Keyspace.hget_none {name : String} (missing : space.find now name = none)
    (field : String) : space.hget now name field = none := by
  rw [Redis.Keyspace.hget, missing]
  rfl

theorem Redis.Keyspace.hget_some {name : String} {key : Redis.Key}
    (found : space.find now name = some key) (field : String) :
    space.hget now name field = key.hash.lookup field := by
  rw [Redis.Keyspace.hget, found]
  rfl

/-- What a claim grants, if anything, and how far the counter moves. -/
structure Grants (memory next : MemoryStore) (drawn : String) (ours theirs : List String) : Prop where
  both : (ours = [] ∧ theirs = [] ∧ next.sequence = memory.sequence) ∨
    (ours = [MemoryStore.formatToken (memory.sequence + 1)] ∧ theirs = [drawn] ∧
      next.sequence = memory.sequence + 1)

include paired in
theorem claim_agrees (lengths : redisTokens.length = memoryTokens.length) (ctx : Context)
    (key fingerprint : String) (whole : 1000000 ∣ ttl) {drawn : String} (nonempty : drawn ≠ "") :
    StoreAnswer.Matches (.claimed (memory.claim ctx now key fingerprint ttl).1)
        (.claimed (Redis.claim namespaced drawn space ctx now key fingerprint ttl).1) ∧
      Paired namespaced
        (memoryTokens ++ (StoreAnswer.claimed (memory.claim ctx now key fingerprint ttl).1).grant)
        (redisTokens ++ (StoreAnswer.claimed
          (Redis.claim namespaced drawn space ctx now key fingerprint ttl).1).grant)
        (memory.claim ctx now key fingerprint ttl).2
        (Redis.claim namespaced drawn space ctx now key fingerprint ttl).2 now ∧
      Grants memory (memory.claim ctx now key fingerprint ttl).2 drawn
        (StoreAnswer.claimed (memory.claim ctx now key fingerprint ttl).1).grant
        (StoreAnswer.claimed (Redis.claim namespaced drawn space ctx now key fingerprint ttl).1).grant := by
  unfold claim Redis.claim
  cases valid : validateClaim ctx key fingerprint ttl with
  | error cause =>
    refine ⟨rfl, ?_, ⟨.inl ⟨rfl, rfl, rfl⟩⟩⟩
    simpa [StoreAnswer.grant] using paired
  | ok checked =>
    obtain ⟨-, positive⟩ := validateClaim_ok valid
    obtain ⟨millis, future⟩ := redisMillis_mul positive whole
    cases ours : memory.live now key with
    | none =>
      have theirs := paired.free ours
      simp only [Redis.Keyspace.claimScript, Redis.Keyspace.hget_none theirs]
      refine ⟨⟨rfl, ?_, rfl, rfl⟩, ?_, ⟨.inr ⟨rfl, rfl, rfl⟩⟩⟩
      · exact iff_of_false nonempty (formatToken_ne_empty _)
      · have grown : Paired namespaced (memoryTokens ++ [formatToken (memory.sequence + 1)])
            (redisTokens ++ [drawn]) memory space now :=
          fun other => (paired other).grow lengths _ _
        have kept : ¬(now + ttl ≤ now) := not_le.2 (lt_add_of_pos_right now positive)
        have reserved : Mirrors (memoryTokens ++ [formatToken (memory.sequence + 1)])
            (redisTokens ++ [drawn])
            { state := .inFlight, token := formatToken (memory.sequence + 1),
              fingerprint := fingerprint, expiresAt := now + ttl }
            { hash := (((∅ : Redis.Hash).insert "state" (.text "i")).insert "token"
                (.text drawn)).insert "fp" (.text fingerprint)
              deadline := some (now + ttl) } := by
          refine ⟨rfl, ?_, ?_, ⟨memoryTokens.length, by simp, ?_, ?_⟩, by simp⟩
          · simp [EntryState.text]
          · simp
          · rw [List.getD_append_right _ _ _ _ (le_refl _), Nat.sub_self]
            rfl
          · rw [List.getD_append_right _ _ _ _ lengths.le, lengths, Nat.sub_self]
            simp
        refine grown.replace key (.some reserved) ?_ ?_
        · intro other
          rw [live_insert { entries := memory.entries.erase key }]
          by_cases same : other = key
          · rw [if_pos same, if_pos same]
            exact Option.filter_eq_some_iff.2 ⟨rfl, by simpa [MemEntry.Expired] using kept⟩
          · rw [if_neg same, if_neg same]
            exact (memory.live_erase now key other).trans (if_neg same)
        · intro name
          rw [Redis.Keyspace.find_hset_pexpire _ _ _ _ _ future, millis, theirs]
          rfl
    | some entry =>
      obtain ⟨record, theirs, mirrors⟩ := paired.taken ours
      simp only [Redis.Keyspace.claimScript, Redis.Keyspace.hget_some theirs,
        mirrors.state, mirrors.fingerprint]
      have unchanged : Paired namespaced (memoryTokens ++ []) (redisTokens ++ []) memory
          space now := by
        simpa using paired
      by_cases same : entry.fingerprint = fingerprint
      · cases state : entry.state with
        | inFlight =>
          simp only [same, EntryState.text, ne_eq, not_true_eq_false, if_false, if_true,
            Redis.redisClaimResult, String.reduceEq]
          exact ⟨⟨rfl, Iff.rfl, rfl, rfl⟩, unchanged, ⟨.inl ⟨rfl, rfl, rfl⟩⟩⟩
        | completed =>
          obtain ⟨stored, resp, decoded⟩ := mirrors.response state
          simp only [same, EntryState.text, resp, decoded, ne_eq, not_true_eq_false,
            if_false, if_true, Redis.redisClaimResult, String.reduceEq,
            Redis.Value.text.injEq]
          exact ⟨⟨rfl, Iff.rfl, rfl, rfl⟩, unchanged, ⟨.inl ⟨rfl, rfl, rfl⟩⟩⟩
      · simp only [ne_eq, same, not_false_eq_true, if_true, Option.some.injEq,
          Redis.Value.text.injEq, Redis.redisClaimResult, String.reduceEq, if_false]
        exact ⟨⟨rfl, Iff.rfl, rfl, rfl⟩, unchanged, ⟨.inl ⟨rfl, rfl, rfl⟩⟩⟩

/-- `Commit` looks at nothing but the live record. -/
theorem MemoryStore.commit_live (memory : MemoryStore) (ctx : Context) (now : Time)
    (key token fingerprint : String) (response : CachedResponse) (ttl : Duration)
    (valid : validateCommit ctx key token ttl = .ok ()) :
    memory.commit ctx now key token fingerprint response ttl = match memory.live now key with
      | none => (.error .reservationLost, memory)
      | some entry =>
        if entry.state ≠ .inFlight ∨ entry.token ≠ token then (.error .reservationLost, memory)
        else if entry.fingerprint ≠ fingerprint then (.error .fingerprintMismatch, memory)
        else
          (.ok (), { memory with
            entries := memory.entries.insert key
              { state := .completed, token := token, fingerprint := fingerprint,
                resp := response, expiresAt := now + ttl } }) := by
  unfold commit live
  rw [valid]
  cases memory.entries.lookup key with
  | none => rfl
  | some entry =>
    by_cases expired : entry.Expired now
    · simp [Option.filter, expired]
    · simp [Option.filter, expired]

variable {ctx : Context}

theorem validateCommit_congr {token other : String} (same : other = "" ↔ token = "") :
    validateCommit ctx key other ttl = validateCommit ctx key token ttl := by
  simp only [validateCommit, same]

theorem validateRelease_congr {token other : String} (same : other = "" ↔ token = "") :
    validateRelease ctx key other = validateRelease ctx key token := by
  simp only [validateRelease, same]

variable {token : TokenRef}

/-- The owner check of the scripts, for a record that mirrors an entry. -/
theorem Mirrors.owned_iff {entry : MemEntry} {record : Redis.Key}
    (mirrors : Mirrors memoryTokens redisTokens entry record)
    (issued : Issued memoryTokens redisTokens)
    (foreign : ∀ text, token = .text text → text ∉ memoryTokens ∧ text ∉ redisTokens) :
    (record.hash.lookup "state" ≠ some (.text "i") ∨
        record.hash.lookup "token" ≠ some (.text (token.resolve redisTokens))) ↔
      (entry.state ≠ .inFlight ∨ entry.token ≠ token.resolve memoryTokens) := by
  obtain ⟨number, inside, ours, theirs⟩ := mirrors.token
  rw [mirrors.state, theirs, ours]
  have states : entry.state.text = "i" ↔ entry.state = .inFlight := by
    cases entry.state <;> simp [EntryState.text]
  simp only [ne_eq, Option.some.injEq, Redis.Value.text.injEq, states,
    issued.owns_iff inside foreign]

variable (issued : Issued memoryTokens redisTokens)

include paired issued in
theorem commit_agrees (ctx : Context) (key fingerprint : String) {response : CachedResponse}
    (whole : 1000000 ∣ ttl) (encoded : response.header.Encoded)
    (foreign : ∀ text, token = .text text → text ∉ memoryTokens ∧ text ∉ redisTokens) :
    StoreAnswer.Matches
        (.settled (memory.commit ctx now key (token.resolve memoryTokens) fingerprint response ttl).1)
        (.settled (Redis.commit namespaced space ctx now key (token.resolve redisTokens) fingerprint
          response ttl).1) ∧
      Paired namespaced memoryTokens redisTokens
        (memory.commit ctx now key (token.resolve memoryTokens) fingerprint response ttl).2
        (Redis.commit namespaced space ctx now key (token.resolve redisTokens) fingerprint response
          ttl).2 now ∧
      (memory.commit ctx now key (token.resolve memoryTokens) fingerprint response ttl).2.sequence =
        memory.sequence := by
  unfold Redis.commit
  rw [validateCommit_congr (issued.resolve_empty token)]
  cases valid : validateCommit ctx key (token.resolve memoryTokens) ttl with
  | error cause =>
    rw [commit, valid]
    exact ⟨rfl, paired, rfl⟩
  | ok checked =>
    rw [commit_live _ _ _ _ _ _ _ _ valid]
    obtain ⟨millis, future⟩ := redisMillis_mul (validateCommit_ok valid) whole
    cases ours : memory.live now key with
    | none =>
      have theirs := paired.free ours
      simp only [Redis.Keyspace.commitScript, Redis.Keyspace.hget_none theirs]
      exact ⟨rfl, paired, trivial⟩
    | some entry =>
      obtain ⟨record, theirs, mirrors⟩ := paired.taken ours
      simp only [Redis.Keyspace.commitScript, Redis.Keyspace.hget_some theirs,
        mirrors.owned_iff issued foreign, mirrors.fingerprint]
      by_cases lost : entry.state ≠ .inFlight ∨ entry.token ≠ token.resolve memoryTokens
      · rw [if_pos lost, if_pos lost]
        exact ⟨rfl, paired, rfl⟩
      rw [if_neg lost, if_neg lost]
      by_cases same : entry.fingerprint = fingerprint
      · rw [if_neg (by simp [same]), if_neg (by simp [same])]
        refine ⟨trivial, ?_, rfl⟩
        obtain ⟨number, inside, owned, held⟩ := mirrors.token
        have token_eq : entry.token = token.resolve memoryTokens := by
          by_contra different
          exact lost (.inr different)
        have kept : ¬(now + ttl ≤ now) :=
          not_le.2 (lt_add_of_pos_right now (validateCommit_ok valid))
        have completed : Mirrors memoryTokens redisTokens
            { state := .completed, token := token.resolve memoryTokens,
              fingerprint := fingerprint, resp := response, expiresAt := now + ttl }
            { hash := (record.hash.insert "state" (.text "c")).insert "resp"
                (.json (encodeRedisResponse response))
              deadline := some (now + ttl) } := by
          refine ⟨rfl, ?_, ?_, ⟨number, inside, ?_, ?_⟩, fun _ =>
            ⟨encodeRedisResponse response, by simp, ?_⟩⟩
          · simp [EntryState.text]
          · simpa [same] using mirrors.fingerprint
          · rw [← token_eq, owned]
          · simpa using held
          · simp [Redis.decodeRedisResponse, encodeRedisResponse,
              decodeHeader_encodeHeader_of_encoded encoded]
        refine paired.replace key (.some completed) ?_ ?_
        · intro other
          rw [live_insert]
          by_cases at_key : other = key
          · rw [if_pos at_key, if_pos at_key]
            exact Option.filter_eq_some_iff.2 ⟨rfl, by simpa [MemEntry.Expired] using kept⟩
          · rw [if_neg at_key, if_neg at_key]
        · intro name
          rw [Redis.Keyspace.find_hset_pexpire _ _ _ _ _ future, millis, theirs]
          rfl
      · rw [if_pos same, if_pos (by simpa using same)]
        exact ⟨rfl, paired, rfl⟩

/-- An expired reservation that a token would still own. -/
def MemoryStore.OwnedExpired (memory : MemoryStore) (now : Time) (key token : String) : Prop :=
  ∃ entry, memory.entries.lookup key = some entry ∧ entry.state = .inFlight ∧
    entry.token = token ∧ entry.Expired now

/-- What the two stores make of a release that passes its checks. -/
inductive ReleaseOutcome (namespaced : String) (memory : MemoryStore) (space : Redis.Keyspace)
    (ctx : Context) (now : Time) (key ours theirs : String) : Prop where
  | lost (memoryLost : memory.release ctx key ours = (.error .reservationLost, memory))
      (redisLost : Redis.release namespaced space ctx now key theirs =
        (.error (.store .reservationLost), space))
      (prompt : ¬memory.OwnedExpired now key ours)
  | released
      (memoryReleased : memory.release ctx key ours =
        (.ok (), { memory with entries := memory.entries.erase key }))
      (redisReleased : Redis.release namespaced space ctx now key theirs =
        (.ok (), space.erase (namespaced ++ key)))
      (prompt : ¬memory.OwnedExpired now key ours)
  | late
      (memoryReleased : memory.release ctx key ours =
        (.ok (), { memory with entries := memory.entries.erase key }))
      (redisLost : Redis.release namespaced space ctx now key theirs =
        (.error (.store .reservationLost), space))
      (gone : memory.live now key = none) (late : memory.OwnedExpired now key ours)

include paired issued in
theorem release_outcome (valid : validateRelease ctx key (token.resolve memoryTokens) = .ok ())
    (foreign : ∀ text, token = .text text → text ∉ memoryTokens ∧ text ∉ redisTokens) :
    ReleaseOutcome namespaced memory space ctx now key (token.resolve memoryTokens)
      (token.resolve redisTokens) := by
  have checked : validateRelease ctx key (token.resolve redisTokens) = .ok () := by
    rw [validateRelease_congr (issued.resolve_empty token), valid]
  have redisLost (gone : memory.live now key = none) :
      Redis.release namespaced space ctx now key (token.resolve redisTokens) =
        (.error (.store .reservationLost), space) := by
    simp [Redis.release, checked, Redis.Keyspace.releaseScript,
      Redis.Keyspace.hget_none (paired.free gone), Redis.redisOutcome]
  cases stored : memory.entries.lookup key with
  | none =>
    refine .lost ?_ (redisLost (by simp [live, stored])) ?_
    · simp [release, valid, stored]
    · rintro ⟨entry, present, -⟩
      rw [stored] at present
      cases present
  | some entry =>
    by_cases expired : entry.Expired now
    · have gone : memory.live now key = none := by
        simp [live, stored, Option.filter, expired]
      by_cases lost : entry.state ≠ .inFlight ∨ entry.token ≠ token.resolve memoryTokens
      · refine .lost ?_ (redisLost gone) ?_
        · simp [release, valid, stored, lost]
        · rintro ⟨other, present, inFlight, owned, -⟩
          rw [stored, Option.some.injEq] at present
          subst present
          exact lost.elim (absurd inFlight) (absurd owned)
      · rw [not_or, not_not, not_not] at lost
        refine .late ?_ (redisLost gone) gone ⟨entry, stored, lost.1, lost.2, expired⟩
        simp [release, valid, stored, lost]
    · have live : memory.live now key = some entry := by
        simp [live, stored, Option.filter, expired]
      obtain ⟨record, theirs, mirrors⟩ := paired.taken live
      have prompt : ¬memory.OwnedExpired now key (token.resolve memoryTokens) := by
        rintro ⟨other, present, -, -, past⟩
        rw [stored, Option.some.injEq] at present
        exact expired (present ▸ past)
      have script : space.releaseScript now (namespaced ++ key) (token.resolve redisTokens) =
          if entry.state ≠ .inFlight ∨ entry.token ≠ token.resolve memoryTokens then ("lost", space)
          else ("ok", space.del (namespaced ++ key)) := by
        simp only [Redis.Keyspace.releaseScript, Redis.Keyspace.hget_some theirs,
          mirrors.owned_iff issued foreign]
      by_cases lost : entry.state ≠ .inFlight ∨ entry.token ≠ token.resolve memoryTokens
      · refine .lost ?_ ?_ prompt
        · simp [release, valid, stored, lost]
        · simp [Redis.release, checked, script, lost, Redis.redisOutcome]
      · refine .released ?_ ?_ prompt
        · simp [release, valid, stored, lost]
        · simp [Redis.release, checked, script, lost, Redis.redisOutcome, Redis.Keyspace.del]

theorem Exchange.late_release {answer : StoreAnswer Error} {redis : StoreAnswer Redis.Failure} :
    Exchange.Late ⟨now, .release ctx key token, memory, memoryTokens, answer, redis⟩ ↔
      validateRelease ctx key (token.resolve memoryTokens) = .ok () ∧
        memory.OwnedExpired now key (token.resolve memoryTokens) := by
  constructor
  · rintro ⟨_, _, _, entry, called, checked, stored⟩
    obtain ⟨rfl, rfl, rfl⟩ := SharedCall.release.inj called
    exact ⟨checked, entry, stored⟩
  · rintro ⟨checked, entry, stored⟩
    exact ⟨ctx, key, token, entry, rfl, checked, stored⟩

include paired issued in
theorem release_agrees (ctx : Context) (key : String)
    (foreign : ∀ text, token = .text text → text ∉ memoryTokens ∧ text ∉ redisTokens) :
    Exchange.Agrees ⟨now, .release ctx key token, memory, memoryTokens,
        .settled (memory.release ctx key (token.resolve memoryTokens)).1,
        .settled (Redis.release namespaced space ctx now key (token.resolve redisTokens)).1⟩ ∧
      Paired namespaced memoryTokens redisTokens
        (memory.release ctx key (token.resolve memoryTokens)).2
        (Redis.release namespaced space ctx now key (token.resolve redisTokens)).2 now ∧
      (memory.release ctx key (token.resolve memoryTokens)).2.sequence = memory.sequence := by
  rw [Exchange.Agrees, Exchange.late_release]
  cases valid : validateRelease ctx key (token.resolve memoryTokens) with
  | error cause =>
    have ours : memory.release ctx key (token.resolve memoryTokens) = (.error cause, memory) := by
      rw [release, valid]
    have theirs : Redis.release namespaced space ctx now key (token.resolve redisTokens) =
        (.error (.store cause), space) := by
      rw [Redis.release, validateRelease_congr (issued.resolve_empty token), valid]
    rw [ours, theirs]
    exact ⟨⟨fun _ => rfl, by simp⟩, paired, rfl⟩
  | ok checked =>
    cases release_outcome paired issued valid foreign with
    | lost memoryLost redisLost prompt =>
      rw [memoryLost, redisLost]
      exact ⟨⟨fun _ => rfl, fun late => absurd late.2 prompt⟩, paired, rfl⟩
    | released memoryReleased redisReleased prompt =>
      rw [memoryReleased, redisReleased]
      refine ⟨⟨fun _ => trivial, fun late => absurd late.2 prompt⟩, ?_, rfl⟩
      exact paired.replace key .none (memory.live_erase now key)
        (space.find_erase now (namespaced ++ key))
    | late memoryReleased redisLost gone late =>
      rw [memoryReleased, redisLost]
      refine ⟨⟨fun prompt => absurd ⟨rfl, late⟩ prompt, fun _ => ⟨rfl, rfl⟩⟩, ?_, rfl⟩
      -- the released entry was not live, so nothing changes for the server
      intro other
      rw [memory.live_erase]
      by_cases same : other = key
      · rw [if_pos same, ← gone, ← same]
        exact paired other
      · rw [if_neg same]
        exact paired other

end Golusoris.Idempotency
