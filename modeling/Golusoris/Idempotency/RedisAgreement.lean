import Golusoris.Idempotency.RedisCalls

/-!
# The Redis store answers as `MemoryStore` does

The stores stay paired along every sequence of calls, so every answer is the
same except in one case: `MemoryStore` keeps an expired reservation until its
key is claimed again, so its owner can still release it, while the server has
already dropped the key.
-/

namespace Golusoris.Idempotency

open Lib

variable {now : Time} {namespaced : String}

/-- The two stores after some calls. -/
structure Pair.Linked (namespaced : String) (pair : Pair) : Prop where
  paired : Paired namespaced pair.memoryTokens pair.redisTokens pair.memory pair.space pair.clock
  lengths : pair.redisTokens.length = pair.memoryTokens.length
  counted : pair.memoryTokens = Ledger.tokens pair.memoryTokens.length
  sequence : pair.memory.sequence = UInt64.ofNat pair.memoryTokens.length
  distinct : pair.redisTokens.Nodup
  nonempty : "" ∉ pair.redisTokens

theorem Pair.Linked.issued {pair : Pair} (linked : pair.Linked namespaced)
    (bounded : pair.memoryTokens.length ≤ 2 ^ 64) :
    Issued pair.memoryTokens pair.redisTokens where
  lengths := linked.lengths
  memory := by
    rw [linked.counted]
    exact Ledger.tokens_nodup bounded
  redis := linked.distinct
  memoryNonempty := by
    rw [linked.counted]
    intro member
    obtain ⟨index, -, empty⟩ := List.mem_map.1 member
    exact formatToken_ne_empty _ empty
  redisNonempty := linked.nonempty

/-- A grant extends both lists of tokens. -/
theorem Pair.Linked.grant {pair : Pair} (linked : pair.Linked namespaced) {memory : MemoryStore}
    {space : Redis.Keyspace} {drawn : String} {ours theirs : List String}
    (grants : Grants pair.memory memory drawn ours theirs) (filled : drawn ≠ "")
    (fresh : drawn ∉ pair.redisTokens)
    (paired : Paired namespaced (pair.memoryTokens ++ ours) (pair.redisTokens ++ theirs) memory space
      now) :
    Pair.Linked namespaced ⟨memory, space, pair.memoryTokens ++ ours, pair.redisTokens ++ theirs,
      now⟩ := by
  obtain ⟨rfl, rfl, same⟩ | ⟨rfl, rfl, next⟩ := grants.both
  · refine ⟨paired, by simpa using linked.lengths, by simpa using linked.counted, ?_,
      by simpa using linked.distinct, by simpa using linked.nonempty⟩
    simpa [same] using linked.sequence
  · have successor : memory.sequence = UInt64.ofNat (pair.memoryTokens.length + 1) := by
      rw [next, linked.sequence, UInt64.ofNat_add]
      rfl
    refine ⟨paired, by simpa using linked.lengths, ?_, by simpa using successor, ?_, ?_⟩
    · rw [List.length_append, List.length_singleton, Ledger.tokens_succ, ← linked.counted,
        ← successor, next]
    · exact linked.distinct.append (List.nodup_singleton drawn) (by simpa using fresh)
    · intro member
      rcases List.mem_append.1 member with old | new
      · exact linked.nonempty old
      · exact filled (List.mem_singleton.1 new).symm

theorem Pair.Linked.step {before after : Pair} {exchange : Exchange}
    (linked : before.Linked namespaced) (bounded : before.memoryTokens.length ≤ 2 ^ 64)
    (step : Serves namespaced before exchange after) :
    after.Linked namespaced ∧ exchange.Agrees := by
  obtain ⟨order, admitted, filled, fresh, served, mirrored⟩ := step
  rename_i now request drawn answer redis memory space
  have paired := linked.paired.advance order
  have issued := linked.issued bounded
  have prompt : ∀ {request : SharedCall}, (∀ ctx key token, request ≠ .release ctx key token) →
      answer.Matches redis → Exchange.Agrees ⟨now, request, before.memory, before.memoryTokens, answer,
        redis⟩ := by
    intro request other same
    refine ⟨fun _ => same, ?_⟩
    rintro ⟨ctx, key, token, -, called, -⟩
    exact absurd called (other ctx key token)
  cases request with
  | claim ctx key fingerprint ttl =>
    obtain ⟨agrees, next, grants⟩ :=
      claim_agrees paired linked.lengths ctx key fingerprint admitted filled
    simp only [MemoryStore.handle, Prod.mk.injEq] at served
    simp only [Redis.handle, Prod.mk.injEq] at mirrored
    obtain ⟨rfl, rfl⟩ := served
    obtain ⟨rfl, rfl⟩ := mirrored
    exact ⟨linked.grant grants filled fresh next, prompt (by simp) agrees⟩
  | commit ctx key token fingerprint response ttl =>
    obtain ⟨whole, encoded, foreign⟩ := admitted
    obtain ⟨agrees, next, same⟩ :=
      commit_agrees paired issued ctx key fingerprint whole encoded foreign
    simp only [MemoryStore.handle, Prod.mk.injEq] at served
    simp only [Redis.handle, Prod.mk.injEq] at mirrored
    obtain ⟨rfl, rfl⟩ := served
    obtain ⟨rfl, rfl⟩ := mirrored
    refine ⟨linked.grant ⟨.inl ⟨rfl, rfl, same⟩⟩ filled fresh ?_, prompt (by simp) agrees⟩
    simpa [StoreAnswer.grant] using next
  | release ctx key token =>
    obtain ⟨agrees, next, same⟩ := release_agrees paired issued ctx key admitted
    simp only [MemoryStore.handle, Prod.mk.injEq] at served
    simp only [Redis.handle, Prod.mk.injEq] at mirrored
    obtain ⟨rfl, rfl⟩ := served
    obtain ⟨rfl, rfl⟩ := mirrored
    refine ⟨linked.grant ⟨.inl ⟨rfl, rfl, same⟩⟩ filled fresh ?_, agrees⟩
    simpa [StoreAnswer.grant] using next

theorem Serves.tokens_le {before after : Pair} {exchange : Exchange}
    (step : Serves namespaced before exchange after) :
    before.memoryTokens.length ≤ after.memoryTokens.length := by
  cases step
  simp

/-- In every sequence of calls that grants at most `2 ^ 64` tokens, the Redis
store answers every call as `MemoryStore` does, the release of an expired
reservation by its owner apart. -/
theorem redisStore_agrees {exchanges : List Exchange} {finish : Pair}
    (run : (pairMachine namespaced).Run exchanges finish)
    (bounded : finish.memoryTokens.length ≤ 2 ^ 64) :
    ∀ exchange ∈ exchanges, exchange.Agrees := by
  have invariant : finish.memoryTokens.length ≤ 2 ^ 64 →
      finish.Linked namespaced ∧ ∀ exchange ∈ exchanges, exchange.Agrees := by
    refine run.history_invariant (fun history pair => pair.memoryTokens.length ≤ 2 ^ 64 →
      pair.Linked namespaced ∧ ∀ exchange ∈ history, exchange.Agrees) ?_ ?_
    · rintro ⟨memory, space, ours, theirs, clock⟩ ⟨rfl, rfl, rfl, rfl⟩ -
      refine ⟨⟨fun key => ?_, rfl, rfl, rfl, List.nodup_nil, by simp⟩, by simp⟩
      exact .none
    · intro history before exchange after holds step bounded
      have earlier : before.memoryTokens.length ≤ 2 ^ 64 := (Serves.tokens_le step).trans bounded
      obtain ⟨linked, agreed⟩ := holds earlier
      obtain ⟨next, agrees⟩ := linked.step earlier step
      refine ⟨next, ?_⟩
      intro other member
      rcases List.mem_append.1 member with old | new
      · exact agreed other old
      · exact List.mem_singleton.1 new ▸ agrees
  exact (invariant bounded).2

/-- The table after a claim of `k` at time 0 for one millisecond. -/
def reservedTable : MemoryStore where
  entries := (∅ : Finmap _).insert "k"
    { state := .inFlight, token := "1", fingerprint := "f", expiresAt := 1000000 }
  sequence := 1

def claimExchange : Exchange where
  now := 0
  request := .claim {} "k" "f" 1000000
  memory := {}
  tokens := []
  answer := .claimed (.ok { state := .acquired, token := "1" })
  redis := .claimed (.ok { state := .acquired, token := "R" })

/-- The owner releases the reservation when it expires. -/
def lateExchange : Exchange where
  now := 1000000
  request := .release {} "k" (.granted 0)
  memory := reservedTable
  tokens := ["1"]
  answer := .settled (.ok ())
  redis := .settled (.error (.store .reservationLost))

theorem lateRelease_run : ∃ finish, (pairMachine "p:").Run [claimExchange, lateExchange] finish ∧
    finish.memoryTokens = ["1"] := by
  have idle : (pairMachine "p:").Run [] { clock := 0 } := ⟨_, ⟨rfl, rfl, rfl, rfl⟩, .nil _⟩
  have claimed := idle.snoc (@Serves.serve "p:" _ 0 (le_refl _) (.claim {} "k" "f" 1000000)
    (Dvd.intro 1 rfl) "R" (by simp) (by simp) _ _ _ _ rfl rfl)
  have released := claimed.snoc (@Serves.serve "p:" _ 1000000 (by decide)
    (.release {} "k" (.granted 0)) (by intro text same; cases same) "S" (by simp) (by decide)
    _ _ _ _ rfl rfl)
  exact ⟨_, released, rfl⟩

/-- The calls of that run agree up to the late release. -/
theorem redisStore_agrees_late :
    ∃ finish, (pairMachine "p:").Run [claimExchange, lateExchange] finish ∧
      finish.memoryTokens.length ≤ 2 ^ 64 ∧ claimExchange.Agrees ∧ lateExchange.Agrees := by
  obtain ⟨finish, run, tokens⟩ := lateRelease_run
  have bounded : finish.memoryTokens.length ≤ 2 ^ 64 := by
    rw [tokens]
    decide
  have agrees := redisStore_agrees run bounded
  exact ⟨finish, run, bounded, agrees _ (by simp), agrees _ (by simp)⟩

/-- `MemoryStore` reports success for the late release, Redis a lost reservation. -/
theorem redisStore_not_agrees :
    (∃ finish, (pairMachine "p:").Run [claimExchange, lateExchange] finish) ∧
      ¬lateExchange.answer.Matches lateExchange.redis := by
  obtain ⟨finish, run, -⟩ := lateRelease_run
  exact ⟨⟨finish, run⟩, fun same => same⟩

end Golusoris.Idempotency
