import Golusoris.Idempotency.Ledger
import Golusoris.Idempotency.RedisStore
import Mathlib.Data.List.GetD

/-!
# One sequence of calls to two stores

The same calls are made to `MemoryStore` and to the Redis store at the same
clock readings. A call names a token by the grant that it came from, since the
two stores hand out different texts, or gives a text that neither store has
handed out. `Mirrors` says what the fields of a hash hold for an entry of the
table, and `Issued` relates the two lists of tokens.
-/

namespace Golusoris.Idempotency

open Lib

/-- The token of a grant, counted from the first, or some other text. -/
inductive TokenRef where
  | granted (number : Nat)
  | text (text : String)
  deriving DecidableEq, Repr

def TokenRef.resolve (tokens : List String) : TokenRef → String
  | .granted number => tokens.getD number ""
  | .text value => value

inductive SharedCall where
  | claim (ctx : Context) (key fingerprint : String) (ttl : Duration)
  | commit (ctx : Context) (key : String) (token : TokenRef) (fingerprint : String)
      (response : CachedResponse) (ttl : Duration)
  | release (ctx : Context) (key : String) (token : TokenRef)

inductive StoreAnswer (Failure : Type) where
  | claimed (result : Except Failure ClaimResult)
  | settled (result : Except Failure Unit)

/-- The token that an answer grants. -/
def StoreAnswer.grant {Failure : Type} : StoreAnswer Failure → List String
  | .claimed (.ok result) => if result.state = .acquired then [result.token] else []
  | _ => []

def MemoryStore.handle (store : MemoryStore) (tokens : List String) (now : Time) :
    SharedCall → StoreAnswer Error × MemoryStore
  | .claim ctx key fingerprint ttl =>
      let (result, next) := store.claim ctx now key fingerprint ttl
      (.claimed result, next)
  | .commit ctx key token fingerprint response ttl =>
      let (result, next) :=
        store.commit ctx now key (token.resolve tokens) fingerprint response ttl
      (.settled result, next)
  | .release ctx key token =>
      let (result, next) := store.release ctx key (token.resolve tokens)
      (.settled result, next)

def Redis.handle (namespaced drawn : String) (space : Redis.Keyspace) (tokens : List String)
    (now : Time) : SharedCall → StoreAnswer Redis.Failure × Redis.Keyspace
  | .claim ctx key fingerprint ttl =>
      let (result, next) := Redis.claim namespaced drawn space ctx now key fingerprint ttl
      (.claimed result, next)
  | .commit ctx key token fingerprint response ttl =>
      let (result, next) := Redis.commit namespaced space ctx now key (token.resolve tokens)
        fingerprint response ttl
      (.settled result, next)
  | .release ctx key token =>
      let (result, next) := Redis.release namespaced space ctx now key (token.resolve tokens)
      (.settled result, next)

/-- Both stores, the tokens that each has granted, and the shared clock. -/
structure Pair where
  memory : MemoryStore := {}
  space : Redis.Keyspace := ∅
  memoryTokens : List String := []
  redisTokens : List String := []
  clock : Time

/-- One call and what the two stores answered, with `MemoryStore` as it was. -/
structure Exchange where
  now : Time
  request : SharedCall
  memory : MemoryStore
  tokens : List String
  answer : StoreAnswer Error
  redis : StoreAnswer Redis.Failure

/-- Time to live in whole milliseconds, header text in UTF-8, and no token text
that one of the stores has granted. -/
def SharedCall.Admitted (request : SharedCall) (pair : Pair) : Prop :=
  match request with
  | .claim _ _ _ ttl => 1000000 ∣ ttl
  | .commit _ _ token _ response ttl =>
      1000000 ∣ ttl ∧ response.header.Encoded ∧
        ∀ text, token = .text text → text ∉ pair.memoryTokens ∧ text ∉ pair.redisTokens
  | .release _ _ token =>
      ∀ text, token = .text text → text ∉ pair.memoryTokens ∧ text ∉ pair.redisTokens

/-- The same call to both stores; `drawn` is the fresh text of `rand.Text`. -/
inductive Serves (namespaced : String) : Pair → Exchange → Pair → Prop where
  | serve {pair : Pair} {now : Time} (later : pair.clock ≤ now) {request : SharedCall}
      (admitted : request.Admitted pair) {drawn : String} (nonempty : drawn ≠ "")
      (fresh : drawn ∉ pair.redisTokens) {answer : StoreAnswer Error} {redis : StoreAnswer Redis.Failure}
      {memory : MemoryStore} {space : Redis.Keyspace}
      (served : pair.memory.handle pair.memoryTokens now request = (answer, memory))
      (mirrored : Redis.handle namespaced drawn pair.space pair.redisTokens now request =
        (redis, space)) :
      Serves namespaced pair ⟨now, request, pair.memory, pair.memoryTokens, answer, redis⟩
        { memory := memory
          space := space
          memoryTokens := pair.memoryTokens ++ answer.grant
          redisTokens := pair.redisTokens ++ redis.grant
          clock := now }

def pairMachine (namespaced : String) : Machine Pair Exchange where
  Initial pair := pair.memory = {} ∧ pair.space = ∅ ∧ pair.memoryTokens = [] ∧ pair.redisTokens = []
  Step := Serves namespaced

/-- Two results of a claim that differ in nothing but the token's text. -/
structure ClaimResult.Matches (result other : ClaimResult) : Prop where
  state : other.state = result.state
  token : other.token = "" ↔ result.token = ""
  fingerprint : other.fingerprint = result.fingerprint
  response : other.response = result.response

/-- The same outcome, response and error. -/
def StoreAnswer.Matches : StoreAnswer Error → StoreAnswer Redis.Failure → Prop
  | .claimed (.ok result), .claimed (.ok other) => result.Matches other
  | .claimed (.error cause), .claimed (.error other) => other = .store cause
  | .settled (.ok ()), .settled (.ok ()) => True
  | .settled (.error cause), .settled (.error other) => other = .store cause
  | _, _ => False

/-- The release of a reservation by its owner at or after its expiry. -/
def Exchange.Late (exchange : Exchange) : Prop :=
  ∃ ctx key token entry, exchange.request = .release ctx key token ∧
    validateRelease ctx key (token.resolve exchange.tokens) = .ok () ∧
    exchange.memory.entries.lookup key = some entry ∧ entry.state = .inFlight ∧
    entry.token = token.resolve exchange.tokens ∧ entry.Expired exchange.now

/-- The stores agree on a call that is not a late release; on one that is,
`MemoryStore` releases the reservation and Redis reports it lost. -/
def Exchange.Agrees (exchange : Exchange) : Prop :=
  (¬exchange.Late → exchange.answer.Matches exchange.redis) ∧
    (exchange.Late → exchange.answer = .settled (.ok ()) ∧
      exchange.redis = .settled (.error (.store .reservationLost)))

def EntryState.text : EntryState → String
  | .inFlight => "i"
  | .completed => "c"

/-- A hash holds what the entry holds, with the token of the same grant. -/
structure Mirrors (memoryTokens redisTokens : List String) (entry : MemEntry) (key : Redis.Key) :
    Prop where
  deadline : key.deadline = some entry.expiresAt
  state : key.hash.lookup "state" = some (.text entry.state.text)
  fingerprint : key.hash.lookup "fp" = some (.text entry.fingerprint)
  token : ∃ number, number < memoryTokens.length ∧ entry.token = memoryTokens.getD number "" ∧
    key.hash.lookup "token" = some (.text (redisTokens.getD number ""))
  response : entry.state = .completed → ∃ stored, key.hash.lookup "resp" = some (.json stored) ∧
    Redis.decodeRedisResponse (some (.json stored)) = .ok entry.resp

inductive Corresponds (memoryTokens redisTokens : List String) :
    Option MemEntry → Option Redis.Key → Prop where
  | none : Corresponds memoryTokens redisTokens none none
  | some {entry : MemEntry} {key : Redis.Key}
      (mirrors : Mirrors memoryTokens redisTokens entry key) :
      Corresponds memoryTokens redisTokens (some entry) (some key)

variable {memoryTokens redisTokens : List String} {memory : MemoryStore} {space : Redis.Keyspace}
variable {now later : Time} {namespaced : String}

theorem Redis.Key.expired_iff {key : Redis.Key} {deadline : Time}
    (set : key.deadline = some deadline) : key.Expired now ↔ deadline ≤ now := by
  simp [Redis.Key.Expired, set]

theorem MemoryStore.live_later (order : now ≤ later) (key : String) :
    memory.live later key = (memory.live now key).filter fun entry => ¬entry.Expired later := by
  unfold MemoryStore.live
  cases memory.entries.lookup key with
  | none => rfl
  | some entry =>
    by_cases expired : entry.Expired now
    · have still : entry.Expired later := le_trans expired order
      simp [Option.filter, expired, still]
    · simp [Option.filter, expired]

theorem Redis.Keyspace.find_later (order : now ≤ later) (name : String) :
    space.find later name = (space.find now name).filter fun key => ¬key.Expired later := by
  unfold Redis.Keyspace.find
  cases space.lookup name with
  | none => rfl
  | some key =>
    by_cases expired : key.Expired now
    · have still : key.Expired later := by
        obtain ⟨deadline, set, passed⟩ := expired
        exact ⟨deadline, set, le_trans passed order⟩
      simp [Option.filter, expired, still]
    · simp [Option.filter, expired]

/-- Records that stand for each other expire together. -/
theorem Corresponds.filter {entry : Option MemEntry} {key : Option Redis.Key}
    (corresponds : Corresponds memoryTokens redisTokens entry key) (now : Time) :
    Corresponds memoryTokens redisTokens (entry.filter fun entry => ¬entry.Expired now)
      (key.filter fun key => ¬key.Expired now) := by
  cases corresponds with
  | none => exact .none
  | @some entry key mirrors =>
    by_cases expired : entry.expiresAt ≤ now
    · have gone : key.Expired now := (Redis.Key.expired_iff mirrors.deadline).2 expired
      have past : entry.Expired now := expired
      simp [Option.filter, gone, past, Corresponds.none]
    · have kept : ¬key.Expired now := fun gone =>
        expired ((Redis.Key.expired_iff mirrors.deadline).1 gone)
      have open_ : ¬entry.Expired now := expired
      simpa [Option.filter, kept, open_] using Corresponds.some mirrors

theorem Corresponds.grow {entry : Option MemEntry} {key : Option Redis.Key}
    (corresponds : Corresponds memoryTokens redisTokens entry key)
    (lengths : redisTokens.length = memoryTokens.length) (more others : List String) :
    Corresponds (memoryTokens ++ more) (redisTokens ++ others) entry key := by
  cases corresponds with
  | none => exact .none
  | some mirrors =>
    obtain ⟨number, inside, ours, theirs⟩ := mirrors.token
    refine .some ⟨mirrors.deadline, mirrors.state, mirrors.fingerprint, ⟨number, ?_, ?_, ?_⟩,
      mirrors.response⟩
    · rw [List.length_append]
      omega
    · rw [List.getD_append _ _ _ _ inside]
      exact ours
    · rw [List.getD_append _ _ _ _ (by omega)]
      exact theirs

/-- Both stores have granted the same number of tokens, all of them different. -/
structure Issued (memoryTokens redisTokens : List String) : Prop where
  lengths : redisTokens.length = memoryTokens.length
  memory : memoryTokens.Nodup
  redis : redisTokens.Nodup
  memoryNonempty : "" ∉ memoryTokens
  redisNonempty : "" ∉ redisTokens

theorem getD_mem {tokens : List String} {number : Nat} (inside : number < tokens.length) :
    tokens.getD number "" ∈ tokens := by
  rw [List.getD_eq_getElem _ _ inside]
  exact List.getElem_mem inside

/-- A reference is empty for both stores or for none. -/
theorem Issued.resolve_empty (issued : Issued memoryTokens redisTokens) (token : TokenRef) :
    token.resolve redisTokens = "" ↔ token.resolve memoryTokens = "" := by
  cases token with
  | text value => exact Iff.rfl
  | granted number =>
    by_cases inside : number < memoryTokens.length
    · have ours : memoryTokens.getD number "" ≠ "" :=
        fun empty => issued.memoryNonempty (empty ▸ getD_mem inside)
      have theirs : redisTokens.getD number "" ≠ "" :=
        fun empty => issued.redisNonempty (empty ▸ getD_mem (issued.lengths ▸ inside))
      exact iff_of_false theirs ours
    · have ours : memoryTokens.getD number "" = "" := List.getD_eq_default _ _ (by omega)
      have theirs : redisTokens.getD number "" = "" :=
        List.getD_eq_default _ _ (by rw [issued.lengths]; omega)
      exact iff_of_true theirs ours

theorem getD_inj {tokens : List String} (distinct : tokens.Nodup) {one other : Nat}
    (first : one < tokens.length) (second : other < tokens.length) :
    tokens.getD one "" = tokens.getD other "" ↔ one = other := by
  rw [List.getD_eq_getElem _ _ first, List.getD_eq_getElem _ _ second]
  exact distinct.getElem_inj_iff

/-- A reference owns a grant in both stores or in none. -/
theorem Issued.owns_iff (issued : Issued memoryTokens redisTokens) {number : Nat}
    (inside : number < memoryTokens.length) {token : TokenRef}
    (foreign : ∀ text, token = .text text → text ∉ memoryTokens ∧ text ∉ redisTokens) :
    redisTokens.getD number "" = token.resolve redisTokens ↔
      memoryTokens.getD number "" = token.resolve memoryTokens := by
  have there : number < redisTokens.length := issued.lengths ▸ inside
  cases token with
  | text value =>
    obtain ⟨notOurs, notTheirs⟩ := foreign value rfl
    refine iff_of_false ?_ ?_
    · intro same
      rw [TokenRef.resolve] at same
      exact notTheirs (same ▸ getD_mem there)
    · intro same
      rw [TokenRef.resolve] at same
      exact notOurs (same ▸ getD_mem inside)
  | granted other =>
    by_cases known : other < memoryTokens.length
    · have known' : other < redisTokens.length := issued.lengths ▸ known
      exact (getD_inj issued.redis there known').trans (getD_inj issued.memory inside known).symm
    · have ours : memoryTokens.getD other "" = "" := List.getD_eq_default _ _ (by omega)
      have theirs : redisTokens.getD other "" = "" :=
        List.getD_eq_default _ _ (by rw [issued.lengths]; omega)
      simp only [TokenRef.resolve, ours, theirs]
      refine iff_of_false ?_ ?_
      · exact fun empty => issued.redisNonempty (empty ▸ getD_mem there)
      · exact fun empty => issued.memoryNonempty (empty ▸ getD_mem inside)

end Golusoris.Idempotency
