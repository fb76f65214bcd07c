import Golusoris.Idempotency.SqlRows

/-!
# The Redis store

`idempotency/redis` keeps each record as one hash that the server expires. Its
three Lua scripts are functions on a keyspace at an instant: the server runs a
script alone, and a key whose deadline has passed is not there. The JSON form of
a response is its members: `encodeHeader` of the header, and the body, whose
base64 text stands for exactly its bytes.
-/

namespace Golusoris.Idempotency

/-- `redisResponse` as JSON. -/
structure ResponseJson where
  status : Int
  header : HeaderJson
  body : Bytes
  deriving DecidableEq

def encodeRedisResponse (response : CachedResponse) : ResponseJson where
  status := response.statusCode
  header := encodeHeader response.header
  body := response.body

namespace Redis

/-- A field of a hash, or an element of a reply. -/
inductive Value where
  | text (text : String)
  | json (response : ResponseJson)
  deriving DecidableEq

abbrev Hash := Finmap (fun _ : String => Value)

structure Key where
  hash : Hash := ∅
  deadline : Option Time := none

abbrev Keyspace := Finmap (fun _ : String => Key)

def Key.Expired (key : Key) (now : Time) : Prop := ∃ deadline ∈ key.deadline, deadline ≤ now

instance (key : Key) (now : Time) : Decidable (key.Expired now) :=
  inferInstanceAs (Decidable (∃ deadline ∈ key.deadline, deadline ≤ now))

namespace Keyspace

/-- A key as a command sees it. -/
def find (space : Keyspace) (now : Time) (name : String) : Option Key :=
  (space.lookup name).filter fun key => ¬key.Expired now

/-- One field of `HMGET`. -/
def hget (space : Keyspace) (now : Time) (name field : String) : Option Value :=
  (space.find now name).bind fun key => key.hash.lookup field

/-- `HSET`: a new key has no deadline. -/
def hset (space : Keyspace) (now : Time) (name : String) (fields : List (String × Value)) :
    Keyspace :=
  let key := (space.find now name).getD {}
  space.insert name
    { key with hash := fields.foldl (fun hash field => hash.insert field.1 field.2) key.hash }

/-- `PEXPIRE`; a deadline that is not in the future deletes the key. -/
def pexpire (space : Keyspace) (now : Time) (name : String) (millis : Int) : Keyspace :=
  match space.find now name with
  | none => space
  | some key =>
      if millis ≤ 0 then space.erase name
      else space.insert name { key with deadline := some (now + millis * 1000000) }

def del (space : Keyspace) (name : String) : Keyspace := space.erase name

/-- `redisClaimScript`; a missing field in the reply is a nil element. -/
def claimScript (space : Keyspace) (now : Time) (name fingerprint token : String) (millis : Int) :
    List (Option Value) × Keyspace :=
  match space.hget now name "state" with
  | none =>
      let stored := space.hset now name
        [("state", .text "i"), ("token", .text token), ("fp", .text fingerprint)]
      ([some (.text "acquired")], stored.pexpire now name millis)
  | some state =>
      if space.hget now name "fp" ≠ some (.text fingerprint) then ([some (.text "mismatch")], space)
      else if state = .text "i" then ([some (.text "inflight")], space)
      else ([some (.text "completed"), space.hget now name "resp"], space)

/-- `redisCommitScript`. -/
def commitScript (space : Keyspace) (now : Time) (name token fingerprint : String)
    (response : ResponseJson) (millis : Int) : String × Keyspace :=
  if space.hget now name "state" ≠ some (.text "i") ∨
      space.hget now name "token" ≠ some (.text token) then ("lost", space)
  else if space.hget now name "fp" ≠ some (.text fingerprint) then ("mismatch", space)
  else
    let stored := space.hset now name [("state", .text "c"), ("resp", .json response)]
    ("ok", stored.pexpire now name millis)

/-- `redisReleaseScript`. -/
def releaseScript (space : Keyspace) (now : Time) (name token : String) : String × Keyspace :=
  if space.hget now name "state" ≠ some (.text "i") ∨
      space.hget now name "token" ≠ some (.text token) then ("lost", space)
  else ("ok", space.del name)

end Keyspace

/-- What the store's methods return an error for. -/
inductive Failure where
  | store (cause : Error)
  | emptyReply
  | outcome
  | withoutResponse
  | response
  | unknownOutcome (name : String)
  deriving DecidableEq, Repr

def Failure.message : Failure → String
  | .store cause => cause.message
  | .emptyReply => "idempotency: claim: redis: empty reply"
  | .outcome => "idempotency: claim: redis outcome"
  | .withoutResponse => "idempotency: claim: redis: completed reply without response"
  | .response => "idempotency: claim: decode redis response"
  | .unknownOutcome name => "idempotency: redis: unknown outcome " ++ name

def decodeRedisResponse : Option Value → Except Failure CachedResponse
  | none | some (.text _) => .error .response
  | some (.json stored) =>
      .ok { statusCode := stored.status, header := decodeHeader stored.header, body := stored.body }

def redisClaimResult (reply : List (Option Value)) (fingerprint token : String) :
    Except Failure ClaimResult :=
  match reply with
  | [] => .error .emptyReply
  | none :: _ | some (.json _) :: _ => .error .outcome
  | some (.text outcome) :: rest =>
      if outcome = "acquired" then .ok { state := .acquired, token }
      else if outcome = "inflight" then .ok { state := .inFlight }
      else if outcome = "mismatch" then .ok { state := .fingerprintMismatch }
      else if outcome = "completed" then
        match rest with
        | [] => .error .withoutResponse
        | message :: _ =>
            match decodeRedisResponse message with
            | .error cause => .error cause
            | .ok response => .ok { state := .completed, fingerprint, response }
      else .error (.unknownOutcome outcome)

def redisOutcome (outcome : String) : Except Failure Unit :=
  if outcome = "ok" then .ok ()
  else if outcome = "lost" then .error (.store .reservationLost)
  else if outcome = "mismatch" then .error (.store .fingerprintMismatch)
  else .error (.unknownOutcome outcome)

/-- `redisMillis` rounds up to whole milliseconds. -/
def redisMillis (ttl : Duration) : Int :=
  let millis := ttl.tdiv 1000000
  if millis * 1000000 < ttl then millis + 1 else millis

/-- `Store.Claim`; `token` is what `rand.Text` returned. -/
def claim (namespaced token : String) (space : Keyspace) (ctx : Context) (now : Time)
    (key fingerprint : String) (ttl : Duration) : Except Failure ClaimResult × Keyspace :=
  match validateClaim ctx key fingerprint ttl with
  | .error cause => (.error (.store cause), space)
  | .ok () =>
      let (reply, next) :=
        space.claimScript now (namespaced ++ key) fingerprint token (redisMillis ttl)
      (redisClaimResult reply fingerprint token, next)

/-- `Store.Commit`. -/
def commit (namespaced : String) (space : Keyspace) (ctx : Context) (now : Time)
    (key token fingerprint : String) (response : CachedResponse) (ttl : Duration) :
    Except Failure Unit × Keyspace :=
  match validateCommit ctx key token ttl with
  | .error cause => (.error (.store cause), space)
  | .ok () =>
      let (outcome, next) := space.commitScript now (namespaced ++ key) token fingerprint
        (encodeRedisResponse response) (redisMillis ttl)
      (redisOutcome outcome, next)

/-- `Store.Release`. -/
def release (namespaced : String) (space : Keyspace) (ctx : Context) (now : Time)
    (key token : String) : Except Failure Unit × Keyspace :=
  match validateRelease ctx key token with
  | .error cause => (.error (.store cause), space)
  | .ok () =>
      let (outcome, next) := space.releaseScript now (namespaced ++ key) token
      (redisOutcome outcome, next)

end Redis

end Golusoris.Idempotency
