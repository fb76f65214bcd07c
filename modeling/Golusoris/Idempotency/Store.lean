import Golusoris.Lib.Utf8
import Mathlib.Data.Finmap
import Mathlib.Tactic.Common

/-!
# The idempotency store contract and its in-memory implementation

This module embeds `idempotency/store` and the argument checks of
`idempotency/internal/storeutil`. Every `MemoryStore` method runs under one
mutex and reads the clock while holding it, so a method is a function of the
store and of that reading. A nil `http.Header` and a nil body are the empty
ones; cloning a response is the identity on values.
-/

namespace Golusoris.Idempotency

/-- Instants and durations in nanoseconds. -/
abbrev Time := Int
abbrev Duration := Int

export Lib (Bytes textBytes)

/-- `http.Header`; names and values are byte strings. -/
abbrev Header := Finmap (fun _ : Bytes => List Bytes)

/-- The stored representation of a completed response. -/
structure CachedResponse where
  statusCode : Int := 0
  header : Header := ∅
  body : Bytes := []
  deriving DecidableEq

/-- The atomic result of a claim. -/
inductive ClaimState where
  | acquired
  | inFlight
  | completed
  | fingerprintMismatch
  deriving DecidableEq, Repr

structure ClaimResult where
  state : ClaimState
  token : String := ""
  fingerprint : String := ""
  response : CachedResponse := {}
  deriving DecidableEq

/-- What `ctx.Err()` reports once a context has ended. -/
inductive ContextError where
  | canceled
  | deadlineExceeded
  deriving DecidableEq, Repr

def ContextError.message : ContextError → String
  | .canceled => "context canceled"
  | .deadlineExceeded => "context deadline exceeded"

/-- A context at the moment an operation inspects it. -/
structure Context where
  err : Option ContextError := none
  deriving DecidableEq, Repr

inductive Error where
  | context (operation : String) (cause : ContextError)
  | claimArguments
  | claimTTL
  | commitArguments
  | commitTTL
  | releaseArguments
  | sweepLimit (limit maxSweepBatch : Int)
  | fingerprintMismatch
  | reservationLost
  deriving DecidableEq, Repr

def Error.message : Error → String
  | .context operation cause => "idempotency: " ++ operation ++ ": " ++ cause.message
  | .claimArguments => "idempotency: claim: key and fingerprint required"
  | .claimTTL => "idempotency: claim: positive TTL required"
  | .commitArguments => "idempotency: commit: key and token required"
  | .commitTTL => "idempotency: commit: positive TTL required"
  | .releaseArguments => "idempotency: release: key and token required"
  | .sweepLimit limit maxSweepBatch =>
      "idempotency: sweep: limit " ++ toString limit ++ " outside 1.." ++ toString maxSweepBatch
  | .fingerprintMismatch => "idempotency: key reused with a different payload"
  | .reservationLost => "idempotency: reservation lost"

def validateContext (operation : String) (ctx : Context) : Except Error Unit :=
  match ctx.err with
  | some cause => .error (.context operation cause)
  | none => .ok ()

def validateClaim (ctx : Context) (key fingerprint : String) (ttl : Duration) :
    Except Error Unit := do
  validateContext "claim" ctx
  if key = "" ∨ fingerprint = "" then throw .claimArguments
  if ttl ≤ 0 then throw .claimTTL

def validateCommit (ctx : Context) (key token : String) (ttl : Duration) : Except Error Unit := do
  validateContext "commit" ctx
  if key = "" ∨ token = "" then throw .commitArguments
  if ttl ≤ 0 then throw .commitTTL

def validateRelease (ctx : Context) (key token : String) : Except Error Unit := do
  validateContext "release" ctx
  if key = "" ∨ token = "" then throw .releaseArguments

def maxSweepBatch : Int := 10000

def validateSweep (ctx : Context) (limit maxSweepBatch : Int) : Except Error Unit := do
  validateContext "sweep" ctx
  if limit ≤ 0 ∨ maxSweepBatch < limit then throw (.sweepLimit limit maxSweepBatch)

inductive EntryState where
  | inFlight
  | completed
  deriving DecidableEq, Repr

structure MemEntry where
  state : EntryState
  token : String
  fingerprint : String
  resp : CachedResponse := {}
  expiresAt : Time
  deriving DecidableEq

/-- `!now.Before(entry.expiresAt)`. -/
def MemEntry.Expired (entry : MemEntry) (now : Time) : Prop := entry.expiresAt ≤ now

instance (entry : MemEntry) (now : Time) : Decidable (entry.Expired now) :=
  inferInstanceAs (Decidable (entry.expiresAt ≤ now))

/-- The entry table and the `uint64` counter the tokens are drawn from. -/
structure MemoryStore where
  entries : Finmap (fun _ : String => MemEntry) := ∅
  sequence : UInt64 := 0

namespace MemoryStore

/-- `strconv.FormatUint(sequence, 10)`. -/
def formatToken (sequence : UInt64) : String := Nat.repr sequence.toNat

/-- The record a claim at `now` has to respect; an expired one is none. -/
def live (store : MemoryStore) (now : Time) (key : String) : Option MemEntry :=
  (store.entries.lookup key).filter fun entry => ¬ entry.Expired now

/-- `MemoryStore.Claim`. The deletion of an expired entry is absorbed by the
insertion under the same key that follows it. -/
def claim (store : MemoryStore) (ctx : Context) (now : Time) (key fingerprint : String)
    (ttl : Duration) : Except Error ClaimResult × MemoryStore :=
  match validateClaim ctx key fingerprint ttl with
  | .error cause => (.error cause, store)
  | .ok () =>
    match store.live now key with
    | none =>
      let sequence := store.sequence + 1
      let token := formatToken sequence
      let entry : MemEntry :=
        { state := .inFlight, token, fingerprint, expiresAt := now + ttl }
      (.ok { state := .acquired, token },
        { entries := (store.entries.erase key).insert key entry, sequence })
    | some entry =>
      if entry.fingerprint ≠ fingerprint then
        (.ok { state := .fingerprintMismatch }, store)
      else
        match entry.state with
        | .inFlight => (.ok { state := .inFlight }, store)
        | .completed =>
          (.ok { state := .completed, fingerprint := entry.fingerprint, response := entry.resp },
            store)

/-- `MemoryStore.Commit`. -/
def commit (store : MemoryStore) (ctx : Context) (now : Time) (key token fingerprint : String)
    (response : CachedResponse) (ttl : Duration) : Except Error Unit × MemoryStore :=
  match validateCommit ctx key token ttl with
  | .error cause => (.error cause, store)
  | .ok () =>
    match store.entries.lookup key with
    | none => (.error .reservationLost, store)
    | some entry =>
      if entry.state ≠ .inFlight ∨ entry.token ≠ token ∨ entry.Expired now then
        (.error .reservationLost, store)
      else if entry.fingerprint ≠ fingerprint then
        (.error .fingerprintMismatch, store)
      else
        let entry : MemEntry :=
          { state := .completed, token, fingerprint, resp := response, expiresAt := now + ttl }
        (.ok (), { store with entries := store.entries.insert key entry })

/-- `MemoryStore.Release`. -/
def release (store : MemoryStore) (ctx : Context) (key token : String) :
    Except Error Unit × MemoryStore :=
  match validateRelease ctx key token with
  | .error cause => (.error cause, store)
  | .ok () =>
    match store.entries.lookup key with
    | none => (.error .reservationLost, store)
    | some entry =>
      if entry.state ≠ .inFlight ∨ entry.token ≠ token then
        (.error .reservationLost, store)
      else
        (.ok (), { store with entries := store.entries.erase key })

/-- The loop of `Sweep` over the remaining keys of the map iteration. -/
def sweepLoop (now : Time) (limit : Int) :
    List String → Int → MemoryStore → Int × MemoryStore
  | [], removed, store => (removed, store)
  | key :: rest, removed, store =>
    if removed = limit then (removed, store)
    else
      match store.entries.lookup key with
      | none => sweepLoop now limit rest removed store
      | some entry =>
        if entry.Expired now then
          sweepLoop now limit rest (removed + 1) { store with entries := store.entries.erase key }
        else
          sweepLoop now limit rest removed store

/-- `MemoryStore.Sweep`; `order` is the order in which the map is iterated. -/
def sweep (store : MemoryStore) (ctx : Context) (now : Time) (limit : Int)
    (order : List String) : Except Error Int × MemoryStore :=
  match validateSweep ctx limit maxSweepBatch with
  | .error cause => (.error cause, store)
  | .ok () =>
    let (removed, store) := sweepLoop now limit order 0 store
    (.ok removed, store)

end MemoryStore

end Golusoris.Idempotency
