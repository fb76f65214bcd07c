import Golusoris.Idempotency.Calls
import Golusoris.Idempotency.SqlRows

/-!
# The SQL store algorithm

`sqlstore.Store` runs each operation as one to eight row statements. A
`Session` is one call of a method; `Session.advance` issues its next statement and
runs the code up to the one after it. `replicas` interleaves the statements of
any number of sessions over one table: the clock readings are those the calls
took, in any order, and each claim draws a token no claim drew before.
-/

namespace Golusoris.Idempotency

open Lib

/-- A method call; a claim carries the token `rand.Text` gives it. -/
inductive Request where
  | claim (ctx : Context) (key fingerprint : String) (ttl : Duration) (token : String)
  | commit (ctx : Context) (key token fingerprint : String) (response : CachedResponse)
      (ttl : Duration)
  | release (ctx : Context) (key token : String)
  | sweep (ctx : Context) (limit : Int)

/-- Why a call ends without an answer of the store contract. -/
inductive Failure where
  | database (cause : DatabaseError)
  | recordChanged
  | unknownState (state : Int)

def maxClaimAttempts : Nat := 4

/-- The error text, where the store writes it itself. -/
def Failure.message : Failure → Option String
  | .database _ => none
  | .recordChanged =>
      some ("idempotency: claim: record changed during " ++ toString maxClaimAttempts ++
        " attempts")
  | .unknownState state => some ("idempotency: claim: unknown record state " ++ toString state)

inductive Answer where
  | replied (reply : Reply)
  | failed (failure : Failure)

/-- `Record.claimResult`. -/
def Record.claimResult (record : Record) (fingerprint : String) : Answer :=
  if record.fingerprint ≠ fingerprint then
    .replied (.claimed (.ok { state := .fingerprintMismatch }))
  else if record.state = rowInFlight then .replied (.claimed (.ok { state := .inFlight }))
  else if record.state = rowCompleted then
    .replied (.claimed (.ok {
      state := .completed
      fingerprint := record.fingerprint
      response := {
        statusCode := record.status
        header := decodeHeader record.header
        body := record.body } }))
  else .failed (.unknownState record.state)

/-- The statement a session issues next. -/
inductive Progress where
  | reserve (attempt : Nat)
  | lookup (attempt : Nat) (now : Time)
  | complete
  | owner (now : Time)
  | release
  | sweep
  | returned (answer : Answer)

structure Session where
  request : Request
  progress : Progress

/-- The checks a method makes before it issues a statement. -/
def Request.begin : Request → Progress
  | .claim ctx key fingerprint ttl _ =>
      match validateClaim ctx key fingerprint ttl with
      | .error cause => .returned (.replied (.claimed (.error cause)))
      | .ok () => .reserve 0
  | .commit ctx key token _ _ ttl =>
      match validateCommit ctx key token ttl with
      | .error cause => .returned (.replied (.settled (.error cause)))
      | .ok () => .complete
  | .release ctx key token =>
      match validateRelease ctx key token with
      | .error cause => .returned (.replied (.settled (.error cause)))
      | .ok () => .release
  | .sweep ctx limit =>
      match validateSweep ctx limit maxSweepBatch with
      | .error cause => .returned (.replied (.swept (.error cause)))
      | .ok () => .sweep

/-- Issue the next statement at the clock reading `time`; `order` is the scan a
sweep makes. -/
def Session.advance (session : Session) (table : Table) (time : Time) (order : List String) :
    Option (Progress × Table) :=
  match session.request, session.progress with
  | .claim _ key fingerprint ttl token, .reserve attempt =>
      match table.reserve key token fingerprint time (time + ttl) with
      | .error cause => some (.returned (.failed (.database cause)), table)
      | .ok (true, next) =>
          some (.returned (.replied (.claimed (.ok { state := .acquired, token }))), next)
      | .ok (false, next) => some (.lookup attempt time, next)
  | .claim _ key fingerprint _ _, .lookup attempt now =>
      if time ≠ now then none
      else
        match table.lookupRecord key now with
        | .error cause => some (.returned (.failed (.database cause)), table)
        | .ok (some record) => some (.returned (record.claimResult fingerprint), table)
        | .ok none =>
            if attempt + 1 < maxClaimAttempts then some (.reserve (attempt + 1), table)
            else some (.returned (.failed .recordChanged), table)
  | .commit _ key token fingerprint response ttl, .complete =>
      match table.complete {
          key, token, fingerprint
          status := response.statusCode
          header := encodeHeader response.header
          body := response.body
          now := time
          expires := time + ttl } with
      | .error cause => some (.returned (.failed (.database cause)), table)
      | .ok (true, next) => some (.returned (.replied (.settled (.ok ()))), next)
      | .ok (false, next) => some (.owner time, next)
  | .commit _ key token fingerprint _ _, .owner now =>
      if time ≠ now then none
      else
        match table.owner key token now with
        | .error cause => some (.returned (.failed (.database cause)), table)
        | .ok (some owned) =>
            if owned ≠ fingerprint then
              some (.returned (.replied (.settled (.error .fingerprintMismatch))), table)
            else some (.returned (.replied (.settled (.error .reservationLost))), table)
        | .ok none => some (.returned (.replied (.settled (.error .reservationLost))), table)
  | .release _ key token, .release =>
      match table.release key token with
      | .error cause => some (.returned (.failed (.database cause)), table)
      | .ok (true, next) => some (.returned (.replied (.settled (.ok ()))), next)
      | .ok (false, next) =>
          some (.returned (.replied (.settled (.error .reservationLost))), next)
  | .sweep _ limit, .sweep =>
      let (removed, next) := table.sweep time limit order
      some (.returned (.replied (.swept (.ok removed))), next)
  | _, _ => none

/-- The token a claim was given. -/
def Request.token? : Request → Option String
  | .claim _ _ _ _ token => some token
  | _ => none

/-- One table and the calls made on it so far. -/
structure Replicas where
  table : Table := ∅
  sessions : Nat → Option Session := fun _ => none

inductive SessionAction where
  | begin (request : Request)
  | statement (time : Time) (order : List String)

structure SessionEvent where
  session : Nat
  action : SessionAction

def Replicas.setSession (replicas : Replicas) (id : Nat) (session : Session) : Replicas :=
  { replicas with sessions := Function.update replicas.sessions id (some session) }

/-- The token of a request is new. -/
def Replicas.Fresh (replicas : Replicas) (request : Request) : Prop :=
  ∀ token, request.token? = some token →
    ∀ other session, replicas.sessions other = some session → session.request.token? ≠ some token

def replicas : Machine Replicas SessionEvent where
  Initial state := state = {}
  Step before event after :=
    match event.action with
    | .begin request =>
        before.sessions event.session = none ∧ before.Fresh request ∧
          after = before.setSession event.session { request, progress := request.begin }
    | .statement time order =>
        ∃ session progress table, before.sessions event.session = some session ∧
          (session.progress = .sweep → before.table.Scans order) ∧
          session.advance before.table time order = some (progress, table) ∧
          after = { before with table }.setSession event.session { session with progress }

/-- `MemoryStore.claim` with the token drawn elsewhere. -/
def MemoryStore.claimAs (store : MemoryStore) (token : String) (ctx : Context) (now : Time)
    (key fingerprint : String) (ttl : Duration) : Except Error ClaimResult × MemoryStore :=
  match validateClaim ctx key fingerprint ttl with
  | .error cause => (.error cause, store)
  | .ok () =>
    match store.live now key with
    | none =>
        let entry : MemEntry :=
          { state := .inFlight, token, fingerprint, expiresAt := now + ttl }
        (.ok { state := .acquired, token },
          { store with entries := (store.entries.erase key).insert key entry })
    | some entry => (.ok (MemoryStore.answer entry fingerprint), store)

/-- The store's own claims draw the next number. -/
theorem MemoryStore.claim_eq_claimAs (store : MemoryStore) (ctx : Context) (now : Time)
    (key fingerprint : String) (ttl : Duration) :
    store.claim ctx now key fingerprint ttl =
      let (result, next) := store.claimAs (formatToken (store.sequence + 1)) ctx now key
        fingerprint ttl
      let sequence :=
        if validateClaim ctx key fingerprint ttl = .ok () ∧ store.live now key = none then
          store.sequence + 1
        else store.sequence
      (result, { next with sequence }) := by
  unfold claimAs
  cases valid : validateClaim ctx key fingerprint ttl with
  | error cause => simp [claim_rejected valid]
  | ok _ =>
    cases live : store.live now key with
    | none => simp [claim_of_free valid live]
    | some entry => simp [claim_of_live valid live]

/-- A claim completes nothing. -/
theorem MemoryStore.completed_of_claimAs {store : MemoryStore} {ctx : Context} {now : Time}
    {token key fingerprint other : String} {ttl : Duration} {entry : MemEntry}
    (found : (store.claimAs token ctx now key fingerprint ttl).2.entries.lookup other = some entry)
    (completed : entry.state = .completed) : store.entries.lookup other = some entry := by
  unfold claimAs at found
  split at found
  · exact found
  · split at found
    · by_cases same : other = key
      · subst same
        simp only [Finmap.lookup_insert, Option.some.injEq] at found
        rw [← found] at completed
        cases completed
      · simpa [Finmap.lookup_insert_of_ne, Finmap.lookup_erase_ne, same] using found
    · exact found

/-- A claim answered with a response found it in the table. -/
theorem MemoryStore.response_of_claimAs {store : MemoryStore} {ctx : Context} {now : Time}
    {token key fingerprint : String} {ttl : Duration} {result : ClaimResult}
    (replied : (store.claimAs token ctx now key fingerprint ttl).1 = .ok result)
    (completed : result.state = .completed) :
    ∃ entry, store.entries.lookup key = some entry ∧ entry.state = .completed ∧
      result.response = entry.resp := by
  unfold claimAs at replied
  split at replied
  · cases replied
  · split at replied
    · cases replied
      cases completed
    · rename_i entry live
      cases replied
      refine ⟨entry, (live_eq_some.mp live).1, ?_⟩
      by_cases same : entry.fingerprint = fingerprint
      · cases state : entry.state with
        | inFlight => simp [answer, same, state] at completed
        | completed => simp [answer, same, state]
      · simp [answer, same] at completed

/-- An operation of the sequential store, made by one session. -/
structure Operation where
  session : Nat
  request : Request
  time : Time
  reply : Reply

/-- `MemoryStore` operations one after another, each at its own clock reading. -/
def memory : Machine MemoryStore Operation where
  Initial store := store = {}
  Step before operation after :=
    match operation.request with
    | .claim ctx key fingerprint ttl token =>
        let (result, next) := before.claimAs token ctx operation.time key fingerprint ttl
        operation.reply = .claimed result ∧ after = next
    | .commit ctx key token fingerprint response ttl =>
        before.serve operation.time (.commit ctx key token fingerprint response ttl) =
          (operation.reply, after)
    | .release ctx key token =>
        before.serve operation.time (.release ctx key token) = (operation.reply, after)
    | .sweep ctx limit =>
        ∃ order, (Call.sweep ctx limit order).Iterates before ∧
          before.serve operation.time (.sweep ctx limit order) = (operation.reply, after)

end Golusoris.Idempotency
