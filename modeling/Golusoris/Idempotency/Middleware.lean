import Golusoris.Idempotency.Ledger
import Mathlib.Logic.Function.Basic

/-!
# Requests served by the middleware over one store

`handleClaim` and `Outcome.toCommit` embed the decisions of `handleClaim` and
`serveClaimed`. A `Gateway` is one `MemoryStore` with the requests that hold or
held a claim on it; between two store calls of a request any number of other
requests, and the sweeper, may run. The commit and release contexts carry a
deadline of five seconds of real time, which is not modelled: these two calls
are made on a live context.
-/

namespace Golusoris.Idempotency

open Lib

/-- The middleware options that bear on claims. -/
structure Options where
  ttl : Duration := 0
  maxRequestBody : Int := 0
  maxResponseBody : Int := 0

def defaultBodyLimit : Int := 1048576

/-- `Options.defaults`; the default lifetime is 24 hours. -/
def Options.defaults (opts : Options) : Options where
  ttl := if opts.ttl ≤ 0 then 24 * 3600 * 1000000000 else opts.ttl
  maxRequestBody := if opts.maxRequestBody ≤ 0 then defaultBodyLimit else opts.maxRequestBody
  maxResponseBody := if opts.maxResponseBody ≤ 0 then defaultBodyLimit else opts.maxResponseBody

/-- What the middleware does with a claim. -/
inductive Decision where
  | execute (token : String)
  | replay (response : CachedResponse)
  | respond (status : Int) (message : String)

/-- `handleClaim`, up to the handler call, the replay or the error written. -/
def handleClaim (fingerprint : String) (claim : ClaimResult) : Decision :=
  match claim.state with
  | .acquired =>
      if claim.token = "" then .respond 500 "idempotency: invalid store claim"
      else .execute claim.token
  | .inFlight => .respond 409 "idempotency: request with this key is still in progress"
  | .fingerprintMismatch => .respond 422 Error.fingerprintMismatch.message
  | .completed =>
      if claim.fingerprint ≠ fingerprint then .respond 422 Error.fingerprintMismatch.message
      else if claim.response.statusCode < 200 ∨ 599 < claim.response.statusCode then
        .respond 500 "idempotency: invalid stored response"
      else .replay claim.response

/-- How a handler call ends. -/
inductive Outcome where
  | returned (response : CachedResponse) (overflow : Bool)
  | panicked

/-- The response `serveClaimed` tries to commit; without one the deferred
function releases the claim. -/
def Outcome.toCommit : Outcome → Option CachedResponse
  | .returned response overflow =>
      if overflow ∨ 500 ≤ response.statusCode then none else some response
  | .panicked => none

/-- A granted claim; `serial` counts the grants and is not part of the program. -/
structure Execution where
  key : String
  token : String
  fingerprint : String
  ttl : Duration
  acquiredAt : Time
  serial : Nat

inductive Ending where
  | committed (time : Time)
  | released
  | lost

/-- Where a request that acquired its claim stands. -/
inductive Phase where
  | running (execution : Execution)
  | committing (execution : Execution) (response : CachedResponse)
  | releasing (execution : Execution)
  | ended (execution : Execution) (ending : Ending)

def Phase.execution : Phase → Execution
  | .running execution => execution
  | .committing execution _ => execution
  | .releasing execution => execution
  | .ended execution _ => execution

@[simp] theorem Phase.execution_running (execution : Execution) :
    (Phase.running execution).execution = execution := rfl

/-- The request has not settled its claim yet. -/
def Phase.Holding : Phase → Prop
  | .ended _ _ => False
  | _ => True

/-- How many steps the request takes at most until its claim is settled. -/
def Phase.rank : Phase → Nat
  | .running _ => 3
  | .committing _ _ => 2
  | .releasing _ => 1
  | .ended _ _ => 0

/-- The store, the clock, the requests that acquired a claim and, as a history
variable, the number of grants. -/
structure Gateway where
  store : MemoryStore := {}
  clock : Time
  requests : Nat → Option Phase := fun _ => none
  grants : Nat := 0

inductive Action where
  | arrive (request : Nat) (ctx : Context) (key fingerprint : String) (opts : Options)
  | finish (request : Nat) (outcome : Outcome)
  | commit (request : Nat)
  | release (request : Nat)
  | sweep (ctx : Context) (limit : Int) (order : List String)

/-- The action is a step of this request's `serveClaimed`. -/
def Action.Advances (request : Nat) : Action → Prop
  | .finish other _ | .commit other | .release other => other = request
  | _ => False

instance (request : Nat) : DecidablePred (Action.Advances request) := fun action => by
  unfold Action.Advances
  split <;> infer_instance

/-- The next step of the request, for a handler that ends with `outcome`. -/
def Phase.next (phase : Phase) (request : Nat) (outcome : Outcome) : Action :=
  match phase with
  | .running _ => .finish request outcome
  | .committing _ _ => .commit request
  | .releasing _ | .ended _ _ => .release request

structure Signal where
  time : Time
  action : Action

namespace Gateway

def setPhase (gateway : Gateway) (request : Nat) (phase : Phase) : Gateway :=
  { gateway with requests := Function.update gateway.requests request (some phase) }

@[simp] theorem setPhase_self (gateway : Gateway) (request : Nat) (phase : Phase) :
    (gateway.setPhase request phase).requests request = some phase :=
  Function.update_self ..

theorem setPhase_of_ne (gateway : Gateway) {request other : Nat} (phase : Phase)
    (different : request ≠ other) :
    (gateway.setPhase other phase).requests request = gateway.requests request :=
  Function.update_of_ne different ..

@[simp] theorem setPhase_grants (gateway : Gateway) (request : Nat) (phase : Phase) :
    (gateway.setPhase request phase).grants = gateway.grants := rfl

/-- `serveWithKey` from the claim on: a request that is not granted its claim is
answered at once and leaves no phase behind. -/
def arrive (gateway : Gateway) (time : Time) (request : Nat) (ctx : Context)
    (key fingerprint : String) (ttl : Duration) : Gateway :=
  let (result, store) := gateway.store.claim ctx time key fingerprint ttl
  let gateway := { gateway with store, clock := time }
  match result with
  | .error _ => gateway
  | .ok claim =>
    match handleClaim fingerprint claim with
    | .execute token =>
      let serial := gateway.grants + 1
      { gateway with grants := serial }.setPhase request
        (.running { key, token, fingerprint, ttl, acquiredAt := time, serial })
    | _ => gateway

/-- One step of `serveClaimed` or of the sweeper; `none` when the request is not
at that point. -/
def perform (gateway : Gateway) (time : Time) : Action → Option Gateway
  | .arrive request ctx key fingerprint opts =>
      match gateway.requests request with
      | some _ => none
      | none => some (gateway.arrive time request ctx key fingerprint opts.defaults.ttl)
  | .finish request outcome =>
      match gateway.requests request with
      | some (.running execution) =>
          let phase := match outcome.toCommit with
            | some response => .committing execution response
            | none => .releasing execution
          some ({ gateway with clock := time }.setPhase request phase)
      | _ => none
  | .commit request =>
      match gateway.requests request with
      | some (.committing execution response) =>
          let (result, store) := gateway.store.commit {} time execution.key execution.token
            execution.fingerprint response execution.ttl
          let phase := match result with
            | .ok () => .ended execution (.committed time)
            | .error _ => .releasing execution
          some ({ gateway with store, clock := time }.setPhase request phase)
      | _ => none
  | .release request =>
      match gateway.requests request with
      | some (.releasing execution) =>
          let (result, store) := gateway.store.release {} execution.key execution.token
          let phase := match result with
            | .ok () => .ended execution .released
            | .error _ => .ended execution .lost
          some ({ gateway with store, clock := time }.setPhase request phase)
      | _ => none
  | .sweep ctx limit order =>
      let (_, store) := gateway.store.sweep ctx time limit order
      some { gateway with store, clock := time }

end Gateway

def gateway : Machine Gateway Signal where
  Initial state := state.store = {} ∧ state.requests = (fun _ => none) ∧ state.grants = 0
  Step before signal after :=
    before.clock ≤ signal.time ∧ before.perform signal.time signal.action = some after

end Golusoris.Idempotency
