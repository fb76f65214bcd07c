import Golusoris.Lib.Machine
import Golusoris.Lib.Utf8
import Mathlib.Logic.Function.Basic

/-!
# Outbound webhooks

`Dispatch` makes a delivery for every active endpoint of an event and posts it until an
answer is 2xx or the attempts are used up; `Replay` does so again for a stored delivery.
Every attempt is saved before the next one. The store, the endpoints' servers and the
contexts are given with a call: what they answer is up to them.

The content of a request is left out, and so is the signature.
-/

namespace Golusoris.Webhooks.Out

open Golusoris.Lib

inductive Status where
  | pending
  | delivered
  | failed
  deriving DecidableEq

structure Endpoint where
  id : Bytes
  url : Bytes
  events : List Bytes
  active : Bool
  deriving DecidableEq

structure Delivery where
  id : Bytes
  endpointID : Bytes
  event : Bytes
  payload : Bytes
  attempts : Nat := 0
  status : Status := .pending
  statusCode : Int := 0
  error : String := ""
  createdAt : Nat
  updatedAt : Nat
  deriving DecidableEq

/-- What the store holds. -/
structure Store where
  endpoints : Bytes → Option Endpoint
  deliveries : Bytes → Option Delivery

/-- How a save ends. It may fail although the record was written. -/
inductive Saved where
  | written
  | failed
  | failedWritten
  deriving DecidableEq

def Saved.kept (saved : Saved) : Bool := saved ≠ .failed

/-- What becomes of a request that is allowed: it cannot be built, gets no answer, or gets
one with a code. -/
inductive Answer where
  | unbuilt (cause : String)
  | unanswered (cause : String)
  | answered (code : Int)
  deriving DecidableEq

/-- What an attempt meets: whether its context ends in the wait before it, the time, the
answer to the request, and how the save ends. -/
structure Round where
  cancelled : Bool
  now : Nat
  answer : Answer
  saved : Saved

/-- What the delivery to an endpoint meets: its attempts by number, and the last save. -/
structure Visit where
  rounds : Nat → Round
  now : Nat
  saved : Saved

/-- What `dispatchEndpoint` meets. -/
structure Start where
  newID : Except String Bytes
  now : Nat
  saved : Saved
  visit : Visit

/-- The parts of a URL that are looked at. -/
structure ParsedURL where
  scheme : String
  user : Bool
  hostname : Bytes

/-- The options, with `url.ParseRequestURI`. -/
structure Options where
  maxAttempts : Int
  backoff : Nat → Int
  allowInsecureHTTP : Bool
  parse : Bytes → Except String ParsedURL

/-- `MaxAttempts` with the default and the upper bound. -/
def Options.attempts (opts : Options) : Nat :=
  if opts.maxAttempts ≤ 0 then 5 else min opts.maxAttempts.toNat 100

theorem Options.attempts_pos (opts : Options) : 0 < opts.attempts := by
  rw [attempts]
  split_ifs <;> omega

/-- One attempt: the endpoint and the delivery that the store held, whether a request was
sent, its answer, and whether the attempt was recorded. -/
structure Attempt where
  delivery : Bytes
  first : Bool
  endpoint : Option Endpoint
  stored : Option Delivery
  sent : Bool
  succeeded : Bool
  recorded : Bool
  deriving DecidableEq

inductive Action where
  | created (id : Bytes)
  | attempted (attempt : Attempt)
  deriving DecidableEq

inductive Error where
  | marshal (cause : String)
  | listEndpoints
  | newID (cause : String)
  | saveInitial (endpoint : Bytes)
  | findDelivery
  | findEndpoint
  | cancelled
  | saveDelivery (id : Bytes)
  | deadLettered (id : Bytes) (attempts : Nat) (cause : String) (save : Option Error)

/-- A store, what was done on the way to it, and the errors that are returned. -/
structure Outcome where
  store : Store
  actions : List Action := []
  errors : List Error := []

section

variable (opts : Options)

def validateEndpointURL (rawURL : Bytes) : Except String Unit := do
  let parsed ← match opts.parse rawURL with
    | .ok parsed => .ok parsed
    | .error cause => .error ("webhooks/out: invalid endpoint URL: " ++ cause)
  if parsed.user ∨ parsed.hostname = [] then
    .error "webhooks/out: endpoint URL must have a host and no user information"
  else if parsed.scheme = "https" then .ok ()
  else if parsed.scheme = "http" ∧ opts.allowInsecureHTTP then .ok ()
  else .error ("webhooks/out: endpoint URL scheme " ++ parsed.scheme.quote ++ " is not allowed")

/-- Whether a request is sent, and the code or the error of `post`. -/
def post (endpoint : Endpoint) (answer : Answer) : Bool × Except String Int :=
  match validateEndpointURL opts endpoint.url with
  | .error cause => (false, .error cause)
  | .ok () =>
      match answer with
      | .unbuilt cause => (false, .error ("build request: " ++ cause))
      | .unanswered cause => (true, .error cause)
      | .answered code => (true, .ok code)

/-- A code that stands for success. -/
def isSuccess : Except String Int → Bool
  | .ok code => 200 ≤ code && code < 300
  | .error _ => false

/-- The record after an attempt. -/
def recordAttempt (delivery : Delivery) (now : Nat) (result : Except String Int) : Delivery :=
  let delivery := { delivery with
    attempts := delivery.attempts + 1
    updatedAt := now
    statusCode := match result with
      | .ok code => code
      | .error _ => 0 }
  match result with
  | .ok code =>
      if isSuccess (.ok code) then { delivery with status := .delivered, error := "" }
      else { delivery with error := s!"HTTP {code}" }
  | .error cause => { delivery with error := cause }

def Store.save (store : Store) (delivery : Delivery) (saved : Saved) : Store :=
  if saved.kept then
    { store with deliveries := Function.update store.deliveries delivery.id (some delivery) }
  else store

/-- The wait before an attempt ends with the context. -/
def waitFails (attempts : Nat) (cancelled : Bool) : Bool :=
  attempts ≠ 0 && 0 < opts.backoff (attempts - 1) && cancelled

def deadLetter (store : Store) (delivery : Delivery) (visit : Visit) : Outcome :=
  let dead := { delivery with status := .failed, updatedAt := visit.now }
  { store := store.save dead visit.saved
    errors := [.deadLettered dead.id dead.attempts dead.error
      (if visit.saved = .written then none else some (.saveDelivery dead.id))] }

/-- The loop of `deliver`, with the number of attempts that are left. -/
def deliverLoop (endpoint : Endpoint) (visit : Visit) : Nat → Store → Delivery → Outcome
  | 0, store, delivery => deadLetter store delivery visit
  | left + 1, store, delivery =>
      let round := visit.rounds delivery.attempts
      if waitFails opts delivery.attempts round.cancelled then
        { store, errors := [.cancelled] }
      else
        let (sent, result) := post opts endpoint round.answer
        let next := recordAttempt delivery round.now result
        let attempt := {
          delivery := delivery.id
          first := delivery.attempts = 0
          endpoint := store.endpoints endpoint.id
          stored := store.deliveries delivery.id
          sent
          succeeded := isSuccess result
          recorded := round.saved.kept }
        let after := store.save next round.saved
        if round.saved ≠ .written then
          { store := after
            actions := [.attempted attempt]
            errors := [.saveDelivery delivery.id] }
        else if isSuccess result then { store := after, actions := [.attempted attempt] }
        else
          let rest := deliverLoop endpoint visit left after next
          { rest with actions := .attempted attempt :: rest.actions }

def deliver (store : Store) (endpoint : Endpoint) (delivery : Delivery) (visit : Visit) : Outcome :=
  deliverLoop opts endpoint visit (opts.attempts - delivery.attempts) store delivery

def dispatchEndpoint (store : Store) (endpoint : Endpoint) (event body : Bytes) (start : Start) :
    Outcome :=
  match start.newID with
  | .error cause => { store, errors := [.newID cause] }
  | .ok id =>
      let delivery : Delivery := {
        id, endpointID := endpoint.id, event, payload := body,
        createdAt := start.now, updatedAt := start.now }
      let created := if start.saved.kept then [Action.created id] else []
      let after := store.save delivery start.saved
      if start.saved ≠ .written then
        { store := after, actions := created, errors := [.saveInitial endpoint.id] }
      else
        let rest := deliver opts after endpoint delivery start.visit
        { rest with actions := created ++ rest.actions }

/-- The loop over the endpoints. -/
def dispatchEach (event body : Bytes) : List (Endpoint × Start) → Store → Outcome
  | [], store => { store }
  | (endpoint, start) :: others, store =>
      if endpoint.active then
        let one := dispatchEndpoint opts store endpoint event body start
        let rest := dispatchEach event body others one.store
        { store := rest.store
          actions := one.actions ++ rest.actions
          errors := one.errors ++ rest.errors }
      else dispatchEach event body others store

/-- What the store lists for an event: endpoints that are subscribed to it, or active
ones where no event is named. -/
def Endpoint.listedFor (endpoint : Endpoint) (event : Bytes) : Bool :=
  if event = [] then endpoint.active else endpoint.events = [] || event ∈ endpoint.events

/-- A call, with what it meets. `changes` is the work of others: an endpoint is saved or
deleted between two calls. -/
inductive Call where
  | dispatch (event : Bytes) (payload : Except String Bytes) (listed : Option (List (Bytes × Start)))
  | replay (id : Bytes) (deliveryFound endpointFound : Bool) (visit : Visit)
  | saveEndpoint (endpoint : Endpoint)
  | deleteEndpoint (id : Bytes)

/-- The endpoints that the store returns, in an order of its own. -/
def Store.listEndpoints (store : Store) (event : Bytes) (listed : List (Bytes × Start)) :
    List (Endpoint × Start) :=
  listed.filterMap fun (id, start) =>
    ((store.endpoints id).filter (·.listedFor event)).map fun endpoint => (endpoint, start)

def dispatch (store : Store) (event : Bytes) (payload : Except String Bytes)
    (listed : Option (List (Bytes × Start))) : Outcome :=
  match payload with
  | .error cause => { store, errors := [.marshal cause] }
  | .ok body =>
      match listed with
      | none => { store, errors := [.listEndpoints] }
      | some listed => dispatchEach opts event body (store.listEndpoints event listed) store

def replay (store : Store) (id : Bytes) (deliveryFound endpointFound : Bool) (visit : Visit) :
    Outcome :=
  match (store.deliveries id).filter fun _ => deliveryFound with
  | none => { store, errors := [.findDelivery] }
  | some delivery =>
      match (store.endpoints delivery.endpointID).filter fun _ => endpointFound with
      | none => { store, errors := [.findEndpoint] }
      | some endpoint =>
          deliver opts store endpoint
            { delivery with attempts := 0, status := .pending, error := "" } visit

def perform (store : Store) : Call → Outcome
  | .dispatch event payload listed => dispatch opts store event payload listed
  | .replay id deliveryFound endpointFound visit =>
      replay opts store id deliveryFound endpointFound visit
  | .saveEndpoint endpoint =>
      { store := { store with
          endpoints := Function.update store.endpoints endpoint.id (some endpoint) } }
  | .deleteEndpoint id =>
      { store := { store with endpoints := Function.update store.endpoints id none } }

end

/-- Calls come one after another. An event is a call with its actions and errors; at the
start nothing is stored. -/
def machine (opts : Options) : Machine Store (Call × List Action × List Error) where
  Initial store := store = ⟨fun _ => none, fun _ => none⟩
  Step store event after := perform opts store event.1 = ⟨after, event.2.1, event.2.2⟩

end Golusoris.Webhooks.Out
