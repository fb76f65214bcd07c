import Golusoris.Lib.Machine

/-!
# The leader gate

`leader/gate` starts a set of loops when this replica is elected and stops them
when it loses the lease. `startAll` and `stopAll` run under one mutex and know
only whether the loops are running: neither looks at the context of the term
that it runs for. The elector runs the terms one after another and
`OnStoppedLeading` after the term's context is cancelled, but
`OnStartedLeading` in a goroutine of its own, which may come at any time after
the term began.

A loop is named by its position in the gate. What its `Start` returns is up to
the loop, so `startAll` takes it as an argument.
-/

namespace Golusoris.Leader

open Lib

/-- What the gate did to a loop. -/
inductive Action where
  | started (loop : Nat)
  | refused (loop : Nat)
  | stopped (loop : Nat)
  deriving DecidableEq, Repr

structure Gate where
  loops : List String
  running : Bool := false
  started : List Nat := []
  failed : List String := []
  electErr : Option String := none
  deriving DecidableEq, Repr

/-- The loop of `startAll` over the loops that are left. -/
def startEach (succeeds : Nat → Bool) : List (String × Nat) → Gate → Gate × List Action
  | [], gate => (gate, [])
  | (name, loop) :: rest, gate =>
      if succeeds loop then
        let (gate, actions) := startEach succeeds rest
          { gate with started := gate.started ++ [loop] }
        (gate, .started loop :: actions)
      else
        let (gate, actions) := startEach succeeds rest
          { gate with failed := gate.failed ++ [name] }
        (gate, .refused loop :: actions)

/-- `startAll` starts every loop once; a loop that fails to start is skipped. -/
def startAll (succeeds : Nat → Bool) (gate : Gate) : Gate × List Action :=
  if gate.running then (gate, [])
  else
    let (gate, actions) := startEach succeeds gate.loops.zipIdx { gate with electErr := none }
    ({ gate with running := true }, actions)

/-- `stopAll` stops the started loops in reverse order; an error of a `Stop` is
only logged. -/
def stopAll (gate : Gate) : Gate × List Action :=
  if !gate.running then (gate, [])
  else
    ({ gate with started := [], failed := [], running := false },
      gate.started.reverse.map .stopped)

/-- `Periodic`, with whether its `cancel` is set. `Start` detaches the loop from
the context that it is given, so only `Stop` ends it. -/
structure Periodic where
  name : String
  running : Bool := false
  deriving DecidableEq, Repr

def Periodic.start (loop : Periodic) : Except String Periodic :=
  if loop.running then
    .error ("leader/gate: " ++ loop.name ++ ": loop is already running")
  else .ok { loop with running := true }

def Periodic.stop (loop : Periodic) : Periodic :=
  { loop with running := false }

/-- A term's context, and whether its `OnStartedLeading` is still to run. -/
structure Term where
  live : Bool := true
  pending : Bool := true
  deriving DecidableEq, Repr

structure State where
  gate : Gate
  terms : List Term := []
  current : Option Nat := none

/-- What runs: `started` says whether the context of its term was still live. -/
inductive Call where
  | elected (term : Nat)
  | cancelled (term : Nat)
  | started (term : Nat) (live : Bool)
  | stopped (term : Nat)
  | closed
  | electionFailed (error : String)
  deriving DecidableEq, Repr

/-- A call, whether the gate was running before it, and what it did to the loops. -/
structure Event where
  call : Call
  running : Bool
  actions : List Action := []
  deriving DecidableEq, Repr

/-- The elector's steps and the callbacks of the gate. -/
inductive Step : State → Event → State → Prop where
  | elected {state : State} (vacant : state.current = none) :
      Step state ⟨.elected state.terms.length, state.gate.running, []⟩
        { state with terms := state.terms ++ [{}], current := some state.terms.length }
  | cancelled {state : State} {term : Nat} {info : Term} (leads : state.current = some term)
      (known : state.terms[term]? = some info) :
      Step state ⟨.cancelled term, state.gate.running, []⟩
        { state with terms := state.terms.set term { info with live := false } }
  | started {state : State} {term : Nat} {info : Term} (known : state.terms[term]? = some info)
      (pending : info.pending = true) (succeeds : Nat → Bool) :
      Step state ⟨.started term info.live, state.gate.running, (startAll succeeds state.gate).2⟩
        { state with
          gate := (startAll succeeds state.gate).1
          terms := state.terms.set term { info with pending := false } }
  | stopped {state : State} {term : Nat} {info : Term} (leads : state.current = some term)
      (known : state.terms[term]? = some info) (cancelled : info.live = false) :
      Step state ⟨.stopped term, state.gate.running, (stopAll state.gate).2⟩
        { state with gate := (stopAll state.gate).1, current := none }
  /- `Run` stops the gate when it returns, and an elector may report a loss
  without ever having led. -/
  | closed {state : State} (vacant : state.current = none) :
      Step state ⟨.closed, state.gate.running, (stopAll state.gate).2⟩
        { state with gate := (stopAll state.gate).1 }
  | electionFailed {state : State} (vacant : state.current = none) (error : String) :
      Step state ⟨.electionFailed error, state.gate.running, []⟩
        { state with gate := { state.gate with electErr := some error } }

/-- Runs of a new gate over some loops. -/
def machine (loops : List String) : Machine State Event where
  Initial state := state = { gate := { loops := loops } }
  Step := Step

end Golusoris.Leader
