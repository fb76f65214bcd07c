import Golusoris.Lib.Linked
import Golusoris.Lib.Machine

/-!
# The upload locker

`storage/tus` serialises the requests for one upload with a queue of waiters
per upload id. The locker's mutex guards the map from ids to queues and the
reference counts; each queue has a mutex of its own. A step of the machine below
is one critical section, so a call that needs both mutexes takes two steps, and
a waiter whose context ends may find that it was granted the lock in between.

Lock objects, their waiters and the maintenance attempts are named by numbers.
Every lock object is locked once, so it has at most one waiter.
-/

namespace Golusoris.Tus

open Lib

/-- `uploadLockState`. `wake` names the lock whose `requestRelease` it is. -/
structure Entry where
  wake : Option Nat := none
  queue : Links Nat := {}
  owner : Option Nat := none
  held : Bool := false
  refs : Nat := 0

/-- How far the call of `Lock` is: `leaving` has taken its waiter out of the
queue and is about to release its reference. -/
inductive LockCall where
  | fresh
  | waiting
  | leaving
  | returned (acquired : Bool)
  deriving DecidableEq, Repr

/-- How far the `Unlock` that hands the lock on is. -/
inductive UnlockCall where
  | never
  | releasing
  | done
  deriving DecidableEq, Repr

/-- `uploadLock` with the flags of its waiter. -/
structure Lock where
  id : String
  entry : Nat
  acquired : Bool := false
  queued : Bool := false
  granted : Bool := false
  call : LockCall := .fresh
  unlock : UnlockCall := .never
  deriving DecidableEq, Repr

/-- How far a `tryMaintenanceLock` and the function that it returns are. -/
inductive Maintenance where
  | retained
  | busy
  | refused
  | holding
  | releasing
  | done
  deriving DecidableEq, Repr

structure Attempt where
  id : String
  entry : Nat
  phase : Maintenance := .retained
  deriving DecidableEq, Repr

/-- The locker with everything that refers to it. `arrival` is when a lock was
queued, counted in waiters. -/
structure State where
  states : String → Option Nat := fun _ => none
  entries : Nat → Entry := fun _ => {}
  allocated : Nat := 0
  locks : Nat → Option Lock := fun _ => none
  attempts : Nat → Option Attempt := fun _ => none
  arrival : Nat → Nat := fun _ => 0
  arrivals : Nat := 0

def State.setEntry (state : State) (entry : Nat) (value : Entry) : State :=
  { state with entries := Function.update state.entries entry value }

def State.setLock (state : State) (lock : Nat) (value : Lock) : State :=
  { state with locks := Function.update state.locks lock (some value) }

def State.setAttempt (state : State) (attempt : Nat) (value : Attempt) : State :=
  { state with attempts := Function.update state.attempts attempt (some value) }

/-- Note when a lock was queued. -/
def State.arrive (state : State) (lock : Nat) : State :=
  { state with
    arrival := Function.update state.arrival lock state.arrivals
    arrivals := state.arrivals + 1 }

/-- `retain`: the entry of an id, new or old, with one more reference. -/
def State.retain (state : State) (id : String) : State × Nat :=
  match state.states id with
  | some entry =>
      (state.setEntry entry
        { state.entries entry with refs := (state.entries entry).refs + 1 }, entry)
  | none =>
      ({ state with
          states := Function.update state.states id (some state.allocated)
          entries := Function.update state.entries state.allocated { refs := 1 }
          allocated := state.allocated + 1 }, state.allocated)

/-- `release`: drop a reference, and the entry with the last one. -/
def State.release (state : State) (id : String) (entry : Nat) : State :=
  let dropped := state.setEntry entry
    { state.entries entry with refs := (state.entries entry).refs - 1 }
  if (dropped.entries entry).refs = 0 ∧ dropped.states id = some entry then
    { dropped with states := Function.update dropped.states id none }
  else dropped

/-- `owner.acquired = false`. -/
def State.disown (state : State) : Option Nat → State
  | none => state
  | some owner =>
      match state.locks owner with
      | none => state
      | some lock => state.setLock owner { lock with acquired := false }

/-- `handoff`: the lock that is granted next, if any, and the state. -/
def State.handoff (state : State) (entry : Nat) : State × Option Nat :=
  let value := state.entries entry
  let disowned := state.disown value.owner
  match value.queue.head with
  | none => (disowned.setEntry entry { value with held := false, owner := none, wake := none }, none)
  | some next =>
      match disowned.locks next with
      | none => (disowned, none)
      | some lock =>
          ((disowned.setEntry entry
            { value with queue := value.queue.remove next, owner := some next, wake := some next }).setLock
              next { lock with queued := false, granted := true, acquired := true }, some next)

/-- What a step does to the locks of an id: `asked` is the lock whose
`requestRelease` is called, `handed` the waiter that is granted the lock. -/
inductive Event where
  | created (lock : Nat)
  | locked (lock : Nat)
  | queued (lock : Nat) (asked : Option Nat)
  | returned (lock : Nat) (asked : Option Nat)
  | gaveUp (lock : Nat)
  | released (id : String) (handed : Option Nat)
  | silent

/-- `notifyWaiters`: whom the new owner of a contended lock asks. -/
def State.notifies (state : State) (lock : Nat) (entry : Nat) : Option Nat :=
  if (state.entries entry).owner = some lock ∧ (state.entries entry).queue.head ≠ none then
    (state.entries entry).wake
  else none

/-- The critical sections of the locker's calls. -/
inductive Step : State → Event → State → Prop where
  | newLock {state : State} {lock : Nat} (free : state.locks lock = none) (id : String) :
      Step state (.created lock)
        ((state.retain id).1.setLock lock { id := id, entry := (state.retain id).2 })
  | lockFree {state : State} {lock : Nat} {value : Lock} (known : state.locks lock = some value)
      (fresh : value.call = .fresh) (free : (state.entries value.entry).held = false) :
      Step state (.locked lock)
        ((state.setEntry value.entry { state.entries value.entry with
            held := true, owner := some lock, wake := some lock }).setLock lock
          { value with acquired := true, call := .returned true })
  | lockWait {state : State} {lock : Nat} {value : Lock} (known : state.locks lock = some value)
      (fresh : value.call = .fresh) (held : (state.entries value.entry).held = true) :
      Step state (.queued lock (state.entries value.entry).wake)
        (((state.setEntry value.entry { state.entries value.entry with
            queue := (state.entries value.entry).queue.enqueue lock }).setLock lock
              { value with queued := true, call := .waiting }).arrive lock)
  | ready {state : State} {lock : Nat} {value : Lock} (known : state.locks lock = some value)
      (waiting : value.call = .waiting) (granted : value.granted = true) :
      Step state (.returned lock (state.notifies lock value.entry))
        (state.setLock lock { value with call := .returned true })
  /- The context ended, but the lock was granted before the waiter could leave. -/
  | expiredGranted {state : State} {lock : Nat} {value : Lock}
      (known : state.locks lock = some value) (waiting : value.call = .waiting)
      (granted : value.granted = true) :
      Step state (.returned lock (state.notifies lock value.entry))
        (state.setLock lock { value with call := .returned true })
  | expired {state : State} {lock : Nat} {value : Lock} (known : state.locks lock = some value)
      (waiting : value.call = .waiting) (pending : value.granted = false) :
      Step state (.gaveUp lock)
        ((state.setEntry value.entry { state.entries value.entry with
            queue := if value.queued then (state.entries value.entry).queue.remove lock
              else (state.entries value.entry).queue }).setLock lock
          { value with queued := false, call := .leaving })
  | leave {state : State} {lock : Nat} {value : Lock} (known : state.locks lock = some value)
      (leaving : value.call = .leaving) :
      Step state .silent
        ((state.release value.id value.entry).setLock lock
          { value with call := .returned false })
  | unlockNothing {state : State} {lock : Nat} {value : Lock}
      (known : state.locks lock = some value) (idle : value.acquired = false) :
      Step state .silent state
  | unlock {state : State} {lock : Nat} {value next : Lock}
      (known : state.locks lock = some value) (acquired : value.acquired = true)
      (left : (state.handoff value.entry).1.locks lock = some next) :
      Step state (.released value.id (state.handoff value.entry).2)
        ((state.handoff value.entry).1.setLock lock { next with unlock := .releasing })
  | unlocked {state : State} {lock : Nat} {value : Lock} (known : state.locks lock = some value)
      (releasing : value.unlock = .releasing) :
      Step state .silent
        ((state.release value.id value.entry).setLock lock { value with unlock := .done })
  | maintain {state : State} {attempt : Nat} (free : state.attempts attempt = none) (id : String) :
      Step state .silent
        ((state.retain id).1.setAttempt attempt { id := id, entry := (state.retain id).2 })
  | maintainBusy {state : State} {attempt : Nat} {value : Attempt}
      (known : state.attempts attempt = some value) (retained : value.phase = .retained)
      (held : (state.entries value.entry).held = true) :
      Step state .silent (state.setAttempt attempt { value with phase := .busy })
  | maintainRefused {state : State} {attempt : Nat} {value : Attempt}
      (known : state.attempts attempt = some value) (busy : value.phase = .busy) :
      Step state .silent
        ((state.release value.id value.entry).setAttempt attempt { value with phase := .refused })
  | maintainHeld {state : State} {attempt : Nat} {value : Attempt}
      (known : state.attempts attempt = some value) (retained : value.phase = .retained)
      (free : (state.entries value.entry).held = false) :
      Step state .silent
        ((state.setEntry value.entry
          { state.entries value.entry with held := true }).setAttempt attempt
            { value with phase := .holding })
  | maintainUnlock {state : State} {attempt : Nat} {value : Attempt}
      (known : state.attempts attempt = some value) (holding : value.phase = .holding) :
      Step state (.released value.id (state.handoff value.entry).2)
        ((state.handoff value.entry).1.setAttempt attempt { value with phase := .releasing })
  | maintainDone {state : State} {attempt : Nat} {value : Attempt}
      (known : state.attempts attempt = some value) (releasing : value.phase = .releasing) :
      Step state .silent
        ((state.release value.id value.entry).setAttempt attempt { value with phase := .done })

/-- Runs of a new locker. -/
def machine : Machine State Event where
  Initial state := state = {}
  Step := Step

end Golusoris.Tus
