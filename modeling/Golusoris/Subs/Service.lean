import Golusoris.Lib.Machine
import Mathlib.Data.Finmap

/-!
# The subscription lifecycle

`payments/subs` keeps the authoritative record of each subscription. Every
method but `Start` reads the record, decides on the copy and writes the whole
copy back, so a call is two steps on the store with nothing between them but a
reading of the clock. `respond` is the decision of a method; `Machine` lets any
number of calls take their store steps in any order.
-/

namespace Golusoris.Subs

open Lib

/-- Instants and durations in nanoseconds; the zero `time.Time` is `none`. -/
abbrev Time := Int

inductive Status where
  | incomplete
  | trialing
  | active
  | pastDue
  | paused
  | canceled
  deriving DecidableEq, Repr

def Status.text : Status → String
  | .incomplete => "incomplete"
  | .trialing => "trialing"
  | .active => "active"
  | .pastDue => "past_due"
  | .paused => "paused"
  | .canceled => "canceled"

structure Subscription where
  id : String
  customerID : String
  plan : String
  seats : Int
  status : Status
  trialEndsAt : Option Time := none
  currentPeriodStart : Time
  currentPeriodEnd : Time
  cancelAt : Option Time := none
  canceledAt : Option Time := none
  pausedAt : Option Time := none
  metadata : List (String × String) := []
  createdAt : Time
  updatedAt : Time
  deriving DecidableEq

inductive Error where
  | startArguments
  | cannot (verb : String) (status : Status)
  | terminated
  deriving DecidableEq, Repr

def Error.message : Error → String
  | .startArguments => "payments/subs: CustomerID and Plan required"
  | .cannot verb status => "payments/subs: cannot " ++ verb ++ " from " ++ status.text
  | .terminated => "payments/subs: cannot resume a terminated subscription"

/-- A status transition; a new subscription comes from no status. -/
structure ChangeEvent where
  subscription : Subscription
  source : Option Status
  target : Status
  time : Time
  deriving DecidableEq

structure StartParams where
  customerID : String
  plan : String
  seats : Int
  trial : Int := 0
  metadata : List (String × String) := []

/-- The methods that read a subscription before they write it. -/
inductive Call where
  | activate (id : String)
  | cancel (id : String) (effective : Option Time)
  | resume (id : String)
  | pause (id : String)
  | unpause (id : String)
  | markPastDue (id : String)
  | renew (id : String)
  | changePlan (id newPlan : String) (newSeats : Int)
  deriving DecidableEq

def Call.id : Call → String
  | .activate id | .cancel id _ | .resume id | .pause id | .unpause id | .markPastDue id
  | .renew id | .changePlan id _ _ => id

/-- `Cancel` at a zero time, or at one that is not after the clock, cancels at once. -/
def Call.immediate (now : Time) : Call → Bool
  | .cancel _ none => true
  | .cancel _ (some effective) => decide (effective ≤ now)
  | _ => false

/-- The record that `Start` creates. -/
def start (periodLength : Time) (id : String) (now : Time) (params : StartParams) :
    Except Error Subscription :=
  if params.customerID = "" ∨ params.plan = "" then .error .startArguments
  else
    .ok {
      id := id
      customerID := params.customerID
      plan := params.plan
      seats := params.seats
      status := if 0 < params.trial then .trialing else .incomplete
      trialEndsAt := if 0 < params.trial then some (now + params.trial) else none
      currentPeriodStart := now
      currentPeriodEnd := now + periodLength
      metadata := params.metadata
      createdAt := now
      updatedAt := now }

/-- `transition`: the record to write, or none where the call has nothing to do. -/
def transition (target : Status) (verb : String) (valid : List Status)
    (mutate : Subscription → Subscription) (now : Time) (sub : Subscription) :
    Except Error (Option Subscription) :=
  if sub.status = target then .ok none
  else if sub.status ∉ valid then .error (.cannot verb sub.status)
  else .ok (some (mutate { sub with status := target, updatedAt := now }))

/-- What a method does with the copy that it fetched. -/
def respond (periodLength : Time) (now : Time) (sub : Subscription) :
    Call → Except Error (Option Subscription)
  | .activate _ =>
      transition .active "Activate" [.incomplete, .trialing, .pastDue]
        (fun sub =>
          { sub with
            trialEndsAt := none
            currentPeriodStart := now
            currentPeriodEnd := now + periodLength }) now sub
  | .cancel id effective =>
      if sub.status = .canceled then .ok none
      else if Call.immediate now (.cancel id effective) then
        .ok (some { sub with
          status := .canceled
          canceledAt := some now
          cancelAt := none
          updatedAt := now })
      else .ok (some { sub with cancelAt := effective, updatedAt := now })
  | .resume _ =>
      if sub.status = .canceled then .error .terminated
      else if sub.cancelAt = none then .ok none
      else .ok (some { sub with cancelAt := none, updatedAt := now })
  | .pause _ =>
      transition .paused "Pause" [.active] (fun sub => { sub with pausedAt := some now }) now sub
  | .unpause _ =>
      transition .active "Unpause" [.paused] (fun sub => { sub with pausedAt := none }) now sub
  | .markPastDue _ => transition .pastDue "MarkPastDue" [.active] id now sub
  | .renew _ =>
      if sub.status ≠ .active ∧ sub.status ≠ .trialing then .error (.cannot "Renew" sub.status)
      else
        let renewed : Subscription :=
          { sub with
            currentPeriodStart := sub.currentPeriodEnd
            currentPeriodEnd := sub.currentPeriodEnd + periodLength
            updatedAt := now }
        if sub.status = .trialing ∧ ∃ ends ∈ sub.trialEndsAt, ends ≤ now then
          .ok (some { renewed with trialEndsAt := none, status := .active })
        else .ok (some renewed)
  | .changePlan _ newPlan newSeats =>
      .ok (some { sub with
        plan := newPlan
        seats := if 0 < newSeats then newSeats else sub.seats
        updatedAt := now })

/-- `ProcessDue` cancels these. -/
def Due (now : Time) (sub : Subscription) : Prop :=
  ((∃ due ∈ sub.cancelAt, due ≤ now) ∧ sub.status ≠ .canceled) ∨
    (sub.status = .trialing ∧ ∃ ends ∈ sub.trialEndsAt, ends ≤ now)

/-- What a call does next. A pending write has the copy that was fetched, none
for `Start`, and whether it is an immediate cancellation. -/
inductive Work where
  | fetch (call : Call)
  | write (base : Option Subscription) (immediate : Bool) (sub : Subscription) (now : Time)
  | idle

/-- A call, with what `ProcessDue` still has to look at after its current work. -/
structure Thread where
  work : Work
  due : Option (Time × List String) := none

structure State where
  store : Finmap (fun _ : String => Subscription) := ∅
  threads : Nat → Option Thread := fun _ => none

/-- A version that was stored: the version it replaced, the copy it was made
from, whether it cancels at once, and the change that is reported. -/
structure Stored where
  prior : Option Subscription
  base : Option Subscription
  immediate : Bool
  change : ChangeEvent

/-- A step stores a version or none. -/
abbrev Event := Option Stored

def State.become (state : State) (thread : Nat) (next : Thread) : State :=
  { state with threads := Function.update state.threads thread (some next) }

/-- What `fetch` and the decision after it lead to. -/
inductive Decides (periodLength : Time) (now : Time) (call : Call) :
    Option Subscription → Work → Prop where
  | missing : Decides periodLength now call none .idle
  | refuse {sub : Subscription} {error : Error}
      (refused : respond periodLength now sub call = .error error) :
      Decides periodLength now call (some sub) .idle
  | skip {sub : Subscription} (skipped : respond periodLength now sub call = .ok none) :
      Decides periodLength now call (some sub) .idle
  | write {sub next : Subscription} (decided : respond periodLength now sub call = .ok (some next)) :
      Decides periodLength now call (some sub)
        (.write (some sub) (call.immediate now) next now)

/-- The steps of concurrent calls on one store. -/
inductive Step (periodLength : Time) : State → Event → State → Prop where
  | call {state : State} {thread : Nat} (free : state.threads thread = none) (call : Call) :
      Step periodLength state none (state.become thread { work := .fetch call })
  | start {state : State} {thread : Nat} (free : state.threads thread = none) {id : String}
      {now : Time} {params : StartParams} {sub : Subscription}
      (created : Subs.start periodLength id now params = .ok sub) :
      Step periodLength state none (state.become thread { work := .write none false sub now })
  | processDue {state : State} {thread : Nat} (free : state.threads thread = none) (now : Time)
      (ids : List String) :
      Step periodLength state none (state.become thread { work := .idle, due := some (now, ids) })
  | fetch {state : State} {thread : Nat} {call : Call} {due : Option (Time × List String)}
      (held : state.threads thread = some { work := .fetch call, due := due }) {now : Time}
      {work : Work} (decides : Decides periodLength now call (state.store.lookup call.id) work) :
      Step periodLength state none (state.become thread { work := work, due := due })
  | getFails {state : State} {thread : Nat} {call : Call} {due : Option (Time × List String)}
      (held : state.threads thread = some { work := .fetch call, due := due }) :
      Step periodLength state none (state.become thread { work := .idle, due := due })
  | upsert {state : State} {thread : Nat} {base : Option Subscription} {immediate : Bool}
      {sub : Subscription} {now : Time} {due : Option (Time × List String)}
      (held : state.threads thread = some { work := .write base immediate sub now, due := due }) :
      Step periodLength state
        (some ⟨state.store.lookup sub.id, base, immediate, sub, base.map Subscription.status,
          sub.status, now⟩)
        ({ state with store := state.store.insert sub.id sub }.become thread
          { work := .idle, due := due })
  | upsertFails {state : State} {thread : Nat} {base : Option Subscription} {immediate : Bool}
      {sub : Subscription} {now : Time} {due : Option (Time × List String)}
      (held : state.threads thread = some { work := .write base immediate sub now, due := due }) :
      Step periodLength state none (state.become thread { work := .idle, due := due })
  | scan {state : State} {thread : Nat} {now : Time} {id : String} {ids : List String}
      (held : state.threads thread = some { work := .idle, due := some (now, id :: ids) })
      {work : Work}
      (due : ∀ sub, state.store.lookup id = some sub → Due now sub → work = .fetch (.cancel id none))
      (clean : (¬∃ sub, state.store.lookup id = some sub ∧ Due now sub) → work = .idle) :
      Step periodLength state none (state.become thread { work := work, due := some (now, ids) })
  | skip {state : State} {thread : Nat} {now : Time} {id : String} {ids : List String}
      (held : state.threads thread = some { work := .idle, due := some (now, id :: ids) }) :
      Step periodLength state none (state.become thread { work := .idle, due := some (now, ids) })

/-- Calls on a store that is empty at first. -/
def machine (periodLength : Time) : Machine State Event where
  Initial state := state.store = ∅ ∧ ∀ thread, state.threads thread = none
  Step := Step periodLength

end Golusoris.Subs
