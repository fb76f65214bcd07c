import Golusoris.Lib.Machine
import Mathlib.Algebra.Group.Int.Defs
import Mathlib.Algebra.Group.Nat.Defs
import Mathlib.Data.List.Count
import Mathlib.Logic.Function.Basic

/-!
# The outbox table and its polling drainers

`Drainer.drain` handles one batch in one database transaction: it selects due
rows `FOR UPDATE SKIP LOCKED`, lets the dispatcher turn each into a job, inserts
the job behind a savepoint and marks the row. Any number of drainers do so at
once, and applications add rows.

The database is PostgreSQL: what a transaction writes is its own until it
commits, and it locks the rows it selects until it ends. A statement that fails
leaves the transaction unable to run another one; only a rollback to a savepoint
that succeeds makes it usable again. A transaction that is rolled back, whose
client crashes or whose commit fails to apply has no effect.
-/

namespace Golusoris.Outbox

open Lib

/-- The `id` of a row. -/
abbrev Id := Nat

/-- What `dispatchOne` reports; the text that ends up in `last_error`. -/
inductive DispatchError where
  | dispatcherRequired
  | dispatcher (kind cause : String)
  | clientRequired
  | beginSavepoint (cause : String)
  | insertJob (cause : String)
  | commitSavepoint (cause : String)
  | rollbackSavepoint (first : DispatchError) (cause : String)
  deriving DecidableEq, Repr

/-- A row of `golusoris_outbox`, as far as the drainer reads and writes it.
Instants are in microseconds. -/
structure Row where
  kind : String
  dispatchedAt : Option Nat := none
  attempts : Nat := 0
  lastError : Option DispatchError := none
  nextAttemptAt : Nat
  deriving DecidableEq, Repr

variable {Args Drainer : Type}

/-- A job that `InsertTx` inserted, with the row it was made of. -/
structure Job (Args : Type) where
  row : Id
  args : Args
  deriving DecidableEq, Repr

/-- What is committed. -/
structure Database (Args : Type) where
  rows : Id → Option Row
  jobs : List (Job Args)

/-- What a transaction has written: new versions of rows, and jobs. -/
structure Writes (Args : Type) where
  rows : Id → Option Row
  jobs : List (Job Args)

def Writes.none : Writes Args := ⟨fun _ => Option.none, []⟩

/-- What a transaction sees of a row, and what its commit leaves there. -/
def Writes.row (writes : Writes Args) (db : Database Args) (id : Id) : Option Row :=
  match writes.rows id with
  | some row => some row
  | .none => db.rows id

def Writes.apply (writes : Writes Args) (db : Database Args) : Database Args where
  rows := writes.row db
  jobs := db.jobs ++ writes.jobs

def defaultPendingLimit : Int := 100
def maxPendingLimit : Int := 1000

/-- Durations are in nanoseconds. -/
def defaultRetryDelay : Int := 10 ^ 9
def maxRetryDelay : Int := 24 * 60 * 60 * 10 ^ 9

structure DrainerOptions where
  batch : Int
  retryDelay : Int

def normalizeRetryDelay (delay : Int) : Int :=
  if delay ≤ 0 then defaultRetryDelay else min delay maxRetryDelay

def withDrainerDefaults (options : DrainerOptions) : DrainerOptions where
  batch :=
    if options.batch ≤ 0 then defaultPendingLimit
    else if maxPendingLimit < options.batch then maxPendingLimit
    else options.batch
  retryDelay := normalizeRetryDelay options.retryDelay

/-- `normalizePendingLimit`; a negative limit is an error. -/
def normalizePendingLimit (limit : Int) : Option Int :=
  if limit < 0 then none
  else if limit = 0 then some defaultPendingLimit
  else some (min limit maxPendingLimit)

/-- `delayMicros` of `markFailed`. -/
def delayMicros (retryDelay : Int) : Nat :=
  (max 1 (normalizeRetryDelay retryDelay / 1000)).toNat

/-- How `dispatchOne` ended for a row: it failed, the dispatcher returned no job, or
a job was inserted. -/
inductive Outcome where
  | failed
  | dropped
  | inserted
  deriving DecidableEq, Repr

/-- Where a drainer is, apart from the row it works on, which is the first one to
do. -/
inductive Phase (Args : Type) where
  /-- before `queryPending` -/
  | querying
  /-- at the head of the loop -/
  | looping
  /-- the savepoint is set, before `InsertTx` -/
  | inserting (args : Args)
  /-- before `savepoint.Commit` -/
  | releasing
  /-- before `savepoint.Rollback` -/
  | undoing (cause : DispatchError)
  /-- before `markFailed` -/
  | failing (cause : DispatchError)
  /-- before `markDispatched` -/
  | marking (outcome : Outcome)

/-- One run of `drain`. The outcomes are what has been marked so far. -/
structure Batch (Args : Type) where
  now : Nat
  writes : Writes Args := .none
  savepoint : Option (Writes Args) := none
  broken : Bool := false
  events : List Id := []
  todo : List Id := []
  phase : Phase Args := .querying
  outcomes : List (Id × Outcome) := []

/-- The largest value of an `INTEGER` column. -/
def maxInteger : Nat := 2 ^ 31 - 1

/-- The row that `markFailed` writes. -/
def Row.fail (row : Row) (cause : DispatchError) (next : Nat) : Row :=
  { row with attempts := row.attempts + 1, lastError := some cause, nextAttemptAt := next }

/-- The row that `markDispatched` writes. -/
def Row.dispatch (row : Row) (now : Nat) : Row := { row with dispatchedAt := some now }

def Writes.setRow (writes : Writes Args) (id : Id) (row : Row) : Writes Args :=
  { writes with rows := Function.update writes.rows id (some row) }

/-- The causes for which `dispatchOne` fails before it touches the database. -/
inductive Refused : DispatchError → Prop where
  | dispatcherRequired : Refused .dispatcherRequired
  | dispatcher (kind cause : String) : Refused (.dispatcher kind cause)
  | clientRequired : Refused .clientRequired

/-- A step of `drain` within its transaction. -/
inductive Moves (options : DrainerOptions) (db : Database Args) : Batch Args → Batch Args → Prop where
  | refuse {batch : Batch Args} {id : Id} {rest : List Id} (cause : DispatchError)
      (looping : batch.phase = .looping) (todo : batch.todo = id :: rest) (refused : Refused cause) :
      Moves options db batch { batch with phase := .failing cause }
  | drop {batch : Batch Args} {id : Id} {rest : List Id}
      (looping : batch.phase = .looping) (todo : batch.todo = id :: rest) :
      Moves options db batch { batch with phase := .marking .dropped }
  | savepoint {batch : Batch Args} {id : Id} {rest : List Id} (args : Args)
      (looping : batch.phase = .looping) (todo : batch.todo = id :: rest)
      (usable : batch.broken = false) :
      Moves options db batch
        { batch with savepoint := some batch.writes, phase := .inserting args }
  | savepointFails {batch : Batch Args} {id : Id} {rest : List Id} (cause : String)
      (looping : batch.phase = .looping) (todo : batch.todo = id :: rest) :
      Moves options db batch
        { batch with broken := true, phase := .failing (.beginSavepoint cause) }
  | insert {batch : Batch Args} {id : Id} {rest : List Id} {args : Args}
      (inserting : batch.phase = .inserting args) (todo : batch.todo = id :: rest)
      (usable : batch.broken = false) :
      Moves options db batch
        { batch with
          writes := { batch.writes with jobs := batch.writes.jobs ++ [⟨id, args⟩] }
          phase := .releasing }
  -- A failed insert may leave something behind until it is rolled back.
  | insertFails {batch : Batch Args} {args : Args} (cause : String) (rest : List (Job Args))
      (inserting : batch.phase = .inserting args) :
      Moves options db batch
        { batch with
          writes := { batch.writes with jobs := batch.writes.jobs ++ rest }
          broken := true
          phase := .undoing (.insertJob cause) }
  | release {batch : Batch Args} (releasing : batch.phase = .releasing)
      (usable : batch.broken = false) :
      Moves options db batch { batch with savepoint := none, phase := .marking .inserted }
  -- The savepoint counts as closed, so the rollback that follows is no statement.
  | releaseFails {batch : Batch Args} (cause : String) (releasing : batch.phase = .releasing) :
      Moves options db batch
        { batch with broken := true, phase := .failing (.commitSavepoint cause) }
  | undo {batch : Batch Args} {cause : DispatchError} {saved : Writes Args}
      (undoing : batch.phase = .undoing cause) (set : batch.savepoint = some saved) :
      Moves options db batch
        { batch with
          writes := saved, savepoint := none, broken := false, phase := .failing cause }
  | undoFails {batch : Batch Args} {first : DispatchError} (cause : String)
      (undoing : batch.phase = .undoing first) :
      Moves options db batch
        { batch with broken := true, phase := .failing (.rollbackSavepoint first cause) }
  | markFailed {batch : Batch Args} {id : Id} {rest : List Id} {cause : DispatchError} {row : Row}
      (failing : batch.phase = .failing cause) (todo : batch.todo = id :: rest)
      (usable : batch.broken = false) (found : batch.writes.row db id = some row)
      (fits : row.attempts + 1 ≤ maxInteger) :
      Moves options db batch
        { batch with
          writes := batch.writes.setRow id
            (row.fail cause (batch.now + delayMicros options.retryDelay))
          todo := rest
          phase := .looping
          outcomes := batch.outcomes ++ [(id, .failed)] }
  | markDispatched {batch : Batch Args} {id : Id} {rest : List Id} {outcome : Outcome} {row : Row}
      (marking : batch.phase = .marking outcome) (todo : batch.todo = id :: rest)
      (usable : batch.broken = false) (found : batch.writes.row db id = some row) :
      Moves options db batch
        { batch with
          writes := batch.writes.setRow id (row.dispatch batch.now)
          todo := rest
          phase := .looping
          outcomes := batch.outcomes ++ [(id, outcome)] }

/-- The database and the transaction of every drainer that is in one. -/
structure State (Args Drainer : Type) where
  db : Database Args
  batches : Drainer → Option (Batch Args)

/-- Another statement would have to wait for the row. -/
def State.Locked (state : State Args Drainer) (id : Id) : Prop :=
  ∃ drainer batch, state.batches drainer = some batch ∧ id ∈ batch.events

/-- `dispatched_at IS NULL AND next_attempt_at <= now()`. -/
def Due (db : Database Args) (now : Nat) (id : Id) : Prop :=
  ∃ row, db.rows id = some row ∧ row.dispatchedAt = none ∧ row.nextAttemptAt ≤ now

/-- Why a transaction ended without effect. -/
inductive Stop where
  | crashed
  | queryFailed
  | markFailed
  | commitFailed
  deriving DecidableEq, Repr

inductive Event (Drainer : Type) where
  | added (id : Id)
  | began (drainer : Drainer)
  | selected (drainer : Drainer) (ids : List Id)
  | moved (drainer : Drainer)
  | committed (drainer : Drainer) (outcomes : List (Id × Outcome))
  | stopped (drainer : Drainer) (reason : Stop)

variable [DecidableEq Drainer]

def State.setBatch (state : State Args Drainer) (drainer : Drainer) (batch : Option (Batch Args)) :
    State Args Drainer :=
  { state with batches := Function.update state.batches drainer batch }

/-- The steps of the system. A commit whose answer is lost is still a commit, and
a transaction may end without effect at any moment. -/
inductive Step (options : Drainer → DrainerOptions) :
    State Args Drainer → Event Drainer → State Args Drainer → Prop where
  | add {state : State Args Drainer} (id : Id) (kind : String) (now : Nat)
      (fresh : state.db.rows id = none) :
      Step options state (.added id)
        { state with
          db := { state.db with
            rows := Function.update state.db.rows id (some { kind := kind, nextAttemptAt := now }) } }
  | begin {state : State Args Drainer} (drainer : Drainer) (now : Nat)
      (idle : state.batches drainer = none) :
      Step options state (.began drainer) (state.setBatch drainer (some { now := now }))
  -- Rows may come in any order, and fewer than there are.
  | select {state : State Args Drainer} {batch : Batch Args} {limit : Int} (drainer : Drainer)
      (ids : List Id) (here : state.batches drainer = some batch)
      (querying : batch.phase = .querying)
      (bound : normalizePendingLimit (options drainer).batch = some limit)
      (few : (ids.length : Int) ≤ limit) (nodup : ids.Nodup)
      (due : ∀ id ∈ ids, Due state.db batch.now id) (free : ∀ id ∈ ids, ¬state.Locked id) :
      Step options state (.selected drainer ids)
        (state.setBatch drainer
          (some { batch with events := ids, todo := ids, phase := .looping }))
  | move {state : State Args Drainer} {batch next : Batch Args} (drainer : Drainer)
      (here : state.batches drainer = some batch) (moves : Moves (options drainer) state.db batch next) :
      Step options state (.moved drainer) (state.setBatch drainer (some next))
  | commit {state : State Args Drainer} {batch : Batch Args} (drainer : Drainer)
      (here : state.batches drainer = some batch) (looping : batch.phase = .looping)
      (done : batch.todo = []) (usable : batch.broken = false) :
      Step options state (.committed drainer batch.outcomes)
        { state.setBatch drainer none with db := batch.writes.apply state.db }
  | stop {state : State Args Drainer} {batch : Batch Args} (drainer : Drainer) (reason : Stop)
      (here : state.batches drainer = some batch) :
      Step options state (.stopped drainer reason) (state.setBatch drainer none)

/-- Drainers on one table, which starts with no row and no job. -/
def drainers (Args : Type) (options : Drainer → DrainerOptions) :
    Machine (State Args Drainer) (Event Drainer) where
  Initial state := state = ⟨⟨fun _ => none, []⟩, fun _ => none⟩
  Step := Step fun drainer => withDrainerDefaults (options drainer)

end Golusoris.Outbox
