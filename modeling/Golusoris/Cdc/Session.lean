import Golusoris.Cdc.Consumer
import Golusoris.Lib.Machine

/-!
# Replication sessions

The consumer beside the server that it reads from. The server has the
transactions of the slot in the order of their end LSNs. A session streams them
from the first one that ends after the slot's confirmed position: Begin, the
rows, Commit, with relation messages, other messages and keepalives anywhere
between. It may break off at any point, by an error of the consumer or of the
connection, and the next one starts from what the slot has confirmed by then.
-/

namespace Golusoris.Cdc

open Lib

structure Transaction where
  begin : BeginMessage
  rows : List RowMessage
  endLSN : LSN

/-- The transactions after the position at which the slot was created. -/
structure Wal where
  origin : LSN
  transactions : List Transaction
  above : ∀ transaction ∈ transactions, origin < transaction.endLSN
  increasing : transactions.Pairwise fun earlier later => earlier.endLSN < later.endLSN

/-- The first transaction that ends after a position. -/
def Wal.resume (wal : Wal) (confirmed : LSN) : Nat :=
  wal.transactions.findIdx fun transaction => confirmed < transaction.endLSN

/-- What a message is, as far as the parse functions can tell. -/
inductive View where
  | broken
  | ignored
  | keepalive (message : Keepalive)
  | wal (message : WalMessage) (lsn : LSN)

def Protocol.view (protocol : Protocol) : BackendMessage → View
  | .errorResponse _ _ => .broken
  | .other => .ignored
  | .copyData [] => .broken
  | .copyData (kind :: data) =>
      if kind = primaryKeepaliveMessageByteID then
        match protocol.parseKeepalive data with
        | none => .broken
        | some keepalive => .keepalive keepalive
      else if kind = xLogDataByteID then
        match protocol.parseXLogData data with
        | none => .broken
        | some xld =>
            match protocol.parse xld.walData with
            | none => .broken
            | some message => .wal message xld.walStart
      else .ignored

/-- The transaction that the stream has reached, and how many of its rows are
streamed once its Begin is. -/
structure Cursor where
  index : Nat
  rows : Option Nat := none

/-- The messages that the server may send next. -/
inductive Streams (wal : Wal) : Cursor → View → Cursor → Prop where
  | broken {cursor : Cursor} : Streams wal cursor .broken cursor
  | ignored {cursor : Cursor} : Streams wal cursor .ignored cursor
  | keepalive {cursor : Cursor} {message : Keepalive}
      (below : ∀ index transaction, cursor.index ≤ index →
        wal.transactions[index]? = some transaction →
        message.serverWALEnd < transaction.endLSN) :
      Streams wal cursor (.keepalive message) cursor
  | relation {cursor : Cursor} (message : RelationMessage) (lsn : LSN) :
      Streams wal cursor (.wal (.relation message) lsn) cursor
  | other {cursor : Cursor} (lsn : LSN) : Streams wal cursor (.wal .other lsn) cursor
  | begin {index : Nat} {transaction : Transaction} (lsn : LSN)
      (known : wal.transactions[index]? = some transaction) :
      Streams wal ⟨index, none⟩ (.wal (.begin transaction.begin) lsn) ⟨index, some 0⟩
  | row {index done : Nat} {transaction : Transaction} {message : RowMessage} (lsn : LSN)
      (known : wal.transactions[index]? = some transaction)
      (next : transaction.rows[done]? = some message) :
      Streams wal ⟨index, some done⟩ (.wal (.row message) lsn) ⟨index, some (done + 1)⟩
  | commit {index : Nat} {transaction : Transaction} (lsn : LSN)
      (known : wal.transactions[index]? = some transaction) :
      Streams wal ⟨index, some transaction.rows.length⟩
        (.wal (.commit transaction.endLSN) lsn) ⟨index + 1, none⟩

structure Session where
  cursor : Cursor
  consumer : Consumer

structure State where
  confirmed : LSN
  session : Option Session := none

/-- A message that the consumer handled: where the stream stood, the consumer
before it, and what it did. -/
structure Receipt where
  cursor : Cursor
  message : BackendMessage
  before : Consumer
  outcome : Outcome

inductive Label where
  | opened
  | received (receipt : Receipt)
  | reported (position : LSN)
  | ended

/-- The steps of `run` against the slot. -/
inductive Step (protocol : Protocol) (wal : Wal) (standbyInterval : Time) :
    State → Label → State → Prop where
  | opened {state : State} (now : Time) (idle : state.session = none) :
      Step protocol wal standbyInterval state .opened
        { state with session := some {
            cursor := ⟨wal.resume state.confirmed, none⟩
            consumer := { nextStandby := now + standbyInterval } } }
  | received {state : State} {session : Session} {cursor : Cursor} {outcome : Outcome}
      (message : BackendMessage) (answers : Nat → Option String) (now : Time)
      (live : state.session = some session)
      (streams : Streams wal session.cursor (protocol.view message) cursor)
      (handles : handleMessage protocol session.consumer message answers now = outcome) :
      Step protocol wal standbyInterval state
        (.received ⟨session.cursor, message, session.consumer, outcome⟩)
        { state with
          session := if outcome.stopped then none else some ⟨cursor, outcome.consumer⟩ }
  /- `maybeSendStandby`. The slot confirms no more than it was told, and it may
  never be told: the update can get lost, or be sent by a session that ends. -/
  | reported {state : State} {session : Session} (now sentAt : Time) (confirmed : LSN)
      (live : state.session = some session) (due : session.consumer.nextStandby < now)
      (bounded : confirmed ≤ max state.confirmed session.consumer.clientXLogPos) :
      Step protocol wal standbyInterval state (.reported session.consumer.clientXLogPos)
        { confirmed := confirmed
          session := some { session with
            consumer := { session.consumer with nextStandby := sentAt + standbyInterval } } }
  | reportFailed {state : State} {session : Session} (now : Time) (confirmed : LSN)
      (live : state.session = some session) (due : session.consumer.nextStandby < now)
      (bounded : confirmed ≤ max state.confirmed session.consumer.clientXLogPos) :
      Step protocol wal standbyInterval state (.reported session.consumer.clientXLogPos)
        { confirmed := confirmed, session := none }
  /- The connection fails or the context is cancelled. -/
  | ended {state : State} : Step protocol wal standbyInterval state .ended
      { state with session := none }

/-- The runs of a consumer from the creation of the slot. -/
def machine (protocol : Protocol) (wal : Wal) (standbyInterval : Time) : Machine State Label where
  Initial state := state = { confirmed := wal.origin }
  Step := Step protocol wal standbyInterval

/-- The events that a row message stands for. -/
def rowEvents (relations : Relations) (lsn : LSN) :
    RowMessage → Except SessionError (List Event)
  | .insert relationID tuple => (insertEvent relations lsn relationID tuple).map ([·])
  | .update relationID oldTupleType oldTuple newTuple =>
      (updateEvent relations lsn relationID oldTupleType oldTuple newTuple).map ([·])
  | .delete relationID oldTupleType oldTuple =>
      (deleteEvent relations lsn relationID oldTupleType oldTuple).map ([·])
  | .truncate relationIDs => relationIDs.mapM (truncateEvent relations lsn)

/-- An event as the handler is to see it. -/
def Event.committed (event : Event) (message : BeginMessage) : Event :=
  { event with lsn := message.finalLSN, commitTime := message.commitTime }

/-- A row of a transaction was streamed, and every event of it was passed to the
handler, which returned nil. -/
def RowHandled (protocol : Protocol) (history : List Label) (index done : Nat)
    (transaction : Transaction) (message : RowMessage) : Prop :=
  ∃ receipt lsn events, .received receipt ∈ history ∧ receipt.cursor = ⟨index, some done⟩ ∧
    protocol.view receipt.message = .wal (.row message) lsn ∧
    rowEvents receipt.before.relations lsn message = .ok events ∧
    receipt.outcome.calls = events.map fun event => ⟨event.committed transaction.begin, none⟩

def Handled (protocol : Protocol) (history : List Label) (index : Nat)
    (transaction : Transaction) : Prop :=
  ∀ done message, transaction.rows[done]? = some message →
    RowHandled protocol history index done transaction message

/-- A handler, decode or protocol error. -/
inductive Fault (protocol : Protocol) (receipt : Receipt) : Prop where
  | broken (unreadable : protocol.view receipt.message = .broken)
  | nestedBegin {message : BeginMessage} {lsn : LSN}
      (read : protocol.view receipt.message = .wal (.begin message) lsn)
      (active : receipt.before.transaction.active = true)
  | commitWithoutBegin {position lsn : LSN}
      (read : protocol.view receipt.message = .wal (.commit position) lsn)
      (inactive : receipt.before.transaction.active = false)
  | decode {message : RowMessage} {lsn : LSN} {error : SessionError}
      (read : protocol.view receipt.message = .wal (.row message) lsn)
      (undecodable : rowEvents receipt.before.relations lsn message = .error error)
  | outsideTransaction {message : RowMessage} {lsn : LSN} {event : Event} {events : List Event}
      (read : protocol.view receipt.message = .wal (.row message) lsn)
      (decodes : rowEvents receipt.before.relations lsn message = .ok (event :: events))
      (inactive : receipt.before.transaction.active = false)
  | handler {call : Call} (made : call ∈ receipt.outcome.calls) (failed : call.error ≠ none)

end Golusoris.Cdc
