import Golusoris.Lib.Utf8
import Mathlib.Logic.Function.Basic
import Mathlib.Tactic.Common

/-!
# The replication consumer

`db/cdc` between two receptions of a message. `handleMessage` is the whole of
what a message does: it decodes it, calls the handler for each row change, and
moves the position that the standby status updates report. `Protocol` has the
parse functions of the replication package. A handler is opaque, so each call
takes its answer from the run.
-/

namespace Golusoris.Cdc

open Lib

abbrev LSN := Nat
abbrev Time := Int
abbrev RelationID := UInt32

structure Column where
  flags : UInt8
  name : String
  deriving DecidableEq

structure RelationMessage where
  relationID : RelationID
  namespaceName : String
  relationName : String
  columns : List Column
  deriving DecidableEq

structure TupleColumn where
  dataType : UInt8
  data : Bytes
  deriving DecidableEq

/-- The columns of a tuple. -/
abbrev TupleData := List TupleColumn

structure BeginMessage where
  finalLSN : LSN
  commitTime : Time
  deriving DecidableEq

/-- The messages that change rows; an absent tuple is nil in the source. -/
inductive RowMessage where
  | insert (relationID : RelationID) (tuple : Option TupleData)
  | update (relationID : RelationID) (oldTupleType : UInt8) (oldTuple newTuple : Option TupleData)
  | delete (relationID : RelationID) (oldTupleType : UInt8) (oldTuple : Option TupleData)
  | truncate (relationIDs : List RelationID)
  deriving DecidableEq

inductive WalMessage where
  | begin (message : BeginMessage)
  | relation (message : RelationMessage)
  | row (message : RowMessage)
  | commit (transactionEndLSN : LSN)
  /-- Any other message of the protocol: a type, an origin, a logical message. -/
  | other

structure Keepalive where
  serverWALEnd : LSN
  replyRequested : Bool

structure XLogData where
  walStart : LSN
  walData : Bytes

inductive BackendMessage where
  | errorResponse (message code : String)
  | copyData (data : Bytes)
  | other

structure Protocol where
  parseKeepalive : Bytes → Option Keepalive
  parseXLogData : Bytes → Option XLogData
  parse : Bytes → Option WalMessage

def primaryKeepaliveMessageByteID : UInt8 := 0x6b

def xLogDataByteID : UInt8 := 0x77

inductive Op where
  | insert
  | update
  | delete
  | truncate
  deriving DecidableEq

inductive ColumnValue where
  | null
  | unchanged
  | text (data : Bytes)
  | binary (data : Bytes)
  deriving DecidableEq

/-- A map with its keys in the order of their first assignment. -/
abbrev Named (α : Type) := List (String × α)

def Named.assign {α : Type} (map : Named α) (name : String) (value : α) : Named α :=
  if map.any (·.1 = name) then map.map fun pair => if pair.1 = name then (name, value) else pair
  else map ++ [(name, value)]

structure Event where
  schema : String
  table : String
  op : Op
  oldText : Option (Named Bytes) := none
  newText : Option (Named Bytes) := none
  lsn : LSN
  commitTime : Time := 0
  oldValues : Option (Named ColumnValue) := none
  newValues : Option (Named ColumnValue) := none
  deriving DecidableEq

inductive SessionError where
  | unknownRelation (relationID : RelationID)
  | columnCount (tuple : String) (actual expected : Nat)
  | unknownDataType (tuple : String) (dataType : UInt8)
  | parse
  | nestedBegin
  | commitWithoutBegin
  | outsideTransaction
  | handler (cause : String)
  deriving DecidableEq

abbrev Relations := RelationID → Option RelationMessage

def decodeColumnValue (tuple : String) (column : TupleColumn) : Except SessionError ColumnValue :=
  if column.dataType = 0x6e then .ok .null
  else if column.dataType = 0x75 then .ok .unchanged
  else if column.dataType = 0x74 then .ok (.text column.data)
  else if column.dataType = 0x62 then .ok (.binary column.data)
  else .error (.unknownDataType tuple column.dataType)

/-- The loop of `tupleToValues`, over the tuple's columns and the columns of the
relation that they stand for. -/
def assignColumns (tuple : String) :
    TupleData → List Column → Named ColumnValue → Except SessionError (Named ColumnValue)
  | value :: values, column :: columns, out => do
      let decoded ← decodeColumnValue tuple value
      assignColumns tuple values columns (out.assign column.name decoded)
  | _, _, out => .ok out

/-- A key tuple has the key columns of the relation only. -/
def tupleToValues (tuple : String) (data : Option TupleData) (relation : RelationMessage)
    (keyOnly : Bool) : Except SessionError (Option (Named ColumnValue)) :=
  match data with
  | none => .ok none
  | some values =>
      let columns :=
        if keyOnly then relation.columns.filter fun column => column.flags &&& 1 ≠ 0
        else relation.columns
      if values.length ≠ columns.length then
        .error (.columnCount tuple values.length columns.length)
      else (assignColumns tuple values columns []).map some

def legacyTextValues (values : Option (Named ColumnValue)) : Option (Named Bytes) :=
  values.map fun values => values.filterMap fun
    | (name, .null) => some (name, [])
    | (name, .text data) => some (name, data)
    | _ => none

def findRelation (relations : Relations) (relationID : RelationID) :
    Except SessionError RelationMessage :=
  match relations relationID with
  | none => .error (.unknownRelation relationID)
  | some relation => .ok relation

def insertEvent (relations : Relations) (lsn : LSN) (relationID : RelationID)
    (tuple : Option TupleData) : Except SessionError Event := do
  let relation ← findRelation relations relationID
  let values ← tupleToValues "insert" tuple relation false
  return {
    schema := relation.namespaceName
    table := relation.relationName
    op := .insert
    newText := legacyTextValues values
    lsn := lsn
    newValues := values }

def updateEvent (relations : Relations) (lsn : LSN) (relationID : RelationID)
    (oldTupleType : UInt8) (oldTuple newTuple : Option TupleData) : Except SessionError Event := do
  let relation ← findRelation relations relationID
  let oldValues ← tupleToValues "update old" oldTuple relation (oldTupleType = 0x4b)
  let newValues ← tupleToValues "update new" newTuple relation false
  return {
    schema := relation.namespaceName
    table := relation.relationName
    op := .update
    oldText := legacyTextValues oldValues
    newText := legacyTextValues newValues
    lsn := lsn
    oldValues := oldValues
    newValues := newValues }

def deleteEvent (relations : Relations) (lsn : LSN) (relationID : RelationID)
    (oldTupleType : UInt8) (oldTuple : Option TupleData) : Except SessionError Event := do
  let relation ← findRelation relations relationID
  let oldValues ← tupleToValues "delete" oldTuple relation (oldTupleType = 0x4b)
  return {
    schema := relation.namespaceName
    table := relation.relationName
    op := .delete
    oldText := legacyTextValues oldValues
    lsn := lsn
    oldValues := oldValues }

def truncateEvent (relations : Relations) (lsn : LSN) (relationID : RelationID) :
    Except SessionError Event := do
  let relation ← findRelation relations relationID
  return {
    schema := relation.namespaceName
    table := relation.relationName
    op := .truncate
    lsn := lsn }

structure TransactionState where
  commitTime : Time := 0
  finalLSN : LSN := 0
  active : Bool := false
  deriving DecidableEq

/-- A call of the handler: the event that it was passed and its error. -/
structure Call where
  event : Event
  error : Option String
  deriving DecidableEq

/-- `deliver`: the calls that were made, and how it ended. -/
def deliver (transaction : TransactionState) (event : Event) (answer : Option String) :
    List Call × Except SessionError Unit :=
  if ¬transaction.active then ([], .error .outsideTransaction)
  else
    let event :=
      { event with lsn := transaction.finalLSN, commitTime := transaction.commitTime }
    match answer with
    | none => ([⟨event, none⟩], .ok ())
    | some cause => ([⟨event, some cause⟩], .error (.handler cause))

def deliverDecoded (transaction : TransactionState) (decoded : Except SessionError Event)
    (answer : Option String) : List Call × Except SessionError Unit :=
  match decoded with
  | .error cause => ([], .error cause)
  | .ok event => deliver transaction event answer

/-- `deliverTruncate`; `answers` are those of its calls, in their order. -/
def deliverTruncate (transaction : TransactionState) (relations : Relations) (lsn : LSN) :
    List RelationID → (Nat → Option String) → List Call × Except SessionError Unit
  | [], _ => ([], .ok ())
  | relationID :: rest, answers =>
      match deliverDecoded transaction (truncateEvent relations lsn relationID) (answers 0) with
      | (calls, .error cause) => (calls, .error cause)
      | (calls, .ok ()) =>
          let (more, outcome) := deliverTruncate transaction relations lsn rest
            fun index => answers (index + 1)
          (calls ++ more, outcome)

/-- The row messages of `dispatch`. -/
def dispatchRow (transaction : TransactionState) (relations : Relations) (lsn : LSN)
    (answers : Nat → Option String) : RowMessage → List Call × Except SessionError Unit
  | .insert relationID tuple =>
      deliverDecoded transaction (insertEvent relations lsn relationID tuple) (answers 0)
  | .update relationID oldTupleType oldTuple newTuple =>
      deliverDecoded transaction
        (updateEvent relations lsn relationID oldTupleType oldTuple newTuple) (answers 0)
  | .delete relationID oldTupleType oldTuple =>
      deliverDecoded transaction (deleteEvent relations lsn relationID oldTupleType oldTuple)
        (answers 0)
  | .truncate relationIDs => deliverTruncate transaction relations lsn relationIDs answers

/-- The variables of `runLoop`. -/
structure Consumer where
  relations : Relations := fun _ => none
  transaction : TransactionState := {}
  clientXLogPos : LSN := 0
  nextStandby : Time

/-- What a message did: the consumer after it, the calls of the handler, and
whether the loop stops. -/
structure Outcome where
  consumer : Consumer
  calls : List Call := []
  stopped : Bool := false

def TransactionState.begin (transaction : TransactionState) (message : BeginMessage) :
    Except SessionError TransactionState :=
  if transaction.active then .error .nestedBegin
  else .ok ⟨message.commitTime, message.finalLSN, true⟩

/-- `commit`: the new transaction state and position. -/
def TransactionState.commit (transaction : TransactionState) (transactionEndLSN : LSN) :
    Except SessionError (TransactionState × LSN) :=
  if ¬transaction.active then .error .commitWithoutBegin
  else .ok ({}, transactionEndLSN)

def dispatch (consumer : Consumer) (message : WalMessage) (lsn : LSN)
    (answers : Nat → Option String) : List Call × Except SessionError Consumer :=
  match message with
  | .begin message =>
      ([], (consumer.transaction.begin message).map fun transaction =>
        { consumer with transaction := transaction })
  | .relation message =>
      ([], .ok { consumer with
        relations := Function.update consumer.relations message.relationID (some message) })
  | .row message =>
      let (calls, outcome) :=
        dispatchRow consumer.transaction consumer.relations lsn answers message
      (calls, outcome.map fun _ => consumer)
  | .commit transactionEndLSN =>
      ([], (consumer.transaction.commit transactionEndLSN).map fun (transaction, position) =>
        { consumer with transaction := transaction, clientXLogPos := position })
  | .other => ([], .ok consumer)

def handleKeepalive (protocol : Protocol) (consumer : Consumer) (data : Bytes) (now : Time) :
    Outcome :=
  match protocol.parseKeepalive data with
  | none => { consumer := consumer, stopped := true }
  | some keepalive =>
      let moved :=
        if ¬consumer.transaction.active ∧ consumer.clientXLogPos < keepalive.serverWALEnd then
          { consumer with clientXLogPos := keepalive.serverWALEnd }
        else consumer
      { consumer :=
          if keepalive.replyRequested then { moved with nextStandby := now } else moved }

def handleXLogData (protocol : Protocol) (consumer : Consumer) (data : Bytes)
    (answers : Nat → Option String) : Outcome :=
  match protocol.parseXLogData data with
  | none => { consumer := consumer, stopped := true }
  | some xld =>
      match protocol.parse xld.walData with
      | none => { consumer := consumer, stopped := true }
      | some message =>
          match dispatch consumer message xld.walStart answers with
          | (calls, .error _) => { consumer := consumer, calls := calls, stopped := true }
          | (calls, .ok next) => { consumer := next, calls := calls }

def handleMessage (protocol : Protocol) (consumer : Consumer) (message : BackendMessage)
    (answers : Nat → Option String) (now : Time) : Outcome :=
  match message with
  | .errorResponse _ _ => { consumer := consumer, stopped := true }
  | .other => { consumer := consumer }
  | .copyData [] => { consumer := consumer, stopped := true }
  | .copyData (kind :: data) =>
      if kind = primaryKeepaliveMessageByteID then handleKeepalive protocol consumer data now
      else if kind = xLogDataByteID then handleXLogData protocol consumer data answers
      else { consumer := consumer }

end Golusoris.Cdc
