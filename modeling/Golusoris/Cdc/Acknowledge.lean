import Golusoris.Cdc.Session
import Mathlib.Order.MinMax

/-!
# Nothing is acknowledged before it is handled

`handleMessage` is described once, by what the message reads as. The invariant
ties the consumer to the stream: the transactions before the cursor are handled,
those from the cursor on end after the position, and the rows of the open
transaction that have been streamed are handled.
-/

namespace Golusoris.Cdc

open Lib
open TransactionState

variable {protocol : Protocol} {wal : Wal} {standbyInterval : Time}
variable {consumer : Consumer} {answers : Nat → Option String} {now : Time}
variable {transaction : TransactionState} {relations : Relations} {lsn : LSN}

/-- The events as `deliver` passes them on. -/
def TransactionState.stamped (transaction : TransactionState) (events : List Event) :
    List Call :=
  events.map fun event =>
    ⟨{ event with lsn := transaction.finalLSN, commitTime := transaction.commitTime }, none⟩

variable {calls : List Call}

/-- A delivery that succeeds has decoded its event and had it accepted. -/
theorem deliverDecoded_ok {decoded : Except SessionError Event} {answer : Option String}
    (ok : deliverDecoded transaction decoded answer = (calls, .ok ())) :
    transaction.active = true ∧ ∃ event, decoded = .ok event ∧
      calls = transaction.stamped [event] := by
  cases decoded with
  | error cause => simp [deliverDecoded] at ok
  | ok event =>
    simp only [deliverDecoded, deliver] at ok
    by_cases active : transaction.active = true
    · cases answer with
      | none =>
        simp [active] at ok
        exact ⟨active, event, rfl, ok.symm⟩
      | some cause => simp [active] at ok
    · simp [active] at ok

/-- A truncate that succeeds has had one event accepted for each relation. -/
theorem deliverTruncate_ok {relationIDs : List RelationID}
    (ok : deliverTruncate transaction relations lsn relationIDs answers = (calls, .ok ())) :
    ∃ events, relationIDs.mapM (truncateEvent relations lsn) = .ok events ∧
      calls = transaction.stamped events ∧ (events ≠ [] → transaction.active = true) := by
  induction relationIDs generalizing answers calls with
  | nil =>
    simp only [deliverTruncate, Prod.mk.injEq, and_true] at ok
    exact ⟨[], rfl, ok.symm, fun nonempty => absurd rfl nonempty⟩
  | cons relationID rest ih =>
    rw [deliverTruncate] at ok
    cases delivered : deliverDecoded transaction (truncateEvent relations lsn relationID)
        (answers 0) with
    | mk first outcome =>
      cases outcome with
      | error cause => simp [delivered] at ok
      | ok value =>
        simp only [delivered] at ok
        obtain ⟨active, event, decoded, rfl⟩ := deliverDecoded_ok delivered
        cases remaining : deliverTruncate transaction relations lsn rest
            fun index => answers (index + 1) with
        | mk more outcome =>
          rw [remaining] at ok
          obtain ⟨rfl, rfl⟩ := Prod.mk.inj ok
          obtain ⟨events, decodes, rfl, _⟩ := ih remaining
          refine ⟨event :: events, ?_, rfl, fun _ => active⟩
          rw [List.mapM_cons, decoded, decodes]
          rfl

variable {message : RowMessage}

/-- A row that is dispatched without an error has had every event of it
accepted. -/
theorem dispatchRow_ok
    (ok : dispatchRow transaction relations lsn answers message = (calls, .ok ())) :
    ∃ events, rowEvents relations lsn message = .ok events ∧
      calls = transaction.stamped events ∧ (events ≠ [] → transaction.active = true) := by
  have single : ∀ {decoded : Except SessionError Event},
      deliverDecoded transaction decoded (answers 0) = (calls, .ok ()) →
      ∃ events, decoded.map ([·]) = .ok events ∧ calls = transaction.stamped events ∧
        (events ≠ [] → transaction.active = true) := by
    intro decoded ok
    obtain ⟨active, event, rfl, rfl⟩ := deliverDecoded_ok ok
    exact ⟨[event], rfl, rfl, fun _ => active⟩
  cases message with
  | insert _ _ | update _ _ _ _ | delete _ _ _ => exact single ok
  | truncate relationIDs => exact deliverTruncate_ok ok

/-- What a message does, by what it reads as. -/
def respond (consumer : Consumer) (answers : Nat → Option String) (now : Time) : View → Outcome
  | .broken => { consumer := consumer, stopped := true }
  | .ignored => { consumer := consumer }
  | .keepalive message =>
      let moved :=
        if ¬consumer.transaction.active ∧ consumer.clientXLogPos < message.serverWALEnd then
          { consumer with clientXLogPos := message.serverWALEnd }
        else consumer
      { consumer := if message.replyRequested then { moved with nextStandby := now } else moved }
  | .wal message lsn =>
      match dispatch consumer message lsn answers with
      | (calls, .error _) => { consumer := consumer, calls := calls, stopped := true }
      | (calls, .ok next) => { consumer := next, calls := calls }

theorem handleMessage_eq (message : BackendMessage) :
    handleMessage protocol consumer message answers now =
      respond consumer answers now (protocol.view message) := by
  cases message with
  | errorResponse message code => rfl
  | other => rfl
  | copyData data =>
    cases data with
    | nil => rfl
    | cons kind data =>
      simp only [handleMessage, Protocol.view]
      by_cases keepalive : kind = primaryKeepaliveMessageByteID
      · rw [if_pos keepalive, if_pos keepalive, handleKeepalive]
        cases protocol.parseKeepalive data <;> rfl
      rw [if_neg keepalive, if_neg keepalive]
      by_cases xlog : kind = xLogDataByteID
      · rw [if_pos xlog, if_pos xlog, handleXLogData]
        cases protocol.parseXLogData data with
        | none => rfl
        | some xld =>
          simp only
          cases protocol.parse xld.walData <;> rfl
      · rw [if_neg xlog, if_neg xlog]
        rfl

variable {view : View}

/-- A message that stops the loop leaves the consumer as it was. -/
theorem respond_stopped (stops : (respond consumer answers now view).stopped = true) :
    (respond consumer answers now view).consumer = consumer := by
  cases view with
  | broken => rfl
  | ignored => rfl
  | keepalive message => simp [respond] at stops
  | wal message lsn =>
    simp only [respond] at stops ⊢
    cases dispatched : dispatch consumer message lsn answers with
    | mk calls outcome =>
      cases outcome with
      | error cause => rfl
      | ok next => simp [dispatched] at stops

/-- A row message that does not stop the loop has all its events accepted. -/
theorem respond_row
    (continues : (respond consumer answers now (.wal (.row message) lsn)).stopped = false) :
    (respond consumer answers now (.wal (.row message) lsn)).consumer = consumer ∧
    ∃ events, rowEvents consumer.relations lsn message = .ok events ∧
      (respond consumer answers now (.wal (.row message) lsn)).calls =
        consumer.transaction.stamped events ∧
      (events ≠ [] → consumer.transaction.active = true) := by
  simp only [respond, dispatch] at continues ⊢
  cases delivered : dispatchRow consumer.transaction consumer.relations lsn answers message with
  | mk calls outcome =>
    cases outcome with
    | error cause => simp [delivered, Except.map] at continues
    | ok value =>
      refine ⟨rfl, ?_⟩
      obtain ⟨events, decodes, made, active⟩ := dispatchRow_ok delivered
      exact ⟨events, decodes, made, active⟩

/-- Without an error, every call of the handler returned nil. -/
theorem respond_accepted {call : Call}
    (continues : (respond consumer answers now view).stopped = false)
    (made : call ∈ (respond consumer answers now view).calls) : call.error = none := by
  cases view with
  | broken | ignored | keepalive _ => cases made
  | wal message lsn =>
    cases message with
    | row message =>
      obtain ⟨_, events, _, calls, _⟩ := respond_row continues
      rw [calls] at made
      obtain ⟨event, _, rfl⟩ := List.mem_map.mp made
      rfl
    | begin message =>
      cases begun : consumer.transaction.begin message with
      | error _ | ok _ => simp [respond, dispatch, begun, Except.map] at made
    | commit position =>
      cases committed : consumer.transaction.commit position with
      | error _ | ok _ => simp [respond, dispatch, committed, Except.map] at made
    | relation message => cases made
    | other => cases made

/-- Every handler, decode or protocol error stops the loop. -/
theorem fault_stops {receipt : Receipt} (fault : Fault protocol receipt)
    (handled : receipt.outcome =
      respond receipt.before answers now (protocol.view receipt.message)) :
    receipt.outcome.stopped = true := by
  rw [handled]
  cases fault with
  | broken unreadable => rw [unreadable]; rfl
  | nestedBegin read active =>
    rw [read]
    simp [respond, dispatch, begin, active, Except.map]
  | commitWithoutBegin read inactive =>
    rw [read]
    simp [respond, dispatch, commit, inactive, Except.map]
  | decode read undecodable =>
    rw [read]
    by_contra continues
    obtain ⟨_, events, decodes, _⟩ := respond_row (Bool.not_eq_true _ ▸ continues)
    rw [undecodable] at decodes
    cases decodes
  | outsideTransaction read decodes inactive =>
    rw [read]
    by_contra continues
    obtain ⟨_, events, same, _, active⟩ := respond_row (Bool.not_eq_true _ ▸ continues)
    rw [decodes, Except.ok.injEq] at same
    rw [active (same ▸ List.cons_ne_nil _ _)] at inactive
    cases inactive
  | handler made failed =>
    rw [handled] at made
    by_contra continues
    exact failed (respond_accepted (Bool.not_eq_true _ ▸ continues) made)

variable {history : List Label} {label : Label} {state next : State} {session : Session}

variable {index : Nat} {transaction : Transaction}

theorem RowHandled.snoc {done : Nat}
    (handled : RowHandled protocol history index done transaction message) :
    RowHandled protocol (history ++ [label]) index done transaction message := by
  obtain ⟨receipt, lsn, events, member, rest⟩ := handled
  exact ⟨receipt, lsn, events, List.mem_append_left _ member, rest⟩

theorem Handled.snoc (handled : Handled protocol history index transaction) :
    Handled protocol (history ++ [label]) index transaction :=
  fun done message row => (handled done message row).snoc

/-- A session against the transactions that it streams. -/
structure Coupled (protocol : Protocol) (wal : Wal) (history : List Label)
    (session : Session) : Prop where
  handled : ∀ index transaction, index < session.cursor.index →
    wal.transactions[index]? = some transaction → Handled protocol history index transaction
  above : ∀ index transaction, session.cursor.index ≤ index →
    wal.transactions[index]? = some transaction →
    session.consumer.clientXLogPos < transaction.endLSN
  started : ∀ done, session.cursor.rows = some done → ∃ transaction,
    wal.transactions[session.cursor.index]? = some transaction ∧
    session.consumer.transaction =
      ⟨transaction.begin.commitTime, transaction.begin.finalLSN, true⟩ ∧
    ∀ row message, row < done → transaction.rows[row]? = some message →
      RowHandled protocol history session.cursor.index row transaction message

variable (coupled : Coupled protocol wal history session)

include coupled in
theorem Coupled.snoc : Coupled protocol wal (history ++ [label]) session where
  handled index transaction earlier known := (coupled.handled index transaction earlier known).snoc
  above := coupled.above
  started done rows := by
    obtain ⟨transaction, known, current, handled⟩ := coupled.started done rows
    exact ⟨transaction, known, current,
      fun row message earlier found => (handled row message earlier found).snoc⟩

include coupled in
/-- What a session knows depends on the consumer's position and transaction only. -/
theorem Coupled.congr {consumer : Consumer}
    (position : consumer.clientXLogPos = session.consumer.clientXLogPos)
    (current : consumer.transaction = session.consumer.transaction) :
    Coupled protocol wal history ⟨session.cursor, consumer⟩ where
  handled := coupled.handled
  above := by
    intro index transaction later known
    rw [position]
    exact coupled.above index transaction later known
  started := by
    intro done rows
    rw [current]
    exact coupled.started done rows

include coupled in
/-- The transactions that end at or before a position the session has reached
are handled. -/
theorem Coupled.acknowledged (known : wal.transactions[index]? = some transaction)
    (reached : transaction.endLSN ≤ session.consumer.clientXLogPos) :
    Handled protocol history index transaction := by
  apply coupled.handled index transaction _ known
  by_contra later
  exact absurd (coupled.above index transaction (Nat.not_lt.mp later) known)
    (Nat.not_lt.mpr reached)

structure Acknowledged (protocol : Protocol) (wal : Wal) (history : List Label)
    (state : State) : Prop where
  confirmed : ∀ index transaction, wal.transactions[index]? = some transaction →
    transaction.endLSN ≤ state.confirmed → Handled protocol history index transaction
  session : ∀ session, state.session = some session → Coupled protocol wal history session

/-- A new session starts behind the confirmed position. -/
theorem coupled_opened (acknowledged : Acknowledged protocol wal history state)
    {nextStandby : Time} :
    Coupled protocol wal history
      ⟨⟨wal.resume state.confirmed, none⟩, { nextStandby := nextStandby }⟩ where
  handled := by
    intro index transaction earlier known
    apply acknowledged.confirmed index transaction known
    have skipped := List.not_of_lt_findIdx earlier
    obtain ⟨inside, rfl⟩ := List.getElem?_eq_some_iff.mp known
    simpa using skipped
  above := by
    intro index transaction _ known
    exact Nat.zero_lt_of_lt (wal.above transaction (List.mem_of_getElem? known))
  started := by
    rintro done ⟨⟩

/-- Only the position of an idle consumer may follow a keepalive. -/
theorem respond_keepalive (message : Keepalive) :
    (respond consumer answers now (.keepalive message)).consumer.transaction =
      consumer.transaction ∧
    ((respond consumer answers now (.keepalive message)).consumer.clientXLogPos =
        consumer.clientXLogPos ∨
      consumer.clientXLogPos < message.serverWALEnd ∧
      (respond consumer answers now (.keepalive message)).consumer.clientXLogPos =
        message.serverWALEnd) := by
  simp only [respond]
  by_cases ahead : ¬consumer.transaction.active ∧ consumer.clientXLogPos < message.serverWALEnd
  · rw [if_pos ahead]
    cases message.replyRequested <;> exact ⟨rfl, .inr ⟨ahead.2, rfl⟩⟩
  · rw [if_neg ahead]
    cases message.replyRequested <;> exact ⟨rfl, .inl rfl⟩

theorem respond_begin {message : BeginMessage}
    (continues : (respond consumer answers now (.wal (.begin message) lsn)).stopped = false) :
    (respond consumer answers now (.wal (.begin message) lsn)).consumer =
      { consumer with transaction := ⟨message.commitTime, message.finalLSN, true⟩ } := by
  by_cases active : consumer.transaction.active = true
  · simp [respond, dispatch, begin, active, Except.map] at continues
  · simp [respond, dispatch, begin, active, Except.map]

theorem respond_commit {position : LSN}
    (continues : (respond consumer answers now (.wal (.commit position) lsn)).stopped = false) :
    (respond consumer answers now (.wal (.commit position) lsn)).consumer =
      { consumer with transaction := {}, clientXLogPos := position } := by
  by_cases active : consumer.transaction.active = true
  · simp [respond, dispatch, commit, active, Except.map]
  · simp [respond, dispatch, commit, active, Except.map] at continues

/-- Later transactions end later. -/
theorem Wal.endLSN_lt {earlier later : Nat} {first second : Transaction}
    (known : wal.transactions[earlier]? = some first)
    (knownLater : wal.transactions[later]? = some second) (before : earlier < later) :
    first.endLSN < second.endLSN := by
  obtain ⟨inside, rfl⟩ := List.getElem?_eq_some_iff.mp known
  obtain ⟨insideLater, rfl⟩ := List.getElem?_eq_some_iff.mp knownLater
  exact List.pairwise_iff_getElem.mp wal.increasing earlier later inside insideLater before

include coupled in
/-- A message that does not stop the loop keeps the session coupled to the
stream. -/
theorem coupled_received {message : BackendMessage} {cursor : Cursor} {outcome : Outcome}
    (streams : Streams wal session.cursor (protocol.view message) cursor)
    (handles : outcome = respond session.consumer answers now (protocol.view message))
    (continues : outcome.stopped = false) :
    Coupled protocol wal
      (history ++ [.received ⟨session.cursor, message, session.consumer, outcome⟩])
      ⟨cursor, outcome.consumer⟩ := by
  obtain ⟨position, consumer⟩ := session
  generalize viewed : protocol.view message = view at streams handles
  subst handles
  cases streams with
  | broken => cases continues
  | ignored | other _ => exact (coupled.congr rfl rfl).snoc
  | relation message lsn =>
    apply Coupled.snoc
    exact coupled.congr rfl rfl
  | keepalive below =>
    obtain ⟨same, moved⟩ := respond_keepalive _
    rcases moved with unmoved | ⟨_, moved⟩
    · exact (coupled.congr unmoved same).snoc
    · refine ⟨coupled.snoc.handled, ?_, ?_⟩
      · intro index transaction later known
        exact moved ▸ below index transaction later known
      · rw [same]
        exact coupled.snoc.started
  | @begin index transaction lsn known =>
    rw [respond_begin continues]
    refine ⟨coupled.snoc.handled, coupled.above, ?_⟩
    rintro done ⟨⟩
    exact ⟨transaction, known, rfl, fun row message earlier => absurd earlier (Nat.not_lt_zero _)⟩
  | @row index done transaction message lsn known found =>
    obtain ⟨same, events, decodes, calls, _⟩ := respond_row continues
    obtain ⟨opened, knownOpened, current, handled⟩ := coupled.started done rfl
    obtain rfl : opened = transaction := Option.some.inj (knownOpened.symm.trans known)
    rw [same]
    refine ⟨coupled.snoc.handled, coupled.above, ?_⟩
    rintro _ ⟨⟩
    refine ⟨opened, known, current, ?_⟩
    intro row other earlier foundOther
    rcases Nat.lt_succ_iff_lt_or_eq.mp earlier with before | rfl
    · exact (handled row other before foundOther).snoc
    · obtain rfl : message = other := Option.some.inj (found.symm.trans foundOther)
      refine ⟨_, lsn, events, List.mem_append_right _ List.mem_cons_self, rfl, viewed, decodes, ?_⟩
      rw [calls, current]
      rfl
  | @commit index transaction lsn known =>
    obtain ⟨opened, knownOpened, _, handled⟩ := coupled.started _ rfl
    obtain rfl : opened = transaction := Option.some.inj (knownOpened.symm.trans known)
    rw [respond_commit continues]
    refine ⟨?_, ?_, ?_⟩
    · intro other transaction earlier knownOther
      rcases Nat.lt_succ_iff_lt_or_eq.mp earlier with before | rfl
      · exact (coupled.handled other transaction before knownOther).snoc
      · obtain rfl : opened = transaction := Option.some.inj (known.symm.trans knownOther)
        intro row message found
        have inside := (List.getElem?_eq_some_iff.mp found).1
        exact (handled row message inside found).snoc
    · intro other transaction later knownOther
      exact wal.endLSN_lt known knownOther later
    · rintro done ⟨⟩

theorem acknowledged_step (acknowledged : Acknowledged protocol wal history state)
    (step : Step protocol wal standbyInterval state label next) :
    Acknowledged protocol wal (history ++ [label]) next := by
  have confirmed : ∀ index transaction, wal.transactions[index]? = some transaction →
      transaction.endLSN ≤ state.confirmed →
      Handled protocol (history ++ [label]) index transaction :=
    fun index transaction known below =>
      (acknowledged.confirmed index transaction known below).snoc
  have reported : ∀ {session : Session} {position : LSN}, state.session = some session →
      position ≤ max state.confirmed session.consumer.clientXLogPos →
      ∀ index transaction, wal.transactions[index]? = some transaction →
        transaction.endLSN ≤ position →
        Handled protocol (history ++ [label]) index transaction := by
    intro session position live bounded index transaction known below
    rcases le_max_iff.mp (Nat.le_trans below bounded) with before | reached
    · exact confirmed index transaction known before
    · exact ((acknowledged.session session live).acknowledged known reached).snoc
  cases step with
  | opened now idle =>
    refine ⟨confirmed, ?_⟩
    rintro _ ⟨⟩
    exact (coupled_opened acknowledged).snoc
  | @received session cursor outcome message answers now live streams handles =>
    refine ⟨confirmed, ?_⟩
    intro after stays
    by_cases stops : outcome.stopped = true
    · simp [stops] at stays
    · simp only [stops, Bool.false_eq_true, if_false, Option.some.injEq] at stays
      subst stays
      exact coupled_received (acknowledged.session session live) streams
        (handles.symm.trans (handleMessage_eq message)) (Bool.not_eq_true _ ▸ stops)
  | @reported session now sentAt position live due bounded =>
    refine ⟨reported live bounded, ?_⟩
    rintro _ ⟨⟩
    apply Coupled.snoc
    exact (acknowledged.session session live).congr rfl rfl
  | reportFailed now position live due bounded =>
    refine ⟨reported live bounded, ?_⟩
    rintro _ ⟨⟩
  | ended =>
    refine ⟨confirmed, ?_⟩
    rintro _ ⟨⟩

variable {labels : List Label} {finish : State}

theorem machine_acknowledged (run : (machine protocol wal standbyInterval).Run labels finish) :
    Acknowledged protocol wal labels finish := by
  refine run.history_invariant (Acknowledged protocol wal) ?_ ?_
  · rintro _ rfl
    constructor
    · intro index transaction known below
      have above := wal.above transaction (List.mem_of_getElem? known)
      exact absurd above (Nat.not_lt.mpr below)
    · rintro session ⟨⟩
  · intro history before label after acknowledged step
    exact acknowledged_step acknowledged step

include coupled in
/-- No message lowers the position of a session coupled to its stream. -/
theorem respond_position {cursor : Cursor} (streams : Streams wal session.cursor view cursor) :
    session.consumer.clientXLogPos ≤
      (respond session.consumer answers now view).consumer.clientXLogPos := by
  by_cases stops : (respond session.consumer answers now view).stopped = true
  · exact Nat.le_of_eq (congrArg Consumer.clientXLogPos (respond_stopped stops)).symm
  have continues := Bool.not_eq_true _ ▸ stops
  obtain ⟨position, consumer⟩ := session
  cases streams with
  | broken | ignored | relation _ _ | other _ => exact Nat.le_refl _
  | @keepalive _ message below =>
    obtain ⟨_, same | ⟨ahead, moved⟩⟩ := @respond_keepalive consumer answers now message
    · exact Nat.le_of_eq same.symm
    · exact Nat.le_of_lt (moved ▸ ahead)
  | begin lsn known =>
    rw [respond_begin continues]
  | row lsn known found =>
    rw [(respond_row continues).1]
  | @commit index transaction lsn known =>
    rw [respond_commit continues]
    exact Nat.le_of_lt (coupled.above index transaction (Nat.le_refl _) known)

/-- A position that is reported or confirmed covers handled transactions only; a
fault ends the session where it stands; the position of a session never
decreases. -/
theorem acknowledged_handled (run : (machine protocol wal standbyInterval).Run labels finish) :
    (∀ position, position ≤ finish.confirmed ∨
        (∃ session, finish.session = some session ∧ position ≤ session.consumer.clientXLogPos) →
      ∀ index transaction, wal.transactions[index]? = some transaction →
        transaction.endLSN ≤ position → Handled protocol labels index transaction) ∧
    (∀ receipt next, Step protocol wal standbyInterval finish (.received receipt) next →
      Fault protocol receipt →
        receipt.outcome.consumer.clientXLogPos = receipt.before.clientXLogPos ∧
        next = { finish with session := none }) ∧
    ∀ label next before after, Step protocol wal standbyInterval finish label next →
      finish.session = some before → next.session = some after →
      before.consumer.clientXLogPos ≤ after.consumer.clientXLogPos := by
  have acknowledged := machine_acknowledged run
  refine ⟨?_, ?_, ?_⟩
  · rintro position reached index transaction known below
    rcases reached with confirmed | ⟨session, live, ahead⟩
    · exact acknowledged.confirmed index transaction known (Nat.le_trans below confirmed)
    · exact (acknowledged.session session live).acknowledged known (Nat.le_trans below ahead)
  · intro receipt next step fault
    cases step with
    | received message answers now live streams handles =>
      have responded := handles.symm.trans (handleMessage_eq message)
      have stops := fault_stops fault responded
      simp only at stops
      constructor
      · rw [responded] at stops ⊢
        exact congrArg Consumer.clientXLogPos (respond_stopped stops)
      · simp [stops]
  · intro label next before after step live stays
    cases step with
    | opened now idle =>
      rw [live] at idle
      cases idle
    | @received session cursor outcome message answers now known streams handles =>
      obtain rfl : before = session := Option.some.inj (live.symm.trans known)
      by_cases stops : outcome.stopped = true
      · simp [stops] at stays
      · simp only [stops, Bool.false_eq_true, if_false, Option.some.injEq] at stays
        subst stays
        rw [← handles, handleMessage_eq]
        exact respond_position (acknowledged.session before live) streams
    | @reported session now sentAt position known due bounded =>
      obtain rfl : before = session := Option.some.inj (live.symm.trans known)
      cases stays
      exact Nat.le_refl _
    | reportFailed now position known due bounded => cases stays
    | ended => cases stays

def sampleRelation : RelationMessage where
  relationID := 1
  namespaceName := "public"
  relationName := "t"
  columns := [⟨1, "id"⟩]

def sampleTransaction : Transaction where
  begin := ⟨0x100, 0⟩
  rows := [.insert 1 (some [⟨0x74, [0x37]⟩])]
  endLSN := 0x108

def sampleWal : Wal where
  origin := 0x80
  transactions := [sampleTransaction]
  above := by decide
  increasing := List.pairwise_singleton _ _

def beginBytes : Bytes :=
  [0x42, 0, 0, 0, 0, 0, 0, 1, 0, 0, 0, 0, 0, 0, 0, 0, 0, 0, 0, 0, 1]

def relationBytes : Bytes :=
  [0x52, 0, 0, 0, 1, 0x70, 0x75, 0x62, 0x6c, 0x69, 0x63, 0, 0x74, 0, 0x64, 0, 1, 1, 0x69, 0x64, 0,
    0, 0, 0, 0x17, 0xff, 0xff, 0xff, 0xff]

def insertBytes : Bytes := [0x49, 0, 0, 0, 1, 0x4e, 0, 1, 0x74, 0, 0, 0, 1, 0x37]

def commitBytes : Bytes :=
  [0x43, 0, 0, 0, 0, 0, 0, 0, 1, 0, 0, 0, 0, 0, 0, 0, 1, 8, 0, 0, 0, 0, 0, 0, 0, 0]

/-- The parse functions on the four messages of the session. -/
def sampleProtocol : Protocol where
  parseKeepalive _ := none
  parseXLogData data :=
    if data.length < 24 then none
    else some ⟨(data.take 8).foldl (fun value byte => value * 256 + byte.toNat) 0, data.drop 24⟩
  parse data :=
    if data = beginBytes then some (.begin sampleTransaction.begin)
    else if data = relationBytes then some (.relation sampleRelation)
    else if data = insertBytes then some (.row (.insert 1 (some [⟨0x74, [0x37]⟩])))
    else if data = commitBytes then some (.commit 0x108)
    else none

def sampleMessage (data : Bytes) : BackendMessage :=
  .copyData (xLogDataByteID :: (List.replicate 24 0 ++ data))

theorem sample_session : ∃ labels finish,
    (machine sampleProtocol sampleWal 100).Run labels finish ∧ finish.confirmed = 0x108 := by
  have start : (machine sampleProtocol sampleWal 100).Run [] { confirmed := 0x80 } :=
    ⟨_, rfl, .nil _⟩
  have opened := start.snoc (@Step.opened sampleProtocol sampleWal 100 _ 0 rfl)
  have begun := opened.snoc (@Step.received sampleProtocol sampleWal 100 _ _ _ _
    (sampleMessage beginBytes) (fun _ => none) 1 rfl (@Streams.begin sampleWal 0 _ 0 rfl) rfl)
  have related := begun.snoc (@Step.received sampleProtocol sampleWal 100 _ _ _ _
    (sampleMessage relationBytes) (fun _ => none) 2 rfl
    (@Streams.relation sampleWal _ sampleRelation 0) rfl)
  have inserted := related.snoc (@Step.received sampleProtocol sampleWal 100 _ _ _ _
    (sampleMessage insertBytes) (fun _ => none) 3 rfl (@Streams.row sampleWal 0 0 _ _ 0 rfl rfl)
    rfl)
  have committed := inserted.snoc (@Step.received sampleProtocol sampleWal 100 _ _ _ _
    (sampleMessage commitBytes) (fun _ => none) 4 rfl
    (@Streams.commit sampleWal 0 sampleTransaction 0 rfl) rfl)
  have reported := committed.snoc (@Step.reported sampleProtocol sampleWal 100 _ _ 101 101 0x108
    rfl (by decide) (by decide))
  exact ⟨_, _, reported, rfl⟩

theorem sample_session_handled : ∃ labels finish,
    (machine sampleProtocol sampleWal 100).Run labels finish ∧ finish.confirmed = 0x108 ∧
      Handled sampleProtocol labels 0 sampleTransaction := by
  obtain ⟨labels, finish, run, confirmed⟩ := sample_session
  have handled := (acknowledged_handled run).1 0x108 (.inl (Nat.le_of_eq confirmed.symm)) 0
    sampleTransaction rfl (Nat.le_refl _)
  exact ⟨labels, finish, run, confirmed, handled⟩

end Golusoris.Cdc
