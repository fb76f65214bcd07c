import Golusoris.Lib.Machine
import Golusoris.Sessions.Manager

/-!
# The login flow kept in a session

Source: `SessionFlow.Login`, `Callback`, `consume` and `validateCallback` of
`auth/oidc/handler.go`. A login stores state, nonce and verifier in the session;
a callback loads the session, saves it without them and only then compares what
it loaded with the request. Both write the whole session back, and nothing
compares what is in the store with what was loaded.
-/

namespace Golusoris.Oidc

open Lib (Machine)
open Sessions (Context Data Manager MemoryStore Session)

variable {Value : Type}

def second : Int := 1000000000

/-- The largest `time.Duration`. -/
def maxDuration : Int := 9223372036854775807

/-- `Time.Sub` of two times in nanoseconds. -/
def sub (later earlier : Int) : Int := max (-maxDuration - 1) (min maxDuration (later - earlier))

/-- The values of a session, as the flow writes and reads them: a type assertion
to a string, and `unixTime` over the kinds of number that a store may hand back. -/
structure Values (Value : Type) where
  text : String → Value
  seconds : Int → Value
  asText : Value → Option String
  unixTime : Value → Option Int
  asText_text : ∀ value, asText (text value) = some value
  unixTime_seconds : ∀ value, unixTime (seconds value) = some value

def flowStateKey : String := "oidc.state"
def flowNonceKey : String := "oidc.nonce"
def flowVerifierKey : String := "oidc.verifier"
def flowIssuedKey : String := "oidc.issued_at"

/-- `flowState`; the issue time in seconds, none for the zero time. -/
structure FlowState where
  state : String
  nonce : String
  verifier : String
  issued : Option Int
  deriving DecidableEq

/-- What `consume` reads of a session. -/
def readFlow (values : Values Value) (data : Data Value) : FlowState where
  state := ((data flowStateKey).bind values.asText).getD ""
  nonce := ((data flowNonceKey).bind values.asText).getD ""
  verifier := ((data flowVerifierKey).bind values.asText).getD ""
  issued := (data flowIssuedKey).bind values.unixTime

/-- What `Login` stores at a time. -/
def issue (state nonce verifier : String) (now : Int) : FlowState :=
  ⟨state, nonce, verifier, some (now / second)⟩

def setFlow (values : Values Value) (session : Session Value) (state nonce verifier : String)
    (now : Int) : Session Value :=
  (((session.set flowStateKey (values.text state)).set flowNonceKey (values.text nonce)).set
    flowVerifierKey (values.text verifier)).set flowIssuedKey (values.seconds (now / second))

def deleteFlow (session : Session Value) : Session Value :=
  (((session.delete flowStateKey).delete flowNonceKey).delete flowVerifierKey).delete flowIssuedKey

/-- The parameters of the callback's query. -/
structure Query where
  error : String
  state : String
  code : String

inductive FlowError where
  /-- The message quotes at most `maxIDPErrorLen` bytes of the parameter. -/
  | idp (error : String)
  | state
  | expired
  | code
  deriving DecidableEq

/-- The second of the zero time. -/
def zeroTime : Int := -62135596800

def validateCallback (maxAge now : Int) (query : Query) (stored : FlowState) :
    Except FlowError String :=
  if query.error ≠ "" then .error (.idp query.error)
  else if query.state = "" ∨ stored.state = "" ∨ query.state ≠ stored.state then .error .state
  else
    match stored.issued with
    | none => .error .expired
    | some issued =>
        if issued = zeroTime ∨ maxAge < sub (now / second * second) (issued * second) then
          .error .expired
        else if query.code = "" ∨ stored.verifier = "" then .error .code
        else .ok query.code

/-- Where a request is. What a callback read goes with the login that stored it. -/
inductive Task (Value : Type) where
  | idle
  | login (state nonce verifier : String)
  | storing (state nonce verifier : String) (session : Session Value)
  | callback (query : Query)
  | consuming (query : Query) (session : Session Value) (stored : FlowState) (origin : Option Nat)
  | validating (query : Query) (session : Session Value) (stored : FlowState) (origin : Option Nat)
  | renewing (session : Session Value)
  | retiring (session : Session Value) (old : String)
  | succeeding (session : Session Value)
  | done

/-- The store, and for each session the login whose flow it holds. The second is not in
the code: no step depends on it. -/
structure State (Value : Type) where
  store : MemoryStore Value
  writer : String → Option Nat
  tasks : Nat → Task Value

namespace State

def task (state : State Value) (caller : Nat) (task : Task Value) : State Value :=
  { state with tasks := Function.update state.tasks caller task }

def wrote (state : State Value) (store : MemoryStore Value) (id : String) (writer : Option Nat) :
    State Value :=
  { state with store := store, writer := Function.update state.writer id writer }

/-- A load drops a session that has expired. -/
def read (state : State Value) (store : MemoryStore Value) : State Value :=
  { state with
    store := store
    writer := fun id => if (store id).isSome then state.writer id else none }

/-- The login whose flow a loaded session holds. -/
def origin (state : State Value) (cookie : Option String) (session : Session Value) : Option Nat :=
  if cookie = some session.id then state.writer session.id else none

end State

inductive Action (Value : Type) where
  | login (state nonce verifier : String)
  | callback (query : Query)
  | loaded (session : Session Value)
  /-- A login saved the session. -/
  | stored (id : String) (flow : FlowState) (now : Int)
  /-- A callback saved the session without the flow keys. -/
  | consumed (id : String)
  /-- The provider's `Complete` was called, and succeeded or not. -/
  | complete (id : String) (query : Query) (code : String) (flow : FlowState) (origin : Option Nat)
      (now : Int) (succeeded : Bool)
  | renewSaved (id : String)
  | renewed (old : String)
  | success
  | failed

/-- One step of a request: a call of the store, a call of the provider or of `OnSuccess`. -/
inductive Step (manager : Manager Value) (values : Values Value) (maxAge : Int) :
    State Value → Nat × Action Value → State Value → Prop where
  | login {before : State Value} {caller : Nat} {state nonce verifier : String}
      (free : before.tasks caller = .idle) :
      Step manager values maxAge before (caller, .login state nonce verifier)
        (before.task caller (.login state nonce verifier))
  | callback {before : State Value} {caller : Nat} {query : Query}
      (free : before.tasks caller = .idle) :
      Step manager values maxAge before (caller, .callback query) (before.task caller (.callback query))
  | loginLoad {before : State Value} {caller : Nat} {state nonce verifier : String}
      {context : Context} {cookie generated : Option String} {now : Int}
      {store : MemoryStore Value} {session : Session Value}
      (here : before.tasks caller = .login state nonce verifier)
      (result : manager.load before.store context cookie now generated = (store, .ok session)) :
      Step manager values maxAge before (caller, .loaded session)
        ((before.read store).task caller (.storing state nonce verifier session))
  | callbackLoad {before : State Value} {caller : Nat} {query : Query}
      {context : Context} {cookie generated : Option String} {now : Int}
      {store : MemoryStore Value} {session : Session Value}
      (here : before.tasks caller = .callback query)
      (result : manager.load before.store context cookie now generated = (store, .ok session)) :
      Step manager values maxAge before (caller, .loaded session)
        ((before.read store).task caller (.consuming query (deleteFlow session)
          (readFlow values session.data) ((before.read store).origin cookie session)))
  | loadFails {before : State Value} {caller : Nat} {context : Context}
      {cookie generated : Option String} {now : Int} {store : MemoryStore Value}
      {error : Sessions.Error}
      (here : (∃ state nonce verifier, before.tasks caller = .login state nonce verifier) ∨
        ∃ query, before.tasks caller = .callback query)
      (result : manager.load before.store context cookie now generated = (store, .error error)) :
      Step manager values maxAge before (caller, .failed) ((before.read store).task caller .done)
  | store {before : State Value} {caller : Nat} {state nonce verifier : String}
      {session : Session Value} {context : Context} {now savedAt : Int} {store : MemoryStore Value}
      (here : before.tasks caller = .storing state nonce verifier session)
      (result : before.store.save manager context session.id
        (setFlow values session state nonce verifier now).data savedAt = (store, .ok ())) :
      Step manager values maxAge before
        (caller, .stored session.id (issue state nonce verifier now) now)
        ((before.wrote store session.id (some caller)).task caller .done)
  | consume {before : State Value} {caller : Nat} {query : Query} {session : Session Value}
      {stored : FlowState} {origin : Option Nat} {context : Context} {savedAt : Int}
      {store : MemoryStore Value}
      (here : before.tasks caller = .consuming query session stored origin)
      (result : before.store.save manager context session.id session.data savedAt = (store, .ok ())) :
      Step manager values maxAge before (caller, .consumed session.id)
        ((before.wrote store session.id none).task caller (.validating query session stored origin))
  /-- The call of the store failed, and left the store as it was. -/
  | saveFails {before : State Value} {caller : Nat}
      (here : (∃ state nonce verifier session,
          before.tasks caller = .storing state nonce verifier session) ∨
        (∃ query session stored origin,
          before.tasks caller = .consuming query session stored origin) ∨
        (∃ session, before.tasks caller = .renewing session) ∨
        ∃ session old, before.tasks caller = .retiring session old) :
      Step manager values maxAge before (caller, .failed) (before.task caller .done)
  | refuse {before : State Value} {caller : Nat} {query : Query} {session : Session Value}
      {stored : FlowState} {origin : Option Nat} {now : Int} {error : FlowError}
      (here : before.tasks caller = .validating query session stored origin)
      (refused : validateCallback maxAge now query stored = .error error) :
      Step manager values maxAge before (caller, .failed) (before.task caller .done)
  | complete {before : State Value} {caller : Nat} {query : Query} {session : Session Value}
      {stored : FlowState} {origin : Option Nat} {now : Int} {code : String} {succeeded : Bool}
      (here : before.tasks caller = .validating query session stored origin)
      (valid : validateCallback maxAge now query stored = .ok code) :
      Step manager values maxAge before
        (caller, .complete session.id query code stored origin now succeeded)
        (before.task caller (if succeeded then .renewing session else .done))
  | renewSave {before : State Value} {caller : Nat} {session : Session Value} {context : Context}
      {id : String} {savedAt : Int} {store : MemoryStore Value}
      (here : before.tasks caller = .renewing session)
      (result : before.store.save manager context id session.data savedAt = (store, .ok ())) :
      Step manager values maxAge before (caller, .renewSaved id)
        ((before.wrote store id none).task caller (.retiring { session with id := id } session.id))
  | renew {before : State Value} {caller : Nat} {session : Session Value} {old : String}
      {context : Context} {store : MemoryStore Value}
      (here : before.tasks caller = .retiring session old)
      (result : before.store.delete context old = (store, .ok ())) :
      Step manager values maxAge before (caller, .renewed old)
        ((before.wrote store old none).task caller (.succeeding session))
  | success {before : State Value} {caller : Nat} {session : Session Value}
      (here : before.tasks caller = .succeeding session) :
      Step manager values maxAge before (caller, .success) (before.task caller .done)

/-- Requests arrive over a store that holds no flow yet. -/
def machine (manager : Manager Value) (values : Values Value) (maxAge : Int) :
    Machine (State Value) (Nat × Action Value) where
  Initial state := (∀ id entry, state.store id = some entry → (readFlow values entry.data).state = "") ∧
    state.writer = (fun _ => none) ∧ state.tasks = fun _ => .idle
  Step := Step manager values maxAge

/-- A callback does not load a flow that another callback has loaded and not yet saved the
session without. -/
def Untaken (before : State Value) (event : Nat × Action Value) (after : State Value) : Prop :=
  ∀ session query cleared stored login, event.2 = .loaded session →
    after.tasks event.1 = .consuming query cleared stored (some login) →
    ∀ other query cleared stored, before.tasks other ≠ .consuming query cleared stored (some login)

def untakenMachine (manager : Manager Value) (values : Values Value) (maxAge : Int) :
    Machine (State Value) (Nat × Action Value) where
  Initial := (machine manager values maxAge).Initial
  Step before event after :=
    (machine manager values maxAge).Step before event after ∧ Untaken before event after

theorem readFlow_setFlow (values : Values Value) (session : Session Value)
    (state nonce verifier : String) (now : Int) :
    readFlow values (setFlow values session state nonce verifier now).data =
      issue state nonce verifier now := by
  simp [readFlow, setFlow, issue, Session.set, Function.update, flowStateKey, flowNonceKey,
    flowVerifierKey, flowIssuedKey, values.asText_text, values.unixTime_seconds]

theorem state_deleteFlow (values : Values Value) (session : Session Value) :
    (readFlow values (deleteFlow session).data).state = "" := by
  simp [readFlow, deleteFlow, Session.delete, Function.update, flowStateKey, flowNonceKey,
    flowVerifierKey, flowIssuedKey]

@[simp] theorem id_deleteFlow (session : Session Value) : (deleteFlow session).id = session.id := rfl

/-- What a request was let through with. -/
structure Accepted (maxAge now : Int) (query : Query) (stored : FlowState) (code : String) : Prop where
  present : stored.state ≠ ""
  same : query.state = stored.state
  code : query.code = code
  young : ∃ issued, stored.issued = some issued ∧
    sub (now / second * second) (issued * second) ≤ maxAge

theorem accepted_of_validate {maxAge now : Int} {query : Query} {stored : FlowState} {code : String}
    (valid : validateCallback maxAge now query stored = .ok code) :
    Accepted maxAge now query stored code := by
  rw [validateCallback] at valid
  split at valid
  · cases valid
  · split at valid
    · cases valid
    · rename_i matched
      rw [not_or, not_or, not_not] at matched
      split at valid
      · cases valid
      · rename_i issued issuedAt
        split at valid
        · cases valid
        · rename_i young
          rw [not_or] at young
          split at valid
          · cases valid
          · constructor
            · exact matched.2.1
            · exact matched.2.2
            · exact Except.ok.inj valid
            · exact ⟨issued, issuedAt, Int.not_lt.mp young.2⟩

end Golusoris.Oidc
