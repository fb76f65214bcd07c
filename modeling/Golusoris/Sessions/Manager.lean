import Golusoris.Lib.Machine
import Mathlib.Algebra.Group.Int.Defs
import Mathlib.Logic.Function.Basic

/-!
# Server-side sessions

`auth/session` keeps the data of a session in a store under a random ID that
the browser holds in a cookie. `Manager.Load` hands each request a copy of its
own, the request works on the copy, and `SaveContext` writes the whole copy back
under the ID it was loaded with. `Renew` saves under a new ID and then deletes
the old one, so it is two calls of the store with a gap between them.

The machine lets the session values of any number of requests take their calls
in any order. The calls of `MemoryStore` are atomic: its mutex covers the lookup,
and the maps it keeps are copies that nobody else holds.
-/

namespace Golusoris.Sessions

open Lib

variable {Value : Type}

/-- The data map of a session. -/
abbrev Data (Value : Type) := String → Option Value

structure Session (Value : Type) where
  id : String
  data : Data Value

def newSession (id : String) : Session Value := ⟨id, fun _ => none⟩

namespace Session

def get (session : Session Value) (key : String) : Option Value := session.data key

def set (session : Session Value) (key : String) (value : Value) : Session Value :=
  { session with data := Function.update session.data key (some value) }

def delete (session : Session Value) (key : String) : Session Value :=
  { session with data := Function.update session.data key none }

end Session

inductive Error where
  | canceled
  | notFound
  | copy (message : String)
  | generateID
  deriving DecidableEq, Repr

/-- Whether the context of a call has ended at its start, and whether it has by
the last time the call looks. -/
structure Context where
  canceled : Bool := false
  canceledAfter : Bool := false
  deriving DecidableEq, Repr

structure MemEntry (Value : Type) where
  data : Data Value
  expires : Int

abbrev MemoryStore (Value : Type) := String → Option (MemEntry Value)

/-- The lifetime that a manager gives its sessions, and `json.Marshal` followed
by `json.Unmarshal`, which is how the store copies a map. -/
structure Manager (Value : Type) where
  ttl : Int
  copy : Data Value → Except String (Data Value)
  ttl_pos : 0 < ttl

/-- `NewManager`; a lifetime of zero stands for a day. -/
def newManager (copy : Data Value → Except String (Data Value)) (ttl : Int) :
    Except String (Manager Value) :=
  if negative : ttl < 0 then .error "session: TTL must not be negative"
  else if zero : ttl = 0 then .ok ⟨24 * 60 * 60 * 10 ^ 9, copy, by decide⟩
  else .ok ⟨ttl, copy, by omega⟩

namespace MemoryStore

/-- `MemoryStore.Load`; an entry that has expired is dropped. -/
def load (manager : Manager Value) (store : MemoryStore Value) (context : Context) (id : String)
    (now : Int) : MemoryStore Value × Except Error (Data Value) :=
  if context.canceled then (store, .error .canceled)
  else
    match store id with
    | none => (store, .error .notFound)
    | some entry =>
        if entry.expires ≤ now then (Function.update store id none, .error .notFound)
        else
          match manager.copy entry.data with
          | .error message => (store, .error (.copy message))
          | .ok out => (store, if context.canceledAfter then .error .canceled else .ok out)

/-- `MemoryStore.Save`. -/
def save (manager : Manager Value) (store : MemoryStore Value) (context : Context) (id : String)
    (data : Data Value) (now : Int) : MemoryStore Value × Except Error Unit :=
  if context.canceled then (store, .error .canceled)
  else
    match manager.copy data with
    | .error message => (store, .error (.copy message))
    | .ok copy =>
        if context.canceledAfter then (store, .error .canceled)
        else (Function.update store id (some ⟨copy, now + manager.ttl⟩), .ok ())

/-- `MemoryStore.Delete`. -/
def delete (store : MemoryStore Value) (context : Context) (id : String) :
    MemoryStore Value × Except Error Unit :=
  if context.canceled then (store, .error .canceled)
  else (Function.update store id none, .ok ())

end MemoryStore

/-- A session under an ID fresh from the random source, which may fail. -/
def newEmptySession (generated : Option String) : Except Error (Session Value) :=
  match generated with
  | none => .error .generateID
  | some id => .ok (newSession id)

/-- `Manager.Load`, for a request with the given cookie. -/
def Manager.load (manager : Manager Value) (store : MemoryStore Value) (context : Context)
    (cookie : Option String) (now : Int) (generated : Option String) :
    MemoryStore Value × Except Error (Session Value) :=
  match cookie with
  | none => (store, newEmptySession generated)
  | some id =>
      match store.load manager context id now with
      | (store, .error .notFound) => (store, newEmptySession generated)
      | (store, .error error) => (store, .error error)
      | (store, .ok data) => (store, .ok ⟨id, data⟩)

/-- A session value in the hands of a request. While `Renew` is between its two
calls, `retiring` is the ID it is about to delete. -/
structure Held (Value : Type) where
  session : Session Value
  retiring : Option String := none

structure State (Value : Type) where
  store : MemoryStore Value
  held : Nat → Option (Held Value)

/-- The calls of the store that requests make, and their edits in between. The
number names the session value that a call is about. -/
inductive Event (Value : Type) where
  | loaded (holder : Nat) (context : Context) (cookie : Option String) (now : Int)
      (generated : Option String) (result : Except Error (Session Value))
  | edited (holder : Nat) (session : Session Value)
  | saved (holder : Nat) (id : String) (result : Except Error Unit)
  | renewSaved (holder : Nat) (id : String) (result : Except Error Unit)
  | renewed (holder : Nat) (old : String) (result : Except Error Unit)
  | destroyed (id : String) (result : Except Error Unit)

namespace State

def put (state : State Value) (holder : Nat) (held : Held Value) : State Value :=
  { state with held := Function.update state.held holder (some held) }

end State

inductive Step (manager : Manager Value) : State Value → Event Value → State Value → Prop where
  | loadOk {state : State Value} {holder : Nat} {context : Context} {cookie : Option String}
      {now : Int} {generated : Option String} {store : MemoryStore Value}
      {session : Session Value}
      (free : state.held holder = none)
      (result : manager.load state.store context cookie now generated = (store, .ok session)) :
      Step manager state (.loaded holder context cookie now generated (.ok session))
        (State.put ⟨store, state.held⟩ holder { session })
  | loadFails {state : State Value} {holder : Nat} {context : Context} {cookie : Option String}
      {now : Int} {generated : Option String} {store : MemoryStore Value} {error : Error}
      (result : manager.load state.store context cookie now generated = (store, .error error)) :
      Step manager state (.loaded holder context cookie now generated (.error error))
        ⟨store, state.held⟩
  | set {state : State Value} {holder : Nat} {session : Session Value} {key : String}
      {value : Value} (stands : state.held holder = some { session }) :
      Step manager state (.edited holder (session.set key value))
        (state.put holder { session := session.set key value })
  | delete {state : State Value} {holder : Nat} {session : Session Value} {key : String}
      (stands : state.held holder = some { session }) :
      Step manager state (.edited holder (session.delete key))
        (state.put holder { session := session.delete key })
  /-- `SaveContext`; the cookie it sets after a save says the ID that was saved. -/
  | save {state : State Value} {holder : Nat} {session : Session Value} {context : Context}
      {now : Int} (stands : state.held holder = some { session }) :
      Step manager state
        (.saved holder session.id
          (state.store.save manager context session.id session.data now).2)
        ⟨(state.store.save manager context session.id session.data now).1, state.held⟩
  /-- `Renew` up to the new ID; the browser has the new cookie from here on. -/
  | renewSave {state : State Value} {holder : Nat} {session : Session Value} {context : Context}
      {now : Int} {id : String} {store : MemoryStore Value}
      (stands : state.held holder = some { session })
      (result : state.store.save manager context id session.data now = (store, .ok ())) :
      Step manager state (.renewSaved holder id (.ok ()))
        (State.put ⟨store, state.held⟩ holder
          { session := { session with id := id }, retiring := some session.id })
  | renewSaveFails {state : State Value} {holder : Nat} {session : Session Value}
      {context : Context} {now : Int} {id : String} {store : MemoryStore Value} {error : Error}
      (stands : state.held holder = some { session })
      (result : state.store.save manager context id session.data now = (store, .error error)) :
      Step manager state (.renewSaved holder id (.error error)) ⟨store, state.held⟩
  /-- `Renew` deletes the old ID and returns. -/
  | renewDelete {state : State Value} {holder : Nat} {session : Session Value} {old : String}
      {context : Context} (stands : state.held holder = some ⟨session, some old⟩) :
      Step manager state (.renewed holder old (state.store.delete context old).2)
        (State.put ⟨(state.store.delete context old).1, state.held⟩ holder { session })
  | destroy {state : State Value} {id : String} {context : Context} :
      Step manager state (.destroyed id (state.store.delete context id).2)
        ⟨(state.store.delete context id).1, state.held⟩

/-- Every request starts without a session, over whatever the store holds. -/
def machine (manager : Manager Value) : Machine (State Value) (Event Value) where
  Initial state := state.held = fun _ => none
  Step := Step manager

/-- The ID under which an event stores data. -/
def Event.writes : Event Value → Option String
  | .saved _ id (.ok ()) => some id
  | .renewSaved _ id (.ok ()) => some id
  | _ => none

/-- The ID whose session an event ends: `Renew` or `Destroy` returns. -/
def Event.retires : Event Value → Option String
  | .renewed _ old (.ok ()) => some old
  | .destroyed id (.ok ()) => some id
  | _ => none

end Golusoris.Sessions
