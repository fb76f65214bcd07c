import Mathlib.Algebra.Group.Nat.Defs
import Mathlib.Logic.Function.Basic
import Mathlib.Tactic.Common
import Golusoris.Lib.Machine

/-!
# The two-tier cache

One `TwoTier` is a live L1, an epoch, the mutation lock and the loads its
singleflight group runs. `Step` lets every call move on its own: a `Get` takes
its snapshot, joins or starts the flight of its key and epoch, and back-fills
L1; a flight reads L2, purges a corrupt entry, calls the loader and back-fills
L2; a mutation writes L2 first and only then, still under the lock, raises the
epoch and changes L1.

L2 is a map that does not fail or expire. `Store.writes` and `Flight.seen`
record how often an entry was written and how much of that a flight knows of;
no operation reads them.
-/

namespace Golusoris.Twotier

open Golusoris.Lib

/-- A composed key, as `Typed.key` builds it. -/
abbrev Key := List UInt8

abbrev Bytes := List UInt8

/-- How the values of a view cross the L1/L2 boundary. -/
structure Codec (V : Type*) where
  marshal : V → Option Bytes
  unmarshal : Bytes → Option V

/-- What is marshalled reads back as the same value. -/
def Codec.RoundTrip {V : Type*} (codec : Codec V) : Prop :=
  ∀ value raw, codec.marshal value = some raw → codec.unmarshal raw = some value

/-- What one mutation or one notice covers. -/
inductive Scope where
  | key (key : Key)
  | prefixed (start : Key)
  deriving DecidableEq

def Scope.covers : Scope → Key → Bool
  | .key one, other => one == other
  | .prefixed start, other => start.isPrefixOf other

inductive InvalidationKind where
  | key
  | prefixed
  | unknown (name : String)
  deriving DecidableEq

structure Invalidation (Origin : Type*) where
  origin : Origin
  kind : InvalidationKind
  key : Key

/-- What `applyInvalidation` evicts for a notice of a known kind. -/
def Invalidation.scope {Origin : Type*} (notice : Invalidation Origin) : Option Scope :=
  match notice.kind with
  | .key => some (.key notice.key)
  | .prefixed => some (.prefixed notice.key)
  | .unknown _ => none

/-- The notice `broadcast` sends for a local mutation. -/
def Scope.notice {Origin : Type*} (origin : Origin) : Scope → Invalidation Origin
  | .key one => ⟨origin, .key, one⟩
  | .prefixed start => ⟨origin, .prefixed, start⟩

@[simp] theorem Scope.notice_scope {Origin : Type*} (origin : Origin) (scope : Scope) :
    (scope.notice origin).scope = some scope := by
  cases scope <;> rfl

@[simp] theorem Scope.notice_origin {Origin : Type*} (origin : Origin) (scope : Scope) :
    (scope.notice origin).origin = origin := by
  cases scope <;> rfl

@[simp] theorem Scope.key_covers (one other : Key) :
    (Scope.key one).covers other = true ↔ one = other := by
  simp [Scope.covers]

/-- The distributed tier, with the number of writes each entry has seen. -/
structure Store where
  entry : Key → Option Bytes
  writes : Key → Nat

/-- `l2.Set`. -/
def Store.set (store : Store) (key : Key) (raw : Bytes) : Store where
  entry := Function.update store.entry key (some raw)
  writes := Function.update store.writes key (store.writes key + 1)

/-- `l2.Del` and `l2.DelPrefix`. -/
def Store.del (store : Store) (scope : Scope) : Store where
  entry := fun key => if scope.covers key then none else store.entry key
  writes := fun key => if scope.covers key then store.writes key + 1 else store.writes key

/-- Where a load of the singleflight group stands. -/
inductive Stage where
  | reading
  | purging
  | calling
  | loading
  | storing (raw : Bytes)
  | done (result : Option Bytes)

/-- A load, keyed by key and epoch. `seen` counts the writes of the entry that
came before the load's read of L2, and its own purge. -/
structure Flight where
  key : Key
  epoch : Nat
  seen : Nat
  stage : Stage

def Stage.finished : Stage → Bool
  | .done _ => true
  | _ => false

/-- A call in progress. A mutation is one from its write of L2 on. -/
inductive Call (V : Type*) where
  | looking (key : Key) (epoch : Nat)
  | waiting (flight : Nat) (key : Key) (epoch : Nat)
  | filling (flight : Nat) (key : Key) (epoch : Nat) (value : V)
  | setting (key : Key) (value : V)
  | erasing (scope : Scope)
  | broadcasting (scope : Scope)

/-- One `TwoTier` without its L2. `holder` is the mutation inside the lock. -/
structure Local (V : Type*) where
  l1 : Key → Option V
  epoch : Nat
  holder : Option Nat
  calls : Nat → Option (Call V)
  nextCall : Nat
  flights : Nat → Option Flight
  nextFlight : Nat

section Operations

variable {V Origin : Type*}

/-- `epoch++` on a `uint64`. -/
def Local.raise (cache : Local V) : Local V :=
  { cache with epoch := (cache.epoch + 1) % 2 ^ 64 }

def Local.setL1 (cache : Local V) (key : Key) (value : V) : Local V :=
  { cache with l1 := Function.update cache.l1 key (some value) }

/-- `l1.Invalidate` of one key, and `evictL1Prefix`. -/
def Local.evictL1 (cache : Local V) (scope : Scope) : Local V :=
  { cache with l1 := fun key => if scope.covers key then none else cache.l1 key }

def Local.setL1IfCurrent (cache : Local V) (key : Key) (value : V) (epoch : Nat) : Local V :=
  if cache.epoch = epoch then cache.setL1 key value else cache

def Local.setL2IfCurrent (cache : Local V) (store : Store) (key : Key) (raw : Bytes)
    (epoch : Nat) : Store :=
  if cache.epoch = epoch then store.set key raw else store

def Local.deleteL2IfCurrent (cache : Local V) (store : Store) (key : Key)
    (epoch : Nat) : Store :=
  if cache.epoch = epoch then store.del (.key key) else store

def Local.applyInvalidation [DecidableEq Origin] (cache : Local V) (self : Origin)
    (notice : Invalidation Origin) : Local V :=
  if notice.origin = self then cache else
    match notice.scope with
    | some scope => cache.raise.evictL1 scope
    | none => cache

/-- Move a call on, or end it. -/
def Local.move (cache : Local V) (number : Nat) (call : Option (Call V)) : Local V :=
  { cache with calls := Function.update cache.calls number call }

def Local.advance (cache : Local V) (number : Nat) (flight : Flight) : Local V :=
  { cache with flights := Function.update cache.flights number (some flight) }

/-- A call takes the next number. -/
def Local.begin (cache : Local V) (call : Call V) : Local V :=
  { cache.move cache.nextCall (some call) with nextCall := cache.nextCall + 1 }

/-- The group starts a load. -/
def Local.launch (cache : Local V) (key : Key) (epoch : Nat) : Local V :=
  { cache.advance cache.nextFlight ⟨key, epoch, 0, .reading⟩ with
    nextFlight := cache.nextFlight + 1 }

def Local.lock (cache : Local V) (number : Nat) : Local V :=
  { cache with holder := some number }

def Local.unlock (cache : Local V) : Local V :=
  { cache with holder := none }

end Operations

/-- What one step does, as a history records it. `stored` and `purged` say
whether the load's epoch was current and whether L2 was written since the load
read it. -/
inductive Event (V Origin : Type*) where
  | hit (key : Key) (value : V)
  | missed (call : Nat) (key : Key)
  | started (call flight : Nat)
  | joined (call flight : Nat)
  | read (flight : Nat)
  | purged (flight : Nat) (key : Key) (current overtaken : Bool)
  | called (flight : Nat)
  | loaded (flight : Nat) (value : V)
  | loadFailed (flight : Nat)
  | stored (flight : Nat) (key : Key) (current overtaken : Bool)
  | decoded (call : Nat)
  | failed (call : Nat)
  | returned (call flight : Nat) (key : Key) (value : V) (current : Bool)
  | wrote (call : Nat) (key : Key) (value : V)
  | set (call : Nat) (key : Key) (value : V)
  | erased (call : Nat) (scope : Scope)
  | deleted (call : Nat) (scope : Scope)
  | sent (call : Nat) (scope : Scope)
  | invalidated (notice : Invalidation Origin)

section Steps

variable {V Origin : Type*} [DecidableEq Origin]

/-- The moves of one cache over L2. A step that needs the mutation lock finds
no holder; a load reads L2 and runs its loader without it. -/
inductive Step (codec : Codec V) (self : Origin) :
    Local V → Store → Event V Origin → Local V → Store → Prop where
  /-- `l1Snapshot` finds the key and `Get` returns. -/
  | hit {cache store key value} (free : cache.holder = none)
      (present : cache.l1 key = some value) :
      Step codec self cache store (.hit key value) cache store
  /-- `l1Snapshot` misses; the call keeps the epoch it saw. -/
  | miss {cache store key} (free : cache.holder = none) (absent : cache.l1 key = none) :
      Step codec self cache store (.missed cache.nextCall key)
        (cache.begin (.looking key cache.epoch)) store
  /-- `group.Do` with no load of this key and epoch under way. -/
  | start {cache store number key epoch}
      (call : cache.calls number = some (.looking key epoch))
      (alone : ∀ other flight, cache.flights other = some flight → flight.key = key →
        flight.epoch = epoch → flight.stage.finished = true) :
      Step codec self cache store (.started number cache.nextFlight)
        ((cache.launch key epoch).move number (some (.waiting cache.nextFlight key epoch))) store
  /-- `group.Do` shares the load that is under way. -/
  | join {cache store number key epoch other flight}
      (call : cache.calls number = some (.looking key epoch))
      (found : cache.flights other = some flight) (sameKey : flight.key = key)
      (sameEpoch : flight.epoch = epoch) (running : flight.stage.finished = false) :
      Step codec self cache store (.joined number other)
        (cache.move number (some (.waiting other key epoch))) store
  /-- `load` finds the entry in L2 and returns it. -/
  | readHit {cache store number flight raw value}
      (found : cache.flights number = some flight) (stage : flight.stage = .reading)
      (present : store.entry flight.key = some raw) (decodes : codec.unmarshal raw = some value) :
      Step codec self cache store (.read number)
        (cache.advance number { flight with stage := .done (some raw) }) store
  | readAbsent {cache store number flight}
      (found : cache.flights number = some flight) (stage : flight.stage = .reading)
      (absent : store.entry flight.key = none) :
      Step codec self cache store (.read number)
        (cache.advance number
          { flight with stage := .calling, seen := store.writes flight.key }) store
  | readCorrupt {cache store number flight raw}
      (found : cache.flights number = some flight) (stage : flight.stage = .reading)
      (present : store.entry flight.key = some raw) (corrupt : codec.unmarshal raw = none) :
      Step codec self cache store (.read number)
        (cache.advance number
          { flight with stage := .purging, seen := store.writes flight.key }) store
  /-- `deleteL2IfCurrent`. -/
  | purge {cache store number flight} (free : cache.holder = none)
      (found : cache.flights number = some flight) (stage : flight.stage = .purging) :
      Step codec self cache store
        (.purged number flight.key (cache.epoch = flight.epoch)
          (flight.seen ≠ store.writes flight.key))
        (cache.advance number
          { flight with
            stage := .calling
            seen := if cache.epoch = flight.epoch then flight.seen + 1 else flight.seen })
        (cache.deleteL2IfCurrent store flight.key flight.epoch)
  | call {cache store number flight}
      (found : cache.flights number = some flight) (stage : flight.stage = .calling) :
      Step codec self cache store (.called number)
        (cache.advance number { flight with stage := .loading }) store
  /-- The loader returns a value, whatever the origin holds, and it marshals. -/
  | loaded {cache store number flight value raw}
      (found : cache.flights number = some flight) (stage : flight.stage = .loading)
      (encodes : codec.marshal value = some raw) :
      Step codec self cache store (.loaded number value)
        (cache.advance number { flight with stage := .storing raw }) store
  /-- The loader fails, or its value does not marshal. -/
  | loadFailed {cache store number flight}
      (found : cache.flights number = some flight) (stage : flight.stage = .loading) :
      Step codec self cache store (.loadFailed number)
        (cache.advance number { flight with stage := .done none }) store
  /-- `setL2IfCurrent`. -/
  | store {cache store number flight raw} (free : cache.holder = none)
      (found : cache.flights number = some flight) (stage : flight.stage = .storing raw) :
      Step codec self cache store
        (.stored number flight.key (cache.epoch = flight.epoch)
          (flight.seen ≠ store.writes flight.key))
        (cache.advance number { flight with stage := .done (some raw) })
        (cache.setL2IfCurrent store flight.key raw flight.epoch)
  /-- The load is done and the caller decodes what it returned. -/
  | decode {cache store number other key epoch flight raw value}
      (call : cache.calls number = some (.waiting other key epoch))
      (found : cache.flights other = some flight) (stage : flight.stage = .done (some raw))
      (decodes : codec.unmarshal raw = some value) :
      Step codec self cache store (.decoded number)
        (cache.move number (some (.filling other key epoch value))) store
  | fail {cache store number other key epoch flight result}
      (call : cache.calls number = some (.waiting other key epoch))
      (found : cache.flights other = some flight) (stage : flight.stage = .done result)
      (failed : result.bind codec.unmarshal = none) :
      Step codec self cache store (.failed number) (cache.move number none) store
  /-- `setL1IfCurrent`, and `Get` returns. -/
  | fill {cache store number other key epoch value} (free : cache.holder = none)
      (call : cache.calls number = some (.filling other key epoch value)) :
      Step codec self cache store (.returned number other key value (cache.epoch = epoch))
        ((cache.setL1IfCurrent key value epoch).move number none) store
  /-- `setBoth` takes the lock and writes L2. -/
  | write {cache store key value raw} (free : cache.holder = none)
      (encodes : codec.marshal value = some raw) :
      Step codec self cache store (.wrote cache.nextCall key value)
        ((cache.begin (.setting key value)).lock cache.nextCall) (store.set key raw)
  /-- `setBoth` raises the epoch, sets L1 and releases the lock. -/
  | set {cache store number key value}
      (call : cache.calls number = some (.setting key value))
      (held : cache.holder = some number) :
      Step codec self cache store (.set number key value)
        (((cache.raise.setL1 key value).move number
          (some (.broadcasting (.key key)))).unlock) store
  /-- `deleteBoth` and `invalidatePrefixBoth` take the lock and clear L2. -/
  | erase {cache store scope} (free : cache.holder = none) :
      Step codec self cache store (.erased cache.nextCall scope)
        ((cache.begin (.erasing scope)).lock cache.nextCall) (store.del scope)
  | delete {cache store number scope}
      (call : cache.calls number = some (.erasing scope))
      (held : cache.holder = some number) :
      Step codec self cache store (.deleted number scope)
        (((cache.raise.evictL1 scope).move number
          (some (.broadcasting scope))).unlock) store
  /-- `broadcast`, the last thing a mutation does. -/
  | send {cache store number scope}
      (call : cache.calls number = some (.broadcasting scope)) :
      Step codec self cache store (.sent number scope) (cache.move number none) store
  | invalidate {cache store} (notice : Invalidation Origin) (free : cache.holder = none) :
      Step codec self cache store (.invalidated notice)
        (cache.applyInvalidation self notice) store

/-- A cache that has just been built. -/
structure Local.Fresh (cache : Local V) : Prop where
  l1 : ∀ key, cache.l1 key = none
  epoch : cache.epoch = 0
  holder : cache.holder = none
  calls : ∀ number, cache.calls number = none
  flights : ∀ number, cache.flights number = none

/-- One cache over an L2 of its own, with notices from anywhere. -/
def process (codec : Codec V) (self : Origin) : Machine (Local V × Store) (Event V Origin) where
  Initial := fun state => state.1.Fresh
  Step := fun before event after => Step codec self before.1 before.2 event after.1 after.2

end Steps

end Golusoris.Twotier
