import Mathlib.Algebra.Group.Int.Defs
import Mathlib.Algebra.Group.Nat.Defs
import Mathlib.Logic.Function.Basic
import Mathlib.Tactic.Common
import Golusoris.Lib.Utf8

/-!
# Login lockout

`auth/lockout` counts the failed logins of an identity and locks it for a
cooldown once too many fall into one window. `Service` decides nothing by
itself: `Fail` hands its reading of the clock to the store, and `Check`
compares the deadline it gets back with a reading of its own. The store reads
the clock once more in either call, to expire entries.

An instant is a number of nanoseconds from the zero `time.Time` on, which the
code takes for one that is not set.
-/

namespace Golusoris.Lockout

open Lib

/-- `Time.Sub`, which stops at the largest duration. -/
def sub (later earlier : Nat) : Nat :=
  min (later - earlier) (2 ^ 63 - 1)

structure Options where
  maxFails : Int
  window : Int
  cooldown : Int

def Options.withDefaults (options : Options) : Options where
  maxFails := if options.maxFails = 0 then 5 else options.maxFails
  window := if options.window = 0 then 15 * 60 * 10 ^ 9 else options.window
  cooldown := if options.cooldown = 0 then 30 * 60 * 10 ^ 9 else options.cooldown

/-- The options of a service: all positive. -/
structure Policy where
  maxFails : Nat
  window : Nat
  cooldown : Nat
  maxFails_pos : 0 < maxFails
  window_pos : 0 < window
  cooldown_pos : 0 < cooldown

/-- `New`, as far as the options go. -/
def new (options : Options) : Except String Policy :=
  let options := options.withDefaults
  if positive : 0 < options.maxFails ∧ 0 < options.window ∧ 0 < options.cooldown then
    .ok {
      maxFails := options.maxFails.toNat
      window := options.window.toNat
      cooldown := options.cooldown.toNat
      maxFails_pos := by omega
      window_pos := by omega
      cooldown_pos := by omega }
  else .error "lockout: MaxFails, Window, and Cooldown must be positive"

/-- The counter of one identity. -/
structure State where
  fails : Nat := 0
  firstFailAt : Nat := 0
  lockedUntil : Nat := 0
  deriving DecidableEq, Repr

structure MemEntry where
  state : State
  expires : Nat
  deriving DecidableEq, Repr

abbrev MemoryStore := String → Option MemEntry

inductive Error where
  | keyRequired
  | notFound (message : String)
  | accountLocked
  deriving DecidableEq, Repr

def Error.message : Error → String
  | .keyRequired => "lockout: identity key required"
  | .notFound message => message
  | .accountLocked => "account locked"

def MemEntry.expired (entry : MemEntry) (storeNow : Nat) : Bool :=
  entry.expires ≠ 0 ∧ entry.expires < storeNow

/-- `MemoryStore.Get`. -/
def MemoryStore.get (store : MemoryStore) (key : String) (storeNow : Nat) :
    MemoryStore × Except Error State :=
  match store key with
  | none => (store, .error (.notFound "lockout: not found"))
  | some entry =>
      if entry.expired storeNow then
        (Function.update store key none, .error (.notFound "lockout: expired"))
      else (store, .ok entry.state)

/-- The counter that a failure is added to: a stale window starts anew. -/
def openWindow (policy : Policy) (entry : Option MemEntry) (now storeNow : Nat) : State :=
  match entry with
  | none => { firstFailAt := now }
  | some entry =>
      if entry.expired storeNow ∨ entry.state.firstFailAt = 0 ∨
          policy.window < sub now entry.state.firstFailAt then
        { firstFailAt := now }
      else entry.state

/-- The entry that `RecordFailure` stores. -/
def recorded (policy : Policy) (state : State) (now storeNow : Nat) : MemEntry :=
  let state := { state with fails := state.fails + 1 }
  if policy.maxFails ≤ state.fails then
    ⟨{ state with lockedUntil := now + policy.cooldown }, storeNow + policy.cooldown⟩
  else ⟨state, storeNow + policy.window⟩

/-- `MemoryStore.RecordFailure`. -/
def MemoryStore.recordFailure (store : MemoryStore) (policy : Policy) (key : String)
    (now storeNow : Nat) : MemoryStore :=
  Function.update store key
    (some (recorded policy (openWindow policy (store key) now storeNow) now storeNow))

def validateKey (key : String) : Except Error Unit :=
  if key.toList.all isSpace then .error .keyRequired else .ok ()

/-- `Service.Check`: the store reads the clock first. -/
def check (store : MemoryStore) (key : String) (storeNow now : Nat) :
    MemoryStore × Except Error Unit :=
  match validateKey key with
  | .error error => (store, .error error)
  | .ok () =>
      match store.get key storeNow with
      | (store, .error _) => (store, .ok ())
      | (store, .ok state) =>
          if state.lockedUntil ≠ 0 ∧ now < state.lockedUntil then
            (store, .error .accountLocked)
          else (store, .ok ())

/-- `Service.Fail`: the service reads the clock first. -/
def fail (store : MemoryStore) (policy : Policy) (key : String) (now storeNow : Nat) :
    MemoryStore × Except Error Unit :=
  match validateKey key with
  | .error error => (store, .error error)
  | .ok () => (store.recordFailure policy key now storeNow, .ok ())

/-- A call and its two readings of the clock, in the order they are made. -/
inductive Call where
  | fail (key : String) (now storeNow : Nat)
  | check (key : String) (storeNow now : Nat)
  deriving DecidableEq, Repr

def Call.first : Call → Nat
  | .fail _ now _ => now
  | .check _ storeNow _ => storeNow

def Call.last : Call → Nat
  | .fail _ _ storeNow => storeNow
  | .check _ _ now => now

/-- What a call leaves in the store and returns. -/
def Call.perform (policy : Policy) (store : MemoryStore) : Call → MemoryStore × Except Error Unit
  | .fail key now storeNow => Lockout.fail store policy key now storeNow
  | .check key storeNow now => Lockout.check store key storeNow now

/-- The store after a sequence of calls on an empty one. -/
def after (policy : Policy) (calls : List Call) : MemoryStore :=
  calls.foldl (fun store call => (call.perform policy store).1) fun _ => none

/-- The readings of the clock never go back. -/
def Chronological (calls : List Call) : Prop :=
  (∀ call ∈ calls, call.first ≤ call.last) ∧
    calls.Pairwise fun earlier later => earlier.last ≤ later.first

end Golusoris.Lockout
