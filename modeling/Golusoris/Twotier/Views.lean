import Golusoris.Twotier.Effects
import Golusoris.Twotier.Reads
import Mathlib.Data.List.Infix

/-!
# Views of one cache

`Typed` views share the L1, the L2 keys and the notices of one `TwoTier`, and
are told apart by a prefix that `Typed.key` puts before every key. The model
runs the calls of any number of views on one cache and remembers, beside each
entry, call and load, the view that it comes from. No step reads these tags.

L1 keeps values of any type. A view that finds a value of another type treats
it as absent, and each view has a codec of its own.
-/

namespace Golusoris.Twotier

open Golusoris.Lib

variable {I V Origin : Type*}

structure View (V : Type*) where
  start : Key
  codec : Codec V
  /-- The type assertion on a value found in L1. -/
  holds : V → Bool

def colon : UInt8 := 58

namespace View

def key (view : View V) (k : Key) : Key := view.start ++ colon :: k

/-- What every key of a view starts with. -/
def stem (view : View V) : Key := view.start ++ [colon]

def owns (view : View V) (key : Key) : Prop := view.stem <+: key

theorem owns_key (view : View V) (k : Key) : view.owns (view.key k) := ⟨k, by simp [stem, key]⟩

end View

/-- A cache and its L2, with the view behind each entry, call and load. -/
structure Shared (I V : Type*) where
  cache : Local V
  store : Store
  l1By : Key → Option I
  l2By : Key → Option I
  callBy : Nat → Option I
  flightBy : Nat → Option I

/-- The steps that put an entry into L1. -/
def Event.fillsL1 (key : Key) : Event V Origin → Bool
  | .returned _ _ other _ current => current && other == key
  | .set _ other _ => other == key
  | _ => false

/-- The steps that put an entry into L2. -/
def Event.fillsL2 (key : Key) : Event V Origin → Bool
  | .stored _ other current _ => current && other == key
  | .wrote _ other _ => other == key
  | _ => false

/-- The steps that take an entry out of L2. -/
def Event.clearsL2 (key : Key) : Event V Origin → Bool
  | .purged _ other current _ => current && other == key
  | .erased _ scope => scope.covers key
  | _ => false

/-- The call that a step begins, and what it is about. -/
def Event.begun : Event V Origin → Option (Nat × Scope)
  | .missed number key => some (number, .key key)
  | .wrote number key _ => some (number, .key key)
  | .erased number scope => some (number, scope)
  | _ => none

def Event.launched : Event V Origin → Option Nat
  | .started _ flight => some flight
  | _ => none

section Steps

variable [DecidableEq Origin]

/-- Move on to a cache and a store, and tag what the event has changed. -/
def Shared.tagged (shared : Shared I V) (self : Origin) (view : I) (event : Event V Origin)
    (cache : Local V) (store : Store) : Shared I V where
  cache := cache
  store := store
  l1By := fun key =>
    if event.fillsL1 key then some view
    else if event.clears self key then none
    else shared.l1By key
  l2By := fun key =>
    if event.fillsL2 key then some view
    else if event.clearsL2 key then none
    else shared.l2By key
  callBy := fun number =>
    if (event.begun.map Prod.fst) = some number then some view else shared.callBy number
  flightBy := fun number =>
    if event.launched = some number then some view else shared.flightBy number

/-- Whose step an event is. A new call composes its key with the prefix of its
view; a call or load under way belongs to the view that began it; a notice comes
from a mutation by a view of another process. -/
def Acts (views : I → View V) (shared : Shared I V) (view : I) : Event V Origin → Prop
  | .hit key value => (∃ k, key = (views view).key k) ∧ (views view).holds value = true
  | .missed _ key => ∃ k, key = (views view).key k
  | .wrote _ key _ => ∃ k, key = (views view).key k
  | .erased _ scope =>
      ∃ k, scope = .key ((views view).key k) ∨ scope = .prefixed ((views view).key k)
  | .invalidated notice => ∃ k, notice.key = (views view).key k
  | .started number _ | .joined number _ | .decoded number | .failed number
  | .returned number _ _ _ _ | .set number _ _ | .deleted number _ | .sent number _ =>
      shared.callBy number = some view
  | .read flight | .purged flight _ _ _ | .called flight | .loaded flight _ | .loadFailed flight
  | .stored flight _ _ _ => shared.flightBy flight = some view

inductive ViewStep (views : I → View V) (self : Origin) :
    Shared I V → I × Event V Origin → Shared I V → Prop where
  | step {shared view event cache store}
      (acts : Acts views shared view event)
      (step : Step (views view).codec self shared.cache shared.store event cache store) :
      ViewStep views self shared (view, event) (shared.tagged self view event cache store)
  /-- `l1Snapshot` finds a value that is not of the view's type. -/
  | mismatch {shared : Shared I V} {view : I} {k : Key} {value : V}
      (free : shared.cache.holder = none)
      (present : shared.cache.l1 ((views view).key k) = some value)
      (foreign : (views view).holds value = false) :
      ViewStep views self shared (view, .missed shared.cache.nextCall ((views view).key k))
        (shared.tagged self view (.missed shared.cache.nextCall ((views view).key k))
          (shared.cache.begin (.looking ((views view).key k) shared.cache.epoch)) shared.store)

/-- A new cache over an empty L2. -/
structure Shared.Fresh (shared : Shared I V) : Prop where
  cache : shared.cache.Fresh
  l2 : ∀ key, shared.store.entry key = none
  l1By : ∀ key, shared.l1By key = none
  l2By : ∀ key, shared.l2By key = none

def viewsMachine (views : I → View V) (self : Origin) :
    Machine (Shared I V) (I × Event V Origin) where
  Initial := Shared.Fresh
  Step := ViewStep views self

/-- The step reads, replaces or evicts the L1 entry of a key. -/
def Event.touchesL1 (self : Origin) (key : Key) : Event V Origin → Prop
  | .hit other _ => other = key
  | event => event.fillsL1 key = true ∨ event.clears self key = true

/-- The step reads, replaces or removes the L2 entry of a key. -/
def Event.touchesL2 (shared : Shared I V) (key : Key) : Event V Origin → Prop
  | .read flight => ∃ load, shared.cache.flights flight = some load ∧ load.key = key
  | event => event.fillsL2 key = true ∨ event.clearsL2 key = true

/-- The step does not return, overwrite or remove an entry of `other`, or share
a load of it. -/
def Untouched (self : Origin) (other : I) (shared : Shared I V) (event : Event V Origin) : Prop :=
  (∀ key, event.touchesL1 self key → shared.l1By key ≠ some other) ∧
    (∀ key, event.touchesL2 shared key → shared.l2By key ≠ some other) ∧
    ∀ number flight, event = .joined number flight → shared.flightBy flight ≠ some other

/-- Along every run the steps of `one` leave alone what `other` wrote. -/
def Isolated (views : I → View V) (self : Origin) (one other : I) : Prop :=
  ∀ events shared event after, (viewsMachine views self).Run events shared →
    ViewStep views self shared (one, event) after → Untouched self other shared event

/-- The keys that a call in progress is about. -/
def Call.scope : Call V → Scope
  | .looking key _ => .key key
  | .waiting _ key _ => .key key
  | .filling _ key _ _ => .key key
  | .setting key _ => .key key
  | .erasing scope => scope
  | .broadcasting scope => scope

variable {codec : Codec V} {self : Origin} {views : I → View V}
variable {before after : Local V} {store store' : Store} {event : Event V Origin}
variable {shared shared' : Shared I V} {view : I} {key : Key} {number : Nat}

/-- A call found after a step has just begun, or stood before and keeps its
keys. -/
theorem Step.call_scope (step : Step codec self before store event after store') {call : Call V}
    (found : after.calls number = some call) :
    event.begun = some (number, call.scope) ∨
      (event.begun.map Prod.fst ≠ some number ∧
        ∃ call₀, before.calls number = some call₀ ∧ call₀.scope = call.scope) := by
  cases step with
  | miss free absent | write free encodes | erase free =>
    rcases Local.move_calls found with ⟨rfl, same⟩ | ⟨other, found⟩
    · cases same
      exact .inl rfl
    · exact .inr ⟨fun same => other (Option.some.inj same).symm, call, found, rfl⟩
  | start waits _ | join waits _ _ _ _ | decode waits _ _ _ | set waits _ | delete waits _ =>
    rcases Local.move_calls found with ⟨rfl, same⟩ | ⟨-, found⟩
    · cases same
      exact .inr ⟨nofun, _, waits, rfl⟩
    · exact .inr ⟨nofun, call, found, rfl⟩
  | fail _ _ _ _ | send _ =>
    rcases Local.move_calls found with ⟨-, same⟩ | ⟨-, found⟩
    · cases same
    · exact .inr ⟨nofun, call, found, rfl⟩
  | fill free waits =>
    rw [Local.setL1IfCurrent_eq] at found
    rcases Local.move_calls found with ⟨-, same⟩ | ⟨-, found⟩
    · cases same
    · exact .inr ⟨nofun, call, found, rfl⟩
  | invalidate notice free =>
    refine .inr ⟨nofun, call, ?_, rfl⟩
    rwa [Local.applyInvalidation_eq] at found
  | _ => exact .inr ⟨nofun, call, found, rfl⟩

/-- A load found after a step was just launched by a call for its key, or ran
before for the same key. -/
theorem Step.flight_key (step : Step codec self before store event after store') {flight : Flight}
    (found : after.flights number = some flight) :
    (∃ caller call, event = .started caller number ∧ before.calls caller = some call ∧
        call.scope = .key flight.key) ∨
      (event.launched ≠ some number ∧
        ∃ flight₀, before.flights number = some flight₀ ∧ flight₀.key = flight.key) := by
  cases step with
  | start waits alone =>
    rcases Local.advance_flights found with ⟨rfl, rfl⟩ | ⟨other, found⟩
    · exact .inl ⟨_, _, rfl, waits, rfl⟩
    · exact .inr ⟨fun same => other (Option.some.inj same).symm, flight, found, rfl⟩
  | readHit found₀ _ _ _ | readAbsent found₀ _ _ | readCorrupt found₀ _ _ _ | purge _ found₀ _
  | call found₀ _ | loaded found₀ _ _ | loadFailed found₀ _ | store _ found₀ _ =>
    rcases Local.advance_flights found with ⟨rfl, rfl⟩ | ⟨-, found⟩
    · exact .inr ⟨nofun, _, found₀, rfl⟩
    · exact .inr ⟨nofun, flight, found, rfl⟩
  | fill free call =>
    rw [Local.setL1IfCurrent_eq] at found
    exact .inr ⟨nofun, flight, found, rfl⟩
  | invalidate notice free =>
    refine .inr ⟨nofun, flight, ?_, rfl⟩
    rwa [Local.applyInvalidation_eq] at found
  | _ => exact .inr ⟨nofun, flight, found, rfl⟩

/-- Everything belongs to the view it is tagged with. -/
structure Owned (views : I → View V) (shared : Shared I V) : Prop where
  l1 : ∀ key view, shared.l1By key = some view → (views view).owns key
  l2 : ∀ key view, shared.l2By key = some view → (views view).owns key
  calls : ∀ number call, shared.cache.calls number = some call →
    ∃ view, shared.callBy number = some view ∧
      ∀ key, call.scope.covers key = true → (views view).owns key
  flights : ∀ number flight, shared.cache.flights number = some flight →
    ∃ view, shared.flightBy number = some view ∧ (views view).owns flight.key

theorem View.owns_covered {view : View V} {scope : Scope} {k : Key}
    (composed : scope = .key (view.key k) ∨ scope = .prefixed (view.key k))
    (covers : scope.covers key = true) : view.owns key := by
  rcases composed with rfl | rfl
  · rw [Scope.key_covers] at covers
    exact covers ▸ view.owns_key k
  · exact (view.owns_key k).trans (List.isPrefixOf_iff_prefix.mp covers)

variable (owned : Owned views shared)

include owned in
/-- A call works on keys of its view. -/
theorem Owned.call {call : Call V} (found : shared.cache.calls number = some call)
    (by_view : shared.callBy number = some view) (covers : call.scope.covers key = true) :
    (views view).owns key := by
  obtain ⟨other, by_other, all⟩ := owned.calls number call found
  obtain rfl := Option.some.inj (by_other.symm.trans by_view)
  exact all key covers

include owned in
theorem Owned.flight {flight : Flight} (found : shared.cache.flights number = some flight)
    (by_view : shared.flightBy number = some view) : (views view).owns flight.key := by
  obtain ⟨other, by_other, all⟩ := owned.flights number flight found
  obtain rfl := Option.some.inj (by_other.symm.trans by_view)
  exact all

variable (acts : Acts views shared view event)

include owned acts in
/-- What a view touches in L1 is under its prefix. -/
theorem Owned.touchesL1
    (step : Step (views view).codec self shared.cache shared.store event after store')
    (touches : event.touchesL1 self key) : (views view).owns key := by
  cases step with
  | hit free present =>
    obtain ⟨⟨k, rfl⟩, -⟩ := acts
    obtain rfl : (views view).key k = key := touches
    exact (views view).owns_key k
  | @fill number other key' epoch value free found =>
    have filled : (decide (shared.cache.epoch = epoch) && key' == key) = true := by
      rcases touches with filled | cleared
      · exact filled
      · cases cleared
    rw [Bool.and_eq_true, beq_iff_eq] at filled
    obtain ⟨-, rfl⟩ := filled
    exact owned.call found acts ((Scope.key_covers _ _).mpr rfl)
  | @set number key' value found held =>
    have same : key' = key := by
      rcases touches with filled | cleared
      · exact beq_iff_eq.mp filled
      · exact beq_iff_eq.mp cleared
    exact owned.call found acts ((Scope.key_covers _ _).mpr same)
  | delete found held =>
    rcases touches with filled | cleared
    · cases filled
    · exact owned.call found acts cleared
  | invalidate notice free =>
    obtain ⟨k, composed⟩ := acts
    rcases touches with filled | cleared
    · cases filled
    · simp only [Event.clears, decide_eq_true_eq, Option.any_eq_true] at cleared
      obtain ⟨-, scope, covered, covers⟩ := cleared
      refine View.owns_covered (k := k) ?_ covers
      unfold Invalidation.scope at covered
      rw [composed] at covered
      cases kind : notice.kind with
      | key =>
        rw [kind] at covered
        exact .inl (Option.some.inj covered).symm
      | prefixed =>
        rw [kind] at covered
        exact .inr (Option.some.inj covered).symm
      | unknown name =>
        rw [kind] at covered
        cases covered
  | _ =>
    rcases touches with filled | cleared
    · cases filled
    · cases cleared

include owned acts in
/-- What a view touches in L2 is under its prefix. -/
theorem Owned.touchesL2
    (step : Step (views view).codec self shared.cache shared.store event after store')
    (touches : event.touchesL2 shared key) : (views view).owns key := by
  cases step with
  | readHit _ _ _ _ | readAbsent _ _ _ | readCorrupt _ _ _ _ =>
    obtain ⟨load, found, rfl⟩ := touches
    exact owned.flight found acts
  | @purge number flight free found stage =>
    have cleared : (decide (shared.cache.epoch = flight.epoch) && flight.key == key) = true := by
      rcases touches with filled | cleared
      · cases filled
      · exact cleared
    rw [Bool.and_eq_true, beq_iff_eq] at cleared
    obtain ⟨-, rfl⟩ := cleared
    exact owned.flight found acts
  | @store number flight raw free found stage =>
    have filled : (decide (shared.cache.epoch = flight.epoch) && flight.key == key) = true := by
      rcases touches with filled | cleared
      · exact filled
      · cases cleared
    rw [Bool.and_eq_true, beq_iff_eq] at filled
    obtain ⟨-, rfl⟩ := filled
    exact owned.flight found acts
  | @write key' value raw free encodes =>
    obtain ⟨k, rfl⟩ := acts
    rcases touches with filled | cleared
    · exact beq_iff_eq.mp filled ▸ (views view).owns_key k
    · cases cleared
  | erase free =>
    obtain ⟨k, composed⟩ := acts
    rcases touches with filled | cleared
    · cases filled
    · exact View.owns_covered composed cleared
  | _ =>
    rcases touches with filled | cleared
    · cases filled
    · cases cleared

theorem Event.touchesL1_of_fills (fills : event.fillsL1 key = true) : event.touchesL1 self key := by
  cases event with
  | hit => cases fills
  | _ => exact .inl fills

omit [DecidableEq Origin] in
theorem Event.touchesL2_of_fills (fills : event.fillsL2 key = true) :
    event.touchesL2 shared key := by
  cases event with
  | read => cases fills
  | _ => exact .inl fills

omit [DecidableEq Origin] in
/-- The call that a view begins is about keys of the view. -/
theorem Acts.begun {scope : Scope} (acts : Acts views shared view event)
    (begun : event.begun = some (number, scope)) (covers : scope.covers key = true) :
    (views view).owns key := by
  cases event with
  | missed _ _ | wrote _ _ _ =>
    obtain ⟨-, rfl⟩ := Prod.mk.inj (Option.some.inj begun)
    obtain ⟨k, rfl⟩ := acts
    exact View.owns_covered (.inl rfl) covers
  | erased other scope' =>
    obtain ⟨-, rfl⟩ := Prod.mk.inj (Option.some.inj begun)
    obtain ⟨k, composed⟩ := acts
    exact View.owns_covered composed covers
  | _ => cases begun

theorem Owned.fresh (fresh : shared.Fresh) : Owned views shared where
  l1 := by
    intro key view tagged
    rw [fresh.l1By] at tagged
    cases tagged
  l2 := by
    intro key view tagged
    rw [fresh.l2By] at tagged
    cases tagged
  calls := by
    intro number call found
    rw [fresh.cache.calls] at found
    cases found
  flights := by
    intro number flight found
    rw [fresh.cache.flights] at found
    cases found

include owned acts in
/-- A step of a cache keeps the tags honest. -/
theorem Owned.tagged
    (step : Step (views view).codec self shared.cache shared.store event after store') :
    Owned views (shared.tagged self view event after store') where
  l1 := by
    intro key other tagged
    simp only [Shared.tagged] at tagged
    split_ifs at tagged with fills clears
    · cases tagged
      exact owned.touchesL1 acts step (Event.touchesL1_of_fills fills)
    · exact owned.l1 key other tagged
  l2 := by
    intro key other tagged
    simp only [Shared.tagged] at tagged
    split_ifs at tagged with fills clears
    · cases tagged
      exact owned.touchesL2 acts step (Event.touchesL2_of_fills fills)
    · exact owned.l2 key other tagged
  calls := by
    intro number call found
    rcases step.call_scope found with begun | ⟨stood, call₀, found₀, same⟩
    · refine ⟨view, ?_, fun key covers => acts.begun begun covers⟩
      simp [Shared.tagged, begun]
    · obtain ⟨other, by_other, all⟩ := owned.calls number call₀ found₀
      refine ⟨other, ?_, same ▸ all⟩
      rw [← by_other]
      exact if_neg stood
  flights := by
    intro number flight found
    rcases step.flight_key found with ⟨caller, call, rfl, found₀, scope⟩ | ⟨stood, flight₀, found₀, same⟩
    · refine ⟨view, if_pos rfl, owned.call found₀ acts ?_⟩
      rw [scope, Scope.key_covers]
    · obtain ⟨other, by_other, all⟩ := owned.flights number flight₀ found₀
      refine ⟨other, ?_, same ▸ all⟩
      rw [← by_other]
      exact if_neg stood

include owned in
theorem Owned.step (step : ViewStep views self shared (view, event) shared') :
    Owned views shared' := by
  cases step with
  | step acts step => exact owned.tagged acts step
  | @mismatch k value free present foreign =>
    refine ⟨owned.l1, owned.l2, ?_, owned.flights⟩
    intro number call found
    rcases Local.move_calls found with ⟨rfl, same⟩ | ⟨other, found⟩
    · cases same
      exact ⟨view, if_pos rfl, fun key covers => View.owns_covered (.inl rfl) covers⟩
    · obtain ⟨owner, by_owner, all⟩ := owned.calls number call found
      refine ⟨owner, ?_, all⟩
      rw [← by_owner]
      exact if_neg fun same => other (Option.some.inj same).symm

theorem owned_run {events : List (I × Event V Origin)}
    (run : (viewsMachine views self).Run events shared) : Owned views shared :=
  run.invariant (Owned views) (fun _ fresh => .fresh fresh)
    (fun _ _ _ owned step => Owned.step owned step)

/-- Neither stem continues the other. -/
def Apart (one other : View V) : Prop :=
  ¬ one.stem <+: other.stem ∧ ¬ other.stem <+: one.stem

theorem Apart.not_both {one other : View V} (apart : Apart one other) (owns : one.owns key) :
    ¬ other.owns key := by
  intro owns'
  rcases List.prefix_or_prefix_of_prefix owns owns' with continues | continues
  · exact apart.1 continues
  · exact apart.2 continues

theorem isolated_of_apart {one other : I} (apart : Apart (views one) (views other)) :
    Isolated views self one other := by
  intro events shared event after run step
  have owned := owned_run run
  cases step with
  | step acts step =>
    refine ⟨?_, ?_, ?_⟩
    · intro key touches tagged
      exact apart.not_both (owned.touchesL1 acts step touches) (owned.l1 key other tagged)
    · intro key touches tagged
      exact apart.not_both (owned.touchesL2 acts step touches) (owned.l2 key other tagged)
    · rintro number flight rfl tagged
      cases step with
      | join waits found sameKey sameEpoch running =>
        refine apart.not_both (owned.call waits acts ?_) (owned.flight found tagged)
        exact (Scope.key_covers _ _).mpr sameKey.symm
  | mismatch free present foreign =>
    refine ⟨?_, ?_, nofun⟩
    · rintro key (filled | cleared)
      · cases filled
      · cases cleared
    · rintro key (filled | cleared)
      · cases filled
      · cases cleared

/-- A cache that no view has used. -/
def unused (I V : Type*) : Shared I V :=
  ⟨(built V).1, (built V).2, fun _ => none, fun _ => none, fun _ => none, fun _ => none⟩

theorem unused_fresh (I V : Type*) : (unused I V).Fresh where
  cache := built_fresh V
  l2 := fun _ => rfl
  l1By := fun _ => rfl
  l2By := fun _ => rfl

/-- One `Set` through a view, from a new cache on. -/
theorem set_run (self : Origin) {value : V} {raw : Bytes}
    (encodes : (views view).codec.marshal value = some raw) (k : Key) :
    ∃ shared, (viewsMachine views self).Run [(view, .wrote 0 ((views view).key k) value),
        (view, .set 0 ((views view).key k) value)] shared ∧
      shared.l2By ((views view).key k) = some view ∧ shared.cache.holder = none ∧
      shared.cache.nextCall = 1 := by
  apply Exists.intro
  refine ⟨⟨unused I V, unused_fresh I V, ?_⟩, ?_⟩
  · exact .cons (.step ⟨k, rfl⟩ (.write rfl encodes)) (.cons (.step rfl (.set rfl rfl)) (.nil _))
  · refine ⟨?_, rfl, rfl⟩
    simp [Shared.tagged, Event.fillsL2, Event.clearsL2]

/-- A view whose stem another view continues clears what that view has set. -/
theorem not_isolated {one other : I} {value : V} {raw : Bytes}
    (encodes : (views other).codec.marshal value = some raw)
    (continues : (views one).stem <+: (views other).stem) : ¬ Isolated views self one other := by
  intro isolated
  obtain ⟨shared, run, tagged, free, -⟩ := set_run self encodes []
  have erased := @ViewStep.step I V Origin _ views self shared one
    (.erased shared.cache.nextCall (.prefixed ((views one).key []))) _ _ ⟨[], .inr rfl⟩
    (.erase free)
  obtain ⟨-, untouched, -⟩ := isolated _ _ _ _ run erased
  exact untouched _ (.inr (List.isPrefixOf_iff_prefix.mpr continues)) tagged

/-- The views "u" and "v" of bytes, as "user" and "order" might be. -/
def letterViews : Bool → View UInt8
  | true => ⟨[117], byteCodec, fun _ => true⟩
  | false => ⟨[118], byteCodec, fun _ => true⟩

/-- The views "a" and "a:b". -/
def nestedViews : Bool → View UInt8
  | true => ⟨[97], byteCodec, fun _ => true⟩
  | false => ⟨[97, 58, 98], byteCodec, fun _ => true⟩

end Steps

end Golusoris.Twotier
