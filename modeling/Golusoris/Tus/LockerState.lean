import Golusoris.Tus.Locker
import Mathlib.Data.Finset.Card

/-!
# What the locker's pointers stand for

Each entry stands for a `Queue`: who keeps the lock, who waits for it in which
order, and who has a reference to the entry. A lock object or a maintenance
attempt is a `Handle`; its `View` is what it believes about itself. `Sound` says
that the pointers, counts and flags agree with the queues. A critical section
changes one entry and the views of a few handles, and `Sound.frame` carries
everything else across it.
-/

namespace Golusoris.Tus

open Function (update update_of_ne update_self)
open Lib

inductive Handle where
  | lock (number : Nat)
  | attempt (number : Nat)
  deriving DecidableEq, Repr

/-- A handle's own account: whether it keeps the lock, waits for it, and still
has its reference. -/
structure View where
  id : String
  entry : Nat
  keeps : Bool
  queued : Bool
  counted : Bool

def Lock.view (lock : Lock) : View where
  id := lock.id
  entry := lock.entry
  keeps := lock.acquired
  queued := lock.queued
  counted := lock.call ≠ .returned false && lock.unlock ≠ .done

def Attempt.view (attempt : Attempt) : View where
  id := attempt.id
  entry := attempt.entry
  keeps := attempt.phase = .holding
  queued := false
  counted := attempt.phase ≠ .refused && attempt.phase ≠ .done

def State.view (state : State) : Handle → Option View
  | .lock number => (state.locks number).map Lock.view
  | .attempt number => (state.attempts number).map Attempt.view

/-- What an entry stands for. -/
structure Queue where
  keeper : Option Handle := none
  waiters : List Nat := []
  holders : Finset Handle := ∅

def Handle.number? : Handle → Option Nat
  | .lock number => some number
  | .attempt _ => none

def Queue.Waits (queue : Queue) (handle : Handle) : Prop :=
  ∃ number ∈ queue.waiters, handle = .lock number

def Queue.Mentions (queue : Queue) (handle : Handle) : Prop :=
  queue.keeper = some handle ∨ queue.Waits handle ∨ handle ∈ queue.holders

/-- An entry spells its queue, and nobody waits for a lock that nobody keeps. -/
structure Entry.Spells (entry : Entry) (queue : Queue) : Prop where
  held : entry.held = queue.keeper.isSome
  owner : entry.owner = queue.keeper.bind Handle.number?
  links : entry.queue.Represents queue.waiters
  refs : entry.refs = queue.holders.card
  served : queue.waiters ≠ [] → queue.keeper ≠ none

/-- A handle's account agrees with the queue of its entry. -/
structure View.Agrees (view : View) (handle : Handle) (queue : Queue) : Prop where
  keeps : view.keeps = true ↔ queue.keeper = some handle
  queued : view.queued = true ↔ queue.Waits handle
  counted : view.counted = true ↔ handle ∈ queue.holders

/-- The flags of a lock at each point of its calls. -/
def Lock.Coherent (lock : Lock) : Prop :=
  match lock.call with
  | .fresh => lock.acquired = false ∧ lock.queued = false ∧ lock.granted = false ∧
      lock.unlock = .never
  | .waiting =>
      (lock.granted = false ∧ lock.acquired = false ∧ lock.queued = true ∧ lock.unlock = .never) ∨
        (lock.granted = true ∧ lock.queued = false ∧ (lock.acquired = true ↔ lock.unlock = .never))
  | .leaving | .returned false =>
      lock.acquired = false ∧ lock.queued = false ∧ lock.unlock = .never
  | .returned true => lock.queued = false ∧ (lock.acquired = true ↔ lock.unlock = .never)

/-- A lock that is held was not unlocked and did not time out. -/
theorem Lock.Coherent.of_acquired {lock : Lock} (coherent : lock.Coherent)
    (acquired : lock.acquired = true) :
    lock.unlock = .never ∧ lock.queued = false ∧ lock.call ≠ .returned false ∧
      Lock.Coherent { lock with acquired := false, unlock := .releasing } := by
  unfold Lock.Coherent at coherent ⊢
  cases call : lock.call with
  | fresh | waiting | leaving => simp_all
  | returned success => cases success <;> simp_all

/-- A lock that was unlocked is neither held nor queued. -/
theorem Lock.Coherent.of_unlocked {lock : Lock} (coherent : lock.Coherent)
    (unlocked : lock.unlock ≠ .never) :
    lock.acquired = false ∧ lock.queued = false ∧ lock.call ≠ .returned false ∧
      Lock.Coherent { lock with unlock := .done } := by
  unfold Lock.Coherent at coherent ⊢
  cases call : lock.call with
  | fresh | waiting | leaving => simp_all
  | returned success => cases success <;> simp_all

structure Sound (state : State) (queues : Nat → Queue) : Prop where
  entries : ∀ entry, (state.entries entry).Spells (queues entry)
  views : ∀ handle view, state.view handle = some view →
    view.Agrees handle (queues view.entry) ∧ view.entry < state.allocated ∧
      (view.counted = true → state.states view.id = some view.entry)
  coherent : ∀ number lock, state.locks number = some lock → lock.Coherent
  known : ∀ entry handle, (queues entry).Mentions handle →
    ∃ view, state.view handle = some view ∧ view.entry = entry
  mapped : ∀ id entry, state.states id = some entry →
    entry < state.allocated ∧ (queues entry).holders.Nonempty
  injective : ∀ id other entry, state.states id = some entry →
    state.states other = some entry → id = other
  ordered : ∀ entry, (queues entry).waiters.Pairwise fun earlier later =>
    state.arrival earlier < state.arrival later
  arrived : ∀ entry number, number ∈ (queues entry).waiters → state.arrival number < state.arrivals

theorem Sound.initial : Sound {} (fun _ => {}) where
  entries := fun _ => ⟨rfl, rfl, Links.represents_empty, rfl, by simp⟩
  views := by
    intro handle view present
    cases handle <;> cases present
  coherent := by simp
  known := by simp [Queue.Mentions, Queue.Waits]
  mapped := by simp
  injective := by simp
  ordered := by simp
  arrived := by simp

/-- Two queues say the same about a handle. -/
structure Queue.Same (handle : Handle) (before after : Queue) : Prop where
  keeper : after.keeper = some handle ↔ before.keeper = some handle
  waits : after.Waits handle ↔ before.Waits handle
  holders : handle ∈ after.holders ↔ handle ∈ before.holders

theorem Queue.Same.mentions {handle : Handle} {before after : Queue}
    (same : Queue.Same handle before after) : after.Mentions handle ↔ before.Mentions handle := by
  rw [Queue.Mentions, Queue.Mentions, same.keeper, same.waits, same.holders]

theorem View.Agrees.transfer {view : View} {handle : Handle} {before after : Queue}
    (agrees : view.Agrees handle before) (same : Queue.Same handle before after) :
    view.Agrees handle after :=
  ⟨agrees.keeps.trans same.keeper.symm, agrees.queued.trans same.waits.symm,
    agrees.counted.trans same.holders.symm⟩

section Frame

variable {state next : State} {queues : Nat → Queue} {entry : Nat} {queue : Queue}
variable {touched : Handle → Prop}

/-- A critical section on one entry that touches some of its handles. -/
structure Section (state next : State) (queues : Nat → Queue) (entry : Nat) (queue : Queue)
    (touched : Handle → Prop) : Prop where
  untouched : ∀ handle, ¬touched handle →
    next.view handle = state.view handle ∧ (handle.number?.elim True fun number =>
      next.arrival number = state.arrival number)
  same : ∀ handle, ¬touched handle → Queue.Same handle (queues entry) queue
  inside : ∀ handle view, touched handle → state.view handle = some view → view.entry = entry
  rewritten : ∀ handle, touched handle → ∃ view, next.view handle = some view ∧
    view.entry = entry ∧ view.Agrees handle queue ∧
      (view.counted = true → next.states view.id = some entry)
  others : ∀ other, other ≠ entry → next.entries other = state.entries other
  spells : (next.entries entry).Spells queue
  coherent : ∀ number lock, next.locks number = some lock → lock.Coherent
  stable : ∀ handle view, ¬touched handle → state.view handle = some view → view.counted = true →
    next.states view.id = state.states view.id
  allocated : state.allocated ≤ next.allocated
  bound : entry < next.allocated
  mapped : ∀ id other, next.states id = some other →
    other < next.allocated ∧ (Function.update queues entry queue other).holders.Nonempty
  injective : ∀ id other entry, next.states id = some entry →
    next.states other = some entry → id = other
  ordered : queue.waiters.Pairwise fun earlier later => next.arrival earlier < next.arrival later
  arrived : ∀ number ∈ queue.waiters, next.arrival number < next.arrivals
  arrivals : state.arrivals ≤ next.arrivals

/-- A section does not move the waiters of other entries. -/
theorem Section.arrival_of_waits (change : Section state next queues entry queue touched)
    (sound : Sound state queues) {other number : Nat} (elsewhere : other ≠ entry)
    (waits : number ∈ (queues other).waiters) : next.arrival number = state.arrival number := by
  have untouched : ¬touched (.lock number) := by
    intro touch
    obtain ⟨view, present, place⟩ :=
      sound.known other (.lock number) (.inr (.inl ⟨number, waits, rfl⟩))
    exact elsewhere (place.symm.trans (change.inside _ view touch present))
  exact (change.untouched _ untouched).2

/-- A section keeps the locker sound. -/
theorem Sound.frame (sound : Sound state queues)
    (change : Section state next queues entry queue touched) :
    Sound next (update queues entry queue) where
  entries := by
    intro other
    by_cases here : other = entry
    · subst here
      simpa using change.spells
    · rw [update_of_ne here, change.others other here]
      exact sound.entries other
  views := by
    intro handle view present
    by_cases touch : touched handle
    · obtain ⟨own, found, located, agrees, mapped⟩ := change.rewritten handle touch
      rw [found, Option.some.injEq] at present
      subst present
      rw [located, update_self]
      exact ⟨agrees, change.bound, mapped⟩
    · rw [(change.untouched handle touch).1] at present
      obtain ⟨agrees, bound, mapped⟩ := sound.views handle view present
      refine ⟨?_, bound.trans_le change.allocated, ?_⟩
      · by_cases here : view.entry = entry
        · rw [here, update_self]
          rw [here] at agrees
          exact agrees.transfer (change.same handle touch)
        · rwa [update_of_ne here]
      · intro counted
        rw [change.stable handle view touch present counted]
        exact mapped counted
  coherent := change.coherent
  known := by
    intro other handle mentions
    by_cases touch : touched handle
    · obtain ⟨view, found, located, agrees, -⟩ := change.rewritten handle touch
      refine ⟨view, found, ?_⟩
      by_cases here : other = entry
      · rw [located, here]
      · -- a touched handle was at this entry, so no other queue mentions it
        rw [update_of_ne here] at mentions
        obtain ⟨old, present, place⟩ := sound.known other handle mentions
        exact absurd (place.symm.trans (change.inside handle old touch present)) here
    · rw [(change.untouched handle touch).1]
      by_cases here : other = entry
      · subst here
        rw [update_self, (change.same handle touch).mentions] at mentions
        exact sound.known other handle mentions
      · rw [update_of_ne here] at mentions
        exact sound.known other handle mentions
  mapped := change.mapped
  injective := change.injective
  ordered := by
    intro other
    by_cases here : other = entry
    · subst here
      simpa using change.ordered
    · rw [update_of_ne here]
      refine (sound.ordered other).imp_of_mem ?_
      intro earlier later first second before
      rw [change.arrival_of_waits sound here first, change.arrival_of_waits sound here second]
      exact before
  arrived := by
    intro other number member
    by_cases here : other = entry
    · subst here
      rw [update_self] at member
      exact change.arrived number member
    · rw [update_of_ne here] at member
      rw [change.arrival_of_waits sound here member]
      exact (sound.arrived other number member).trans_le change.arrivals

end Frame

end Golusoris.Tus
