import Golusoris.Tus.LockerSteps

/-!
# Handing the lock on

`handoff` takes the lock from whoever keeps it and gives it to the first waiter.
It is the one section that changes two handles: the keeper and the waiter.
-/

namespace Golusoris.Tus

open Lib
open State
open Queue

variable {state next : State} {queues : Nat → Queue}

/-- The queue after its keeper hands the lock on. -/
def Queue.handed (queue : Queue) : Queue :=
  { queue with keeper := queue.waiters.head?.map .lock, waiters := queue.waiters.tail }

/-- A waiter's lock, with its flags as they are until it is granted. -/
theorem Sound.waiter (sound : Sound state queues) {entry number : Nat}
    (waits : number ∈ (queues entry).waiters) :
    ∃ lock, state.locks number = some lock ∧ lock.entry = entry ∧ lock.call = .waiting ∧
      lock.granted = false ∧ lock.acquired = false ∧ lock.queued = true ∧ lock.unlock = .never := by
  obtain ⟨view, present, place⟩ :=
    sound.known entry (.lock number) (.inr (.inl ⟨number, waits, rfl⟩))
  obtain ⟨lock, known, rfl⟩ := Option.map_eq_some_iff.1 present
  have agrees := (sound.views _ _ present).1
  have queued : lock.queued = true := agrees.queued.2 ⟨number, place ▸ waits, rfl⟩
  have coherent := sound.coherent number lock known
  unfold Lock.Coherent at coherent
  refine ⟨lock, known, place, ?_⟩
  cases call : lock.call with
  | waiting | fresh | leaving => simp_all
  | returned acquired => cases acquired <;> simp_all

/-- What `handoff` does when it is called by the keeper of an entry. -/
structure Hands (state : State) (queues : Nat → Queue) (entry : Nat) (keeper : Handle) : Prop where
  handed : (state.handoff entry).2 = (queues entry).waiters.head?
  locks : ∀ number, (state.handoff entry).1.locks number =
    if keeper = .lock number then (state.locks number).map ({ · with acquired := false })
    else if (queues entry).waiters.head? = some number then
      (state.locks number).map ({ · with queued := false, granted := true, acquired := true })
    else state.locks number
  attempts : (state.handoff entry).1.attempts = state.attempts
  others : ∀ other, other ≠ entry → (state.handoff entry).1.entries other = state.entries other
  spells : ((state.handoff entry).1.entries entry).Spells (queues entry).handed
  states : (state.handoff entry).1.states = state.states
  allocated : (state.handoff entry).1.allocated = state.allocated
  arrival : (state.handoff entry).1.arrival = state.arrival
  arrivals : (state.handoff entry).1.arrivals = state.arrivals

theorem disown_locks (state : State) (owner : Option Nat) (number : Nat) :
    (state.disown owner).locks number =
      if owner = some number then (state.locks number).map ({ · with acquired := false })
      else state.locks number := by
  cases owner with
  | none => simp [disown]
  | some other =>
    by_cases same : other = number
    · subst same
      cases present : state.locks other with
      | none => simp [disown, present]
      | some lock => simp [disown, present, setLock]
    · cases present : state.locks other with
      | none => simp [disown, present, same]
      | some lock => simp [disown, present, setLock, same, Ne.symm same]

theorem disown_frame (state : State) (owner : Option Nat) :
    (state.disown owner).entries = state.entries ∧ (state.disown owner).states = state.states ∧
      (state.disown owner).attempts = state.attempts ∧
      (state.disown owner).allocated = state.allocated ∧
      (state.disown owner).arrival = state.arrival ∧
      (state.disown owner).arrivals = state.arrivals := by
  cases owner with
  | none => exact ⟨rfl, rfl, rfl, rfl, rfl, rfl⟩
  | some number =>
    rw [disown]
    split <;> exact ⟨rfl, rfl, rfl, rfl, rfl, rfl⟩

theorem Sound.hands (sound : Sound state queues) {entry : Nat} {keeper : Handle}
    (kept : (queues entry).keeper = some keeper) : Hands state queues entry keeper := by
  have spelled := sound.entries entry
  obtain ⟨entries, states, attempts, allocated, arrival, arrivals⟩ :=
    disown_frame state (state.entries entry).owner
  have owner : ∀ number, (state.entries entry).owner = some number ↔ keeper = .lock number := by
    intro number
    rw [spelled.owner, kept]
    cases keeper <;> simp [Handle.number?]
  cases waiters : (queues entry).waiters with
  | nil =>
    have head : (state.entries entry).queue.head = none := by
      rw [spelled.links.head, waiters]
      rfl
    have shape : state.handoff entry =
        ((state.disown (state.entries entry).owner).setEntry entry
          { state.entries entry with held := false, owner := none, wake := none }, none) := by
      simp only [handoff, head]
    refine ⟨?_, ?_, ?_, ?_, ?_, ?_, ?_, ?_, ?_⟩ <;> rw [shape]
    · simp [waiters]
    · intro number
      have locks := disown_locks state (state.entries entry).owner number
      simpa [setEntry, waiters, owner] using locks
    · exact attempts
    · intro other different
      simp [setEntry, different, entries]
    · simp only [setEntry, Function.update_self]
      refine ⟨by simp [handed, waiters], by simp [handed, waiters], ?_, spelled.refs,
        by simp [handed, waiters]⟩
      have links := spelled.links
      rw [waiters] at links
      simpa [handed, waiters] using links
    · exact states
    · exact allocated
    · exact arrival
    · exact arrivals
  | cons first rest =>
    have head : (state.entries entry).queue.head = some first := by
      rw [spelled.links.head, waiters]
      rfl
    have waits : first ∈ (queues entry).waiters := by simp [waiters]
    obtain ⟨lock, known, place, -, -, acquired, -⟩ := sound.waiter waits
    have unkept : keeper ≠ .lock first := by
      rintro rfl
      have agrees := (sound.views _ _ (view_of_lock known)).1
      have keeps := agrees.keeps.2 (by rw [show lock.view.entry = entry from place, kept])
      rw [show lock.view.keeps = false from acquired] at keeps
      cases keeps
    have still : (state.disown (state.entries entry).owner).locks first = some lock := by
      rw [disown_locks, if_neg (by rwa [owner]), known]
    have shape : state.handoff entry =
        (((state.disown (state.entries entry).owner).setEntry entry
          { state.entries entry with
            queue := (state.entries entry).queue.remove first
            owner := some first
            wake := some first }).setLock first
              { lock with queued := false, granted := true, acquired := true }, some first) := by
      simp only [handoff, head, still]
    refine ⟨?_, ?_, ?_, ?_, ?_, ?_, ?_, ?_, ?_⟩ <;> rw [shape]
    · simp [waiters]
    · intro number
      by_cases same : number = first
      · subst same
        simp [setLock, waiters, unkept, known]
      · have locks := disown_locks state (state.entries entry).owner number
        simp only [owner] at locks
        simpa [setLock, setEntry, same, Ne.symm same, waiters] using locks
    · exact attempts
    · intro other different
      simp [setLock, setEntry, different, entries]
    · have links := spelled.links
      rw [waiters, ← List.nil_append (first :: rest)] at links
      have removed := links.remove
      simp only [setLock, setEntry, Function.update_self]
      refine ⟨?_, by simp [handed, waiters, Handle.number?], ?_, spelled.refs,
        by simp [handed, waiters]⟩
      · rw [spelled.held, kept]
        simp [handed, waiters]
      · simpa [handed, waiters] using removed
    · exact states
    · exact allocated
    · exact arrival
    · exact arrivals

/-- The waiter that is granted the lock has its flags in order. -/
theorem Hands.coherent {entry : Nat} {keeper : Handle} (hands : Hands state queues entry keeper)
    (sound : Sound state queues) (number : Nat) (lock : Lock) (other : keeper ≠ .lock number)
    (present : (state.handoff entry).1.locks number = some lock) : lock.Coherent := by
  rw [hands.locks, if_neg other] at present
  split at present
  · rename_i first
    obtain ⟨value, known, -, waiting, -, -, -, unlock⟩ := sound.waiter (List.mem_of_head? first)
    rw [known, Option.map_some, Option.some.injEq] at present
    subst present
    simp [Lock.Coherent, waiting, unlock]
  · exact sound.coherent number lock present

/-- The keeper of an entry hands the lock on and forgets that it had it. -/
theorem Sound.hand {keeper : Handle} {before : View} (sound : Sound state queues)
    (present : state.view keeper = some before) (keeps : before.keeps = true)
    (views : ∀ handle, next.view handle =
      if handle = keeper then some { before with keeps := false }
      else (state.handoff before.entry).1.view handle)
    (coherent : ∀ number lock, next.locks number = some lock → lock.Coherent)
    (entries : next.entries = (state.handoff before.entry).1.entries)
    (states : next.states = (state.handoff before.entry).1.states)
    (allocated : next.allocated = (state.handoff before.entry).1.allocated)
    (arrival : next.arrival = (state.handoff before.entry).1.arrival)
    (arrivals : next.arrivals = (state.handoff before.entry).1.arrivals) :
    ∃ queues', Sound next queues' := by
  obtain ⟨agrees, bound, -⟩ := sound.views keeper before present
  have kept := agrees.keeps.1 keeps
  have hands := sound.hands kept
  have distinct := (sound.entries before.entry).links.distinct
  have unqueued : ¬(queues before.entry).Waits keeper := by
    rintro ⟨number, waits, rfl⟩
    obtain ⟨lock, known, -, -, -, acquired, -, -⟩ := sound.waiter waits
    rw [view_of_lock known, Option.some.injEq] at present
    rw [← present, show lock.view.keeps = false from acquired] at keeps
    cases keeps
  have turns : Turns state next queues before.entry (queues before.entry).handed
      (fun handle => handle = keeper ∨
        ∃ number, (queues before.entry).waiters.head? = some number ∧ handle = .lock number) := {
    untouched := by
      intro handle other
      rw [views, if_neg fun same => other (.inl same)]
      cases handle with
      | lock number =>
        have notKeeper : keeper ≠ .lock number := fun same => other (.inl same.symm)
        have notNext : (queues before.entry).waiters.head? ≠ some number :=
          fun same => other (.inr ⟨number, same, rfl⟩)
        rw [view, hands.locks, if_neg notKeeper, if_neg notNext]
        rfl
      | attempt number => rw [view, hands.attempts]; rfl
    same := by
      intro handle other
      refine ⟨?_, ?_, Iff.rfl⟩
      · rw [kept, handed]
        refine iff_of_false ?_ fun same => other (.inl (Option.some.inj same).symm)
        intro same
        obtain ⟨number, first, rfl⟩ := Option.map_eq_some_iff.1 same
        exact other (.inr ⟨number, first, rfl⟩)
      · constructor
        · rintro ⟨number, member, rfl⟩
          exact ⟨number, List.mem_of_mem_tail member, rfl⟩
        · rintro ⟨number, member, rfl⟩
          refine ⟨number, ?_, rfl⟩
          cases waiters : (queues before.entry).waiters with
          | nil => simp [waiters] at member
          | cons first rest =>
            rw [waiters] at member
            rcases List.mem_cons.1 member with rfl | later
            · exact absurd (.inr ⟨_, by simp [waiters], rfl⟩) other
            · simpa [handed, waiters] using later
    rewritten := by
      rintro handle (rfl | ⟨number, first, rfl⟩)
      · refine ⟨before, { before with keeps := false }, present, by rw [views, if_pos rfl], rfl, rfl,
          rfl, rfl, ?_, ?_, ?_⟩
        · refine iff_of_false (by simp) ?_
          intro same
          obtain ⟨number, first, rfl⟩ := Option.map_eq_some_iff.1 same
          exact unqueued ⟨number, List.mem_of_head? first, rfl⟩
        · refine agrees.queued.trans (iff_of_false unqueued ?_)
          rintro ⟨number, member, rfl⟩
          exact unqueued ⟨number, List.mem_of_mem_tail member, rfl⟩
        · exact agrees.counted
      · have waits := List.mem_of_head? first
        obtain ⟨lock, known, place, -⟩ := sound.waiter waits
        have notKeeper : Handle.lock number ≠ keeper := by
          rintro rfl
          exact unqueued ⟨number, waits, rfl⟩
        have own := (sound.views _ _ (view_of_lock known)).1
        rw [show lock.view.entry = before.entry from place] at own
        refine ⟨lock.view, { lock.view with keeps := true, queued := false },
          view_of_lock known, ?_, place, place, rfl, rfl, ?_, ?_, ?_⟩
        · rw [views, if_neg notKeeper, view, hands.locks, if_neg (Ne.symm notKeeper),
            if_pos first, known]
          rfl
        · simp [handed, first]
        · refine iff_of_false (by simp) ?_
          rintro ⟨other, member, same⟩
          cases waiters : (queues before.entry).waiters with
          | nil => simp [handed, waiters] at member
          | cons head rest =>
            rw [waiters] at first distinct
            rw [handed, waiters] at member
            cases first
            cases same
            exact (List.nodup_cons.1 distinct).1 member
        · exact own.counted
    holders := rfl
    waiters := List.tail_sublist _
    others := by
      intro other different
      rw [entries, hands.others other different]
    spells := by
      rw [entries]
      exact hands.spells
    coherent := coherent
    states := states.trans hands.states
    allocated := allocated.trans hands.allocated
    arrival := arrival.trans hands.arrival
    arrivals := arrivals.trans hands.arrivals
    bound := bound }
  exact sound.turn turns

end Golusoris.Tus
