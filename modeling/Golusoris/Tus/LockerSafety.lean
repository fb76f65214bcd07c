import Golusoris.Tus.LockerSound

/-!
# Safety of the upload locker

Whatever the order of the critical sections, an id has at most one lock held,
a release goes to the waiter that has been queued longest, a waiter that timed
out never owns the lock, somebody holds the lock as long as anybody waits for
it, and an id has an entry exactly as long as a lock or an attempt refers to it.
-/

namespace Golusoris.Tus

open Lib

variable {state next : State} {queues : Nat → Queue}

/-- The lock of an id is held: by a lock object from its grant to its `Unlock`,
or by a maintenance attempt. -/
def State.Holds (state : State) (id : String) : Handle → Prop
  | .lock number => ∃ lock, state.locks number = some lock ∧ lock.id = id ∧ lock.acquired = true
  | .attempt number =>
      ∃ attempt, state.attempts number = some attempt ∧ attempt.id = id ∧ attempt.phase = .holding

/-- A call of `Lock` waits and has not been granted the lock. -/
def State.Waits (state : State) (id : String) (number : Nat) : Prop :=
  ∃ lock, state.locks number = some lock ∧ lock.id = id ∧ lock.call = .waiting ∧
    lock.granted = false

/-- A lock object that has neither timed out nor completed its `Unlock`, or an
attempt that was neither refused nor completed. -/
def State.Uses (state : State) (id : String) : Handle → Prop
  | .lock number => ∃ lock, state.locks number = some lock ∧ lock.id = id ∧
      lock.call ≠ .returned false ∧ lock.unlock ≠ .done
  | .attempt number => ∃ attempt, state.attempts number = some attempt ∧ attempt.id = id ∧
      attempt.phase ≠ .refused ∧ attempt.phase ≠ .done

/-- A call of `Lock` that gave up, or has returned `ErrLockTimeout`. -/
def Lock.TimedOut (lock : Lock) : Prop :=
  lock.call = .leaving ∨ lock.call = .returned false

structure Safe (events : List Event) (state : State) : Prop where
  /-- At most one lock of an id is held. -/
  exclusive : ∀ id one other, state.Holds id one → state.Holds id other → one = other
  /-- A `Lock` that returned without an error holds the lock until its `Unlock`. -/
  returned : ∀ number lock, state.locks number = some lock → lock.call = .returned true →
    lock.unlock = .never → state.Holds lock.id (.lock number)
  /-- A waiter that gave up does not own the lock. -/
  expired : ∀ number, .gaveUp number ∈ events → ∀ id, ¬state.Holds id (.lock number)
  /-- Somebody holds the lock that a waiter is queued for. -/
  served : ∀ id number, state.Waits id number → ∃ handle, state.Holds id handle
  /-- An id has an entry exactly as long as it is used. -/
  entry : ∀ id, state.states id = none ↔ ∀ handle, ¬state.Uses id handle

/-- A release goes to the waiter that was queued first, and to nobody only when
nobody waits. -/
def HandsOn (state : State) (event : Event) (next : State) : Prop :=
  ∀ id handed, event = .released id handed →
    (∀ number, handed = some number → state.Waits id number ∧ next.Holds id (.lock number) ∧
      ∀ other, state.Waits id other → other ≠ number → state.arrival number < state.arrival other) ∧
    (handed = none → ∀ number, ¬state.Waits id number)

variable {id : String} {handle : Handle}

theorem view_of_holds (holds : state.Holds id handle) :
    ∃ view, state.view handle = some view ∧ view.id = id ∧ view.keeps = true := by
  cases handle with
  | lock number =>
    obtain ⟨lock, known, named, acquired⟩ := holds
    exact ⟨lock.view, view_of_lock known, named, acquired⟩
  | attempt number =>
    obtain ⟨attempt, known, named, holding⟩ := holds
    exact ⟨attempt.view, view_of_attempt known, named, by simp [Attempt.view, holding]⟩

variable {view : View}

theorem holds_of_view (present : state.view handle = some view) (keeps : view.keeps = true) :
    state.Holds view.id handle := by
  cases handle with
  | lock number =>
    obtain ⟨lock, known, rfl⟩ := Option.map_eq_some_iff.1 present
    exact ⟨lock, known, rfl, keeps⟩
  | attempt number =>
    obtain ⟨attempt, known, rfl⟩ := Option.map_eq_some_iff.1 present
    exact ⟨attempt, known, rfl, by simpa [Attempt.view] using keeps⟩

theorem uses_iff :
    state.Uses id handle ↔
      ∃ view, state.view handle = some view ∧ view.id = id ∧ view.counted = true := by
  cases handle with
  | lock number => simp [State.Uses, State.view, Lock.view]
  | attempt number => simp [State.Uses, State.view, Attempt.view]

/-- Whoever keeps the lock, or waits for it, has a reference to the entry. -/
theorem Sound.counted (sound : Sound state queues) (present : state.view handle = some view)
    (busy : view.keeps = true ∨ view.queued = true) : view.counted = true := by
  cases handle with
  | lock number =>
    obtain ⟨lock, known, rfl⟩ := Option.map_eq_some_iff.1 present
    have coherent := sound.coherent number lock known
    rcases busy with acquired | queued
    · obtain ⟨unlock, -, returned, -⟩ := coherent.of_acquired acquired
      simp [Lock.view, unlock, returned]
    · change lock.queued = true at queued
      unfold Lock.Coherent at coherent
      cases call : lock.call with
      | returned success => cases success <;> simp_all
      | fresh => simp_all
      | waiting => simp_all [Lock.view]
      | leaving => simp_all
  | attempt number =>
    obtain ⟨attempt, known, rfl⟩ := Option.map_eq_some_iff.1 present
    rcases busy with holding | queued
    · have phase : attempt.phase = .holding := by simpa [Attempt.view] using holding
      simp [Attempt.view, phase]
    · cases queued

theorem Sound.entry_of_busy (sound : Sound state queues) (present : state.view handle = some view)
    (busy : view.keeps = true ∨ view.queued = true) : state.states view.id = some view.entry :=
  (sound.views handle view present).2.2 (sound.counted present busy)

/-- A waiting call is in the queue of the entry of its id. -/
theorem Sound.waits_iff (sound : Sound state queues) {number : Nat} :
    state.Waits id number ↔
      ∃ entry, state.states id = some entry ∧ number ∈ (queues entry).waiters := by
  constructor
  · rintro ⟨lock, known, rfl, waiting, pending⟩
    have coherent := sound.coherent number lock known
    simp only [Lock.Coherent, waiting, pending] at coherent
    have queued : lock.queued = true := by simpa using coherent.elim (·.2.2.1) (by simp)
    have agrees := (sound.views _ _ (view_of_lock known)).1
    obtain ⟨other, member, same⟩ := agrees.queued.1 queued
    cases same
    exact ⟨lock.entry, sound.entry_of_busy (view_of_lock known) (.inr queued), member⟩
  · rintro ⟨entry, found, member⟩
    obtain ⟨lock, known, place, waiting, pending, -, queued, -⟩ := sound.waiter member
    have mapped := sound.entry_of_busy (view_of_lock known) (.inr queued)
    rw [show lock.view.entry = entry from place] at mapped
    exact ⟨lock, known, sound.injective _ _ entry mapped found, waiting, pending⟩

/-- A keeper's release goes to the head of the queue. -/
theorem Sound.handed {keeper : Handle} (sound : Sound state queues)
    (present : state.view keeper = some view) (keeps : view.keeps = true)
    (locks : ∀ number, keeper ≠ .lock number →
      next.locks number = (state.handoff view.entry).1.locks number) :
    HandsOn state (.released view.id (state.handoff view.entry).2) next := by
  have mapped := sound.entry_of_busy present (.inl keeps)
  have kept := (sound.views keeper view present).1.keeps.1 keeps
  have hands := sound.hands kept
  rintro id handed same
  obtain ⟨rfl, rfl⟩ := Event.released.inj same
  rw [hands.handed]
  refine ⟨?_, ?_⟩
  · intro number first
    have member := List.mem_of_head? first
    obtain ⟨lock, known, place, waiting, pending, unacquired, -⟩ := sound.waiter member
    have waits := sound.waits_iff.2 ⟨view.entry, mapped, member⟩
    have unkept : keeper ≠ .lock number := by
      rintro rfl
      rw [view_of_lock known, Option.some.injEq] at present
      rw [← present, show lock.view.keeps = false from unacquired] at keeps
      cases keeps
    refine ⟨waits, ?_, ?_⟩
    · obtain ⟨own, there, named, -⟩ := waits
      rw [known, Option.some.injEq] at there
      refine ⟨_, by rw [locks number unkept, hands.locks, if_neg unkept, if_pos first, known]; rfl,
        ?_, rfl⟩
      rw [← named, ← there]
    · intro other waiter different
      obtain ⟨entry, found, inside⟩ := sound.waits_iff.1 waiter
      rw [mapped, Option.some.injEq] at found
      subst found
      have ordered := sound.ordered view.entry
      cases shape : (queues view.entry).waiters with
      | nil => simp [shape] at first
      | cons head rest =>
        rw [shape] at first ordered inside
        cases first
        have later : other ∈ rest := (List.mem_cons.1 inside).resolve_left different
        exact (List.pairwise_cons.1 ordered).1 other later
  · intro none number waiter
    obtain ⟨entry, found, inside⟩ := sound.waits_iff.1 waiter
    rw [mapped, Option.some.injEq] at found
    subst found
    rw [List.head?_eq_none_iff] at none
    rw [none] at inside
    cases inside

theorem Sound.handsOn {event : Event} (sound : Sound state queues) (step : Step state event next) :
    HandsOn state event next := by
  cases step with
  | @unlock lock value after known acquired left =>
    refine sound.handed (view_of_lock known) acquired ?_
    intro number different
    exact Function.update_of_ne (fun same => different (by rw [same])) _ _
  | @maintainUnlock attempt value known holding =>
    exact sound.handed (view_of_attempt known) (by simp [Attempt.view, holding]) fun _ _ => rfl
  | _ =>
    rintro id handed same
    cases same

/-- A call that gave up stays given up. -/
theorem Step.timedOut {event : Event} {number : Nat} (sound : Sound state queues)
    (step : Step state event next) (gone : ∃ lock, state.locks number = some lock ∧ lock.TimedOut) :
    ∃ lock, next.locks number = some lock ∧ lock.TimedOut := by
  have assigned : ∀ (middle : State) (other : Nat) (value : Lock),
      (∃ lock, middle.locks number = some lock ∧ lock.TimedOut) →
      (other = number → value.TimedOut) →
      ∃ lock, (middle.setLock other value).locks number = some lock ∧ lock.TimedOut := by
    rintro middle other value ⟨lock, still, out⟩ keeps
    by_cases same : other = number
    · exact ⟨value, by simp [State.setLock, same], keeps same⟩
    · exact ⟨lock, by simpa [State.setLock, Ne.symm same] using still, out⟩
  have own : ∀ {other : Nat} {value : Lock}, state.locks other = some value → other = number →
      value.TimedOut := by
    rintro other value present rfl
    obtain ⟨lock, known, out⟩ := gone
    rw [known, Option.some.injEq] at present
    exact present ▸ out
  have handed : ∀ {keeper : Handle} {entry : Nat}, Hands state queues entry keeper →
      ∃ lock, (state.handoff entry).1.locks number = some lock ∧ lock.TimedOut := by
    intro keeper entry hands
    obtain ⟨lock, known, out⟩ := gone
    rw [hands.locks, known]
    split
    · exact ⟨_, rfl, out⟩
    · split
      · exact ⟨_, rfl, out⟩
      · exact ⟨_, rfl, out⟩
  cases step with
  | newLock free id =>
    refine assigned _ _ _ (by rw [retain_locks]; exact gone) ?_
    rintro rfl
    obtain ⟨lock, known, -⟩ := gone
    rw [free] at known
    cases known
  | lockFree present stage free | ready present stage granted | expiredGranted present stage granted =>
    exact assigned _ _ _ gone fun same =>
      absurd (own present same) (by simp [Lock.TimedOut, stage])
  | lockWait present fresh held =>
    exact assigned (state.setEntry _ _) _ _ gone fun same =>
      absurd (own present same) (by simp [Lock.TimedOut, fresh])
  | expired present waiting pending => exact assigned _ _ _ gone fun _ => .inl rfl
  | leave present leaving =>
    exact assigned _ _ _ (by rw [release_locks]; exact gone) fun _ => .inr rfl
  | unlockNothing _ _ | maintainBusy _ _ _ | maintainHeld _ _ _ => exact gone
  | @unlock other value after present acquired left =>
    have agrees := (sound.views _ _ (view_of_lock present)).1
    have still := handed (sound.hands (agrees.keeps.1 acquired))
    refine assigned _ _ _ still ?_
    rintro rfl
    obtain ⟨lock, known, out⟩ := still
    change (state.handoff value.entry).1.locks other = some lock at known
    rw [left, Option.some.injEq] at known
    subst known
    exact out
  | unlocked present releasing =>
    refine assigned _ _ _ (by rw [release_locks]; exact gone) fun same => ?_
    have out := own present same
    exact out
  | maintain free id =>
    change ∃ lock, (state.retain id).1.locks number = some lock ∧ lock.TimedOut
    rw [retain_locks]
    exact gone
  | @maintainRefused attempt value present _ | @maintainDone attempt value present _ =>
    change ∃ lock, (state.release value.id value.entry).locks number = some lock ∧ lock.TimedOut
    rw [release_locks]
    exact gone
  | @maintainUnlock attempt value present holding =>
    have agrees := (sound.views _ _ (view_of_attempt present)).1
    exact handed (sound.hands (agrees.keeps.1 (by simp [Attempt.view, holding])))

theorem Sound.safe {events : List Event} (sound : Sound state queues)
    (gone : ∀ number, .gaveUp number ∈ events →
      ∃ lock, state.locks number = some lock ∧ lock.TimedOut) : Safe events state where
  exclusive := by
    intro id one other first second
    obtain ⟨view, present, named, keeps⟩ := view_of_holds first
    obtain ⟨view', present', named', keeps'⟩ := view_of_holds second
    have entry := sound.entry_of_busy present (.inl keeps)
    have entry' := sound.entry_of_busy present' (.inl keeps')
    rw [named] at entry
    rw [named', entry, Option.some.injEq] at entry'
    have keeper := (sound.views one view present).1.keeps.1 keeps
    have keeper' := (sound.views other view' present').1.keeps.1 keeps'
    rw [← entry', keeper, Option.some.injEq] at keeper'
    exact keeper'
  returned := by
    intro number lock known returned unlock
    have coherent := sound.coherent number lock known
    simp only [Lock.Coherent, returned] at coherent
    exact ⟨lock, known, rfl, coherent.2.2 unlock⟩
  expired := by
    rintro number gave id ⟨lock, known, -, acquired⟩
    obtain ⟨other, present, out⟩ := gone number gave
    rw [known, Option.some.injEq] at present
    subst present
    have coherent := sound.coherent number lock known
    unfold Lock.Coherent at coherent
    rcases out with call | call <;> simp [call, acquired] at coherent
  served := by
    intro id number waits
    obtain ⟨entry, found, member⟩ := sound.waits_iff.1 waits
    have kept := (sound.entries entry).served (List.ne_nil_of_mem member)
    obtain ⟨handle, keeper⟩ := Option.ne_none_iff_exists'.1 kept
    obtain ⟨view, present, place⟩ := sound.known entry handle (.inl keeper)
    have keeps := (sound.views handle view present).1.keeps.2 (place ▸ keeper)
    have mapped := sound.entry_of_busy present (.inl keeps)
    rw [place] at mapped
    have holds := holds_of_view present keeps
    rw [sound.injective _ _ entry mapped found] at holds
    exact ⟨handle, holds⟩
  entry := by
    intro id
    constructor
    · intro missing handle uses
      obtain ⟨view, present, named, counted⟩ := uses_iff.1 uses
      have mapped := (sound.views handle view present).2.2 counted
      rw [named, missing] at mapped
      cases mapped
    · intro unused
      by_contra found
      obtain ⟨entry, mapped⟩ := Option.ne_none_iff_exists'.1 found
      obtain ⟨handle, member⟩ := (sound.mapped id entry mapped).2
      obtain ⟨view, present, place⟩ := sound.known entry handle (.inr (.inr member))
      have agrees := sound.views handle view present
      have counted := agrees.1.counted.2 (place ▸ member)
      have own := agrees.2.2 counted
      rw [place] at own
      exact unused handle (uses_iff.2 ⟨view, present, sound.injective _ _ entry own mapped, counted⟩)

/-- Every run of the locker is safe, and hands every released lock on. -/
theorem locker_safe {events : List Event} {finish : State} (run : machine.Run events finish) :
    Safe events finish ∧ ∀ event next, Step finish event next → HandsOn finish event next := by
  obtain ⟨⟨queues, sound⟩, gone⟩ : (∃ queues, Sound finish queues) ∧
      ∀ number, .gaveUp number ∈ events →
        ∃ lock, finish.locks number = some lock ∧ lock.TimedOut := by
    refine run.history_invariant (fun history state => (∃ queues, Sound state queues) ∧
      ∀ number, .gaveUp number ∈ history →
        ∃ lock, state.locks number = some lock ∧ lock.TimedOut) ?_ ?_
    · rintro state rfl
      exact ⟨⟨_, Sound.initial⟩, by simp⟩
    · rintro history before event after ⟨⟨queues, sound⟩, gone⟩ step
      refine ⟨sound.step step, ?_⟩
      intro number gave
      rcases List.mem_append.1 gave with old | new
      · exact Step.timedOut sound step (gone number old)
      · obtain rfl := List.mem_singleton.1 new
        cases step with
        | @expired _ value known waiting pending =>
          exact ⟨_, Function.update_self _ _ _, .inl rfl⟩
  exact ⟨sound.safe gone, fun event next step => sound.handsOn step⟩

/-- Two requests for one upload: the second waits for the first. -/
def contended : List Event :=
  [.created 0, .locked 0, .created 1, .queued 1 (some 0)]

theorem contended_run : ∃ finish, machine.Run contended finish ∧ finish.Waits "u" 1 := by
  have idle : machine.Run [] {} := ⟨_, rfl, .nil _⟩
  have created := idle.snoc (@Step.newLock {} 0 rfl "u")
  have locked := created.snoc (@Step.lockFree _ 0 _ rfl rfl rfl)
  have another := locked.snoc (@Step.newLock _ 1 rfl "u")
  have queued := another.snoc (@Step.lockWait _ 1 _ rfl rfl rfl)
  exact ⟨_, queued, _, rfl, rfl, rfl, rfl⟩

/-- While the second request waits, somebody holds the lock. -/
theorem locker_safe_contended :
    ∃ finish, machine.Run contended finish ∧ finish.Waits "u" 1 ∧
      ∃ handle, finish.Holds "u" handle := by
  obtain ⟨finish, run, waits⟩ := contended_run
  exact ⟨finish, run, waits, (locker_safe run).1.served "u" 1 waits⟩

/-- A lock object that is created but not locked yet keeps the entry of its id,
though no lock of the id is held or waited for. -/
theorem entry_without_lock :
    ∃ finish, machine.Run [.created 0] finish ∧ (∀ handle, ¬finish.Holds "u" handle) ∧
      (∀ number, ¬finish.Waits "u" number) ∧ finish.states "u" ≠ none := by
  have idle : machine.Run [] {} := ⟨_, rfl, .nil _⟩
  have created := idle.snoc (@Step.newLock {} 0 rfl "u")
  refine ⟨_, created, ?_, ?_, ?_⟩
  · intro handle holds
    cases handle with
    | lock number =>
      obtain ⟨lock, known, -, acquired⟩ := holds
      by_cases same : number = 0
      · subst same
        cases known
        cases acquired
      · simp [State.setLock, same, State.retain] at known
    | attempt number =>
      obtain ⟨attempt, known, -⟩ := holds
      cases known
  · rintro number ⟨lock, known, -, waiting, -⟩
    by_cases same : number = 0
    · subst same
      cases known
      cases waiting
    · simp [State.setLock, same, State.retain] at known
  · simp [State.setLock, State.retain]

end Golusoris.Tus
