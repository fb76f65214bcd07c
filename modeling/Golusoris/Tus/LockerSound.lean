import Golusoris.Tus.LockerHandoff

/-!
# Every section keeps the locker sound

Each critical section of `Locker.lean` is one of the kinds of `LockerSteps.lean`
or a `handoff`; `Sound.step` puts them together.
-/

namespace Golusoris.Tus

open Function (update update_of_ne update_self)
open Lib
open Attempt

variable {state next : State} {queues : Nat → Queue}

theorem retain_locks (state : State) (id : String) : (state.retain id).1.locks = state.locks := by
  rw [State.retain]
  split <;> rfl

theorem release_locks (state : State) (id : String) (entry : Nat) :
    (state.release id entry).locks = state.locks := by
  rw [State.release]
  split <;> rfl

theorem release_frame (state : State) (id : String) (entry : Nat) :
    (state.release id entry).allocated = state.allocated ∧
      (state.release id entry).arrival = state.arrival ∧
      (state.release id entry).arrivals = state.arrivals := by
  rw [State.release]
  split <;> exact ⟨rfl, rfl, rfl⟩

theorem retain_frame (state : State) (id : String) :
    (state.retain id).1.arrival = state.arrival ∧
      (state.retain id).1.arrivals = state.arrivals := by
  rw [State.retain]
  split <;> exact ⟨rfl, rfl⟩

variable (sound : Sound state queues)

include sound in
/-- A section that changes no view and no entry. -/
theorem Sound.relabel (views : ∀ handle, next.view handle = state.view handle)
    (coherent : ∀ number lock, next.locks number = some lock → lock.Coherent)
    (entries : next.entries = state.entries) (states : next.states = state.states)
    (allocated : next.allocated = state.allocated) (arrival : next.arrival = state.arrival)
    (arrivals : next.arrivals = state.arrivals) : Sound next queues where
  entries := by
    rw [entries]
    exact sound.entries
  views := by
    intro handle view present
    rw [allocated, states]
    exact sound.views handle view (views handle ▸ present)
  coherent := coherent
  known := by
    intro entry handle mentions
    rw [views]
    exact sound.known entry handle mentions
  mapped := by
    rw [allocated, states]
    exact sound.mapped
  injective := by
    rw [states]
    exact sound.injective
  ordered := by
    rw [arrival]
    exact sound.ordered
  arrived := by
    rw [arrival, arrivals]
    exact sound.arrived

variable {lock : Nat} {value : Lock}

variable (known : state.locks lock = some value)

include sound known in
/-- A waiter that was granted the lock returns from `Lock`. -/
theorem Sound.granted (waiting : value.call = .waiting) (granted : value.granted = true) :
    Sound (state.setLock lock { value with call := .returned true }) queues := by
  have coherent := sound.coherent lock value known
  simp only [Lock.Coherent, waiting, granted] at coherent
  refine sound.relabel ?_ (coherent_setLock sound.coherent (by simpa [Lock.Coherent] using coherent))
    rfl rfl rfl rfl rfl
  intro handle
  rw [view_setLock]
  split
  · rename_i same
    rw [same, view_of_lock known]
    simp [Lock.view, waiting]
  · rfl

include sound in
/-- A handle takes a lock that nobody keeps. -/
theorem Sound.take {handle : Handle} {before : View} {entry : Entry}
    (present : state.view handle = some before)
    (free : (state.entries before.entry).held = false)
    (views : ∀ other, next.view other =
      if other = handle then some { before with keeps := true } else state.view other)
    (coherent : ∀ number lock, next.locks number = some lock → lock.Coherent)
    (entries : next.entries = update state.entries before.entry entry)
    (held : entry.held = true) (owner : entry.owner = handle.number?)
    (links : entry.queue = (state.entries before.entry).queue)
    (refs : entry.refs = (state.entries before.entry).refs)
    (states : next.states = state.states) (allocated : next.allocated = state.allocated)
    (arrival : next.arrival = state.arrival) (arrivals : next.arrivals = state.arrivals) :
    ∃ queues', Sound next queues' := by
  obtain ⟨agrees, bound, -⟩ := sound.views handle before present
  have spelled := sound.entries before.entry
  have unkept : (queues before.entry).keeper = none := by
    rw [spelled.held] at free
    exact Option.isSome_eq_false_iff.1 free |> Option.isNone_iff_eq_none.1
  have turns : Turns state next queues before.entry
      { queues before.entry with keeper := some handle } (· = handle) := {
    untouched := fun other different => by rw [views, if_neg different]
    same := fun other different => ⟨by simp [unkept, Ne.symm different], Iff.rfl, Iff.rfl⟩
    rewritten := by
      rintro other rfl
      exact ⟨before, { before with keeps := true }, present, by rw [views, if_pos rfl], rfl, rfl,
        rfl, rfl, by simp, agrees.queued, agrees.counted⟩
    holders := rfl
    waiters := List.Sublist.refl _
    others := fun other different => by rw [entries, update_of_ne different]
    spells := by
      rw [entries, update_self]
      refine ⟨held, owner, ?_, ?_, by simp⟩
      · rw [links]
        exact spelled.links
      · rw [refs]
        exact spelled.refs
    coherent := coherent
    states := states
    allocated := allocated
    arrival := arrival
    arrivals := arrivals
    bound := bound }
  exact sound.turn turns

include sound known in
/-- A fresh lock joins the queue of a held entry. -/
theorem Sound.wait (fresh : value.call = .fresh) (held : (state.entries value.entry).held = true) :
    ∃ queues', Sound (((state.setEntry value.entry { state.entries value.entry with
        queue := (state.entries value.entry).queue.enqueue lock }).setLock lock
          { value with queued := true, call := .waiting }).arrive lock) queues' := by
  obtain ⟨agrees, bound, mapped⟩ := sound.views _ _ (view_of_lock known)
  have spelled := sound.entries value.entry
  have coherent := sound.coherent lock value known
  simp only [Lock.Coherent, fresh] at coherent
  obtain ⟨unacquired, unqueued, ungranted, unlock⟩ := coherent
  have absent : lock ∉ (queues value.entry).waiters := by
    intro waits
    have queued : value.queued = true := agrees.queued.2 ⟨lock, waits, rfl⟩
    rw [unqueued] at queued
    cases queued
  have earlier : ∀ number ∈ (queues value.entry).waiters,
      update state.arrival lock state.arrivals number = state.arrival number := by
    intro number member
    have different : number ≠ lock := fun same => absent (same ▸ member)
    exact update_of_ne different _ _
  have change : Section state (((state.setEntry value.entry { state.entries value.entry with
        queue := (state.entries value.entry).queue.enqueue lock }).setLock lock
          { value with queued := true, call := .waiting }).arrive lock) queues value.entry
      { queues value.entry with waiters := (queues value.entry).waiters ++ [lock] }
      (· = .lock lock) := {
    untouched := by
      intro other different
      refine ⟨by rw [view_arrive, view_setLock, if_neg different, view_setEntry], ?_⟩
      cases other with
      | lock number =>
        exact update_of_ne (fun same => different (by rw [same])) _ _
      | attempt number => trivial
    same := by
      intro other different
      refine ⟨Iff.rfl, ?_, Iff.rfl⟩
      constructor
      · rintro ⟨number, member, rfl⟩
        rcases List.mem_append.1 member with old | new
        · exact ⟨number, old, rfl⟩
        · exact absurd (by rw [List.mem_singleton.1 new]) different
      · rintro ⟨number, member, rfl⟩
        exact ⟨number, List.mem_append_left _ member, rfl⟩
    inside := by
      rintro other view rfl present
      rw [view_of_lock known, Option.some.injEq] at present
      rw [← present]
      rfl
    rewritten := by
      rintro other rfl
      refine ⟨Lock.view { value with queued := true, call := .waiting }, by
        rw [view_arrive, view_setLock, if_pos rfl], rfl, ⟨agrees.keeps, ?_, ?_⟩, fun counted => ?_⟩
      · exact iff_of_true rfl ⟨lock, by simp, rfl⟩
      · refine Iff.trans ?_ agrees.counted
        simp [Lock.view, fresh]
      · exact mapped (by simp [Lock.view, fresh, unlock])
    others := fun other different => update_of_ne different _ _
    spells := by
      simp only [State.arrive, State.setLock, State.setEntry, update_self]
      refine ⟨spelled.held, spelled.owner, spelled.links.enqueue absent, spelled.refs, ?_⟩
      intro _ unkept
      rw [spelled.held, unkept] at held
      cases held
    coherent := by
      refine coherent_setLock sound.coherent ?_
      exact .inl ⟨ungranted, unacquired, rfl, unlock⟩
    stable := fun _ _ _ _ _ => rfl
    allocated := Nat.le_refl _
    bound := bound
    mapped := by
      intro id other found
      obtain ⟨inside, nonempty⟩ := sound.mapped id other found
      refine ⟨inside, ?_⟩
      by_cases here : other = value.entry
      · subst here
        simpa using nonempty
      · rwa [update_of_ne here]
    injective := sound.injective
    ordered := by
      rw [List.pairwise_append]
      refine ⟨?_, List.pairwise_singleton _ _, ?_⟩
      · refine (sound.ordered value.entry).imp_of_mem ?_
        intro one other first second before
        change update state.arrival lock state.arrivals one <
          update state.arrival lock state.arrivals other
        rw [earlier one first, earlier other second]
        exact before
      · intro one member other last
        change update state.arrival lock state.arrivals one <
          update state.arrival lock state.arrivals other
        rw [List.mem_singleton.1 last, earlier one member, update_self]
        exact sound.arrived value.entry one member
    arrived := by
      intro number member
      change update state.arrival lock state.arrivals number < state.arrivals + 1
      rcases List.mem_append.1 member with old | new
      · rw [earlier number old]
        exact (sound.arrived value.entry number old).trans (Nat.lt_succ_self _)
      · rw [List.mem_singleton.1 new, update_self]
        exact Nat.lt_succ_self _
    arrivals := Nat.le_succ _ }
  exact ⟨_, sound.frame change⟩

include sound known in
/-- A waiter whose context ended before it was granted the lock leaves the queue. -/
theorem Sound.giveUp (waiting : value.call = .waiting) (pending : value.granted = false) :
    ∃ queues', Sound ((state.setEntry value.entry { state.entries value.entry with
        queue := if value.queued then (state.entries value.entry).queue.remove lock
          else (state.entries value.entry).queue }).setLock lock
      { value with queued := false, call := .leaving }) queues' := by
  obtain ⟨agrees, bound, mapped⟩ := sound.views _ _ (view_of_lock known)
  have spelled := sound.entries value.entry
  have coherent := sound.coherent lock value known
  simp only [Lock.Coherent, waiting, pending] at coherent
  obtain ⟨unacquired, queued, unlock⟩ : value.acquired = false ∧ value.queued = true ∧
      value.unlock = .never := by simpa using coherent
  obtain ⟨number, member, same⟩ := agrees.queued.1 queued
  cases same
  change lock ∈ (queues value.entry).waiters at member
  obtain ⟨front, back, shape⟩ := List.append_of_mem member
  have links := spelled.links
  rw [shape] at links
  have left : ∀ number, number ∈ front ++ back ↔ number ∈ (queues value.entry).waiters ∧ number ≠ lock := by
    have distinct := links.distinct
    intro number
    rw [shape]
    grind
  have turns : Turns state ((state.setEntry value.entry { state.entries value.entry with
        queue := if value.queued then (state.entries value.entry).queue.remove lock
          else (state.entries value.entry).queue }).setLock lock
      { value with queued := false, call := .leaving }) queues value.entry
      { queues value.entry with waiters := front ++ back } (· = .lock lock) := {
    untouched := fun other different => by rw [view_setLock, if_neg different, view_setEntry]
    same := by
      intro other different
      refine ⟨Iff.rfl, ?_, Iff.rfl⟩
      constructor
      · rintro ⟨number, inside, rfl⟩
        exact ⟨number, ((left number).1 inside).1, rfl⟩
      · rintro ⟨number, inside, rfl⟩
        exact ⟨number, (left number).2 ⟨inside, fun same => different (by rw [same])⟩, rfl⟩
    rewritten := by
      rintro other rfl
      refine ⟨value.view, Lock.view { value with queued := false, call := .leaving },
        view_of_lock known, by rw [view_setLock, if_pos rfl], rfl, rfl, rfl, ?_, agrees.keeps, ?_, ?_⟩
      · simp [Lock.view, waiting]
      · refine iff_of_false (by simp [Lock.view]) ?_
        rintro ⟨number, inside, same⟩
        exact ((left number).1 inside).2 (Handle.lock.inj same).symm
      · refine Iff.trans ?_ agrees.counted
        simp [Lock.view, waiting]
    holders := rfl
    waiters := by
      rw [shape]
      exact List.Sublist.append_left (List.sublist_cons_self lock back) front
    others := fun other different => update_of_ne different _ _
    spells := by
      simp only [State.setLock, State.setEntry, update_self, queued]
      refine ⟨spelled.held, spelled.owner, links.remove, spelled.refs, fun _ => ?_⟩
      exact spelled.served (by simp [shape])
    coherent := coherent_setLock sound.coherent ⟨unacquired, rfl, unlock⟩
    states := rfl
    allocated := rfl
    arrival := rfl
    arrivals := rfl
    bound := bound }
  exact sound.turn turns

include sound known in
/-- A handle drops its reference through `release`. -/
theorem Sound.drop_lock {after : Lock} (counted : value.view.counted = true)
    (acquired : value.acquired = false) (queued : value.queued = false)
    (view : after.view = { value.view with counted := false }) (coherent : after.Coherent) :
    ∃ queues', Sound ((state.release value.id value.entry).setLock lock after) queues' := by
  obtain ⟨allocated, arrival, arrivals⟩ := release_frame state value.id value.entry
  have releases : Releases state ((state.release value.id value.entry).setLock lock after)
      (.lock lock) value.view := {
    present := view_of_lock known
    counted := counted
    idle := acquired
    unqueued := queued
    views := fun other => by rw [view_setLock, view_release, view]
    entries := rfl
    states := rfl
    allocated := allocated
    arrival := arrival
    arrivals := arrivals
    coherent := coherent_setLock (by rw [release_locks]; exact sound.coherent) coherent }
  exact sound.release releases

include sound in
theorem Sound.drop_attempt {attempt : Nat} {value after : Attempt}
    (known : state.attempts attempt = some value) (counted : value.view.counted = true)
    (idle : value.view.keeps = false) (view : after.view = { value.view with counted := false }) :
    ∃ queues', Sound ((state.release value.id value.entry).setAttempt attempt after) queues' := by
  obtain ⟨allocated, arrival, arrivals⟩ := release_frame state value.id value.entry
  have releases : Releases state ((state.release value.id value.entry).setAttempt attempt after)
      (.attempt attempt) value.view := {
    present := view_of_attempt known
    counted := counted
    idle := idle
    unqueued := rfl
    views := fun other => by rw [view_setAttempt, view_release, view]
    entries := rfl
    states := rfl
    allocated := allocated
    arrival := arrival
    arrivals := arrivals
    coherent := by
      intro number lock present
      change (state.release value.id value.entry).locks number = some lock at present
      rw [release_locks] at present
      exact sound.coherent number lock present }
  exact sound.release releases

include sound in
/-- Every critical section keeps the locker sound. -/
theorem Sound.step {event : Event} (step : Step state event next) :
    ∃ queues', Sound next queues' := by
  cases step with
  | @newLock lock free id =>
    obtain ⟨arrival, arrivals⟩ := retain_frame state id
    have retains : Retains state ((state.retain id).1.setLock lock
        { id := id, entry := (state.retain id).2 }) id (.lock lock) := {
      absent := by simp [State.view, free]
      views := fun other => by rw [view_setLock, view_retain]; rfl
      entries := rfl
      states := rfl
      allocated := rfl
      arrival := arrival
      arrivals := arrivals
      coherent := coherent_setLock (by rw [retain_locks]; exact sound.coherent)
        ⟨rfl, rfl, rfl, rfl⟩ }
    exact sound.retain retains
  | @lockFree lock value known fresh free =>
    have coherent := sound.coherent lock value known
    simp only [Lock.Coherent, fresh] at coherent
    refine sound.take (view_of_lock known) free ?_ ?_ rfl rfl rfl rfl rfl rfl rfl rfl rfl
    · intro other
      rw [view_setLock, view_setEntry]
      simp [Lock.view, fresh]
    · exact coherent_setLock sound.coherent ⟨coherent.2.1, by simp [coherent.2.2.2]⟩
  | lockWait known fresh held => exact sound.wait known fresh held
  | @ready _ _ known waiting granted | @expiredGranted _ _ known waiting granted =>
    refine ⟨queues, sound.granted known waiting granted⟩
  | expired known waiting pending => exact sound.giveUp known waiting pending
  | @leave lock value known leaving =>
    have coherent := sound.coherent lock value known
    simp only [Lock.Coherent, leaving] at coherent
    obtain ⟨acquired, queued, unlock⟩ := coherent
    exact sound.drop_lock known (by simp [Lock.view, leaving, unlock]) acquired queued
      (by simp [Lock.view]) ⟨acquired, queued, unlock⟩
  | unlockNothing known idle => exact ⟨queues, sound⟩
  | @unlock lock value after known acquired left =>
    have agrees := (sound.views _ _ (view_of_lock known)).1
    have hands := sound.hands (agrees.keeps.1 acquired)
    rw [show value.view.entry = value.entry from rfl] at hands
    rw [hands.locks, if_pos rfl, known, Option.map_some, Option.some.injEq] at left
    obtain ⟨unlock, -, returned, coherent⟩ := (sound.coherent lock value known).of_acquired acquired
    refine sound.hand (view_of_lock known) acquired ?_ ?_ rfl rfl rfl rfl rfl
    · intro handle
      rw [view_setLock, ← left]
      simp [Lock.view, unlock, returned]
    · refine coherent_setLock_of_ne ?_ (by rw [← left]; exact coherent)
      intro other found different present
      exact hands.coherent sound other found (by simpa using Ne.symm different) present
  | @unlocked lock value known releasing =>
    obtain ⟨acquired, queued, returned, coherent⟩ :=
      (sound.coherent lock value known).of_unlocked (by simp [releasing])
    exact sound.drop_lock known (by simp [Lock.view, releasing, returned]) acquired queued
      (by simp [Lock.view]) coherent
  | @maintain attempt free id =>
    obtain ⟨arrival, arrivals⟩ := retain_frame state id
    have retains : Retains state ((state.retain id).1.setAttempt attempt
        { id := id, entry := (state.retain id).2 }) id (.attempt attempt) := {
      absent := by simp [State.view, free]
      views := fun other => by rw [view_setAttempt, view_retain]; rfl
      entries := rfl
      states := rfl
      allocated := rfl
      arrival := arrival
      arrivals := arrivals
      coherent := by
        intro number lock present
        change (state.retain id).1.locks number = some lock at present
        rw [retain_locks] at present
        exact sound.coherent number lock present }
    exact sound.retain retains
  | @maintainBusy attempt value known retained held =>
    refine ⟨queues, sound.relabel ?_ sound.coherent rfl rfl rfl rfl rfl⟩
    intro handle
    rw [view_setAttempt]
    split
    · rename_i same
      rw [same, view_of_attempt known]
      simp [view, retained]
    · rfl
  | @maintainRefused _ _ known busy | @maintainDone _ _ known busy =>
    exact sound.drop_attempt known (by simp [view, busy]) (by simp [view, busy])
      (by simp [view, busy])
  | @maintainHeld attempt value known retained free =>
    refine sound.take (view_of_attempt known) free ?_ sound.coherent rfl rfl ?_ rfl rfl rfl rfl rfl
      rfl
    · intro other
      rw [view_setAttempt, view_setEntry]
      simp [view, retained]
    · have spelled := sound.entries value.entry
      rw [spelled.held] at free
      have unkept := Option.isNone_iff_eq_none.1 (Option.isSome_eq_false_iff.1 free)
      change (state.entries value.entry).owner = none
      rw [spelled.owner, unkept]
      rfl
  | @maintainUnlock attempt value known holding =>
    have agrees := (sound.views _ _ (view_of_attempt known)).1
    have keeps : value.view.keeps = true := by simp [view, holding]
    have hands := sound.hands (agrees.keeps.1 keeps)
    refine sound.hand (view_of_attempt known) keeps ?_ ?_ rfl rfl rfl rfl rfl
    · intro handle
      rw [view_setAttempt]
      simp [view, holding]
    · intro number lock present
      exact hands.coherent sound number lock (by simp) present

end Golusoris.Tus
