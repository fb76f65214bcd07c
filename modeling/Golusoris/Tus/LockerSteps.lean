import Golusoris.Tus.LockerState

/-!
# The critical sections keep the locker sound

Sections come in three kinds: they take a reference, drop one, or change only
the queue of an entry and the flags of its handles.
-/

namespace Golusoris.Tus

open Function (update update_of_ne update_self)
open Lib
open State

variable {state next : State} {queues : Nat → Queue}

@[simp]
theorem view_setEntry (state : State) (entry : Nat) (value : Entry) (handle : Handle) :
    (state.setEntry entry value).view handle = state.view handle := by
  cases handle <;> rfl

@[simp]
theorem view_arrive (state : State) (lock : Nat) (handle : Handle) :
    (state.arrive lock).view handle = state.view handle := by
  cases handle <;> rfl

theorem view_setLock (state : State) (number : Nat) (value : Lock) (handle : Handle) :
    (state.setLock number value).view handle =
      if handle = .lock number then some value.view else state.view handle := by
  cases handle with
  | lock other =>
    by_cases same : other = number
    · simp [view, setLock, same]
    · simp [view, setLock, same]
  | attempt other => simp [view, setLock]

theorem view_setAttempt (state : State) (number : Nat) (value : Attempt) (handle : Handle) :
    (state.setAttempt number value).view handle =
      if handle = .attempt number then some value.view else state.view handle := by
  cases handle with
  | lock other => simp [view, setAttempt]
  | attempt other =>
    by_cases same : other = number
    · simp [view, setAttempt, same]
    · simp [view, setAttempt, same]

@[simp]
theorem view_retain (state : State) (id : String) (handle : Handle) :
    (state.retain id).1.view handle = state.view handle := by
  rw [retain]
  split <;> cases handle <;> rfl

@[simp]
theorem view_release (state : State) (id : String) (entry : Nat) (handle : Handle) :
    (state.release id entry).view handle = state.view handle := by
  rw [release]
  split <;> cases handle <;> rfl

variable {number entry : Nat}

theorem view_of_lock {lock : Lock} (known : state.locks number = some lock) :
    state.view (.lock number) = some lock.view := by
  simp [view, known]

theorem view_of_attempt {attempt : Attempt} (known : state.attempts number = some attempt) :
    state.view (.attempt number) = some attempt.view := by
  simp [view, known]

theorem coherent_setLock_of_ne {value : Lock}
    (coherent : ∀ other lock, other ≠ number → state.locks other = some lock → lock.Coherent)
    (own : value.Coherent) :
    ∀ other lock, (state.setLock number value).locks other = some lock → lock.Coherent := by
  intro other lock present
  by_cases same : other = number
  · subst same
    have here : value = lock := by simpa [setLock] using present
    exact here ▸ own
  · exact coherent other lock same (by simpa [setLock, same] using present)

theorem coherent_setLock {value : Lock}
    (coherent : ∀ number lock, state.locks number = some lock → lock.Coherent)
    (own : value.Coherent) :
    ∀ other lock, (state.setLock number value).locks other = some lock → lock.Coherent :=
  coherent_setLock_of_ne (fun other lock _ => coherent other lock) own

/-- What `retain` and the new handle that it is for leave behind. -/
structure Retains (state next : State) (id : String) (handle : Handle) : Prop where
  absent : state.view handle = none
  views : ∀ other, next.view other =
    if other = handle then some ⟨id, (state.retain id).2, false, false, true⟩
    else state.view other
  entries : next.entries = (state.retain id).1.entries
  states : next.states = (state.retain id).1.states
  allocated : next.allocated = (state.retain id).1.allocated
  arrival : next.arrival = state.arrival
  arrivals : next.arrivals = state.arrivals
  coherent : ∀ number lock, next.locks number = some lock → lock.Coherent

variable {handle : Handle}

variable (sound : Sound state queues)

include sound in
/-- A handle that does not exist is mentioned nowhere. -/
theorem Sound.not_mentions (absent : state.view handle = none) (entry : Nat) :
    ¬(queues entry).Mentions handle := by
  intro mentions
  obtain ⟨view, present, -⟩ := sound.known entry handle mentions
  rw [absent] at present
  cases present

include sound in
/-- Entries that were not allocated stand for empty queues. -/
theorem Sound.unallocated (beyond : state.allocated ≤ entry) (handle : Handle) :
    ¬(queues entry).Mentions handle := by
  intro mentions
  obtain ⟨view, present, place⟩ := sound.known entry handle mentions
  have bound := (sound.views handle view present).2.1
  omega

theorem Queue.eq_empty {queue : Queue} (unmentioned : ∀ handle, ¬queue.Mentions handle) :
    queue = {} := by
  obtain ⟨keeper, waiters, holders⟩ := queue
  have unkept : keeper = none := by
    cases keeper with
    | none => rfl
    | some handle => exact absurd (.inl rfl) (unmentioned handle)
  have idle : waiters = [] := by
    cases waiters with
    | nil => rfl
    | cons number rest =>
      exact absurd (.inr (.inl ⟨number, List.mem_cons_self, rfl⟩)) (unmentioned (.lock number))
  have unheld : holders = ∅ :=
    Finset.eq_empty_of_forall_notMem fun handle member => unmentioned handle (.inr (.inr member))
  rw [unkept, idle, unheld]

/-- `retain` gives the entry of the id, which nobody else's id leads to. -/
structure Taken (state : State) (queues : Nat → Queue) (id : String) : Prop where
  bound : (state.retain id).2 < (state.retain id).1.allocated
  grows : state.allocated ≤ (state.retain id).1.allocated
  others : ∀ other, other ≠ (state.retain id).2 →
    (state.retain id).1.entries other = state.entries other
  spells : ∀ handle, handle ∉ (queues (state.retain id).2).holders →
    ((state.retain id).1.entries (state.retain id).2).Spells
      { queues (state.retain id).2 with
        holders := insert handle (queues (state.retain id).2).holders }
  here : (state.retain id).1.states id = some (state.retain id).2
  elsewhere : ∀ other, other ≠ id → (state.retain id).1.states other = state.states other
  kept : ∀ entry, state.states id = some entry → entry = (state.retain id).2
  alone : ∀ other, state.states other = some (state.retain id).2 → other = id

include sound in
theorem Sound.taken (id : String) : Taken state queues id := by
  cases found : state.states id with
  | some entry =>
    obtain ⟨bound, -⟩ := sound.mapped id entry found
    have taken : state.retain id = (state.setEntry entry
        { state.entries entry with refs := (state.entries entry).refs + 1 }, entry) := by
      rw [retain, found]
    have spelled := sound.entries entry
    refine ⟨?_, ?_, ?_, ?_, ?_, ?_, ?_, ?_⟩ <;> rw [taken]
    · exact bound
    · exact Nat.le_refl _
    · exact fun other different => update_of_ne different _ _
    · intro handle fresh
      simp only [setEntry, update_self]
      refine ⟨spelled.held, spelled.owner, spelled.links, ?_, spelled.served⟩
      rw [Finset.card_insert_of_notMem fresh, spelled.refs]
    · exact found
    · exact fun _ _ => rfl
    · intro other same
      exact (Option.some.inj (found.symm.trans same)).symm
    · exact fun other same => sound.injective other id entry same found
  | none =>
    have taken : state.retain id =
        ({ state with
            states := update state.states id (some state.allocated)
            entries := update state.entries state.allocated { refs := 1 }
            allocated := state.allocated + 1 }, state.allocated) := by
      rw [retain, found]
    have empty := Queue.eq_empty (sound.unallocated (Nat.le_refl state.allocated))
    refine ⟨?_, ?_, ?_, ?_, ?_, ?_, ?_, ?_⟩ <;> rw [taken]
    · exact Nat.lt_succ_self _
    · exact Nat.le_succ _
    · exact fun other different => update_of_ne different _ _
    · intro handle fresh
      simp only [update_self, empty]
      exact ⟨rfl, rfl, Links.represents_empty, by simp, by simp⟩
    · exact update_self _ _ _
    · exact fun other different => update_of_ne different _ _
    · intro entry same
      rw [found] at same
      cases same
    · intro other same
      have bound := (sound.mapped other _ same).1
      exact absurd bound (Nat.lt_irrefl _)

include sound in
theorem Sound.retain {id : String} (retains : Retains state next id handle) :
    ∃ queues', Sound next queues' := by
  have taken := sound.taken id
  have unmentioned := sound.not_mentions retains.absent (state.retain id).2
  have fresh : handle ∉ (queues (state.retain id).2).holders :=
    fun member => unmentioned (.inr (.inr member))
  have change : Section state next queues (state.retain id).2
      { queues (state.retain id).2 with
        holders := insert handle (queues (state.retain id).2).holders } (· = handle) := {
    untouched := by
      intro other different
      refine ⟨by rw [retains.views, if_neg different], ?_⟩
      cases other with
      | lock number => exact congrFun retains.arrival number
      | attempt number => trivial
    same := fun other different => ⟨Iff.rfl, Iff.rfl, by simp [different]⟩
    inside := by
      rintro other view rfl present
      rw [retains.absent] at present
      cases present
    rewritten := by
      rintro other rfl
      refine ⟨_, by rw [retains.views, if_pos rfl], rfl, ⟨?_, ?_, ?_⟩, fun _ => ?_⟩
      · exact iff_of_false (by simp) fun keeper => unmentioned (.inl keeper)
      · exact iff_of_false (by simp) fun waits => unmentioned (.inr (.inl waits))
      · simp
      · rw [retains.states]
        exact taken.here
    others := by
      intro other different
      rw [retains.entries]
      exact taken.others other different
    spells := by
      rw [retains.entries]
      exact taken.spells handle fresh
    coherent := retains.coherent
    stable := by
      intro other view different present counted
      have mapped := (sound.views other view present).2.2 counted
      rw [retains.states]
      by_cases same : view.id = id
      · rw [same] at mapped ⊢
        rw [taken.here, mapped, taken.kept view.entry mapped]
      · exact taken.elsewhere view.id same
    allocated := by
      rw [retains.allocated]
      exact taken.grows
    bound := by
      rw [retains.allocated]
      exact taken.bound
    mapped := by
      intro other entry found
      rw [retains.states] at found
      rw [retains.allocated]
      by_cases same : other = id
      · subst same
        rw [taken.here, Option.some.injEq] at found
        subst found
        exact ⟨taken.bound, by simp⟩
      · rw [taken.elsewhere other same] at found
        obtain ⟨bound, nonempty⟩ := sound.mapped other entry found
        refine ⟨bound.trans_le taken.grows, ?_⟩
        by_cases here : entry = (state.retain id).2
        · exact absurd (taken.alone other (here ▸ found)) same
        · rwa [update_of_ne here]
    injective := by
      intro one other entry first second
      rw [retains.states] at first second
      by_cases atOne : one = id
      · by_cases atOther : other = id
        · rw [atOne, atOther]
        · rw [atOne, taken.here, Option.some.injEq] at first
          rw [taken.elsewhere other atOther, ← first] at second
          exact absurd (taken.alone other second) atOther
      · rw [taken.elsewhere one atOne] at first
        by_cases atOther : other = id
        · rw [atOther, taken.here, Option.some.injEq] at second
          rw [← second] at first
          exact absurd (taken.alone one first) atOne
        · rw [taken.elsewhere other atOther] at second
          exact sound.injective one other entry first second
    ordered := by
      rw [retains.arrival]
      exact sound.ordered _
    arrived := by
      rw [retains.arrival, retains.arrivals]
      exact sound.arrived _
    arrivals := retains.arrivals.ge }
  exact ⟨_, sound.frame change⟩

/-- What `release` and the handle that it is for leave behind. -/
structure Releases (state next : State) (handle : Handle) (view : View) : Prop where
  present : state.view handle = some view
  counted : view.counted = true
  idle : view.keeps = false
  unqueued : view.queued = false
  views : ∀ other, next.view other =
    if other = handle then some { view with counted := false } else state.view other
  entries : next.entries = (state.release view.id view.entry).entries
  states : next.states = (state.release view.id view.entry).states
  allocated : next.allocated = state.allocated
  arrival : next.arrival = state.arrival
  arrivals : next.arrivals = state.arrivals
  coherent : ∀ number lock, next.locks number = some lock → lock.Coherent

theorem release_entries (state : State) (id : String) (entry : Nat) :
    (state.release id entry).entries = update state.entries entry
      { state.entries entry with refs := (state.entries entry).refs - 1 } := by
  rw [release]
  split <;> rfl

/-- The last reference to an entry takes the entry with it. -/
theorem release_states {id : String} (found : state.states id = some entry) :
    (state.release id entry).states =
      if (state.entries entry).refs - 1 = 0 then update state.states id none
      else state.states := by
  rw [release]
  by_cases last : (state.entries entry).refs - 1 = 0
  · rw [if_pos last, if_pos ⟨by simpa [setEntry] using last, found⟩]
    rfl
  · rw [if_neg last, if_neg fun both => last (by simpa [setEntry] using both.1)]
    rfl

include sound in
theorem Sound.release {view : View} (releases : Releases state next handle view) :
    ∃ queues', Sound next queues' := by
  obtain ⟨agrees, bound, mapped⟩ := sound.views handle view releases.present
  have found := mapped releases.counted
  have member := agrees.counted.1 releases.counted
  have spelled := sound.entries view.entry
  have left : (state.entries view.entry).refs - 1 = ((queues view.entry).holders.erase handle).card := by
    rw [Finset.card_erase_of_mem member, spelled.refs]
  have states := releases.states
  rw [release_states found, left] at states
  have kept : ∀ other entry, next.states other = some entry → state.states other = some entry := by
    intro other entry there
    rw [states] at there
    split at there
    · by_cases same : other = view.id
      · rw [same, update_self] at there
        cases there
      · rwa [update_of_ne same] at there
    · exact there
  have change : Section state next queues view.entry
      { queues view.entry with holders := (queues view.entry).holders.erase handle } (· = handle) :=
    { untouched := by
        intro other different
        refine ⟨by rw [releases.views, if_neg different], ?_⟩
        cases other with
        | lock number => exact congrFun releases.arrival number
        | attempt number => trivial
      same := fun other different => ⟨Iff.rfl, Iff.rfl, by simp [different]⟩
      inside := by
        rintro other own rfl present
        rw [releases.present, Option.some.injEq] at present
        rw [present]
      rewritten := by
        rintro other rfl
        refine ⟨{ view with counted := false }, by rw [releases.views, if_pos rfl], rfl,
          ⟨?_, ?_, ?_⟩, by simp⟩
        · exact agrees.keeps
        · exact agrees.queued
        · simp
      others := by
        intro other different
        rw [releases.entries, release_entries, update_of_ne different]
      spells := by
        rw [releases.entries, release_entries, update_self]
        exact ⟨spelled.held, spelled.owner, spelled.links, left, spelled.served⟩
      coherent := releases.coherent
      stable := by
        intro other own different present counted
        rw [states]
        split
        · rename_i last
          by_cases same : own.id = view.id
          · -- another reference to the entry is left
            have agreed := (sound.views other own present)
            have place := agreed.2.2 counted
            rw [same, found, Option.some.injEq] at place
            have inside := agreed.1.counted.1 counted
            rw [← place] at inside
            have remains := Finset.mem_erase.2 ⟨different, inside⟩
            rw [Finset.card_eq_zero] at last
            rw [last] at remains
            exact absurd remains (Finset.notMem_empty other)
          · exact update_of_ne same _ _
        · rfl
      allocated := releases.allocated.ge
      bound := by
        rw [releases.allocated]
        exact bound
      mapped := by
        intro other entry there
        have before := kept other entry there
        obtain ⟨known, nonempty⟩ := sound.mapped other entry before
        rw [releases.allocated]
        refine ⟨known, ?_⟩
        by_cases here : entry = view.entry
        · subst here
          rw [update_self]
          have same := sound.injective other view.id _ before found
          rw [states] at there
          split at there
          · rw [same, update_self] at there
            cases there
          · rename_i more
            exact Finset.card_pos.1 (Nat.pos_of_ne_zero more)
        · rwa [update_of_ne here]
      injective := fun one other entry first second =>
        sound.injective one other entry (kept one entry first) (kept other entry second)
      ordered := by
        rw [releases.arrival]
        exact sound.ordered _
      arrived := by
        rw [releases.arrival, releases.arrivals]
        exact sound.arrived _
      arrivals := releases.arrivals.ge }
  exact ⟨_, sound.frame change⟩

/-- A section that changes neither references nor the order of arrival. -/
structure Turns (state next : State) (queues : Nat → Queue) (entry : Nat) (queue : Queue)
    (touched : Handle → Prop) : Prop where
  untouched : ∀ handle, ¬touched handle → next.view handle = state.view handle
  same : ∀ handle, ¬touched handle → Queue.Same handle (queues entry) queue
  rewritten : ∀ handle, touched handle → ∃ before after, state.view handle = some before ∧
    next.view handle = some after ∧ before.entry = entry ∧ after.entry = entry ∧
      after.id = before.id ∧ after.counted = before.counted ∧ after.Agrees handle queue
  holders : queue.holders = (queues entry).holders
  waiters : queue.waiters.Sublist (queues entry).waiters
  others : ∀ other, other ≠ entry → next.entries other = state.entries other
  spells : (next.entries entry).Spells queue
  coherent : ∀ number lock, next.locks number = some lock → lock.Coherent
  states : next.states = state.states
  allocated : next.allocated = state.allocated
  arrival : next.arrival = state.arrival
  arrivals : next.arrivals = state.arrivals
  bound : entry < state.allocated

include sound in
theorem Sound.turn {queue : Queue} {touched : Handle → Prop}
    (turns : Turns state next queues entry queue touched) : ∃ queues', Sound next queues' := by
  have change : Section state next queues entry queue touched := {
    untouched := by
      intro handle different
      refine ⟨turns.untouched handle different, ?_⟩
      cases handle with
      | lock number => exact congrFun turns.arrival number
      | attempt number => trivial
    same := turns.same
    inside := by
      intro handle view touch present
      obtain ⟨before, after, known, -, place, -⟩ := turns.rewritten handle touch
      rw [present, Option.some.injEq] at known
      rw [known, place]
    rewritten := by
      intro handle touch
      obtain ⟨before, after, known, found, place, moved, same, counted, agrees⟩ :=
        turns.rewritten handle touch
      refine ⟨after, found, moved, agrees, ?_⟩
      rw [counted, same, turns.states, ← place]
      exact (sound.views handle before known).2.2
    others := turns.others
    spells := turns.spells
    coherent := turns.coherent
    stable := fun _ _ _ _ _ => by rw [turns.states]
    allocated := turns.allocated.ge
    bound := by
      rw [turns.allocated]
      exact turns.bound
    mapped := by
      intro id other found
      rw [turns.states] at found
      rw [turns.allocated]
      obtain ⟨bound, nonempty⟩ := sound.mapped id other found
      refine ⟨bound, ?_⟩
      by_cases here : other = entry
      · subst here
        rw [update_self, turns.holders]
        exact nonempty
      · rwa [update_of_ne here]
    injective := by
      rw [turns.states]
      exact sound.injective
    ordered := by
      rw [turns.arrival]
      exact (sound.ordered entry).sublist turns.waiters
    arrived := by
      intro number member
      rw [turns.arrival, turns.arrivals]
      exact sound.arrived entry number (turns.waiters.subset member)
    arrivals := turns.arrivals.ge }
  exact ⟨_, sound.frame change⟩

end Golusoris.Tus
