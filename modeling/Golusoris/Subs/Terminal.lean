import Golusoris.Subs.Service

/-!
# When canceled is terminal

A method decides on the copy that it fetched, so what it stores is canceled
exactly when that copy was, or when the method is an immediate cancellation.
Nothing compares the copy with the version that is overwritten. A canceled
subscription therefore stays canceled exactly as long as no call overwrites a
canceled version from a copy that was taken before the cancellation.
-/

namespace Golusoris.Subs

open List
open Lib

variable {periodLength now : Time} {sub next : Subscription} {call : Call}

/-- A simple status swap neither leaves nor enters `canceled`. -/
theorem transition_canceled {target : Status} {verb : String} {valid : List Status}
    {mutate : Subscription → Subscription}
    (decided : transition target verb valid mutate now sub = .ok (some next))
    (open_target : target ≠ .canceled) (open_valid : Status.canceled ∉ valid)
    (keeps : ∀ sub, (mutate sub).status = sub.status) :
    sub.status ≠ .canceled ∧ next.status ≠ .canceled := by
  unfold transition at decided
  by_cases same : sub.status = target
  · simp [same] at decided
  rw [if_neg same] at decided
  by_cases allowed : sub.status ∉ valid
  · simp [allowed] at decided
  rw [if_neg allowed] at decided
  have written := Option.some.inj (Except.ok.inj decided)
  refine ⟨fun canceled => allowed (canceled ▸ open_valid), ?_⟩
  rw [← written, keeps]
  exact open_target

/-- What a call writes is canceled exactly when its copy is, or when it cancels
at once. -/
theorem respond_canceled_iff (decided : respond periodLength now sub call = .ok (some next)) :
    next.status = .canceled ↔ sub.status = .canceled ∨ call.immediate now = true := by
  cases call with
  | activate _ | pause _ | unpause _ | markPastDue _ =>
    rw [respond] at decided
    have swapped := transition_canceled decided (by decide) (by decide) (fun _ => rfl)
    simp [swapped, Call.immediate]
  | cancel id effective =>
    by_cases canceled : sub.status = .canceled
    · simp [respond, canceled] at decided
    simp only [respond, if_neg canceled] at decided
    by_cases immediate : Call.immediate now (.cancel id effective) = true
    · rw [if_pos immediate] at decided
      simp [← Option.some.inj (Except.ok.inj decided), immediate]
    · rw [if_neg immediate] at decided
      simp [← Option.some.inj (Except.ok.inj decided), immediate]
  | resume id =>
    by_cases canceled : sub.status = .canceled
    · simp [respond, canceled] at decided
    by_cases scheduled : sub.cancelAt = none
    · simp [respond, canceled, scheduled] at decided
    simp only [respond, if_neg canceled, if_neg scheduled] at decided
    simp [← Option.some.inj (Except.ok.inj decided), Call.immediate]
  | renew id =>
    simp only [respond] at decided
    by_cases refused : sub.status ≠ .active ∧ sub.status ≠ .trialing
    · simp [refused] at decided
    rw [if_neg refused] at decided
    have open_copy : sub.status ≠ .canceled := fun canceled => refused (by simp [canceled])
    split at decided
    · simp [← Option.some.inj (Except.ok.inj decided), open_copy, Call.immediate]
    · simp [← Option.some.inj (Except.ok.inj decided), Call.immediate]
  | changePlan id newPlan newSeats =>
    simp only [respond] at decided
    simp [← Option.some.inj (Except.ok.inj decided), Call.immediate]

/-- A new subscription is trialing or incomplete. -/
theorem start_open {id : String} {params : StartParams}
    (created : start periodLength id now params = .ok sub) : sub.status ≠ .canceled := by
  unfold start at created
  split at created
  · cases created
  · rw [← Except.ok.inj created]
    dsimp only
    split <;> decide

/-- The versions that a run stored, first to last. -/
def versions (events : List Event) : List Subscription :=
  events.filterMap fun event => event.map fun stored => stored.change.subscription

/-- No canceled version is followed by one of the same subscription with another status. -/
def Terminal (events : List Event) : Prop :=
  (versions events).Pairwise fun earlier later =>
    earlier.id = later.id → earlier.status = .canceled → later.status = .canceled

def Canceled (version : Option Subscription) : Prop :=
  ∃ sub, version = some sub ∧ sub.status = .canceled

/-- A write that replaces a canceled version was made from a canceled copy, or
cancels at once. -/
def Stored.Unraced (stored : Stored) : Prop :=
  Canceled stored.prior → Canceled stored.base ∨ stored.immediate = true

/-- A pending write is canceled when its copy is or when it cancels at once. -/
def Work.Faithful : Work → Prop
  | .write base immediate sub _ => sub.status = .canceled ↔ Canceled base ∨ immediate = true
  | _ => True

/-- The store has the last version of each subscription, and pending writes are
faithful to their copies. -/
structure Tracked (history : List Event) (state : State) : Prop where
  latest : ∀ id, state.store.lookup id =
    ((versions history).filter fun version => version.id = id).getLast?
  faithful : ∀ thread held, state.threads thread = some held → held.work.Faithful

@[simp]
theorem versions_silent (events : List Event) : versions (events ++ [none]) = versions events := by
  simp [versions]

@[simp]
theorem versions_stored (events : List Event) (stored : Stored) :
    versions (events ++ [some stored]) = versions events ++ [stored.change.subscription] := by
  simp [versions]

theorem Decides.faithful {found : Option Subscription} {work : Work}
    (decides : Decides periodLength now call found work) : work.Faithful := by
  cases decides with
  | missing | refuse _ | skip _ => trivial
  | write decided =>
    rw [Work.Faithful, respond_canceled_iff decided]
    simp [Canceled]

variable {state : State}

theorem State.become_faithful {thread : Nat} {next : Thread}
    (faithful : ∀ other held, state.threads other = some held → held.work.Faithful)
    (fresh : next.work.Faithful) :
    ∀ other held, (state.become thread next).threads other = some held → held.work.Faithful := by
  intro other held present
  by_cases same : other = thread
  · subst same
    have here : next = held := by simpa [State.become] using present
    exact here ▸ fresh
  · exact faithful other held (by simpa [State.become, Function.update_of_ne same] using present)

/-- What a step stores, if anything, and that pending writes stay faithful. -/
theorem Step.effect {before after : State} {event : Event}
    (faithful : ∀ thread held, before.threads thread = some held → held.work.Faithful)
    (step : Step periodLength before event after) :
    (∀ thread held, after.threads thread = some held → held.work.Faithful) ∧
      ((event = none ∧ after.store = before.store) ∨
        ∃ stored : Stored, event = some stored ∧
          stored.prior = before.store.lookup stored.change.subscription.id ∧
          (stored.change.subscription.status = .canceled ↔
            Canceled stored.base ∨ stored.immediate = true) ∧
          after.store =
            before.store.insert stored.change.subscription.id stored.change.subscription) := by
  cases step with
  | call _ _ | processDue _ _ _ | getFails _ | upsertFails _ | skip _ =>
    exact ⟨State.become_faithful faithful trivial, .inl ⟨rfl, rfl⟩⟩
  | start free created =>
    refine ⟨State.become_faithful faithful ?_, .inl ⟨rfl, rfl⟩⟩
    simp [Work.Faithful, start_open created, Canceled]
  | fetch held decides =>
    exact ⟨State.become_faithful faithful decides.faithful, .inl ⟨rfl, rfl⟩⟩
  | upsert held =>
    refine ⟨State.become_faithful faithful trivial, .inr ⟨_, rfl, rfl, ?_, rfl⟩⟩
    exact faithful _ _ held
  | @scan thread now id ids held work due clean =>
    refine ⟨State.become_faithful faithful ?_, .inl ⟨rfl, rfl⟩⟩
    by_cases found : ∃ sub, before.store.lookup id = some sub ∧ Due now sub
    · obtain ⟨sub, present, isDue⟩ := found
      simp [due sub present isDue, Work.Faithful]
    · simp [clean found, Work.Faithful]

variable {history : List Event}

theorem Tracked.step {before after : State} {event : Event} (tracked : Tracked history before)
    (step : Step periodLength before event after) : Tracked (history ++ [event]) after := by
  obtain ⟨faithful, ⟨rfl, same⟩ | ⟨stored, rfl, -, -, written⟩⟩ := step.effect tracked.faithful
  · refine ⟨fun id => ?_, faithful⟩
    rw [same, versions_silent, tracked.latest]
  · refine ⟨fun id => ?_, faithful⟩
    rw [written, versions_stored, filter_append]
    by_cases same : stored.change.subscription.id = id
    · subst same
      simp
    · rw [Finmap.lookup_insert_of_ne _ (Ne.symm same), tracked.latest]
      simp [same]

/-- A canceled subscription that was never left has a canceled version in the store. -/
theorem Terminal.canceled_iff (terminal : Terminal history) (tracked : Tracked history state)
    (id : String) :
    (∃ version ∈ versions history, version.id = id ∧ version.status = .canceled) ↔
      Canceled (state.store.lookup id) := by
  have ordered := terminal.filter fun version => decide (version.id = id)
  rw [tracked.latest]
  constructor
  · rintro ⟨version, stored, named, canceled⟩
    have member : version ∈ (versions history).filter fun version => decide (version.id = id) :=
      mem_filter.2 ⟨stored, by simpa using named⟩
    obtain ⟨earlier, last, shape⟩ := eq_nil_or_concat' _ |>.resolve_left
      (ne_nil_of_mem member)
    rw [shape] at ordered member
    refine ⟨last, by simp [shape], ?_⟩
    rcases mem_append.1 member with before | final
    · have lastNamed : last.id = id := by
        have inside : last ∈ (versions history).filter fun version => decide (version.id = id) := by
          simp [shape]
        simpa using (mem_filter.1 inside).2
      exact (pairwise_append.1 ordered).2.2 version before last (by simp)
        (named.trans lastNamed.symm) canceled
    · rw [← mem_singleton.1 final]
      exact canceled
  · rintro ⟨version, latest, canceled⟩
    have member := mem_of_getLast? latest
    obtain ⟨stored, named⟩ := mem_filter.1 member
    exact ⟨version, stored, by simpa using named, canceled⟩

/-- One more stored version keeps a history terminal exactly when it is not raced. -/
theorem Terminal.snoc_iff {stored : Stored}
    (terminal : Terminal history) (tracked : Tracked history state)
    (prior : stored.prior = state.store.lookup stored.change.subscription.id)
    (faithful : stored.change.subscription.status = .canceled ↔
      Canceled stored.base ∨ stored.immediate = true) :
    Terminal (history ++ [some stored]) ↔ stored.Unraced := by
  rw [Stored.Unraced, ← faithful, prior, ← terminal.canceled_iff tracked]
  rw [Terminal, versions_stored, pairwise_append]
  constructor
  · rintro ⟨-, -, across⟩ ⟨version, earlier, named, canceled⟩
    exact across version earlier _ (by simp) named canceled
  · intro keeps
    refine ⟨terminal, pairwise_singleton _ _, ?_⟩
    intro version earlier later last named canceled
    rw [mem_singleton.1 last] at named ⊢
    exact keeps ⟨version, earlier, named, canceled⟩

/-- Canceled is terminal in a run exactly when no call of it overwrites a
canceled version from a copy that is not canceled, immediate cancellations apart. -/
theorem canceled_terminal_iff {events : List Event} {finish : State}
    (run : (machine periodLength).Run events finish) :
    Terminal events ↔ ∀ stored, some stored ∈ events → stored.Unraced := by
  have both : Tracked events finish ∧
      (Terminal events ↔ ∀ stored, some stored ∈ events → stored.Unraced) := by
    refine run.history_invariant (fun history state => Tracked history state ∧
      (Terminal history ↔ ∀ stored, some stored ∈ history → stored.Unraced)) ?_ ?_
    · rintro state ⟨empty, free⟩
      refine ⟨⟨by simp [empty, versions], by simp [free]⟩, by simp [Terminal, versions]⟩
    · rintro history before event after ⟨tracked, equivalent⟩ step
      refine ⟨tracked.step step, ?_⟩
      obtain ⟨-, ⟨rfl, -⟩ | ⟨stored, rfl, prior, faithful, -⟩⟩ := step.effect tracked.faithful
      · simpa [Terminal] using equivalent
      · constructor
        · intro terminal other member
          have before : Terminal history := by
            rw [Terminal, versions_stored] at terminal
            exact (List.pairwise_append.1 terminal).1
          rcases List.mem_append.1 member with old | new
          · exact equivalent.1 before other old
          · rw [Option.some.inj (List.mem_singleton.1 new)]
            exact (before.snoc_iff tracked prior faithful).1 terminal
        · intro unraced
          have before : Terminal history :=
            equivalent.2 fun other member => unraced other (by simp [member])
          exact (before.snoc_iff tracked prior faithful).2 (unraced stored (by simp))
  exact both.2

/-- A subscription as `Start` creates it. -/
def created : Subscription :=
  { id := "s", customerID := "c", plan := "basic", seats := 1, status := .incomplete
    currentPeriodStart := 0, currentPeriodEnd := 10, createdAt := 0, updatedAt := 0 }

/-- The same after `Cancel` at time 2. -/
def dropped : Subscription :=
  { created with status := .canceled, canceledAt := some 2, updatedAt := 2 }

/-- The plan that `ChangePlan` stores when it fetched the subscription at time 1. -/
def moved : Subscription :=
  { created with plan := "pro", updatedAt := 1 }

/-- `Start` is followed by a `ChangePlan` that has its copy and a `Cancel` that
finishes. -/
def overtaken : List Event :=
  [none, some ⟨none, none, false, created, none, .incomplete, 0⟩, none, none, none, none,
    some ⟨some created, some created, true, dropped, some .incomplete, .canceled, 2⟩]

/-- The write of the `ChangePlan`. -/
def overtaking : Stored :=
  ⟨some dropped, some created, false, moved, some .incomplete, .incomplete, 1⟩

/-- The run up to the cancellation leaves the plan change with its old copy. -/
theorem overtaken_run : ∃ finish, (machine 10).Run overtaken finish ∧
    finish.store.lookup "s" = some dropped ∧
    finish.threads 1 = some { work := .write (some created) false moved 1 } := by
  -- the store steps in order: Start, the read of ChangePlan, the read and the write of Cancel
  have idle : (machine 10).Run [] {} := ⟨{}, ⟨rfl, fun _ => rfl⟩, .nil _⟩
  have started := idle.snoc (@Step.start 10 {} 0 rfl "s" 0 ⟨"c", "basic", 1, 0, []⟩ created rfl)
  have stored := started.snoc (@Step.upsert 10 _ 0 _ _ _ _ _ rfl)
  have changing := stored.snoc (@Step.call 10 _ 1 rfl (.changePlan "s" "pro" 0))
  have read := changing.snoc (@Step.fetch 10 _ 1 _ _ rfl 1 _ (.write rfl))
  have canceling := read.snoc (@Step.call 10 _ 2 rfl (.cancel "s" none))
  have reread := canceling.snoc (@Step.fetch 10 _ 2 _ _ rfl 2 _ (.write rfl))
  have finished := reread.snoc (@Step.upsert 10 _ 2 _ _ _ _ _ rfl)
  exact ⟨_, finished, rfl, rfl⟩

/-- As long as the plan change has not written, the subscription stays canceled. -/
theorem canceled_terminal_overtaken :
    (∃ finish, (machine 10).Run overtaken finish) ∧ Terminal overtaken := by
  obtain ⟨finish, run, -, -⟩ := overtaken_run
  refine ⟨⟨finish, run⟩, (canceled_terminal_iff run).2 ?_⟩
  intro stored member
  simp only [overtaken, List.mem_cons, List.not_mem_nil, or_false, reduceCtorEq, false_or,
    Option.some.injEq] at member
  rcases member with rfl | rfl
  · rintro ⟨sub, absurd, -⟩
    cases absurd
  · exact fun _ => .inr rfl

/-- The plan change then stores an incomplete version over the canceled one. -/
theorem canceled_not_terminal :
    ∃ finish, (machine 10).Run (overtaken ++ [some overtaking]) finish ∧
      ¬Terminal (overtaken ++ [some overtaking]) := by
  obtain ⟨finish, run, stored, pending⟩ := overtaken_run
  have written := @Step.upsert 10 _ 1 _ _ _ _ _ pending
  have replaced : finish.store.lookup moved.id = some dropped := stored
  rw [replaced] at written
  refine ⟨_, run.snoc written, ?_⟩
  intro terminal
  rw [Terminal, versions_stored] at terminal
  have reopened := (List.pairwise_append.1 terminal).2.2 dropped (by simp [versions, overtaken])
    moved (List.mem_singleton_self moved) rfl rfl
  cases reopened

end Golusoris.Subs
