import Golusoris.Leader.Gate
import Golusoris.Lib.Lists
import Mathlib.Data.List.Induction
import Mathlib.Data.List.Nodup

/-!
# When a lost lease keeps the loops stopped

Every loop that was started is stopped exactly once before it is started again,
whatever the order of the callbacks. That the loops rest after a term needs
more: an `OnStartedLeading` that only gets to run after its term was cancelled
and stopped starts the loops again, and nothing stops them before the next loss
of leadership. `gate_safe_iff` says that this is the only way to fail.
-/

namespace Golusoris.Leader

open List
open Lib

/-- Whether a loop runs after an action, given that it did or did not before. -/
def Action.follow (loop : Nat) (active : Bool) : Action → Bool
  | .started other => if other = loop then true else active
  | .refused _ => active
  | .stopped other => if other = loop then false else active

/-- A loop runs from a `Start` that succeeded to its next `Stop`. -/
def Active (log : List Action) (loop : Nat) : Bool :=
  log.foldl (Action.follow loop) false

/-- Every loop whose `Start` succeeded gets at most one `Stop` before its next
successful `Start`, and exactly one when there is such a `Start`. -/
structure StoppedOnce (log : List Action) : Prop where
  atMost : ∀ loop before after, log = before ++ .started loop :: after →
    .started loop ∉ after → after.count (.stopped loop) ≤ 1
  exactly : ∀ loop before between after,
    log = before ++ .started loop :: (between ++ .started loop :: after) →
    .started loop ∉ between → between.count (.stopped loop) = 1

@[simp]
theorem active_snoc (log : List Action) (action : Action) (loop : Nat) :
    Active (log ++ [action]) loop = action.follow loop (Active log loop) := by
  simp [Active]

variable {loop : Nat}

/-- A loop runs exactly when it has not been stopped since it was last started. -/
theorem active_iff_not_stopped {before after : List Action} (last : .started loop ∉ after) :
    Active (before ++ .started loop :: after) loop = true ↔ .stopped loop ∉ after := by
  induction after using reverseRecOn with
  | nil => simp [Action.follow]
  | append_singleton after action ih =>
    have earlier : Action.started loop ∉ after := fun member => last (by simp [member])
    rw [← cons_append, ← append_assoc, active_snoc]
    cases action with
    | started other =>
      have different : other ≠ loop := by
        rintro rfl
        exact last (by simp)
      rw [Action.follow, if_neg different, ih earlier]
      simp
    | refused other =>
      rw [Action.follow, ih earlier]
      simp
    | stopped other =>
      by_cases same : other = loop
      · simp [Action.follow, same]
      · rw [Action.follow, if_neg same, ih earlier]
        simp [Ne.symm same]

/-- A loop that is started among actions that do not stop it runs after them. -/
theorem active_of_started {before after : List Action} (started : .started loop ∈ after)
    (unstopped : .stopped loop ∉ after) : Active (before ++ after) loop = true := by
  induction after using reverseRecOn with
  | nil => cases started
  | append_singleton after action ih =>
    have earlier : Action.stopped loop ∉ after := fun member => unstopped (by simp [member])
    rw [← append_assoc, active_snoc]
    cases action with
    | started other =>
      by_cases same : other = loop
      · simp [Action.follow, same]
      · rw [Action.follow, if_neg same]
        exact ih (by simpa [Ne.symm same] using started) earlier
    | refused other => exact ih (by simpa using started) earlier
    | stopped other =>
      have different : other ≠ loop := by
        rintro rfl
        exact unstopped (by simp)
      rw [Action.follow, if_neg different]
      exact ih (by simpa using started) earlier

/-- Actions that do not start a loop do not set it running. -/
theorem active_of_not_started {before after : List Action}
    (runs : Active (before ++ after) loop = true) (unstarted : .started loop ∉ after) :
    Active before loop = true := by
  induction after using reverseRecOn with
  | nil => simpa using runs
  | append_singleton after action ih =>
    have earlier : Action.started loop ∉ after := fun member => unstarted (by simp [member])
    rw [← append_assoc, active_snoc] at runs
    refine ih ?_ earlier
    cases action with
    | started other =>
      have different : other ≠ loop := by
        rintro rfl
        exact unstarted (by simp)
      rwa [Action.follow, if_neg different] at runs
    | refused other => exact runs
    | stopped other =>
      by_cases same : other = loop
      · simp [Action.follow, same] at runs
      · rwa [Action.follow, if_neg same] at runs

theorem StoppedOnce.nil : StoppedOnce [] where
  atMost := by simp
  exactly := by simp

/-- One more action keeps the discipline when a loop is started only at rest and
stopped only when it runs. -/
theorem StoppedOnce.snoc {log : List Action} {action : Action} (once : StoppedOnce log)
    (rests : ∀ loop, action = .started loop → Active log loop = false)
    (runs : ∀ loop, action = .stopped loop → Active log loop = true) :
    StoppedOnce (log ++ [action]) where
  atMost := by
    intro loop before after shape last
    rcases snoc_eq_append_cons shape with ⟨rfl, -, -⟩ | ⟨rest, rfl, cut⟩
    · simp
    · have earlier : Action.started loop ∉ rest := fun member => last (by simp [member])
      by_cases stops : action = .stopped loop
      · have running := runs loop stops
        rw [cut, active_iff_not_stopped earlier] at running
        rw [count_append, count_eq_zero_of_not_mem running, stops]
        simp
      · rw [count_append, count_singleton]
        simpa [stops] using once.atMost loop before rest cut earlier
  exactly := by
    intro loop before between after shape last
    rw [← cons_append, ← append_assoc] at shape
    rcases snoc_eq_append_cons shape with ⟨rfl, cut, starts⟩ | ⟨rest, rfl, cut⟩
    · have resting := rests loop starts
      rw [cut, Bool.eq_false_iff, Ne, active_iff_not_stopped last, not_not] at resting
      have bound := once.atMost loop before between cut last
      exact Nat.le_antisymm bound (count_pos_iff.2 resting)
    · rw [append_assoc, cons_append] at cut
      exact once.exactly loop before between rest cut last

/-- What the gate's actions do to a `Periodic` at a position of the gate. -/
def Periodic.follow (position : Nat) (loop : Periodic) : Action → Periodic
  | .started other => if other = position then loop.start.toOption.getD loop else loop
  | .refused _ => loop
  | .stopped other => if other = position then loop.stop else loop

/-- A `Start` leaves the loop running, also when it is refused. -/
theorem Periodic.start_running (loop : Periodic) :
    (loop.start.toOption.getD loop).running = true := by
  rw [Periodic.start]
  by_cases running : loop.running = true
  · rw [if_pos running]
    exact running
  · rw [if_neg running]
    rfl

/-- A `Periodic` that only the gate drives is running exactly when it is active. -/
theorem Periodic.running_eq_active (name : String) (position : Nat) (log : List Action) :
    (log.foldl (Periodic.follow position) { name := name }).running = Active log position := by
  induction log using reverseRecOn with
  | nil => rfl
  | append_singleton log action ih =>
    rw [foldl_append, active_snoc, ← ih]
    cases action with
    | started other =>
      by_cases same : other = position
      · simp [Periodic.follow, Action.follow, same, Periodic.start_running]
      · simp [Periodic.follow, Action.follow, same]
    | refused other => rfl
    | stopped other =>
      simp [Periodic.follow, Action.follow, Periodic.stop, apply_ite Periodic.running]

/-- The gate knows exactly the loops that run. -/
structure Linked (log : List Action) (gate : Gate) : Prop where
  distinct : gate.started.Nodup
  active : ∀ loop, Active log loop = true ↔ loop ∈ gate.started
  once : StoppedOnce log

variable (succeeds : Nat → Bool)

variable {gate : Gate}

/-- `startEach` starts loops that are at rest. -/
theorem Linked.startEach {succeeds : Nat → Bool} {rest : List (String × Nat)} {log : List Action}
    (linked : Linked log gate) (distinct : (rest.map Prod.snd).Nodup)
    (resting : ∀ entry ∈ rest, entry.2 ∉ gate.started) :
    Linked (log ++ (Leader.startEach succeeds rest gate).2)
      (Leader.startEach succeeds rest gate).1 := by
  induction rest generalizing gate log with
  | nil => simpa [Leader.startEach] using linked
  | cons head rest ih =>
    obtain ⟨name, loop⟩ := head
    obtain ⟨fresh, distinct⟩ := nodup_cons.1 distinct
    have here : loop ∉ gate.started := resting (name, loop) mem_cons_self
    have later : ∀ entry ∈ rest, entry.2 ∉ gate.started :=
      fun entry member => resting entry (mem_cons_of_mem _ member)
    rw [Leader.startEach]
    by_cases success : succeeds loop = true
    · rw [if_pos success]
      have next : Linked (log ++ [.started loop])
          { gate with started := gate.started ++ [loop] } := by
        refine ⟨?_, ?_, ?_⟩
        · exact linked.distinct.append (nodup_singleton loop) (by simpa using here)
        · intro other
          rw [active_snoc, Action.follow]
          by_cases same : loop = other
          · simp [same]
          · rw [if_neg same, linked.active]
            simp [Ne.symm same]
        · refine linked.once.snoc ?_ (by simp)
          rintro other ⟨rfl⟩
          rw [Bool.eq_false_iff, Ne, linked.active]
          exact here
      have disjoint : ∀ entry ∈ rest, entry.2 ∉ gate.started ++ [loop] := by
        intro entry member inside
        rcases mem_append.1 inside with old | new
        · exact later entry member old
        · exact fresh (mem_map.2 ⟨entry, member, mem_singleton.1 new⟩)
      simpa using ih next distinct disjoint
    · rw [if_neg success]
      have next : Linked (log ++ [.refused loop])
          { gate with failed := gate.failed ++ [name] } := by
        refine ⟨linked.distinct, ?_, linked.once.snoc (by simp) (by simp)⟩
        intro other
        rw [active_snoc, Action.follow]
        exact linked.active other
      simpa using ih next distinct later

/-- `startAll` keeps the gate and its log together. -/
theorem Linked.startAll {succeeds : Nat → Bool} {log : List Action} (linked : Linked log gate)
    (rest : gate.running = false → gate.started = []) :
    Linked (log ++ (Leader.startAll succeeds gate).2) (Leader.startAll succeeds gate).1 := by
  rw [Leader.startAll]
  by_cases running : gate.running = true
  · rw [if_pos running]
    simpa using linked
  · rw [if_neg running]
    have empty := rest (Bool.eq_false_iff.2 running)
    have cleared : Linked log { gate with electErr := none } :=
      ⟨linked.distinct, linked.active, linked.once⟩
    have positions : (gate.loops.zipIdx.map Prod.snd).Nodup := by
      rw [zipIdx_map_snd]
      exact nodup_range'
    have started : Linked (log ++ (Leader.startEach succeeds gate.loops.zipIdx
        { gate with electErr := none }).2) (Leader.startEach succeeds gate.loops.zipIdx
        { gate with electErr := none }).1 :=
      cleared.startEach positions (by simp [empty])
    exact ⟨started.distinct, started.active, started.once⟩

theorem startAll_running (gate : Gate) : (startAll succeeds gate).1.running = true := by
  rw [startAll]
  by_cases running : gate.running = true
  · rw [if_pos running]
    exact running
  · rw [if_neg running]

theorem startEach_stopped (rest : List (String × Nat)) (gate : Gate) (loop : Nat) :
    .stopped loop ∉ (startEach succeeds rest gate).2 := by
  induction rest generalizing gate with
  | nil => simp [startEach]
  | cons head rest ih =>
    rw [startEach]
    split
    · simpa using ih _
    · simpa using ih _

theorem startAll_stopped (gate : Gate) (loop : Nat) :
    .stopped loop ∉ (startAll succeeds gate).2 := by
  rw [startAll]
  split
  · simp
  · exact startEach_stopped succeeds _ _ loop

/-- Stopping loops that run, one after another. -/
theorem StoppedOnce.stops {log : List Action} {loops : List Nat} (once : StoppedOnce log)
    (distinct : loops.Nodup) (runs : ∀ loop ∈ loops, Active log loop = true) :
    StoppedOnce (log ++ loops.map .stopped) ∧
      ∀ loop, Active (log ++ loops.map .stopped) loop =
        (Active log loop && decide (loop ∉ loops)) := by
  induction loops generalizing log with
  | nil => simpa using once
  | cons head loops ih =>
    obtain ⟨fresh, distinct⟩ := nodup_cons.1 distinct
    have stopped : StoppedOnce (log ++ [.stopped head]) := by
      refine once.snoc (by simp) ?_
      rintro loop ⟨rfl⟩
      exact runs head mem_cons_self
    have still : ∀ loop ∈ loops, Active (log ++ [.stopped head]) loop = true := by
      intro loop member
      have different : head ≠ loop := fun same => fresh (same ▸ member)
      rw [active_snoc, Action.follow, if_neg different]
      exact runs loop (mem_cons_of_mem _ member)
    obtain ⟨all, active⟩ := ih stopped distinct still
    refine ⟨by simpa using all, ?_⟩
    intro loop
    rw [map_cons, append_cons, active, active_snoc, Action.follow]
    by_cases same : head = loop
    · simp [same]
    · simp [same, Ne.symm same]

/-- `stopAll` keeps the gate and its log together and leaves no loop running. -/
theorem Linked.stopAll {log : List Action} (linked : Linked log gate)
    (rest : gate.running = false → gate.started = []) :
    Linked (log ++ (Leader.stopAll gate).2) (Leader.stopAll gate).1 ∧
      (Leader.stopAll gate).1.started = [] := by
  rw [Leader.stopAll]
  by_cases running : gate.running = true
  · rw [if_neg (by simp [running])]
    obtain ⟨once, active⟩ := linked.once.stops (nodup_reverse.2 linked.distinct)
      (fun loop member => (linked.active loop).2 (mem_reverse.1 member))
    refine ⟨⟨nodup_nil, ?_, once⟩, rfl⟩
    intro loop
    rw [active]
    by_cases started : loop ∈ gate.started
    · simp [started]
    · simp [started, Bool.eq_false_iff.2 (mt (linked.active loop).1 started)]
  · rw [if_pos (by simp [running])]
    exact ⟨by simpa using linked, rest (Bool.eq_false_iff.2 running)⟩

def Event.Stops (event : Event) : Prop :=
  ∃ term, event.call = .stopped term

def Event.StartsLive (event : Event) : Prop :=
  ∃ term, event.call = .started term true

/-- What the calls of a run did to the loops. -/
def log (events : List Event) : List Action :=
  events.flatMap Event.actions

/-- Some term was cancelled and its `OnStoppedLeading` has run. -/
def Lost (events : List Event) : Prop :=
  ∃ event ∈ events, event.Stops

/-- Some term's `OnStoppedLeading` has run, and since then no
`OnStartedLeading` of a term whose context was live. -/
def Exposed (events : List Event) : Prop :=
  ∃ before stop after, events = before ++ stop :: after ∧ stop.Stops ∧
    ∀ event ∈ after, ¬event.StartsLive

/-- At no time of the run is a loop running after the loss of a term, until a
live term started. -/
def Gated (events : List Event) : Prop :=
  ∀ before after, events = before ++ after → Exposed before →
    ∀ loop, Active (log before) loop = false

/-- An `OnStartedLeading` whose context is cancelled finds the gate running, or
no term lost yet, or no loop that starts. -/
def Prompt (events : List Event) : Prop :=
  ∀ before event after, events = before ++ event :: after →
    ∀ term, event.call = .started term false →
      event.running = true ∨ ¬Lost before ∨ ∀ loop, .started loop ∉ event.actions

variable (history : List Event) (event : Event)

@[simp]
theorem log_snoc : log (history ++ [event]) = log history ++ event.actions := by
  simp [log]

variable {history : List Event} {event : Event}

theorem exposed_stops (stops : event.Stops) : Exposed (history ++ [event]) :=
  ⟨history, event, [], rfl, stops, by simp⟩

theorem exposed_snoc_iff (stays : ¬event.Stops) :
    Exposed (history ++ [event]) ↔ Exposed history ∧ ¬event.StartsLive := by
  constructor
  · rintro ⟨before, stop, after, shape, stops, quiet⟩
    rcases snoc_eq_append_cons shape with ⟨-, -, rfl⟩ | ⟨rest, rfl, cut⟩
    · exact absurd stops stays
    · exact ⟨⟨before, stop, rest, cut, stops, fun other member => quiet other (by simp [member])⟩,
        quiet event (by simp)⟩
  · rintro ⟨⟨before, stop, after, shape, stops, quiet⟩, here⟩
    refine ⟨before, stop, after ++ [event], by simp [shape], stops, ?_⟩
    intro other member
    rcases mem_append.1 member with old | new
    · exact quiet other old
    · exact mem_singleton.1 new ▸ here

theorem Exposed.lost (exposed : Exposed history) : Lost history := by
  obtain ⟨before, stop, after, rfl, stops, -⟩ := exposed
  exact ⟨stop, by simp, stops⟩

theorem lost_snoc_iff (stays : ¬event.Stops) : Lost (history ++ [event]) ↔ Lost history := by
  simp [Lost, stays, or_and_right, exists_or]

/-- A call that neither stops nor starts a live term leaves a lost gate exposed. -/
theorem exposed_quiet (stays : ¬event.Stops) (silent : ¬event.StartsLive)
    (exposed : Lost history → Exposed history) (lost : Lost (history ++ [event])) :
    Exposed (history ++ [event]) := by
  rw [lost_snoc_iff stays] at lost
  exact (exposed_snoc_iff stays).2 ⟨exposed lost, silent⟩

theorem gated_snoc_iff :
    Gated (history ++ [event]) ↔ Gated history ∧
      (Exposed (history ++ [event]) → ∀ loop, Active (log (history ++ [event])) loop = false) := by
  constructor
  · intro gated
    refine ⟨?_, fun exposed => gated _ [] (by simp) exposed⟩
    rintro before after rfl exposed
    exact gated before (after ++ [event]) (by simp) exposed
  · rintro ⟨gated, here⟩ before after shape exposed
    rcases snoc_eq_append shape with ⟨-, rfl⟩ | ⟨rest, cut⟩
    · exact here exposed
    · exact gated before rest cut exposed

theorem prompt_snoc_iff :
    Prompt (history ++ [event]) ↔ Prompt history ∧
      ∀ term, event.call = .started term false →
        event.running = true ∨ ¬Lost history ∨ ∀ loop, .started loop ∉ event.actions := by
  constructor
  · intro prompt
    refine ⟨?_, prompt history event [] rfl⟩
    rintro before other after rfl
    exact prompt before other (after ++ [event]) (by simp)
  · rintro ⟨prompt, here⟩ before other after shape
    rcases snoc_eq_append_cons shape with ⟨-, rfl, rfl⟩ | ⟨rest, -, cut⟩
    · exact here
    · exact prompt before other rest cut

/-- The gate follows its log, only the current term is live, and a gate that is
idle after a loss is exposed. -/
structure Tracked (history : List Event) (state : State) : Prop where
  linked : Linked (log history) state.gate
  rest : state.gate.running = false → state.gate.started = []
  leads : ∀ (term : Nat) (info : Term), state.terms[term]? = some info → info.live = true →
    state.current = some term
  vacant : state.current = none → Lost history → Exposed history
  idle : state.gate.running = false → Lost history → Exposed history

theorem Tracked.initial (loops : List String) : Tracked [] { gate := { loops := loops } } where
  linked := ⟨nodup_nil, by simp [log, Active], StoppedOnce.nil⟩
  rest := fun _ => rfl
  leads := by simp
  vacant := by simp [Lost]
  idle := by simp [Lost]

theorem Tracked.step {before after : State} (tracked : Tracked history before)
    (step : Step before event after) : Tracked (history ++ [event]) after := by
  cases step with
  | elected vacant =>
    refine ⟨by simpa using tracked.linked, tracked.rest, ?_, by simp, ?_⟩
    · intro term info known live
      by_cases old : term < before.terms.length
      · rw [List.getElem?_append_left old] at known
        have leading := tracked.leads term info known live
        simp [vacant] at leading
      · have index := (List.getElem?_eq_some_iff.1 known).1
        rw [length_append, length_singleton] at index
        exact congrArg some (by omega)
    · exact fun idle => exposed_quiet (by simp [Event.Stops]) (by simp [Event.StartsLive])
        (tracked.idle idle)
  | @cancelled term info leads known =>
    refine ⟨by simpa using tracked.linked, tracked.rest, ?_, by simp [leads], ?_⟩
    · intro other found present live
      by_cases same : other = term
      · rw [same]
        exact leads
      · rw [List.getElem?_set_ne (Ne.symm same)] at present
        exact tracked.leads other found present live
    · exact fun idle => exposed_quiet (by simp [Event.Stops]) (by simp [Event.StartsLive])
        (tracked.idle idle)
  | @started term info known pending succeeds =>
    refine ⟨?_, by simp [startAll_running], ?_, ?_, by simp [startAll_running]⟩
    · rw [log_snoc]
      exact tracked.linked.startAll tracked.rest
    · intro other found present live
      by_cases same : other = term
      · subst same
        have bound := (List.getElem?_eq_some_iff.1 known).1
        rw [List.getElem?_set_self bound] at present
        rw [← Option.some.inj present] at live
        exact tracked.leads other info known live
      · rw [List.getElem?_set_ne (Ne.symm same)] at present
        exact tracked.leads other found present live
    · intro vacant
      refine exposed_quiet (by simp [Event.Stops]) ?_ (tracked.vacant vacant)
      -- a live term would be the current one
      rintro ⟨other, live⟩
      have current := tracked.leads term info known (Call.started.inj live).2
      rw [show before.current = none from vacant] at current
      cases current
  | stopped leads known cancelled =>
    obtain ⟨linked, empty⟩ := tracked.linked.stopAll tracked.rest
    refine ⟨by simpa using linked, fun _ => empty, ?_, ?_, ?_⟩
    · intro other found present live
      have current := tracked.leads other found present live
      rw [leads] at current
      rw [← Option.some.inj current, known] at present
      rw [← Option.some.inj present, cancelled] at live
      cases live
    · exact fun _ _ => exposed_stops ⟨_, rfl⟩
    · exact fun _ _ => exposed_stops ⟨_, rfl⟩
  | closed vacant =>
    obtain ⟨linked, empty⟩ := tracked.linked.stopAll tracked.rest
    refine ⟨by simpa using linked, fun _ => empty, tracked.leads, fun _ => ?_, fun _ => ?_⟩
    · exact exposed_quiet (by simp [Event.Stops]) (by simp [Event.StartsLive])
        (tracked.vacant vacant)
    · exact exposed_quiet (by simp [Event.Stops]) (by simp [Event.StartsLive])
        (tracked.vacant vacant)
  | electionFailed vacant error =>
    have linked : Linked (log history) { before.gate with electErr := some error } :=
      ⟨tracked.linked.distinct, tracked.linked.active, tracked.linked.once⟩
    refine ⟨by simpa using linked, tracked.rest, tracked.leads, fun _ => ?_, fun idle => ?_⟩
    · exact exposed_quiet (by simp [Event.Stops]) (by simp [Event.StartsLive])
        (tracked.vacant vacant)
    · exact exposed_quiet (by simp [Event.Stops]) (by simp [Event.StartsLive]) (tracked.idle idle)

/-- The last call of a run keeps an exposed gate at rest exactly when it is not a
late `OnStartedLeading`. -/
theorem Tracked.rests_iff {before after : State} (tracked : Tracked history before)
    (rests : Exposed history → ∀ loop, Active (log history) loop = false)
    (step : Step before event after) :
    (Exposed (history ++ [event]) → ∀ loop, Active (log (history ++ [event])) loop = false) ↔
      ∀ term, event.call = .started term false →
        event.running = true ∨ ¬Lost history ∨ ∀ loop, .started loop ∉ event.actions := by
  -- only a late start can fail; every other call leaves the log or stops all loops
  have silent : ∀ {call : Call} {running : Bool}, ¬Event.Stops ⟨call, running, []⟩ →
      Exposed (history ++ [⟨call, running, []⟩]) →
      ∀ loop, Active (log (history ++ [⟨call, running, []⟩])) loop = false := by
    intro call running stays exposed
    rw [exposed_snoc_iff stays] at exposed
    simpa using rests exposed.1
  cases step with
  | elected _ | cancelled _ _ | electionFailed _ _ =>
    exact iff_of_true (silent (by simp [Event.Stops])) (by simp)
  | @started term info known pending succeeds =>
    have stays : ¬Event.Stops
        ⟨.started term info.live, before.gate.running, (startAll succeeds before.gate).2⟩ := by
      simp [Event.Stops]
    rw [exposed_snoc_iff stays]
    cases live : info.live with
    | true => exact iff_of_true (by simp [Event.StartsLive]) (by simp)
    | false =>
      have quiet : ¬Event.StartsLive
          ⟨.started term false, before.gate.running, (startAll succeeds before.gate).2⟩ := by
        simp [Event.StartsLive]
      constructor
      · intro still other _
        by_contra late
        obtain ⟨idle, lost, loop, starts⟩ : before.gate.running = false ∧ Lost history ∧
            ∃ loop, .started loop ∈ (startAll succeeds before.gate).2 := by
          simpa using late
        have stopped := still ⟨tracked.idle idle lost, quiet⟩ loop
        rw [log_snoc, active_of_started starts (startAll_stopped succeeds _ loop)] at stopped
        cases stopped
      · rintro allowed ⟨exposed, -⟩ loop
        rw [Bool.eq_false_iff]
        intro runs
        rw [log_snoc] at runs
        have unstarted : .started loop ∉ (startAll succeeds before.gate).2 := by
          rcases allowed term rfl with running | never | none
          · have held : before.gate.running = true := running
            simp [startAll, held]
          · exact absurd exposed.lost never
          · exact none loop
        have active := active_of_not_started runs unstarted
        rw [rests exposed loop] at active
        cases active
  | stopped _ _ _ | closed _ =>
    obtain ⟨linked, empty⟩ := tracked.linked.stopAll tracked.rest
    refine iff_of_true (fun _ loop => ?_) (by simp)
    rw [log_snoc, Bool.eq_false_iff, Ne, linked.active, empty]
    exact not_mem_nil

/-- In every run, the loops rest after the loss of a term until a live term
starts, and every started loop is stopped exactly once before it is started
again, if and only if no `OnStartedLeading` comes late. -/
theorem gate_safe_iff {loops : List String} {events : List Event} {finish : State}
    (run : (machine loops).Run events finish) :
    (Gated events ∧ StoppedOnce (log events)) ↔ Prompt events := by
  have both : Tracked events finish ∧ (Gated events ↔ Prompt events) := by
    refine run.history_invariant
      (fun history state => Tracked history state ∧ (Gated history ↔ Prompt history)) ?_ ?_
    · rintro state rfl
      refine ⟨Tracked.initial loops, ?_⟩
      simp [Gated, Prompt, Exposed]
    · rintro history before event after ⟨tracked, equivalent⟩ step
      refine ⟨tracked.step step, ?_⟩
      rw [gated_snoc_iff, prompt_snoc_iff, ← equivalent]
      refine and_congr_right fun gated => ?_
      exact tracked.rests_iff (gated history [] (by simp)) step
  rw [← both.2]
  exact and_iff_left both.1.linked.once

/-- A term that is cancelled and stopped before its `OnStartedLeading` runs. -/
def overtakenTerm : List Event :=
  [⟨.elected 0, false, []⟩, ⟨.cancelled 0, false, []⟩, ⟨.stopped 0, false, []⟩]

/-- The start that is left over then. -/
def lateStart : Event :=
  ⟨.started 0 false, false, [.started 0]⟩

theorem overtakenTerm_run : (machine ["sweep"]).Run overtakenTerm
    { gate := { loops := ["sweep"] }, terms := [{ live := false }] } := by
  have idle : (machine ["sweep"]).Run [] { gate := { loops := ["sweep"] } } := ⟨_, rfl, .nil _⟩
  have elected := idle.snoc (Step.elected rfl)
  have cancelled := elected.snoc (@Step.cancelled _ 0 {} rfl rfl)
  exact cancelled.snoc (@Step.stopped _ 0 { live := false } rfl rfl rfl)

/-- Until the late start runs, the gate keeps the loop at rest. -/
theorem gate_safe_overtaken :
    (∃ finish, (machine ["sweep"]).Run overtakenTerm finish) ∧
      Gated overtakenTerm ∧ StoppedOnce (log overtakenTerm) := by
  refine ⟨⟨_, overtakenTerm_run⟩, (gate_safe_iff overtakenTerm_run).2 ?_⟩
  intro before event after shape term late
  have member : event ∈ overtakenTerm := by simp [shape]
  simp only [overtakenTerm, List.mem_cons, List.not_mem_nil, or_false] at member
  rcases member with rfl | rfl | rfl <;> cases late

/-- The late start sets the loop running although its term is over and no other
has begun. -/
theorem gate_not_safe :
    ∃ finish, (machine ["sweep"]).Run (overtakenTerm ++ [lateStart]) finish ∧
      ¬Gated (overtakenTerm ++ [lateStart]) := by
  have late := @Step.started
    { gate := { loops := ["sweep"] }, terms := [{ live := false }] } 0 { live := false } rfl rfl
    (fun _ => true)
  refine ⟨_, overtakenTerm_run.snoc late, ?_⟩
  intro gated
  have exposed : Exposed (overtakenTerm ++ [lateStart]) :=
    ⟨[⟨.elected 0, false, []⟩, ⟨.cancelled 0, false, []⟩], ⟨.stopped 0, false, []⟩, [lateStart],
      rfl, ⟨0, rfl⟩, by simp [lateStart, Event.StartsLive]⟩
  have resting := gated _ [] (by simp) exposed 0
  cases resting

end Golusoris.Leader
