import Golusoris.Twotier.Effects

/-!
# Replicas over one L2

A cluster is a family of caches over one L2. A mutation ends with a notice to
every replica, its sender included, and each notice is delivered once, in any
order. `steady` is the cluster while no epoch wraps and no load writes L2 after
an entry has changed under it; `Agreed` is what then holds in every state: an
L1 entry or a finished load that differs from L2 is about to be cleared by a
mutation of its own replica or by a notice that is on its way.
-/

namespace Golusoris.Twotier

open List
open Golusoris.Lib

/-- The replicas, the tier they share, and the notices each has yet to get. -/
structure Cluster (V Origin : Type*) where
  replicas : Origin → Local V
  store : Store
  notices : Origin → List (Invalidation Origin)

/-- A step of one replica. -/
structure Act (V Origin : Type*) where
  replica : Origin
  event : Event V Origin

variable {V Origin : Type*} [DecidableEq Origin]

/-- What a step of a replica does to the notices under way. -/
def Carried (replica : Origin) (before after : Origin → List (Invalidation Origin)) :
    Event V Origin → Prop
  | .sent _ scope => after = fun other => scope.notice replica :: before other
  | .invalidated notice => ∃ earlier later, before replica = earlier ++ notice :: later ∧
      after = Function.update before replica (earlier ++ later)
  | _ => after = before

def cluster (Origin : Type*) [DecidableEq Origin] (codec : Codec V) :
    Machine (Cluster V Origin) (Act V Origin) where
  Initial := fun state => (∀ replica, (state.replicas replica).Fresh) ∧
    ∀ replica, state.notices replica = []
  Step := fun before act after =>
    Step codec act.replica (before.replicas act.replica) before.store act.event
      (after.replicas act.replica) after.store ∧
    (∀ other, other ≠ act.replica → after.replicas other = before.replicas other) ∧
    Carried act.replica before.notices after.notices act.event

/-- No call and no notice is in flight. -/
def Cluster.Quiescent (state : Cluster V Origin) : Prop :=
  (∀ replica number, (state.replicas replica).calls number = none) ∧
    ∀ replica, state.notices replica = []

/-- The cluster while no epoch wraps and no load overwrites a newer entry. -/
def steady (Origin : Type*) [DecidableEq Origin] (codec : Codec V) :
    Machine (Cluster V Origin) (Act V Origin) where
  Initial := (cluster Origin codec).Initial
  Step := fun before act after =>
    (cluster Origin codec).Step before act after ∧
      (before.replicas act.replica).epoch ≤ (after.replicas act.replica).epoch ∧
      act.event.overwrites = false

/-- The step of the replica raises its epoch. -/
def Act.raisesAt (replica : Origin) (act : Act V Origin) : Bool :=
  act.replica = replica ∧ act.event.raises act.replica = true

variable {codec : Codec V}

theorem steady_run {acts : List (Act V Origin)} {finish : Cluster V Origin}
    (run : (cluster Origin codec).Run acts finish)
    (bounded : ∀ replica, acts.countP (Act.raisesAt replica) < 2 ^ 64)
    (undisturbed : ∀ act ∈ acts, act.event.overwrites = false) :
    (steady Origin codec).Run acts finish := by
  have counted : (∀ replica, acts.countP (Act.raisesAt replica) < 2 ^ 64) →
      (∀ act ∈ acts, act.event.overwrites = false) →
      (∀ replica, (finish.replicas replica).epoch = acts.countP (Act.raisesAt replica)) ∧
        (steady Origin codec).Run acts finish := by
    refine run.history_invariant
      (fun history state => (∀ replica, history.countP (Act.raisesAt replica) < 2 ^ 64) →
        (∀ act ∈ history, act.event.overwrites = false) →
        (∀ replica, (state.replicas replica).epoch = history.countP (Act.raisesAt replica)) ∧
          (steady Origin codec).Run history state) ?_ ?_
    · intro state initial _ _
      exact ⟨fun replica => (initial.1 replica).epoch, state, initial, .nil state⟩
    · intro history before act after holds step bound quiet
      obtain ⟨moves, others, carried⟩ := step
      have smaller : ∀ replica, history.countP (Act.raisesAt replica) ≤
          (history ++ [act]).countP (Act.raisesAt replica) := by
        intro replica
        rw [countP_append]
        exact Nat.le_add_right ..
      obtain ⟨epochs, ran⟩ := holds
        (fun replica => Nat.lt_of_le_of_lt (smaller replica) (bound replica))
        (fun act member => quiet act (mem_append_left _ member))
      have here : act.event.overwrites = false := quiet act (by simp)
      have own := bound act.replica
      rw [countP_append, countP_singleton, ← epochs act.replica] at own
      -- The acting replica counts this step, every other one keeps its epoch.
      have counts : ∀ replica, (after.replicas replica).epoch =
          (before.replicas replica).epoch + if act.raisesAt replica then 1 else 0 := by
        intro replica
        by_cases same : replica = act.replica
        · subst same
          rcases moves.epoch with ⟨still, equal⟩ | ⟨raises, raised⟩
          · simp [Act.raisesAt, still, equal]
          · have counted : act.raisesAt act.replica = true := by
              simp [Act.raisesAt, raises]
            rw [counted, if_pos rfl] at own ⊢
            rw [raised]
            exact Nat.mod_eq_of_lt own
        · rw [others replica same]
          simp [Act.raisesAt, Ne.symm same]
      refine ⟨fun replica => ?_, ran.snoc ⟨⟨moves, others, carried⟩, ?_, here⟩⟩
      · rw [countP_append, countP_singleton, ← epochs replica]
        exact counts replica
      · rw [counts act.replica]
        exact Nat.le_add_right ..
  exact (counted bounded undisturbed).2

/-- A notice of a peer that covers the key has not reached the replica. -/
def Cluster.Noticed (state : Cluster V Origin) (replica : Origin) (key : Key) : Prop :=
  ∃ notice ∈ state.notices replica, notice.origin ≠ replica ∧
    (notice.scope.any (·.covers key)) = true

/-- A mutation of the key by a peer has not been cleared at the replica. -/
def Cluster.Coming (state : Cluster V Origin) (replica : Origin) (key : Key) : Prop :=
  state.Noticed replica key ∨ ∃ other, other ≠ replica ∧ ∃ number call,
    (state.replicas other).calls number = some call ∧ call.announces key = true

/-- The replica's own mutation of the key has not reached its L1. -/
def Cluster.Own (state : Cluster V Origin) (replica : Origin) (key : Key) : Prop :=
  ∃ number call, (state.replicas replica).calls number = some call ∧
    call.announces key = true ∧ call.mutating = true

def Cluster.Unsettled (state : Cluster V Origin) (replica : Origin) (key : Key) : Prop :=
  state.Coming replica key ∨ state.Own replica key

omit [DecidableEq Origin] in
theorem Cluster.Quiescent.settled {state : Cluster V Origin} (quiet : state.Quiescent)
    (replica : Origin) (key : Key) : ¬ state.Unsettled replica key := by
  rintro ((⟨notice, member, -⟩ | ⟨other, -, number, call, found, -⟩) | ⟨number, call, found, -⟩)
  · rw [quiet.2 replica] at member
    cases member
  · rw [quiet.1 other number] at found
    cases found
  · rw [quiet.1 replica number] at found
    cases found

section Steps

variable {before after : Cluster V Origin} {act : Act V Origin} {replica : Origin} {key : Key}

theorem Cluster.Noticed.step (noticed : before.Noticed replica key)
    (carried : Carried act.replica before.notices after.notices act.event) :
    after.Noticed replica key ∨
      act.replica = replica ∧ act.event.clears replica key = true ∧
        ∃ notice, act.event = .invalidated notice := by
  obtain ⟨notice, member, foreign, covers⟩ := noticed
  obtain ⟨acting, event⟩ := act
  cases event with
  | sent number scope =>
    simp only [Carried] at carried
    refine .inl ⟨notice, ?_, foreign, covers⟩
    rw [carried]
    exact mem_cons_of_mem _ member
  | invalidated delivered =>
    obtain ⟨earlier, later, waiting, rest⟩ := carried
    by_cases same : replica = acting
    · subst same
      simp only at waiting rest
      rw [waiting] at member
      by_cases equal : notice = delivered
      · subst equal
        exact .inr ⟨rfl, by simp [Event.clears, foreign, covers], notice, rfl⟩
      · refine .inl ⟨notice, ?_, foreign, covers⟩
        rw [rest, Function.update_self]
        rcases mem_append.mp member with early | late
        · exact mem_append_left _ early
        · exact mem_append_right _ ((mem_cons.mp late).resolve_left equal)
    · refine .inl ⟨notice, ?_, foreign, covers⟩
      rw [rest, Function.update_of_ne same]
      exact member
  | _ =>
    simp only [Carried] at carried
    exact .inl ⟨notice, carried ▸ member, foreign, covers⟩

variable (sound : ∀ replica, (before.replicas replica).Sound codec)

include sound in
/-- What a peer has announced, or will, stays so until the notice is applied. -/
theorem Cluster.Coming.step (coming : before.Coming replica key)
    (step : (cluster Origin codec).Step before act after) :
    after.Coming replica key ∨
      act.replica = replica ∧ act.event.clears replica key = true ∧
        ∃ notice, act.event = .invalidated notice := by
  obtain ⟨moves, others, carried⟩ := step
  rcases coming with noticed | ⟨other, ne, number, call, found, announces⟩
  · rcases noticed.step carried with noticed | clears
    · exact .inl (.inl noticed)
    · exact .inr clears
  · by_cases same : other = act.replica
    · subst same
      rcases moves.announcing_call (sound _) found announces with
        ⟨call', found', announces', -⟩ | ⟨scope, sent, covers, -⟩
      · exact .inl (.inr ⟨_, ne, number, call', found', announces'⟩)
      · rw [sent] at carried
        simp only [Carried] at carried
        refine .inl (.inl ⟨scope.notice act.replica, ?_, ?_, ?_⟩)
        · rw [carried]
          exact mem_cons_self
        · rw [Scope.notice_origin]
          exact ne
        · simpa using covers
    · refine .inl (.inr ⟨other, ne, number, call, ?_, announces⟩)
      rw [others other same]
      exact found

include sound in
theorem Cluster.Own.step (own : before.Own replica key)
    (step : (cluster Origin codec).Step before act after) :
    after.Own replica key ∨ act.replica = replica ∧ act.event.clears replica key = true := by
  obtain ⟨moves, others, -⟩ := step
  obtain ⟨number, call, found, announces, mutating⟩ := own
  by_cases same : act.replica = replica
  · subst same
    rcases moves.announcing_call (sound _) found announces with
      ⟨call', found', announces', stays⟩ | ⟨scope, -, -, idle⟩
    · cases clears : act.event.clears act.replica key with
      | true => exact .inr ⟨rfl, rfl⟩
      | false => exact .inl ⟨number, call', found', announces', stays mutating clears⟩
    · rw [mutating] at idle
      cases idle
  · refine .inl ⟨number, call, ?_, announces, mutating⟩
    rw [others replica (Ne.symm same)]
    exact found

include sound in
theorem Cluster.Unsettled.step (unsettled : before.Unsettled replica key)
    (step : (cluster Origin codec).Step before act after) :
    after.Unsettled replica key ∨
      act.replica = replica ∧ act.event.clears replica key = true := by
  rcases unsettled with coming | own
  · rcases coming.step sound step with coming | ⟨same, clears, -⟩
    · exact .inl (.inl coming)
    · exact .inr ⟨same, clears⟩
  · rcases own.step sound step with own | clears
    · exact .inl (.inr own)
    · exact .inr clears

/-- A mutation that takes effect on L2 leaves every replica unsettled. -/
theorem unsettled_of_mutates (step : (cluster Origin codec).Step before act after)
    (mutates : act.event.mutates key = true) (replica : Origin) :
    after.Unsettled replica key ∧ (act.replica ≠ replica → after.Coming replica key) := by
  obtain ⟨number, call, found, announces, mutating⟩ := step.1.mutates_announces mutates
  have coming : act.replica ≠ replica → after.Coming replica key :=
    fun ne => .inr ⟨act.replica, ne, number, call, found, announces⟩
  refine ⟨?_, coming⟩
  by_cases same : act.replica = replica
  · subst same
    exact .inr ⟨number, call, found, announces, mutating⟩
  · exact .inl (coming same)

end Steps

end Golusoris.Twotier
