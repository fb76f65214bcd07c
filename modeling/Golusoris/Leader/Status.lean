import Golusoris.Lib.Machine
import Mathlib.Logic.Function.Basic

/-!
# What the leader status reports

`Status.Observe` wraps the callbacks of an elector. `OnStartedLeading` draws a
number, stores it and registers a callback with its context that takes the
number back; `OnStoppedLeading` stores zero. The atomic operations of one
`OnStartedLeading` are steps of their own here, so the goroutines of several
terms interleave between any two of them.

The number is drawn when the goroutine runs. A goroutine that comes after the
one of the next term therefore gets the higher number, stores it over the
number of the live term and takes it back again. `status_reports` says that the
status is right in every run in which no term stores after a newer one.
-/

namespace Golusoris.Leader.Observed

open Lib

/-- `leader.Status`; both words are atomic, `leading` is zero when not leading. -/
structure Status where
  terms : UInt64 := 0
  leading : UInt64 := 0
  deriving DecidableEq, Repr

/-- `IsLeader`. -/
def Status.isLeader (status : Status) : Bool := status.leading != 0

/-- `terms.Add(1)`; the counter after it is the term's number. -/
def Status.add (status : Status) : Status := { status with terms := status.terms + 1 }

/-- `leading.Store`. -/
def Status.store (status : Status) (number : UInt64) : Status :=
  { status with leading := number }

/-- `leading.CompareAndSwap(number, 0)`. -/
def Status.release (status : Status) (number : UInt64) : Status :=
  if status.leading = number then { status with leading := 0 } else status

/-- How far the goroutine of an `OnStartedLeading` has come: it draws its number,
stores it and registers the callback of its context, which runs last. -/
inductive Start where
  | pending
  | drawn (number : UInt64)
  | stored (number : UInt64)
  | armed (number : UInt64)
  | released
  deriving DecidableEq, Repr

/-- The number of a start whose callback has not run. -/
def Start.number : Start → Option UInt64
  | .drawn number | .stored number | .armed number => some number
  | .pending | .released => none

/-- The number that was stored and not taken back. -/
def Start.shown : Start → Option UInt64
  | .stored number | .armed number => some number
  | .pending | .drawn _ | .released => none

/-- Whether the start has stored its number. -/
def Start.hasStored : Start → Bool
  | .stored _ | .armed _ | .released => true
  | .pending | .drawn _ => false

/-- One term of the elector. -/
structure Term where
  live : Bool := true
  stopped : Bool := false
  start : Start := .pending
  deriving DecidableEq, Repr

/-- The terms below `begun` have begun; the last of them is the latest. -/
structure State where
  status : Status := {}
  begun : Nat := 0
  term : Nat → Term := fun _ => {}

def State.set (state : State) (index : Nat) (term : Term) : State :=
  { state with term := Function.update state.term index term }

inductive Event where
  | began
  | cancelled (term : Nat)
  | stopped (term : Nat)
  | drew (term : Nat)
  | stored (term : Nat)
  | armed (term : Nat)
  | released (term : Nat)
  deriving DecidableEq, Repr

/-- A term begins when the one before it has stopped, and stops after its
context is cancelled. Its start moves at any time after it began. -/
inductive Step : State → Event → State → Prop where
  | began {state : State}
      (vacant : ∀ index, index + 1 = state.begun → (state.term index).stopped = true) :
      Step state .began
        { state with begun := state.begun + 1, term := Function.update state.term state.begun {} }
  | cancelled {state : State} {index : Nat} (latest : index + 1 = state.begun) :
      Step state (.cancelled index) (state.set index { state.term index with live := false })
  | stopped {state : State} {index : Nat} (latest : index + 1 = state.begun)
      (cancelled : (state.term index).live = false)
      (once : (state.term index).stopped = false) :
      Step state (.stopped index)
        { state.set index { state.term index with stopped := true } with
          status := state.status.store 0 }
  | drew {state : State} {index : Nat} (known : index < state.begun)
      (pending : (state.term index).start = .pending) :
      Step state (.drew index)
        { state.set index { state.term index with start := .drawn state.status.add.terms } with
          status := state.status.add }
  | stored {state : State} {index : Nat} {number : UInt64} (known : index < state.begun)
      (drawn : (state.term index).start = .drawn number) :
      Step state (.stored index)
        { state.set index { state.term index with start := .stored number } with
          status := state.status.store number }
  | armed {state : State} {index : Nat} {number : UInt64} (known : index < state.begun)
      (stored : (state.term index).start = .stored number) :
      Step state (.armed index)
        (state.set index { state.term index with start := .armed number })
  | released {state : State} {index : Nat} {number : UInt64} (known : index < state.begun)
      (armed : (state.term index).start = .armed number)
      (cancelled : (state.term index).live = false) :
      Step state (.released index)
        { state.set index { state.term index with start := .released } with
          status := state.status.release number }

/-- Runs of a new status under an elector. -/
def machine : Machine State Event where
  Initial state := state = {}
  Step := Step

/-- The latest term's context is live and its `OnStoppedLeading` has not run. -/
def State.Leads (state : State) : Prop :=
  ∃ index, index + 1 = state.begun ∧ (state.term index).live = true ∧
    (state.term index).stopped = false

/-- Every start has run, and so has the callback of every cancelled context. -/
def State.Settled (state : State) : Prop :=
  ∀ index < state.begun, (state.term index).start = .released ∨
    (state.term index).live = true ∧ ∃ number, (state.term index).start = .armed number

/-- The settled status is right, and the latest term shows from its store until
its context ends, whatever the starts of older terms do. -/
structure State.Reports (state : State) : Prop where
  settled : state.Settled → (state.status.isLeader = true ↔ state.Leads)
  unhidden : ∀ index, index + 1 = state.begun → (state.term index).live = true →
    (state.term index).start.hasStored = true → state.status.isLeader = true

/-- A start stores before every newer one does, and the counter does not wrap. -/
def Orderly (state : State) : Event → Prop
  | .drew _ => state.status.terms.toNat + 1 < UInt64.size
  | .stored index =>
      ∀ later < state.begun, index < later → (state.term later).start.hasStored = false
  | _ => True

instance decidableOrderly (state : State) : (event : Event) → Decidable (Orderly state event)
  | .drew _ => inferInstanceAs (Decidable (_ < _))
  | .stored index => inferInstanceAs (Decidable (∀ later < state.begun, index < later →
      (state.term later).start.hasStored = false))
  | .began | .cancelled _ | .stopped _ | .armed _ | .released _ => .isTrue trivial

/-- The runs whose steps are all orderly. -/
def orderly : Machine State Event where
  Initial := machine.Initial
  Step before event after := machine.Step before event after ∧ Orderly before event

/-- What holds after every orderly step: the numbers in use differ, the latest
term shows while it is live, and what shows was stored and not taken back. -/
structure Tracked (state : State) : Prop where
  ended : ∀ index, index + 1 < state.begun → (state.term index).live = false
  drained : ∀ index, (state.term index).stopped = true → (state.term index).live = false
  numbered : ∀ index < state.begun, ∀ number, (state.term index).start.number = some number →
    0 < number.toNat ∧ number.toNat ≤ state.status.terms.toNat
  distinct : ∀ first < state.begun, ∀ second < state.begun, ∀ number,
    (state.term first).start.number = some number →
    (state.term second).start.number = some number → first = second
  shows : ∀ index, index + 1 = state.begun → (state.term index).live = true →
    (state.term index).start.hasStored = true →
    ∃ number, (state.term index).start.shown = some number ∧ state.status.leading = number
  source : state.status.leading ≠ 0 →
    ∃ index < state.begun, (state.term index).start.shown = some state.status.leading

variable {number : UInt64}

theorem Start.number_of_shown {start : Start} (shown : start.shown = some number) :
    start.number = some number := by
  cases start with
  | pending | drawn | released => cases shown
  | stored | armed => exact shown

theorem tracked_initial : Tracked {} := by
  constructor
  · intro index before
    exact absurd before (Nat.not_lt_zero _)
  · intro index stopped
    cases stopped
  · intro index known
    exact absurd known (Nat.not_lt_zero _)
  · intro first known
    exact absurd known (Nat.not_lt_zero _)
  · intro index latest
    exact absurd latest (Nat.succ_ne_zero index)
  · intro shown
    exact absurd rfl shown

variable {state : State} {index : Nat}

theorem State.set_term (term : Term) (other : Nat) :
    (state.set index term).term other = if other = index then term else state.term other :=
  Function.update_apply ..

variable (tracked : Tracked state)

include tracked in
theorem Tracked.began
    (vacant : ∀ index, index + 1 = state.begun → (state.term index).stopped = true) :
    Tracked { state with
      begun := state.begun + 1, term := Function.update state.term state.begun {} } := by
  have older : ∀ index, index < state.begun →
      Function.update state.term state.begun {} index = state.term index := by
    intro index known
    exact Function.update_of_ne (Nat.ne_of_lt known) ..
  have fresh : Function.update state.term state.begun {} state.begun = {} := Function.update_self ..
  constructor
  · intro index before
    have known : index < state.begun := by simpa using before
    simp only [older index known]
    by_cases latest : index + 1 = state.begun
    · exact tracked.drained index (vacant index latest)
    · exact tracked.ended index (by omega)
  · intro index stopped
    by_cases here : index = state.begun
    · subst here
      simp only [fresh] at stopped
      cases stopped
    · simp only [Function.update_of_ne here] at stopped ⊢
      exact tracked.drained index stopped
  · intro index known number drawn
    rcases Nat.lt_succ_iff_lt_or_eq.mp known with known | rfl
    · simp only [older index known] at drawn
      exact tracked.numbered index known number drawn
    · simp only [fresh] at drawn
      cases drawn
  · intro first knownFirst second knownSecond number atFirst atSecond
    rcases Nat.lt_succ_iff_lt_or_eq.mp knownFirst with knownFirst | rfl
    · rcases Nat.lt_succ_iff_lt_or_eq.mp knownSecond with knownSecond | rfl
      · simp only [older first knownFirst] at atFirst
        simp only [older second knownSecond] at atSecond
        exact tracked.distinct first knownFirst second knownSecond number atFirst atSecond
      · simp only [fresh] at atSecond
        cases atSecond
    · simp only [fresh] at atFirst
      cases atFirst
  · intro index latest live stored
    obtain rfl : index = state.begun := by simpa using latest
    simp only [fresh] at stored
    cases stored
  · intro leading
    obtain ⟨index, known, shown⟩ := tracked.source leading
    refine ⟨index, Nat.lt_succ_of_lt known, ?_⟩
    simp only [older index known]
    exact shown

include tracked in
/-- A step of one term. What the status shows is left to the step. -/
theorem Tracked.set {term : Term} {status : Status}
    (alive : term.live = true → (state.term index).live = true)
    (drained : term.stopped = true → term.live = false)
    (counted : state.status.terms.toNat ≤ status.terms.toNat)
    (numbered : ∀ number, term.start.number = some number →
      (0 < number.toNat ∧ number.toNat ≤ status.terms.toNat) ∧ ∀ other < state.begun,
        other ≠ index → (state.term other).start.number ≠ some number)
    (shows : ∀ latest, latest + 1 = state.begun → ((state.set index term).term latest).live = true →
      ((state.set index term).term latest).start.hasStored = true →
      ∃ number, ((state.set index term).term latest).start.shown = some number ∧
        status.leading = number)
    (source : status.leading ≠ 0 → ∃ other < state.begun,
      ((state.set index term).term other).start.shown = some status.leading) :
    Tracked { state.set index term with status } := by
  constructor
  · intro other before
    have ended := tracked.ended other before
    simp only [State.set_term]
    by_cases here : other = index
    · subst here
      rw [if_pos rfl, Bool.eq_false_iff]
      intro live
      rw [alive live] at ended
      cases ended
    · rw [if_neg here]
      exact ended
  · intro other stopped
    simp only [State.set_term] at stopped ⊢
    by_cases here : other = index
    · rw [if_pos here] at stopped ⊢
      exact drained stopped
    · rw [if_neg here] at stopped ⊢
      exact tracked.drained other stopped
  · intro other known number drawn
    simp only [State.set_term] at drawn
    by_cases here : other = index
    · rw [if_pos here] at drawn
      exact (numbered number drawn).1
    · rw [if_neg here] at drawn
      obtain ⟨positive, bounded⟩ := tracked.numbered other known number drawn
      exact ⟨positive, Nat.le_trans bounded counted⟩
  · intro first knownFirst second knownSecond number atFirst atSecond
    simp only [State.set_term] at atFirst atSecond
    by_cases hereFirst : first = index
    · rw [if_pos hereFirst] at atFirst
      by_contra different
      rw [if_neg fun hereSecond => different (hereFirst.trans hereSecond.symm)] at atSecond
      exact (numbered number atFirst).2 second knownSecond
        (fun hereSecond => different (hereFirst.trans hereSecond.symm)) atSecond
    · rw [if_neg hereFirst] at atFirst
      by_cases hereSecond : second = index
      · rw [if_pos hereSecond] at atSecond
        exact absurd atFirst ((numbered number atSecond).2 first knownFirst hereFirst)
      · rw [if_neg hereSecond] at atSecond
        exact tracked.distinct first knownFirst second knownSecond number atFirst atSecond
  · exact shows
  · exact source

include tracked in
/-- The numbers of a start are its own before and after a step that keeps them. -/
theorem Tracked.number_kept (term : Term) (known : index < state.begun)
    (same : term.start.number = (state.term index).start.number) :
    ∀ number, term.start.number = some number →
      (0 < number.toNat ∧ number.toNat ≤ state.status.terms.toNat) ∧ ∀ other < state.begun,
        other ≠ index → (state.term other).start.number ≠ some number := by
  intro number drawn
  rw [same] at drawn
  constructor
  · exact tracked.numbered index known number drawn
  · intro other knownOther different atOther
    exact different (tracked.distinct other knownOther index known number atOther drawn)

variable (known : index < state.begun)

include tracked known in
/-- A step that keeps the numbers of its term keeps what the status shows. -/
theorem Tracked.set_same {term : Term} (alive : term.live = true → (state.term index).live = true)
    (drained : term.stopped = true → term.live = false)
    (same : term.start.number = (state.term index).start.number)
    (shown : term.start.shown = (state.term index).start.shown)
    (stored : term.start.hasStored = (state.term index).start.hasStored) :
    Tracked (state.set index term) := by
  have shownAt : ∀ other, ((state.set index term).term other).start.shown =
      (state.term other).start.shown := by
    intro other
    rw [State.set_term]
    split_ifs with here
    · rw [here, shown]
    · rfl
  apply tracked.set alive drained (Nat.le_refl _) (tracked.number_kept term known same)
  · intro latest isLatest live hasStored
    simp only [shownAt]
    rw [State.set_term] at live hasStored
    by_cases here : latest = index
    · subst here
      rw [if_pos rfl] at live hasStored
      exact tracked.shows latest isLatest (alive live) (stored ▸ hasStored)
    · rw [if_neg here] at live hasStored
      exact tracked.shows latest isLatest live hasStored
  · intro leading
    obtain ⟨other, knownOther, shownOther⟩ := tracked.source leading
    exact ⟨other, knownOther, (shownAt other).trans shownOther⟩

include tracked in
theorem Tracked.cancelled (latest : index + 1 = state.begun) :
    Tracked (state.set index { state.term index with live := false }) := by
  apply tracked.set_same (by omega)
  · intro live
    cases live
  · intro _
    rfl
  all_goals rfl

include tracked known in
theorem Tracked.armed (stored : (state.term index).start = .stored number) :
    Tracked (state.set index { state.term index with start := .armed number }) := by
  apply tracked.set_same known
  · exact id
  · exact tracked.drained index
  all_goals rw [stored]; rfl

include tracked in
theorem Tracked.stopped (latest : index + 1 = state.begun)
    (cancelled : (state.term index).live = false) :
    Tracked { state.set index { state.term index with stopped := true } with
      status := state.status.store 0 } := by
  have known : index < state.begun := by omega
  apply tracked.set
  · exact id
  · intro _
    exact cancelled
  · exact Nat.le_refl _
  · exact tracked.number_kept { state.term index with stopped := true } known rfl
  · intro other isLatest live
    obtain rfl : other = index := by omega
    rw [State.set_term, if_pos rfl, cancelled] at live
    cases live
  · intro leading
    exact absurd rfl leading

include tracked known in
theorem Tracked.drew (pending : (state.term index).start = .pending)
    (room : state.status.terms.toNat + 1 < UInt64.size) :
    Tracked { state.set index { state.term index with start := .drawn state.status.add.terms } with
      status := state.status.add } := by
  have counter : state.status.add.terms.toNat = state.status.terms.toNat + 1 := by
    rw [Status.add, UInt64.toNat_add, UInt64.toNat_one]
    exact Nat.mod_eq_of_lt room
  apply tracked.set
  · exact id
  · exact tracked.drained index
  · omega
  · intro number drawn
    obtain rfl : state.status.add.terms = number := Option.some.inj drawn
    constructor
    · omega
    · intro other knownOther different atOther
      obtain ⟨-, bounded⟩ := tracked.numbered other knownOther _ atOther
      omega
  · intro latest isLatest live stored
    rw [State.set_term] at live stored
    by_cases here : latest = index
    · rw [if_pos here] at stored
      cases stored
    · rw [if_neg here] at live stored
      obtain ⟨number, shown, leading⟩ := tracked.shows latest isLatest live stored
      refine ⟨number, ?_, leading⟩
      rw [State.set_term, if_neg here]
      exact shown
  · intro leading
    obtain ⟨other, knownOther, shown⟩ := tracked.source leading
    refine ⟨other, knownOther, ?_⟩
    have here : other ≠ index := by
      rintro rfl
      rw [pending] at shown
      cases shown
    rw [State.set_term, if_neg here]
    exact shown

include tracked known in
theorem Tracked.stored (drawn : (state.term index).start = .drawn number)
    (first : ∀ later < state.begun, index < later → (state.term later).start.hasStored = false) :
    Tracked { state.set index { state.term index with start := .stored number } with
      status := state.status.store number } := by
  apply tracked.set
  · exact id
  · exact tracked.drained index
  · exact Nat.le_refl _
  · apply tracked.number_kept { state.term index with start := .stored number } known
    rw [drawn]
    rfl
  · intro latest isLatest live stored
    rw [State.set_term] at live stored ⊢
    by_cases here : latest = index
    · rw [if_pos here]
      exact ⟨number, rfl, rfl⟩
    · rw [if_neg here] at stored
      rw [first latest (by omega) (by omega)] at stored
      cases stored
  · intro leading
    refine ⟨index, known, ?_⟩
    rw [State.set_term, if_pos rfl]
    rfl

include tracked known in
theorem Tracked.released (armed : (state.term index).start = .armed number)
    (cancelled : (state.term index).live = false) :
    Tracked { state.set index { state.term index with start := .released } with
      status := state.status.release number } := by
  have own : (state.term index).start.number = some number := by
    rw [armed]
    rfl
  -- The number of another start is not the one that is taken back.
  have others : ∀ other < state.begun, other ≠ index → ∀ shown,
      (state.term other).start.shown = some shown → shown ≠ number := by
    rintro other knownOther different shown atOther rfl
    exact different (tracked.distinct other knownOther index known shown
      (Start.number_of_shown atOther) own)
  apply tracked.set
  · exact id
  · exact tracked.drained index
  · rw [Status.release]
    split_ifs
    · exact Nat.le_refl _
    · exact Nat.le_refl _
  · intro other drawn
    cases drawn
  · intro latest isLatest live stored
    rw [State.set_term] at live stored ⊢
    by_cases here : latest = index
    · rw [if_pos here, cancelled] at live
      cases live
    · rw [if_neg here] at live stored ⊢
      obtain ⟨shown, atLatest, leading⟩ := tracked.shows latest isLatest live stored
      refine ⟨shown, atLatest, ?_⟩
      have kept : state.status.leading ≠ number := by
        rw [leading]
        exact others latest (by omega) here shown atLatest
      rw [Status.release, if_neg kept]
      exact leading
  · intro leading
    by_cases taken : state.status.leading = number
    · rw [Status.release, if_pos taken] at leading
      exact absurd rfl leading
    · rw [Status.release, if_neg taken] at leading ⊢
      obtain ⟨other, knownOther, shown⟩ := tracked.source leading
      refine ⟨other, knownOther, ?_⟩
      have here : other ≠ index := by
        rintro rfl
        rw [armed] at shown
        exact taken (Option.some.inj shown).symm
      rw [State.set_term, if_neg here]
      exact shown

include tracked in
theorem Tracked.step {event : Event} {after : State} (step : Step state event after)
    (inOrder : Orderly state event) : Tracked after := by
  cases step with
  | began vacant => exact tracked.began vacant
  | cancelled latest => exact tracked.cancelled latest
  | stopped latest cancelled _ => exact tracked.stopped latest cancelled
  | drew known pending => exact tracked.drew known pending inOrder
  | stored known drawn => exact tracked.stored known drawn inOrder
  | armed known stored => exact tracked.armed known stored
  | released known armed cancelled => exact tracked.released known armed cancelled

include tracked in
theorem Tracked.isLeader (latest : index + 1 = state.begun)
    (live : (state.term index).live = true) (stored : (state.term index).start.hasStored = true) :
    state.status.isLeader = true := by
  obtain ⟨number, shown, leading⟩ := tracked.shows index latest live stored
  obtain ⟨positive, -⟩ := tracked.numbered index (by omega) number (Start.number_of_shown shown)
  rw [Status.isLeader, leading, bne_iff_ne]
  rintro rfl
  exact absurd positive (Nat.lt_irrefl 0)

include tracked in
theorem Tracked.reports : state.Reports := by
  constructor
  · intro settled
    constructor
    · intro leads
      rw [Status.isLeader, bne_iff_ne] at leads
      obtain ⟨index, known, shown⟩ := tracked.source leads
      rcases settled index known with released | ⟨live, -⟩
      · rw [released] at shown
        cases shown
      · have latest : index + 1 = state.begun := by
          by_contra older
          rw [tracked.ended index (by omega)] at live
          cases live
        refine ⟨index, latest, live, ?_⟩
        rw [Bool.eq_false_iff]
        intro stopped
        rw [tracked.drained index stopped] at live
        cases live
    · rintro ⟨index, latest, live, -⟩
      apply tracked.isLeader latest live
      rcases settled index (by omega) with released | ⟨-, number, armed⟩
      · rw [released]
        rfl
      · rw [armed]
        rfl
  · intro index latest live stored
    exact tracked.isLeader latest live stored

/-- In every run in which no term's `OnStartedLeading` stores after the one of a
newer term, and the counter of terms does not wrap, the status reports the
latest term. -/
theorem status_reports {events : List Event} {state : State} (run : orderly.Run events state) :
    state.Reports := by
  apply Tracked.reports
  apply run.invariant
  · rintro state rfl
    exact tracked_initial
  · rintro before event after tracked ⟨step, inOrder⟩
    exact tracked.step step inOrder

/-- The callback of the first term's context runs when the second term leads. -/
def lateRelease : List Event :=
  [.began, .drew 0, .stored 0, .armed 0, .cancelled 0, .stopped 0, .began, .drew 1, .stored 1,
    .armed 1, .released 0]

theorem lateRelease_reports : ∃ state, orderly.Run lateRelease state ∧ state.Settled ∧
    state.Leads ∧ state.Reports := by
  have run : ∃ state, orderly.Run lateRelease state ∧ state.begun = 2 ∧
      state.term 0 = ⟨false, true, .released⟩ ∧ state.term 1 = ⟨true, false, .armed 2⟩ := by
    refine ⟨_, ⟨{}, rfl, .cons ⟨.began (by simp), trivial⟩ (.cons ⟨.drew (by decide) rfl, by decide⟩
      (.cons ⟨.stored (by decide) rfl, by decide⟩
      (.cons ⟨.armed (by decide) rfl, trivial⟩
      (.cons ⟨.cancelled rfl, trivial⟩
      (.cons ⟨.stopped rfl rfl rfl, trivial⟩
      (.cons ⟨.began ?_, trivial⟩
      (.cons ⟨.drew (by decide) rfl, by decide⟩
      (.cons ⟨.stored (by decide) rfl, by decide⟩
      (.cons ⟨.armed (by decide) rfl, trivial⟩
      (.cons ⟨.released (by decide) rfl rfl, trivial⟩ (.nil _)))))))))))⟩, rfl, rfl, rfl⟩
    intro index latest
    obtain rfl : index = 0 := Nat.succ.inj latest
    rfl
  obtain ⟨state, run, begun, first, second⟩ := run
  refine ⟨state, run, ?_, ?_, status_reports run⟩
  · intro index known
    rcases (by omega : index = 0 ∨ index = 1) with rfl | rfl
    · rw [first]
      exact .inl rfl
    · rw [second]
      exact .inr ⟨rfl, 2, rfl⟩
  · refine ⟨1, begun.symm, ?_, ?_⟩
    · rw [second]
    · rw [second]

/-- The start of the first term comes after the one of the second, which is live. -/
def lateStart : List Event :=
  [.began, .cancelled 0, .stopped 0, .began, .drew 1, .stored 1, .armed 1, .drew 0, .stored 0,
    .armed 0, .released 0]

theorem lateStart_hides : ∃ state, machine.Run lateStart state ∧ ¬ state.Reports := by
  have run : ∃ state, machine.Run lateStart state ∧ state.begun = 2 ∧
      state.term 1 = ⟨true, false, .armed 1⟩ ∧ state.status.leading = 0 := by
    refine ⟨_, ⟨{}, rfl, .cons (.began (by simp)) (.cons (.cancelled rfl)
      (.cons (.stopped rfl rfl rfl)
      (.cons (.began ?_)
      (.cons (.drew (by decide) rfl)
      (.cons (.stored (by decide) rfl)
      (.cons (.armed (by decide) rfl)
      (.cons (.drew (by decide) rfl)
      (.cons (.stored (by decide) rfl)
      (.cons (.armed (by decide) rfl)
      (.cons (.released (by decide) rfl rfl) (.nil _)))))))))))⟩, rfl, rfl, rfl⟩
    intro index latest
    obtain rfl : index = 0 := Nat.succ.inj latest
    rfl
  obtain ⟨state, run, begun, second, leading⟩ := run
  refine ⟨state, run, fun reports => ?_⟩
  have shown := reports.unhidden 1 begun.symm (by rw [second]) (by rw [second]; rfl)
  rw [Status.isLeader, leading] at shown
  cases shown

end Golusoris.Leader.Observed
