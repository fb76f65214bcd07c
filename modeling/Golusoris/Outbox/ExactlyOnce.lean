import Golusoris.Outbox.Drainer
import Mathlib.Data.List.Nodup

/-!
# Every row is dispatched at most once

While a batch is open its rows are locked, so what is committed of them is what
the batch selected. What it has written agrees with the outcomes it has marked,
unless its transaction is broken, and then it cannot commit. A commit therefore
records each outcome whole: the job with the mark, or the failure.
-/

namespace Golusoris.Outbox

open List
open Function (update_of_ne update_self)
open Lib

variable {Args Drainer : Type}

/-- The jobs inserted for a row. -/
def inserts (jobs : List (Job Args)) (id : Id) : Nat := jobs.countP fun job => job.row = id

@[simp] theorem inserts_append (first second : List (Job Args)) (id : Id) :
    inserts (first ++ second) id = inserts first id + inserts second id :=
  countP_append

theorem inserts_singleton (job : Job Args) (id : Id) :
    inserts [job] id = if job.row = id then 1 else 0 := by
  simp [inserts, countP_singleton]

/-- How a row changes with an outcome. -/
inductive Marks (row : Row) : Outcome → Row → Prop where
  | failed (cause : DispatchError) (next : Nat) : Marks row .failed (row.fail cause next)
  | dropped (now : Nat) : Marks row .dropped (row.dispatch now)
  | inserted (now : Nat) : Marks row .inserted (row.dispatch now)

/-- The insert of the row at work that is not marked yet. -/
def Batch.pending (batch : Batch Args) (id : Id) : Nat :=
  match batch.phase with
  | .releasing | .marking .inserted => if batch.todo.head? = some id then 1 else 0
  | _ => 0

/-- What the phase says about the transaction. -/
def Batch.Placed (batch : Batch Args) : Prop :=
  match batch.phase with
  | .querying => batch.events = [] ∧ batch.todo = [] ∧ batch.outcomes = []
  | .inserting _ => batch.broken = false ∧ batch.savepoint = some batch.writes
  | .undoing _ => batch.broken = true ∧ ∃ saved, batch.savepoint = some saved ∧
      saved.rows = batch.writes.rows ∧
      ∀ id, inserts saved.jobs id = batch.outcomes.count (id, .inserted)
  | .marking outcome => outcome ≠ .failed
  | _ => True

/-- What holds of an open batch over the database. -/
structure Batch.Sound (db : Database Args) (batch : Batch Args) : Prop where
  held : ∀ id ∈ batch.events, ∃ row, db.rows id = some row ∧ row.dispatchedAt = none
  nodup : batch.events.Nodup
  split : batch.events = batch.outcomes.map Prod.fst ++ batch.todo
  untouched : ∀ id, id ∉ batch.outcomes.map Prod.fst → batch.writes.rows id = none
  marked : ∀ id outcome, (id, outcome) ∈ batch.outcomes → ∃ row next,
    db.rows id = some row ∧ row.dispatchedAt = none ∧ batch.writes.rows id = some next ∧
      Marks row outcome next
  jobs : batch.broken = false → ∀ id, inserts batch.writes.jobs id =
    batch.outcomes.count (id, .inserted) + batch.pending id
  placed : batch.Placed

section Batch

variable {db other : Database Args} {batch next : Batch Args} {options : DrainerOptions}
variable {id : Id} {rest : List Id}

/-- A batch depends on the rows it holds only. -/
theorem Batch.Sound.frame (sound : batch.Sound db)
    (same : ∀ id ∈ batch.events, other.rows id = db.rows id) : batch.Sound other := by
  refine { sound with held := fun id found => ?_, marked := fun id outcome found => ?_ }
  · rw [same id found]
    exact sound.held id found
  · have member : id ∈ batch.events := by
      rw [sound.split]
      exact mem_append_left _ (mem_map.mpr ⟨_, found, rfl⟩)
    rw [same id member]
    exact sound.marked id outcome found

/-- The row at work is as it was selected. -/
theorem Batch.Sound.row_eq (sound : batch.Sound db) (todo : batch.todo = id :: rest) :
    id ∉ batch.outcomes.map Prod.fst ∧
      ∃ row, db.rows id = some row ∧ row.dispatchedAt = none ∧ batch.writes.row db id = some row := by
  have member : id ∈ batch.events := by
    rw [sound.split, todo]
    simp
  have fresh : id ∉ batch.outcomes.map Prod.fst := by
    have nodup := sound.nodup
    rw [sound.split, todo] at nodup
    exact fun found => (nodup_append.mp nodup).2.2 id found id mem_cons_self rfl
  obtain ⟨row, held, undispatched⟩ := sound.held id member
  refine ⟨fresh, row, held, undispatched, ?_⟩
  rw [Writes.row, sound.untouched id fresh, held]

/-- Marking the row at work. -/
theorem Batch.Sound.mark (sound : batch.Sound db) {outcome : Outcome} {row new : Row}
    (todo : batch.todo = id :: rest) (usable : batch.broken = false)
    (found : batch.writes.row db id = some row) (marks : Marks row outcome new)
    (pending : ∀ other, batch.pending other =
      if other = id ∧ outcome = .inserted then 1 else 0) :
    Batch.Sound db
      { batch with
        writes := batch.writes.setRow id new
        todo := rest
        phase := .looping
        outcomes := batch.outcomes ++ [(id, outcome)] } := by
  obtain ⟨fresh, held, selected, undispatched, seen⟩ := sound.row_eq todo
  obtain rfl : held = row := Option.some.inj (seen.symm.trans found)
  constructor
  · exact sound.held
  · exact sound.nodup
  · rw [sound.split, todo]
    simp
  · intro other absent
    rw [map_append, mem_append, not_or] at absent
    have different : other ≠ id := by simpa using absent.2
    rw [Writes.setRow]
    simp only [update_of_ne different]
    exact sound.untouched other absent.1
  · intro other recorded member
    rcases mem_append.mp member with earlier | last
    · have different : other ≠ id := by
        rintro rfl
        exact fresh (mem_map.mpr ⟨(_, recorded), earlier, rfl⟩)
      simp only [Writes.setRow, update_of_ne different]
      exact sound.marked other recorded earlier
    · obtain ⟨rfl, rfl⟩ := Prod.mk.inj (mem_singleton.mp last)
      refine ⟨held, new, selected, undispatched, ?_, marks⟩
      simp only [Writes.setRow, update_self]
  · intro _ other
    have counted := sound.jobs usable other
    rw [pending other] at counted
    simp only [Writes.setRow, Batch.pending, count_append, count_singleton, Nat.add_zero]
    rw [counted]
    congr 1
    simp only [beq_iff_eq, Prod.mk.injEq]
    by_cases same : other = id ∧ outcome = .inserted
    · rw [if_pos same, if_pos ⟨same.1.symm, same.2⟩]
    · rw [if_neg same, if_neg fun again => same ⟨again.1.symm, again.2⟩]
  · trivial

/-- Every step of a batch keeps it sound. -/
theorem Batch.Sound.moves (sound : batch.Sound db) (moves : Moves options db batch next) :
    next.Sound db := by
  cases moves with
  | refuse cause looping todo refused =>
    refine { sound with jobs := fun usable id => ?_, placed := trivial }
    simpa [Batch.pending, looping] using sound.jobs usable id
  | drop looping todo =>
    refine { sound with jobs := fun usable id => ?_, placed := nofun }
    simpa [Batch.pending, looping] using sound.jobs usable id
  | savepoint args looping todo usable =>
    refine { sound with jobs := fun usable id => ?_, placed := ⟨usable, rfl⟩ }
    simpa [Batch.pending, looping] using sound.jobs usable id
  | savepointFails _ _ _ | releaseFails _ _ | undoFails _ _ =>
    exact { sound with jobs := nofun, placed := trivial }
  | @insert id rest args inserting todo usable =>
    refine { sound with jobs := fun usable other => ?_, placed := trivial }
    have counted := sound.jobs usable other
    simp only [Batch.pending, inserting] at counted
    simp only [Batch.pending, inserts_append, inserts_singleton, counted, todo, head?_cons,
      Option.some.injEq, Nat.add_zero]
  | insertFails cause left inserting =>
    have placed := sound.placed
    simp only [Batch.Placed, inserting] at placed
    refine { sound with jobs := nofun, placed := ?_ }
    refine ⟨rfl, batch.writes, placed.2, rfl, fun id => ?_⟩
    simpa [Batch.pending, inserting] using sound.jobs placed.1 id
  | release releasing usable =>
    refine { sound with jobs := fun usable id => ?_, placed := nofun }
    simpa [Batch.pending, releasing] using sound.jobs usable id
  | @undo cause saved undoing set =>
    have placed := sound.placed
    simp only [Batch.Placed, undoing] at placed
    obtain ⟨-, other, found, rows, jobs⟩ := placed
    obtain rfl : saved = other := Option.some.inj (set.symm.trans found)
    refine { sound with
      untouched := fun id absent => ?_, marked := fun id outcome member => ?_,
      jobs := fun _ id => ?_, placed := trivial }
    · rw [rows]
      exact sound.untouched id absent
    · rw [rows]
      exact sound.marked id outcome member
    · simpa [Batch.pending] using jobs id
  | @markFailed id rest cause row failing todo usable found fits =>
    refine sound.mark todo usable found (.failed cause _) fun other => ?_
    simp [Batch.pending, failing]
  | @markDispatched id rest outcome row marking todo usable found =>
    have placed := sound.placed
    simp only [Batch.Placed, marking] at placed
    cases outcome with
    | failed => exact absurd rfl placed
    | dropped =>
      refine sound.mark todo usable found (.dropped _) fun other => ?_
      simp [Batch.pending, marking]
    | inserted =>
      refine sound.mark todo usable found (.inserted _) fun other => ?_
      simp [Batch.pending, marking, todo, eq_comm]

theorem Batch.Sound.nodup_outcomes (sound : batch.Sound db) :
    (batch.outcomes.map Prod.fst).Nodup := by
  have nodup := sound.nodup
  rw [sound.split] at nodup
  exact (nodup_append.mp nodup).1

end Batch

section Counting

variable {outcomes : List (Id × Outcome)} {id : Id} {outcome : Outcome}

theorem count_of_mem (nodup : (outcomes.map Prod.fst).Nodup) (member : (id, outcome) ∈ outcomes)
    (other : Outcome) : outcomes.count (id, other) = if other = outcome then 1 else 0 := by
  by_cases same : other = outcome
  · subst same
    rw [if_pos rfl]
    exact count_eq_one_of_mem (Nodup.of_map _ nodup) member
  · rw [if_neg same, count_eq_zero]
    intro again
    have equal := inj_on_of_nodup_map nodup again member rfl
    exact same (Prod.mk.inj equal).2

theorem count_of_not_mem (absent : id ∉ outcomes.map Prod.fst) (other : Outcome) :
    outcomes.count (id, other) = 0 := by
  rw [count_eq_zero]
  exact fun member => absent (mem_map.mpr ⟨_, member, rfl⟩)

end Counting

/-- An outcome and what goes with it became visible together. -/
def Recorded (before after : Database Args) (id : Id) (outcome : Outcome) : Prop :=
  ∃ row next, before.rows id = some row ∧ row.dispatchedAt = none ∧
    after.rows id = some next ∧ Marks row outcome next ∧
    inserts after.jobs id = inserts before.jobs id + if outcome = .inserted then 1 else 0

/-- A row and its jobs are as they were. -/
def Kept (before after : Database Args) (id : Id) : Prop :=
  after.rows id = before.rows id ∧ inserts after.jobs id = inserts before.jobs id

/-- What a committed batch leaves: its outcomes, and the rest as it was. -/
structure Applied (before after : Database Args) (outcomes : List (Id × Outcome)) : Prop where
  nodup : (outcomes.map Prod.fst).Nodup
  recorded : ∀ id outcome, (id, outcome) ∈ outcomes → Recorded before after id outcome
  kept : ∀ id, id ∉ outcomes.map Prod.fst → Kept before after id

variable {db : Database Args} {batch : Batch Args}

theorem Batch.Sound.applied (sound : batch.Sound db) (looping : batch.phase = .looping)
    (usable : batch.broken = false) : Applied db (batch.writes.apply db) batch.outcomes := by
  have counted : ∀ id, inserts (batch.writes.apply db).jobs id =
      inserts db.jobs id + batch.outcomes.count (id, .inserted) := by
    intro id
    have jobs := sound.jobs usable id
    simp only [Batch.pending, looping, Nat.add_zero] at jobs
    rw [Writes.apply, inserts_append, jobs]
  refine ⟨sound.nodup_outcomes, fun id outcome member => ?_, fun id absent => ?_⟩
  · obtain ⟨row, next, held, undispatched, written, marks⟩ := sound.marked id outcome member
    refine ⟨row, next, held, undispatched, ?_, marks, ?_⟩
    · simp only [Writes.apply, Writes.row, written]
    · rw [counted, count_of_mem sound.nodup_outcomes member]
      simp only [eq_comm]
  · constructor
    · simp only [Writes.apply, Writes.row, sound.untouched id absent]
    · rw [counted, count_of_not_mem absent, Nat.add_zero]

/-- The outcomes of all batches committed so far. -/
def committedOutcomes (history : List (Event Drainer)) : List (Id × Outcome) :=
  history.flatMap fun event =>
    match event with
    | .committed _ outcomes => outcomes
    | _ => []

theorem committedOutcomes_concat (history : List (Event Drainer)) (event : Event Drainer) :
    committedOutcomes (history ++ [event]) =
      committedOutcomes history ++ committedOutcomes [event] :=
  flatMap_append

/-- The outcomes a step commits. -/
theorem committedOutcomes_singleton (event : Event Drainer) : committedOutcomes [event] =
    match event with
    | .committed _ outcomes => outcomes
    | _ => [] := by
  simp [committedOutcomes]

/-- What holds after a history. -/
structure Consistent (history : List (Event Drainer)) (state : State Args Drainer) : Prop where
  sound : ∀ drainer batch, state.batches drainer = some batch → batch.Sound state.db
  apart : ∀ drainer other batch batch', state.batches drainer = some batch →
    state.batches other = some batch' → ∀ id ∈ batch.events, id ∈ batch'.events → drainer = other
  jobs : ∀ id, inserts state.db.jobs id = (committedOutcomes history).count (id, .inserted)
  absent : ∀ id, state.db.rows id = none → id ∉ (committedOutcomes history).map Prod.fst
  attempts : ∀ id row, state.db.rows id = some row →
    row.attempts = (committedOutcomes history).count (id, .failed)
  dispatched : ∀ id row, state.db.rows id = some row →
    (committedOutcomes history).count (id, .inserted) +
      (committedOutcomes history).count (id, .dropped) =
        if row.dispatchedAt = none then 0 else 1

section System

variable [DecidableEq Drainer] {options : Drainer → DrainerOptions}
variable {state after : State Args Drainer} {history : List (Event Drainer)} {event : Event Drainer}

/-- What a step does to the database. -/
def Effect (before after : Database Args) : Event Drainer → Prop
  | .added id => before.rows id = none ∧
      (∃ row, after.rows id = some row ∧ row.dispatchedAt = none ∧ row.attempts = 0) ∧
      after.jobs = before.jobs ∧ ∀ other, other ≠ id → after.rows other = before.rows other
  | .committed _ outcomes => Applied before after outcomes
  | _ => after = before

theorem Consistent.effect (consistent : Consistent history state)
    (step : Step options state event after) : Effect state.db after.db event := by
  cases step with
  | add id kind now fresh =>
    refine ⟨fresh, ⟨_, update_self .., rfl, rfl⟩, rfl, fun other different => ?_⟩
    exact update_of_ne different ..
  | begin _ _ _ | select _ _ _ _ _ _ _ _ _ | move _ _ _ | stop _ _ _ => rfl
  | commit drainer here looping done usable =>
    exact (consistent.sound drainer _ here).applied looping usable

omit [DecidableEq Drainer] in
/-- The ledger of the committed outcomes is kept by every step. -/
theorem Consistent.ledger (consistent : Consistent history state)
    (effect : Effect state.db after.db event) :
    (∀ id, inserts after.db.jobs id = (committedOutcomes (history ++ [event])).count (id, .inserted)) ∧
      (∀ id, after.db.rows id = none →
        id ∉ (committedOutcomes (history ++ [event])).map Prod.fst) ∧
      ∀ id row, after.db.rows id = some row →
        row.attempts = (committedOutcomes (history ++ [event])).count (id, .failed) ∧
        (committedOutcomes (history ++ [event])).count (id, .inserted) +
          (committedOutcomes (history ++ [event])).count (id, .dropped) =
            if row.dispatchedAt = none then 0 else 1 := by
  rw [committedOutcomes_concat, committedOutcomes_singleton]
  have unchanged (same : after.db = state.db) := And.intro consistent.jobs
    (And.intro consistent.absent fun id row found =>
      And.intro (consistent.attempts id row found) (consistent.dispatched id row found))
  cases event with
  | began | selected | moved | stopped =>
    simpa [show after.db = state.db from effect] using unchanged effect
  | added id =>
    obtain ⟨fresh, ⟨row, added, undispatched, untried⟩, jobs, others⟩ := effect
    simp only [append_nil]
    have none := consistent.absent id fresh
    refine ⟨fun other => jobs ▸ consistent.jobs other, fun other missing => ?_,
      fun other found present => ?_⟩
    · by_cases same : other = id
      · rw [same, added] at missing
        cases missing
      · exact consistent.absent other (others other same ▸ missing)
    · by_cases same : other = id
      · subst same
        obtain rfl := Option.some.inj (added.symm.trans present)
        rw [untried, undispatched, if_pos rfl, count_of_not_mem none, count_of_not_mem none,
          count_of_not_mem none]
        exact ⟨rfl, rfl⟩
      · rw [others other same] at present
        exact ⟨consistent.attempts other found present, consistent.dispatched other found present⟩
  | committed drainer outcomes =>
    obtain ⟨nodup, recorded, kept⟩ := effect
    simp only [count_append, map_append, mem_append, not_or]
    refine ⟨fun id => ?_, fun id missing => ?_, fun id row present => ?_⟩
    · by_cases member : id ∈ outcomes.map Prod.fst
      · obtain ⟨⟨_, outcome⟩, found, rfl⟩ := mem_map.mp member
        obtain ⟨_, _, _, _, _, _, inserted⟩ := recorded _ outcome found
        rw [inserted, consistent.jobs, count_of_mem nodup found]
        simp only [eq_comm]
      · rw [(kept id member).2, consistent.jobs, count_of_not_mem member, Nat.add_zero]
    · by_cases member : id ∈ outcomes.map Prod.fst
      · obtain ⟨⟨_, outcome⟩, found, rfl⟩ := mem_map.mp member
        obtain ⟨_, next, _, _, written, _⟩ := recorded _ outcome found
        rw [written] at missing
        cases missing
      · exact ⟨consistent.absent id ((kept id member).1 ▸ missing), member⟩
    · by_cases member : id ∈ outcomes.map Prod.fst
      · obtain ⟨⟨_, outcome⟩, found, rfl⟩ := mem_map.mp member
        obtain ⟨before, next, held, undispatched, written, marks, -⟩ := recorded _ outcome found
        obtain rfl := Option.some.inj (written.symm.trans present)
        have attempts := consistent.attempts _ before held
        have dispatched := consistent.dispatched _ before held
        rw [if_pos undispatched] at dispatched
        simp only [count_of_mem nodup found]
        cases marks with
        | failed cause next =>
          simp [Row.fail, undispatched, attempts]
          omega
        | dropped _ | inserted _ =>
          simp [Row.dispatch, attempts]
          omega
      · simp only [count_of_not_mem member, Nat.add_zero]
        rw [(kept id member).1] at present
        exact ⟨consistent.attempts id row present, consistent.dispatched id row present⟩

theorem Moves.events_eq {next : Batch Args} {options : DrainerOptions}
    (moves : Moves options db batch next) : next.events = batch.events := by
  cases moves <;> rfl

/-- A batch begins with nothing. -/
theorem sound_begun (db : Database Args) (now : Nat) : Batch.Sound db { now := now } where
  held := nofun
  nodup := nodup_nil
  split := rfl
  untouched _ _ := rfl
  marked := nofun
  jobs _ _ := rfl
  placed := ⟨rfl, rfl, rfl⟩

theorem Batch.Sound.select {ids : List Id} (sound : batch.Sound db)
    (querying : batch.phase = .querying) (nodup : ids.Nodup)
    (due : ∀ id ∈ ids, Due db batch.now id) :
    Batch.Sound db { batch with events := ids, todo := ids, phase := .looping } := by
  have placed := sound.placed
  simp only [Batch.Placed, querying] at placed
  obtain ⟨-, -, none⟩ := placed
  refine { sound with
    held := fun id found => ?_, nodup := nodup, split := by simp [none], jobs := fun usable id => ?_,
    placed := trivial }
  · obtain ⟨row, held, undispatched, -⟩ := due id found
    exact ⟨row, held, undispatched⟩
  · simpa [Batch.pending, querying] using sound.jobs usable id

/-- A new batch for one drainer is all that a step within a transaction changes. -/
theorem Consistent.batches_setBatch (consistent : Consistent history state) {drainer : Drainer}
    (sound : batch.Sound state.db)
    (free : ∀ other batch', other ≠ drainer → state.batches other = some batch' →
      ∀ id ∈ batch.events, id ∉ batch'.events) :
    (∀ drainer' batch', (state.setBatch drainer (some batch)).batches drainer' = some batch' →
      batch'.Sound state.db) ∧
    ∀ first second one two, (state.setBatch drainer (some batch)).batches first = some one →
      (state.setBatch drainer (some batch)).batches second = some two →
      ∀ id ∈ one.events, id ∈ two.events → first = second := by
  have look : ∀ other batch', (state.setBatch drainer (some batch)).batches other = some batch' →
      other = drainer ∧ batch' = batch ∨ other ≠ drainer ∧ state.batches other = some batch' := by
    intro other batch' found
    by_cases same : other = drainer
    · subst same
      simp only [State.setBatch, update_self] at found
      exact .inl ⟨rfl, (Option.some.inj found).symm⟩
    · simp only [State.setBatch, update_of_ne same] at found
      exact .inr ⟨same, found⟩
  constructor
  · intro other batch' found
    rcases look other batch' found with ⟨-, rfl⟩ | ⟨-, found⟩
    · exact sound
    · exact consistent.sound other batch' found
  · intro first second one two foundOne foundTwo id memberOne memberTwo
    rcases look first one foundOne with ⟨rfl, rfl⟩ | ⟨differs, found⟩
    · rcases look second two foundTwo with ⟨rfl, -⟩ | ⟨differs', found'⟩
      · rfl
      · exact absurd memberTwo (free second two differs' found' id memberOne)
    · rcases look second two foundTwo with ⟨rfl, rfl⟩ | ⟨differs', found'⟩
      · exact absurd memberOne (free first one differs found id memberTwo)
      · exact consistent.apart first second one two found found' id memberOne memberTwo

/-- A batch that ends leaves the others. -/
theorem batches_setBatch_none {drainer other : Drainer}
    (found : (state.setBatch drainer none).batches other = some batch) :
    other ≠ drainer ∧ state.batches other = some batch := by
  by_cases same : other = drainer
  · subst same
    simp only [State.setBatch, update_self] at found
    cases found
  · simp only [State.setBatch, update_of_ne same] at found
    exact ⟨same, found⟩

theorem Consistent.step (consistent : Consistent history state)
    (step : Step options state event after) : Consistent (history ++ [event]) after := by
  obtain ⟨jobs, absent, rows⟩ := consistent.ledger (consistent.effect step)
  suffices batches : (∀ drainer batch, after.batches drainer = some batch → batch.Sound after.db) ∧
      ∀ drainer other batch batch', after.batches drainer = some batch →
        after.batches other = some batch' → ∀ id ∈ batch.events, id ∈ batch'.events →
          drainer = other from
    ⟨batches.1, batches.2, jobs, absent, fun id row found => (rows id row found).1,
      fun id row found => (rows id row found).2⟩
  cases step with
  | add id kind now fresh =>
    refine ⟨fun drainer batch found => ?_, consistent.apart⟩
    have sound := consistent.sound drainer batch found
    refine sound.frame fun other member => ?_
    obtain ⟨row, held, -⟩ := sound.held other member
    have different : other ≠ id := by
      rintro rfl
      rw [fresh] at held
      cases held
    exact update_of_ne different ..
  | begin drainer now idle =>
    exact consistent.batches_setBatch (sound_begun state.db now) fun _ _ _ _ => nofun
  | @select batch limit drainer ids here querying bound few nodup due free =>
    refine consistent.batches_setBatch
      ((consistent.sound drainer batch here).select querying nodup due) ?_
    intro other batch' _ found id member held
    exact free id member ⟨other, batch', found, held⟩
  | @move batch next drainer here moves =>
    refine consistent.batches_setBatch ((consistent.sound drainer batch here).moves moves) ?_
    intro other batch' differs found id member held
    rw [moves.events_eq] at member
    exact differs (consistent.apart drainer other batch batch' here found id member held).symm
  | @commit batch drainer here looping done usable =>
    have sound := consistent.sound drainer batch here
    have applied := sound.applied looping usable
    constructor
    · intro other batch' found
      obtain ⟨differs, found⟩ := batches_setBatch_none found
      -- The rows of another batch are not among those of this one.
      refine (consistent.sound other batch' found).frame fun id member => (applied.kept id ?_).1
      intro recorded
      have held : id ∈ batch.events := by
        rw [sound.split]
        exact mem_append_left _ recorded
      exact differs (consistent.apart drainer other batch batch' here found id held member).symm
    · intro first second one two foundOne foundTwo
      exact consistent.apart first second one two (batches_setBatch_none foundOne).2
        (batches_setBatch_none foundTwo).2
  | stop drainer reason here =>
    constructor
    · intro other batch found
      exact consistent.sound other batch (batches_setBatch_none found).2
    · intro first second one two foundOne foundTwo
      exact consistent.apart first second one two (batches_setBatch_none foundOne).2
        (batches_setBatch_none foundTwo).2

theorem consistent_of_run {finish : State Args Drainer}
    (run : (drainers Args options).Run history finish) : Consistent history finish := by
  refine run.history_invariant Consistent ?_ ?_
  · rintro state rfl
    exact ⟨nofun, nofun, fun _ => rfl, fun _ _ => not_mem_nil, nofun, nofun⟩
  · intro history before event after consistent step
    exact consistent.step step

/-- Each row has at most one committed job. Its attempts are the committed batches
that failed on it. It is dispatched just when one committed batch inserted its
job or the dispatcher wanted none, and every step changes the mark of a row and
its jobs together. -/
theorem outbox_exactly_once {finish : State Args Drainer}
    (run : (drainers Args options).Run history finish) :
    (∀ id, inserts finish.db.jobs id ≤ 1) ∧
      (∀ id row, finish.db.rows id = some row →
        row.attempts = (committedOutcomes history).count (id, .failed) ∧
        (row.dispatchedAt = none → inserts finish.db.jobs id = 0 ∧
          (committedOutcomes history).count (id, .dropped) = 0) ∧
        (row.dispatchedAt ≠ none →
          inserts finish.db.jobs id = 1 ∧ (committedOutcomes history).count (id, .dropped) = 0 ∨
          inserts finish.db.jobs id = 0 ∧ (committedOutcomes history).count (id, .dropped) = 1)) ∧
      ∀ event after, (drainers Args options).Step finish event after →
        Effect finish.db after.db event := by
  have consistent := consistent_of_run run
  refine ⟨fun id => ?_, fun id row found => ⟨consistent.attempts id row found, ?_, ?_⟩,
    fun event after step => consistent.effect step⟩
  · rw [consistent.jobs id]
    cases found : finish.db.rows id with
    | none =>
      rw [count_of_not_mem (consistent.absent id found)]
      exact Nat.zero_le 1
    | some row =>
      have dispatched := consistent.dispatched id row found
      split at dispatched <;> omega
  · intro undispatched
    have dispatched := consistent.dispatched id row found
    rw [if_pos undispatched] at dispatched
    rw [consistent.jobs id]
    omega
  · intro marked
    have dispatched := consistent.dispatched id row found
    rw [if_neg marked] at dispatched
    rw [consistent.jobs id]
    omega

end System

/-- One drainer takes two rows; the job of the second is refused by the database and
rolled back, and the batch commits. -/
theorem exactly_once_mixed_batch : ∃ history finish,
    (drainers Unit fun _ : Bool => ⟨0, 0⟩).Run history finish ∧
      inserts finish.db.jobs 1 = 1 ∧ inserts finish.db.jobs 2 = 0 ∧
      (finish.db.rows 2).map Row.attempts = some 1 ∧ ∀ id, inserts finish.db.jobs id ≤ 1 := by
  suffices run : ∃ history finish, (drainers Unit fun _ : Bool => ⟨0, 0⟩).Run history finish ∧
      inserts finish.db.jobs 1 = 1 ∧ inserts finish.db.jobs 2 = 0 ∧
      (finish.db.rows 2).map Row.attempts = some 1 by
    obtain ⟨history, finish, run, first, second, attempts⟩ := run
    exact ⟨history, finish, run, first, second, attempts, (outbox_exactly_once run).1⟩
  refine ⟨_, _, ⟨_, rfl, .cons (Step.add 1 "order" 0 rfl) <| .cons (Step.add 2 "order" 0 rfl) <|
    .cons (Step.begin true 5 rfl) <|
    .cons (Step.select true [1, 2] rfl rfl rfl (by decide) (by decide) ?_ ?_) <|
    .cons (Step.move true rfl (.savepoint () rfl rfl rfl)) <|
    .cons (Step.move true rfl (.insert rfl rfl rfl)) <|
    .cons (Step.move true rfl (.release rfl rfl)) <|
    .cons (Step.move true rfl (.markDispatched rfl rfl rfl rfl)) <|
    .cons (Step.move true rfl (.savepoint () rfl rfl rfl)) <|
    .cons (Step.move true rfl (.insertFails "rejected" [⟨2, ()⟩] rfl)) <|
    .cons (Step.move true rfl (.undo rfl rfl)) <|
    .cons (Step.move true rfl (.markFailed rfl rfl rfl rfl (by decide))) <|
    .cons (Step.commit true rfl rfl rfl rfl) (.nil _)⟩, ?_, ?_, ?_⟩
  · intro id found
    rcases List.mem_pair.mp found with rfl | rfl
    · exact ⟨_, rfl, rfl, Nat.zero_le 5⟩
    · exact ⟨_, rfl, rfl, Nat.zero_le 5⟩
  · rintro id - ⟨drainer, batch, found, held⟩
    cases drainer with
    | false => cases found
    | true =>
      cases found
      cases held
  · rfl
  · rfl
  · rfl

end Golusoris.Outbox
