import Golusoris.Lockout.Service
import Mathlib.Data.List.Induction

/-!
# When a lock lasts its cooldown

A lock only ever moves forward while failures are added to the counter that
reached the threshold. The one way out is a failure after the window of that
counter: it starts a new counter, and with it drops the deadline. `Unlocks`
names that failure, and `lock_lasts_iff` says that a lock lasts its cooldown
exactly in the sequences that have none.
-/

namespace Golusoris.Lockout

open List
open Lib

variable {policy : Policy} {key : String} {calls : List Call}

/-- A failure that drops a deadline still ahead: it falls outside the window of
the locked counter, and one failure does not lock again. -/
def Unlocks (policy : Policy) (store : MemoryStore) (key : String) (now storeNow : Nat) : Prop :=
  1 < policy.maxFails ∧ ∃ entry, store key = some entry ∧
    storeNow < entry.state.lockedUntil ∧ policy.window < sub now entry.state.firstFailAt

/-- The key is locked for a cooldown from `now` on. -/
def LockedFrom (policy : Policy) (store : MemoryStore) (key : String) (now : Nat) : Prop :=
  ∃ entry, store key = some entry ∧ entry.state.lockedUntil = now + policy.cooldown

/-- After each failure that locks the key, every check before the deadline
reports it locked. -/
def LockLasts (policy : Policy) (key : String) (calls : List Call) : Prop :=
  ∀ earlier now storeNow middle checkStore checkNow,
    earlier ++ .fail key now storeNow :: middle <+: calls →
    LockedFrom policy (after policy (earlier ++ [.fail key now storeNow])) key now →
    Chronological (earlier ++ .fail key now storeNow :: middle ++
      [.check key checkStore checkNow]) →
    checkNow < now + policy.cooldown →
    (check (after policy (earlier ++ .fail key now storeNow :: middle)) key checkStore
      checkNow).2 = .error .accountLocked

theorem after_append (earlier later : List Call) :
    after policy (earlier ++ later) =
      later.foldl (fun store call => (call.perform policy store).1) (after policy earlier) :=
  foldl_append

theorem after_snoc (call : Call) :
    after policy (calls ++ [call]) = (call.perform policy (after policy calls)).1 := by
  rw [after_append]
  rfl

/-- `check` leaves a key alone unless its entry has expired. -/
theorem check_store (key : String) (store : MemoryStore) (other : String) (storeNow now : Nat) :
    (check store other storeNow now).1 key = store key ∨
      other = key ∧ (check store other storeNow now).1 key = none ∧
        ∃ entry, store key = some entry ∧ entry.expired storeNow = true := by
  unfold check MemoryStore.get
  cases validateKey other with
  | error => exact .inl rfl
  | ok =>
    cases found : store other with
    | none => exact .inl rfl
    | some entry =>
      by_cases expired : entry.expired storeNow = true
      · by_cases same : other = key
        · subst same
          refine .inr ⟨rfl, ?_, entry, found, expired⟩
          simp [expired]
        · refine .inl ?_
          simp [expired, Function.update_of_ne (Ne.symm same)]
      · refine .inl ?_
        simp only [expired, Bool.false_eq_true, if_false]
        split_ifs with locked
        · rfl
        · rfl

theorem fail_store (policy : Policy) (key : String) (store : MemoryStore) (other : String)
    (now storeNow : Nat) :
    (fail store policy other now storeNow).1 key = store key ∨
      other = key ∧ validateKey key = .ok () ∧
        (fail store policy other now storeNow).1 key =
          some (recorded policy (openWindow policy (store key) now storeNow) now storeNow) := by
  unfold fail
  cases valid : validateKey other with
  | error => exact .inl rfl
  | ok =>
    by_cases same : other = key
    · subst same
      exact .inr ⟨rfl, valid, Function.update_self ..⟩
    · exact .inl (Function.update_of_ne (Ne.symm same) ..)

/-- The counter a failure is added to was there, or it starts now. -/
theorem openWindow_cases (policy : Policy) (entry : Option MemEntry) (now storeNow : Nat) :
    (openWindow policy entry now storeNow = { firstFailAt := now } ∧
        ∀ stored, entry = some stored → stored.expired storeNow = true ∨
          stored.state.firstFailAt = 0 ∨ policy.window < sub now stored.state.firstFailAt) ∨
      ∃ stored, entry = some stored ∧ stored.state.firstFailAt ≠ 0 ∧
        openWindow policy entry now storeNow = stored.state := by
  cases entry with
  | none => exact .inl ⟨rfl, nofun⟩
  | some stored =>
    unfold openWindow
    simp only
    split_ifs with stale
    · refine .inl ⟨rfl, fun other same => ?_⟩
      cases same
      exact stale
    · refine .inr ⟨stored, rfl, ?_, rfl⟩
      exact fun unset => stale (.inr (.inl unset))

theorem recorded_cases (policy : Policy) (state : State) (now storeNow : Nat) :
    (policy.maxFails ≤ state.fails + 1 ∧
        recorded policy state now storeNow =
          ⟨⟨state.fails + 1, state.firstFailAt, now + policy.cooldown⟩,
            storeNow + policy.cooldown⟩) ∨
      state.fails + 1 < policy.maxFails ∧
        recorded policy state now storeNow =
          ⟨⟨state.fails + 1, state.firstFailAt, state.lockedUntil⟩, storeNow + policy.window⟩ := by
  unfold recorded
  by_cases locks : policy.maxFails ≤ state.fails + 1
  · exact .inl ⟨locks, if_pos locks⟩
  · exact .inr ⟨Nat.lt_of_not_le locks, if_neg locks⟩

/-- What the entry of a key says about the calls so far. -/
structure Counted (policy : Policy) (key : String) (calls : List Call) (entry : MemEntry) :
    Prop where
  valid : validateKey key = .ok ()
  first : 2 ≤ entry.state.fails → entry.state.firstFailAt ≠ 0
  reached : entry.state.lockedUntil ≠ 0 → policy.maxFails ≤ entry.state.fails
  locked : entry.state.lockedUntil ≠ 0 → ∃ earlier now storeNow middle,
    calls = earlier ++ .fail key now storeNow :: middle ∧
      entry.state.lockedUntil = now + policy.cooldown ∧
      LockedFrom policy (after policy (earlier ++ [.fail key now storeNow])) key now

theorem Counted.snoc {entry : MemEntry} (counted : Counted policy key calls entry) (call : Call) :
    Counted policy key (calls ++ [call]) entry where
  valid := counted.valid
  first := counted.first
  reached := counted.reached
  locked := by
    intro ahead
    obtain ⟨earlier, now, storeNow, middle, rfl, deadline, locked⟩ := counted.locked ahead
    exact ⟨earlier, now, storeNow, middle ++ [call], by simp, deadline, locked⟩

variable {now storeNow : Nat}

/-- A failure adds to a counter that it may have started. -/
theorem Counted.fail
    (counted : ∀ entry, after policy calls key = some entry → Counted policy key calls entry)
    (valid : validateKey key = .ok ())
    (stored : after policy (calls ++ [.fail key now storeNow]) key =
      some (recorded policy (openWindow policy (after policy calls key) now storeNow) now
        storeNow)) :
    Counted policy key (calls ++ [.fail key now storeNow])
      (recorded policy (openWindow policy (after policy calls key) now storeNow) now storeNow) := by
  -- What the counter brings along: its window has begun and it has not been locked in vain.
  obtain ⟨first, reached⟩ :
      (1 ≤ (openWindow policy (after policy calls key) now storeNow).fails →
        (openWindow policy (after policy calls key) now storeNow).firstFailAt ≠ 0) ∧
      ((openWindow policy (after policy calls key) now storeNow).lockedUntil ≠ 0 →
        policy.maxFails ≤ (openWindow policy (after policy calls key) now storeNow).fails) := by
    rcases openWindow_cases policy (after policy calls key) now storeNow with
      ⟨anew, -⟩ | ⟨entry, found, begun, same⟩
    · rw [anew]
      exact ⟨nofun, fun ahead => absurd rfl ahead⟩
    · rw [same]
      exact ⟨fun _ => begun, (counted entry found).reached⟩
  generalize openWindow policy (after policy calls key) now storeNow = state at *
  rcases recorded_cases policy state now storeNow with ⟨locks, same⟩ | ⟨below, same⟩
  · refine ⟨valid, ?_, ?_, ?_⟩
    · rw [same]
      intro twice
      exact first (Nat.le_of_succ_le_succ twice)
    · rw [same]
      exact fun _ => locks
    · intro _
      refine ⟨calls, now, storeNow, [], rfl, by rw [same], _, stored, by rw [same]⟩
  · have unlocked : state.lockedUntil = 0 := by
      by_contra ahead
      have := reached ahead
      omega
    rw [same, unlocked]
    exact ⟨valid, fun twice => first (Nat.le_of_succ_le_succ twice), fun ahead => absurd rfl ahead,
      fun ahead => absurd rfl ahead⟩

theorem counted (policy : Policy) (key : String) (calls : List Call) :
    ∀ entry, after policy calls key = some entry → Counted policy key calls entry := by
  induction calls using reverseRecOn with
  | nil =>
    intro entry found
    cases found
  | append_singleton calls call ih =>
    intro entry found
    rw [after_snoc] at found
    cases call with
    | check other storeNow now =>
      rcases check_store key (after policy calls) other storeNow now with
        same | ⟨-, gone, -⟩
      · exact (ih entry (same.symm.trans found)).snoc _
      · exact absurd (gone.symm.trans found) nofun
    | fail other now storeNow =>
      rcases fail_store policy key (after policy calls) other now storeNow
        with same | ⟨rfl, valid, stored⟩
      · exact (ih entry (same.symm.trans found)).snoc _
      · obtain rfl := Option.some.inj (stored.symm.trans found)
        exact Counted.fail ih valid ((congrFun (after_snoc _) _).trans stored)

/-- The key is locked at least until a cooldown after `now`. -/
def Standing (policy : Policy) (store : MemoryStore) (key : String) (now : Nat) : Prop :=
  ∃ entry, store key = some entry ∧ policy.maxFails ≤ entry.state.fails ∧
    now + policy.cooldown ≤ entry.state.lockedUntil ∧ now + policy.cooldown ≤ entry.expires

theorem Standing.begins (ordered : now ≤ storeNow)
    (locked : LockedFrom policy (after policy (calls ++ [.fail key now storeNow])) key now) :
    Standing policy (after policy (calls ++ [.fail key now storeNow])) key now := by
  obtain ⟨entry, found, deadline⟩ := locked
  have positive := policy.cooldown_pos
  have ahead : entry.state.lockedUntil ≠ 0 := by omega
  have sound := counted policy key (calls ++ [.fail key now storeNow]) entry found
  refine ⟨entry, found, sound.reached ahead, Nat.le_of_eq deadline.symm, ?_⟩
  have stored : (fail (after policy calls) policy key now storeNow).1 key = some entry :=
    (congrFun (after_snoc _) key).symm.trans found
  have same : recorded policy (openWindow policy (after policy calls key) now storeNow) now
      storeNow = entry := by
    simpa [Lockout.fail, sound.valid, MemoryStore.recordFailure] using stored
  rcases recorded_cases policy (openWindow policy (after policy calls key) now storeNow) now
    storeNow with ⟨-, locks⟩ | ⟨below, counts⟩
  · rw [← same, locks]
    exact Nat.add_le_add_right ordered _
  · have := sound.reached ahead
    rw [← same, counts] at this
    simp only at this
    omega

/-- A live lock reports itself. -/
theorem Standing.check {store : MemoryStore} {checkStore checkNow : Nat}
    (standing : Standing policy store key now) (valid : validateKey key = .ok ())
    (ordered : checkStore ≤ checkNow) (ahead : checkNow < now + policy.cooldown) :
    (check store key checkStore checkNow).2 = .error .accountLocked := by
  obtain ⟨entry, found, -, deadline, expires⟩ := standing
  have live : entry.expired checkStore = false := by
    simp only [MemEntry.expired, decide_eq_false_iff_not]
    omega
  have locked : entry.state.lockedUntil ≠ 0 ∧ checkNow < entry.state.lockedUntil := by omega
  unfold Lockout.check MemoryStore.get
  simp only [valid, found, live, Bool.false_eq_true, if_false, if_pos locked]

/-- A call before the deadline keeps the lock unless it is a failure that drops
it. -/
theorem Standing.step {call : Call} (standing : Standing policy (after policy calls) key now)
    (later : now ≤ call.first) (ordered : call.first ≤ call.last)
    (ahead : call.last < now + policy.cooldown)
    (kept : ∀ failNow storeNow, call = .fail key failNow storeNow →
      ¬ Unlocks policy (after policy calls) key failNow storeNow) :
    Standing policy (after policy (calls ++ [call])) key now := by
  obtain ⟨entry, found, reached, deadline, expires⟩ := standing
  rw [after_snoc]
  cases call with
  | check other storeNow checkNow =>
    rcases check_store key (after policy calls) other storeNow checkNow with
      same | ⟨-, -, stored, found', expired⟩
    · exact ⟨entry, same.trans found, reached, deadline, expires⟩
    · obtain rfl := Option.some.inj (found.symm.trans found')
      simp only [MemEntry.expired, decide_eq_true_eq, Call.first, Call.last] at expired ordered ahead
      omega
  | fail other failNow storeNow =>
    rcases fail_store policy key (after policy calls) other failNow storeNow with
      same | ⟨rfl, valid, stored⟩
    · exact ⟨entry, same.trans found, reached, deadline, expires⟩
    · simp only [Call.first, Call.last] at later ordered ahead
      have locks : policy.maxFails ≤
          (openWindow policy (after policy calls other) failNow storeNow).fails + 1 := by
        rcases openWindow_cases policy (after policy calls other) failNow storeNow with
          ⟨anew, stale⟩ | ⟨stored₀, found', -, same⟩
        · -- The counter was dropped, so a single failure has to lock again.
          rw [anew]
          by_contra more
          have several : 1 < policy.maxFails := Nat.lt_of_not_le more
          have begun := (counted policy other calls entry found).first (by omega)
          rcases stale entry found with expired | unset | outside
          · simp only [MemEntry.expired, decide_eq_true_eq] at expired
            omega
          · exact begun unset
          · exact kept failNow storeNow rfl ⟨several, entry, found, by omega, outside⟩
        · obtain rfl := Option.some.inj (found.symm.trans found')
          rw [same]
          exact Nat.le_succ_of_le reached
      rcases recorded_cases policy (openWindow policy (after policy calls other) failNow storeNow)
        failNow storeNow with ⟨-, same⟩ | ⟨below, -⟩
      · refine ⟨_, stored, ?_, ?_, ?_⟩
        · rw [same]
          exact locks
        · rw [same]
          exact Nat.add_le_add_right later _
        · rw [same]
          exact Nat.add_le_add_right (Nat.le_trans later ordered) _
      · omega

variable {earlier : List Call}

/-- No call in between dropped the lock. -/
theorem Standing.run {middle : List Call}
    (kept : ∀ before failNow failStore rest, middle = before ++ .fail key failNow failStore :: rest →
      ¬ Unlocks policy (after policy (earlier ++ .fail key now storeNow :: before)) key failNow failStore)
    (ordered : now ≤ storeNow)
    (locked : LockedFrom policy (after policy (earlier ++ [.fail key now storeNow])) key now)
    (timely : ∀ call ∈ middle, now ≤ call.first ∧ call.first ≤ call.last ∧
      call.last < now + policy.cooldown) :
    Standing policy (after policy (earlier ++ .fail key now storeNow :: middle)) key now := by
  induction middle using reverseRecOn with
  | nil => exact Standing.begins ordered locked
  | append_singleton middle call ih =>
    have shape : earlier ++ .fail key now storeNow :: (middle ++ [call]) =
        (earlier ++ .fail key now storeNow :: middle) ++ [call] := by simp
    have standing := ih
      (fun before failNow failStore rest same =>
        kept before failNow failStore (rest ++ [call]) (by simp [same]))
      (fun other member => timely other (mem_append_left _ member))
    obtain ⟨later, forward, ahead⟩ := timely call (by simp)
    rw [shape]
    refine standing.step later forward ahead ?_
    rintro failNow failStore rfl
    exact kept middle failNow failStore [] rfl

/-- The calls between a failure and a check before the deadline it sets. -/
theorem Chronological.between {middle : List Call} {checkStore checkNow : Nat}
    (chronological : Chronological (earlier ++ .fail key now storeNow :: middle ++
      [.check key checkStore checkNow]))
    (ahead : checkNow < now + policy.cooldown) :
    now ≤ storeNow ∧ checkStore ≤ checkNow ∧ ∀ call ∈ middle,
      now ≤ call.first ∧ call.first ≤ call.last ∧ call.last < now + policy.cooldown := by
  obtain ⟨forward, ordered⟩ := chronological
  have failForward : now ≤ storeNow := forward (.fail key now storeNow) (by simp)
  have checkForward : checkStore ≤ checkNow := forward (.check key checkStore checkNow) (by simp)
  rw [append_assoc, cons_append, pairwise_append, pairwise_cons,
    pairwise_append] at ordered
  obtain ⟨-, ⟨afterFail, -, -, beforeCheck⟩, -⟩ := ordered
  refine ⟨failForward, checkForward, fun call member => ?_⟩
  have started : storeNow ≤ call.first := afterFail call (mem_append_left _ member)
  have ended : call.last ≤ checkStore := beforeCheck call member _ (mem_singleton_self _)
  have own := forward call (by simp [member])
  exact ⟨Nat.le_trans failForward started, own, by omega⟩

/-- A failure that drops the lock leaves the key open at once. -/
theorem Unlocks.check (valid : validateKey key = .ok ())
    (unlocks : Unlocks policy (after policy calls) key now storeNow) :
    (check (after policy (calls ++ [.fail key now storeNow])) key storeNow storeNow).2 =
      .ok () := by
  obtain ⟨several, entry, found, -, outside⟩ := unlocks
  have anew : openWindow policy (after policy calls key) now storeNow = { firstFailAt := now } := by
    rw [found]
    exact if_pos (.inr (.inr outside))
  have stored : after policy (calls ++ [.fail key now storeNow]) key =
      some ⟨⟨1, now, 0⟩, storeNow + policy.window⟩ := by
    rw [after_snoc]
    rcases fail_store policy key (after policy calls) key now storeNow with same | ⟨-, -, stored⟩
    · simp [Call.perform, Lockout.fail, valid, MemoryStore.recordFailure, anew, recorded,
        Nat.not_le_of_lt several]
    · refine stored.trans ?_
      rw [anew]
      simp [recorded, Nat.not_le_of_lt several]
  have live : (⟨⟨1, now, 0⟩, storeNow + policy.window⟩ : MemEntry).expired storeNow = false := by
    simp only [MemEntry.expired, decide_eq_false_iff_not]
    omega
  unfold Lockout.check MemoryStore.get
  simp [valid, stored, live]

/-- A check at the instant a failure ends keeps the sequence in order. -/
theorem Chronological.then_check (chronological : Chronological calls)
    (within : earlier ++ [.fail key now storeNow] <+: calls) :
    Chronological (earlier ++ [.fail key now storeNow] ++ [.check key storeNow storeNow]) := by
  obtain ⟨rest, rfl⟩ := within
  obtain ⟨forward, ordered⟩ := chronological
  rw [pairwise_append] at ordered
  obtain ⟨ordered, -, -⟩ := ordered
  refine ⟨?_, pairwise_append.mpr ⟨ordered, pairwise_singleton _ _, ?_⟩⟩
  · intro call member
    rw [mem_append, mem_singleton] at member
    rcases member with member | rfl
    · exact forward call (mem_append_left _ member)
    · exact Nat.le_refl _
  · intro call member last isLast
    obtain rfl := mem_singleton.mp isLast
    rw [mem_append, mem_singleton] at member
    rcases member with member | rfl
    · rw [pairwise_append] at ordered
      obtain ⟨-, -, before⟩ := ordered
      calc call.last ≤ now := before call member _ (mem_singleton_self _)
        _ ≤ storeNow := forward (.fail key now storeNow) (by simp)
    · exact Nat.le_refl _

/-- A lock lasts its cooldown exactly when no failure of the sequence falls
outside the window of a counter that is still locked, or when one failure is
enough to lock. -/
theorem lock_lasts_iff (policy : Policy) (key : String) (calls : List Call)
    (chronological : Chronological calls) :
    LockLasts policy key calls ↔
      ∀ earlier now storeNow, earlier ++ [.fail key now storeNow] <+: calls →
        ¬ Unlocks policy (after policy earlier) key now storeNow := by
  constructor
  · intro lasts earlier now storeNow within unlocks
    obtain ⟨several, entry, found, ahead, outside⟩ := unlocks
    have sound := counted policy key earlier entry found
    obtain ⟨first, lockNow, lockStore, middle, rfl, deadline, locked⟩ := sound.locked (by omega)
    have shape : first ++ .fail key lockNow lockStore :: middle ++ [.fail key now storeNow] =
        first ++ .fail key lockNow lockStore :: (middle ++ [.fail key now storeNow]) := by simp
    have timely : Chronological (first ++ .fail key lockNow lockStore ::
        (middle ++ [.fail key now storeNow]) ++ [.check key storeNow storeNow]) := by
      rw [← shape]
      exact chronological.then_check within
    have reported := lasts first lockNow lockStore (middle ++ [.fail key now storeNow]) storeNow
      storeNow (shape ▸ within) locked timely (by omega)
    rw [← shape, Unlocks.check sound.valid ⟨several, entry, found, ahead, outside⟩] at reported
    cases reported
  · intro kept earlier now storeNow middle checkStore checkNow within locked timely ahead
    obtain ⟨failForward, checkForward, between⟩ := timely.between ahead
    have valid : validateKey key = .ok () := by
      obtain ⟨entry, found, -⟩ := locked
      exact (counted policy key _ entry found).valid
    have untouched : ∀ before failNow failStore rest,
        middle = before ++ .fail key failNow failStore :: rest →
        ¬ Unlocks policy (after policy (earlier ++ .fail key now storeNow :: before)) key failNow
          failStore := by
      rintro before failNow failStore rest rfl
      refine kept _ failNow failStore ((List.IsPrefix.trans ⟨rest, ?_⟩) within)
      simp
    exact (Standing.run untouched failForward locked between).check valid checkForward ahead

/-- Two failures lock, a window is one tick and a cooldown a hundred. -/
def shortWindow : Policy := ⟨2, 1, 100, by decide, by decide, by decide⟩

def lockedTwice : List Call :=
  [.fail "k" 1 1, .fail "k" 2 2, .fail "k" 3 3, .check "k" 4 4]

theorem lockedTwice_lasts :
    Chronological lockedTwice ∧
      (LockLasts ⟨2, 5, 100, by decide, by decide, by decide⟩ "k" lockedTwice ↔
        ∀ earlier now storeNow, earlier ++ [.fail "k" now storeNow] <+: lockedTwice →
          ¬ Unlocks ⟨2, 5, 100, by decide, by decide, by decide⟩
            (after ⟨2, 5, 100, by decide, by decide, by decide⟩ earlier) "k" now storeNow) := by
  have ordered : Chronological lockedTwice := by
    unfold Chronological
    decide
  exact ⟨ordered, lock_lasts_iff _ "k" lockedTwice ordered⟩

/-- A third failure just outside the window of two that locked opens the key
ninety-eight ticks early. -/
theorem lock_dropped :
    Chronological [.fail "k" 1 1, .fail "k" 2 2, .fail "k" 3 3] ∧
      ¬ LockLasts shortWindow "k" [.fail "k" 1 1, .fail "k" 2 2, .fail "k" 3 3] := by
  refine ⟨by unfold Chronological; decide, ?_⟩
  intro lasts
  have reported := lasts [.fail "k" 1 1] 2 2 [.fail "k" 3 3] 3 3 (List.prefix_refl _)
    ⟨⟨⟨2, 1, 102⟩, 102⟩, by decide, rfl⟩ (by unfold Chronological; decide) (by decide)
  exact absurd reported (by decide)

end Golusoris.Lockout
