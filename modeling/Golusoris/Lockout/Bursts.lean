import Golusoris.Lockout.Deadline

/-!
# Bursts of failures

Failures are counted from the one that opened the counter. A burst that falls into one
counter locks the key; a burst that a new counter cuts in two does not, however
close its failures are.
-/

namespace Golusoris.Lockout

open Lib

variable {policy : Policy} {key : String} {earlier burst : List Call}

/-- A failure opens a counter if the key has none that is live and still inside its window. -/
def Opens (policy : Policy) (store : MemoryStore) (key : String) (now storeNow : Nat) : Prop :=
  ∀ entry, store key = some entry → entry.expired storeNow ∨ entry.state.firstFailAt = 0 ∨
    policy.window < sub now entry.state.firstFailAt

def Call.failsOn (key : String) : Call → Bool
  | .fail other _ _ => other = key
  | .check _ _ _ => false

/-- After the first failure on the key none opens a counter. -/
def OneCounter (policy : Policy) (key : String) (earlier burst : List Call) : Prop :=
  ∀ before now storeNow rest, burst = before ++ .fail key now storeNow :: rest →
    before.any (·.failsOn key) → ¬Opens policy (after policy (earlier ++ before)) key now storeNow

/-- Every check reports the key locked from the last of `maxFails` failures within a window
until its cooldown is over. -/
def LocksOnBursts (policy : Policy) (key : String) (calls : List Call) : Prop :=
  ∀ earlier burst now storeNow middle checkStore checkNow,
    earlier ++ (burst ++ .fail key now storeNow :: middle) <+: calls →
    policy.maxFails ≤ (burst ++ [Call.fail key now storeNow]).countP (·.failsOn key) →
    (∀ call ∈ burst, call.failsOn key → storeNow ≤ call.first + policy.window) →
    Chronological (earlier ++ (burst ++ .fail key now storeNow :: middle) ++
      [.check key checkStore checkNow]) →
    checkNow < now + policy.cooldown →
    (check (after policy (earlier ++ (burst ++ .fail key now storeNow :: middle))) key checkStore
      checkNow).2 = .error .accountLocked

theorem Unlocks.opens {store : MemoryStore} {now storeNow : Nat}
    (unlocks : Unlocks policy store key now storeNow) : Opens policy store key now storeNow := by
  intro entry found
  obtain ⟨-, other, known, -, outside⟩ := unlocks
  obtain rfl := Option.some.inj (known.symm.trans found)
  exact .inr (.inr outside)

theorem OneCounter.left {rest : List Call} (single : OneCounter policy key earlier (burst ++ rest)) :
    OneCounter policy key earlier burst := by
  rintro before now storeNow after rfl found
  exact single before now storeNow (after ++ rest) (by simp) found

/-- A failure on a valid key is recorded. -/
theorem fail_recorded (policy : Policy) (valid : validateKey key = .ok ()) (store : MemoryStore)
    (now storeNow : Nat) : (fail store policy key now storeNow).1 key =
      some (recorded policy (openWindow policy (store key) now storeNow) now storeNow) := by
  simp only [fail, valid, MemoryStore.recordFailure, Function.update_self]

theorem fails_recorded (policy : Policy) (state : State) (now storeNow : Nat) :
    (recorded policy state now storeNow).state.fails = state.fails + 1 := by
  obtain ⟨-, same⟩ | ⟨-, same⟩ := recorded_cases policy state now storeNow
  · rw [same]
  · rw [same]

/-- The counter holds the failures of the burst so far. -/
theorem countP_le_fails (valid : validateKey key = .ok ())
    (single : OneCounter policy key earlier burst) :
    ∀ entry, after policy (earlier ++ burst) key = some entry →
      burst.countP (·.failsOn key) ≤ entry.state.fails := by
  induction burst using List.reverseRecOn with
  | nil =>
    intro entry _
    exact Nat.zero_le _
  | append_singleton burst call ih =>
    intro entry found
    have before := ih single.left
    rw [← List.append_assoc, after_snoc] at found
    rw [List.countP_append, List.countP_singleton]
    cases call with
    | check other storeNow now =>
      obtain same | ⟨-, gone, -⟩ := check_store key (after policy (earlier ++ burst)) other storeNow now
      · exact before entry (same.symm.trans found)
      · cases gone.symm.trans found
    | fail other now storeNow =>
      by_cases own : other = key
      · subst own
        obtain rfl := Option.some.inj ((fail_recorded policy valid _ now storeNow).symm.trans found)
        rw [fails_recorded, if_pos (by simp [Call.failsOn])]
        refine Nat.succ_le_succ ?_
        by_cases none : burst.countP (·.failsOn other) = 0
        · omega
        · -- A failure came before, so this one is added to its counter.
          obtain ⟨call, listed, failed⟩ := List.countP_pos_iff.mp (Nat.pos_of_ne_zero none)
          have added := single burst now storeNow [] rfl
            (List.any_eq_true.mpr ⟨call, listed, failed⟩)
          obtain ⟨-, stale⟩ | ⟨stored, known, -, same⟩ :=
            openWindow_cases policy (after policy (earlier ++ burst) other) now storeNow
          · exact absurd stale added
          · rw [same]
            exact before stored known
      · rw [if_neg (by simpa [Call.failsOn] using own)]
        obtain same | ⟨mine, -⟩ := fail_store policy key (after policy (earlier ++ burst)) other now
          storeNow
        · exact before entry (same.symm.trans found)
        · exact absurd mine own

/-- Enough failures in one counter lock the key. -/
theorem lockedFrom_of_burst {now storeNow : Nat} (valid : validateKey key = .ok ())
    (single : OneCounter policy key earlier (burst ++ [Call.fail key now storeNow]))
    (enough : policy.maxFails ≤ (burst ++ [Call.fail key now storeNow]).countP (·.failsOn key)) :
    LockedFrom policy (after policy (earlier ++ burst ++ [.fail key now storeNow])) key now := by
  have stored := fail_recorded policy valid (after policy (earlier ++ burst)) now storeNow
  have found : after policy (earlier ++ burst ++ [.fail key now storeNow]) key =
      some (recorded policy (openWindow policy (after policy (earlier ++ burst) key) now storeNow)
        now storeNow) := by
    rw [after_snoc]
    exact stored
  have counted := countP_le_fails valid single _ (by rw [← List.append_assoc]; exact found)
  refine ⟨_, found, ?_⟩
  obtain ⟨-, same⟩ | ⟨below, same⟩ := recorded_cases policy
    (openWindow policy (after policy (earlier ++ burst) key) now storeNow) now storeNow
  · rw [same]
  · rw [fails_recorded] at counted
    omega

/-- Failures that fall into one counter lock the key until the cooldown after the last of
them is over, unless a later failure opens a counter before. -/
theorem check_after_burst (policy : Policy) (key : String) (valid : validateKey key = .ok ())
    (earlier burst middle : List Call) (now storeNow checkStore checkNow : Nat)
    (enough : policy.maxFails ≤ (burst ++ [Call.fail key now storeNow]).countP (·.failsOn key))
    (single : OneCounter policy key earlier (burst ++ .fail key now storeNow :: middle))
    (chronological : Chronological (earlier ++ (burst ++ .fail key now storeNow :: middle) ++
      [.check key checkStore checkNow]))
    (ahead : checkNow < now + policy.cooldown) :
    (check (after policy (earlier ++ (burst ++ .fail key now storeNow :: middle))) key checkStore
      checkNow).2 = .error .accountLocked := by
  have shape : earlier ++ (burst ++ .fail key now storeNow :: middle) =
      (earlier ++ burst) ++ .fail key now storeNow :: middle := by simp
  rw [shape] at chronological ⊢
  obtain ⟨failForward, checkForward, between⟩ := chronological.between ahead
  have opening : OneCounter policy key earlier (burst ++ [Call.fail key now storeNow] ++ middle) := by
    simpa using single
  have locked := lockedFrom_of_burst valid opening.left enough
  have kept : ∀ before failNow failStore rest,
      middle = before ++ .fail key failNow failStore :: rest →
      ¬Unlocks policy (after policy (earlier ++ burst ++ .fail key now storeNow :: before)) key
        failNow failStore := by
    rintro before failNow failStore rest rfl unlocks
    refine single (burst ++ .fail key now storeNow :: before) failNow failStore rest (by simp)
      (by simp [Call.failsOn]) ?_
    simpa using unlocks.opens
  exact (Standing.run kept failForward locked between).check valid checkForward ahead

/-- Three failures lock, a window is ten ticks and a cooldown a hundred. -/
def threeStrikes : Policy := ⟨3, 10, 100, by decide, by decide, Nat.succ_pos 99⟩

theorem check_after_three :
    (check (after threeStrikes [.fail "k" 1 1, .fail "k" 5 5, .fail "k" 9 9, .fail "k" 10 10]) "k" 108
      108).2 = .error .accountLocked := by
  refine check_after_burst threeStrikes "k" (by decide) [] [.fail "k" 1 1, .fail "k" 5 5]
    [.fail "k" 10 10] 9 9 108 108 (by decide) ?_ (by unfold Chronological; decide) (by decide)
  intro before now storeNow rest same found opens
  obtain _ | ⟨first, _ | ⟨second, _ | ⟨third, _ | ⟨fourth, before⟩⟩⟩⟩ := before
  · cases found
  · obtain ⟨rfl, ⟨-, rfl, rfl⟩, -⟩ := by simpa only [List.cons_append, List.nil_append,
      List.cons.injEq, Call.fail.injEq] using same
    exact absurd (opens ⟨⟨1, 1, 0⟩, 11⟩ rfl) (by decide)
  · obtain ⟨rfl, rfl, ⟨-, rfl, rfl⟩, -⟩ := by simpa only [List.cons_append, List.nil_append,
      List.cons.injEq, Call.fail.injEq] using same
    exact absurd (opens ⟨⟨2, 1, 0⟩, 15⟩ rfl) (by decide)
  · obtain ⟨rfl, rfl, rfl, ⟨-, rfl, rfl⟩, -⟩ := by simpa only [List.cons_append, List.nil_append,
      List.cons.injEq, Call.fail.injEq] using same
    exact absurd (opens ⟨⟨3, 1, 109⟩, 109⟩ rfl) (by decide)
  · simp at same

/-- The second failure is the last of its window, and the third opens a counter that the fourth
does not fill. -/
theorem burst_unlocked :
    Chronological [.fail "k" 1 1, .fail "k" 10 10, .fail "k" 12 12, .fail "k" 13 13] ∧
      ¬LocksOnBursts threeStrikes "k"
        [.fail "k" 1 1, .fail "k" 10 10, .fail "k" 12 12, .fail "k" 13 13] := by
  refine ⟨by unfold Chronological; decide, fun locks => ?_⟩
  have reported := locks [.fail "k" 1 1] [.fail "k" 10 10, .fail "k" 12 12] 13 13 [] 13 13
    (List.prefix_refl _) (by decide) (by decide) (by unfold Chronological; decide) (by decide)
  exact absurd reported (by decide)

end Golusoris.Lockout
