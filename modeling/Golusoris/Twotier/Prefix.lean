import Golusoris.Twotier.Reads
import Golusoris.Lib.Glob
import Golusoris.Lib.Utf8

/-!
# Prefix invalidation in the two tiers

`evictL1Prefix` compares bytes. `redisL2.DelPrefix` has Redis do the comparison:
it hands the prefix with a star behind it to SCAN as a pattern, page by page and
node by node, and unlinks what comes back. The two agree as long as Redis reads
every byte of the prefix as itself.

What Redis answers is a parameter: a glob-style matcher, and for each node the
pages of one scan. `Redis.Honest` is what SCAN promises about the pages.
-/

namespace Golusoris.Twotier

open List
open Golusoris.Lib

/-- `scanRoundFunc` driven from cursor 0 until it returns cursor 0. -/
def runBoundedScan {State Error : Type} (exceeded : Error)
    (fn : Nat → State → State × Except Error Nat) : Nat → Nat → State → State × Except Error Unit
  | 0, _, state => (state, .error exceeded)
  | rounds + 1, cursor, state =>
      match fn cursor state with
      | (state, .error error) => (state, .error error)
      | (state, .ok 0) => (state, .ok ())
      | (state, .ok (next + 1)) => runBoundedScan exceeded fn rounds (next + 1) state

def maxScanRounds : Nat := 1000000

inductive RedisError where
  | emptyPrefix
  | scan (message : String)
  | unlink (messages : List String)
  | rounds
  deriving DecidableEq, Repr

structure ScanEntry where
  elements : List Key
  cursor : Nat

/-- A node of the cluster: the keys it serves, and its answers to the requests
of one scan for a pattern, which go on where the cursor says. -/
structure Node where
  serves : Key → Bool
  answer : Key → Nat → Except String ScanEntry

structure Redis where
  nodes : List Node
  unlink : Key → Except String Unit

/-- How far a call of `DelPrefix` has come. -/
structure Sweep where
  store : Store
  seen : List Key
  round : Nat

/-- The keys of a page that have not been unlinked yet, and all keys seen. -/
def collect (seen : List Key) : List Key → List Key × List Key
  | [] => ([], seen)
  | key :: keys =>
      if key ∈ seen then collect seen keys
      else (key :: (collect (key :: seen) keys).1, (collect (key :: seen) keys).2)

def Redis.unlinkOne (redis : Redis) (store : Store) (key : Key) : Store :=
  match redis.unlink key with
  | .ok () => store.del (.key key)
  | .error _ => store

def Redis.unlinkKeys (redis : Redis) (sweep : Sweep) (keys : List Key) :
    Sweep × Except RedisError Unit :=
  let commands := (collect sweep.seen keys).1
  let failures := commands.filterMap fun key =>
    match redis.unlink key with
    | .ok () => none
    | .error message => some message
  ({ sweep with
      store := commands.foldl redis.unlinkOne sweep.store
      seen := (collect sweep.seen keys).2 },
    if failures.isEmpty then .ok () else .error (.unlink failures))

/-- One round: a page, and its keys unlinked. -/
def Redis.scanRound (redis : Redis) (node : Node) (pattern : Key) (_cursor : Nat)
    (sweep : Sweep) : Sweep × Except RedisError Nat :=
  match node.answer pattern sweep.round with
  | .error message => ({ sweep with round := sweep.round + 1 }, .error (.scan message))
  | .ok entry =>
      match redis.unlinkKeys { sweep with round := sweep.round + 1 } entry.elements with
      | (sweep, .error error) => (sweep, .error error)
      | (sweep, .ok ()) => (sweep, .ok entry.cursor)

def Redis.scanPrefix (redis : Redis) (pattern : Key) (sweep : Sweep) (node : Node) :
    Sweep × Except RedisError Unit :=
  runBoundedScan .rounds (redis.scanRound node pattern) maxScanRounds 0 { sweep with round := 0 }

def Redis.scanNodes (redis : Redis) (pattern : Key) (sweep : Sweep) :
    List Node → Sweep × Except RedisError Unit
  | [] => (sweep, .ok ())
  | node :: nodes =>
      match redis.scanPrefix pattern sweep node with
      | (sweep, .error error) => (sweep, .error error)
      | (sweep, .ok ()) => redis.scanNodes pattern sweep nodes

/-- The pattern that `DelPrefix` scans for. -/
def scanPattern (start : Key) : Key := start ++ [Glob.star]

/-- `redisL2.DelPrefix`. -/
def Redis.delPrefix (redis : Redis) (store : Store) (start : Key) :
    Store × Except RedisError Unit :=
  if start = [] then (store, .error .emptyPrefix)
  else
    let result := redis.scanNodes (scanPattern start) ⟨store, [], 0⟩ redis.nodes
    (result.1.store, result.2)

def Node.page (node : Node) (pattern : Key) (round : Nat) : List Key :=
  match node.answer pattern round with
  | .ok entry => entry.elements
  | .error _ => []

/-- Everything that a scan of some rounds returns. -/
def Node.returned (node : Node) (pattern : Key) (rounds : Nat) : List Key :=
  (List.range rounds).flatMap (node.page pattern)

/-- A full scan of a node. It returns keys that match, and every key of the node
that matches and is there throughout; `gone` are the keys that were unlinked
before it, and a key that is unlinked during the scan was returned by it. -/
structure Node.Scanned (node : Node) (glob : Key → Key → Bool) (pattern : Key) (store : Store)
    (gone : List Key) (rounds : Nat) : Prop where
  bounded : rounds < maxScanRounds
  going : ∀ round < rounds, ∃ elements next, node.answer pattern round = .ok ⟨elements, next + 1⟩
  ends : ∃ elements, node.answer pattern rounds = .ok ⟨elements, 0⟩
  sound : ∀ key ∈ node.returned pattern (rounds + 1), glob pattern key = true
  complete : ∀ key, store.entry key ≠ none → node.serves key = true → glob pattern key = true →
    key ∉ gone → key ∈ node.returned pattern (rounds + 1)

/-- The nodes are scanned one after the other. -/
def ScannedAll (glob : Key → Key → Bool) (pattern : Key) (store : Store) :
    List Node → List Key → Prop
  | [], _ => True
  | node :: nodes, gone =>
      ∃ rounds, node.Scanned glob pattern store gone rounds ∧
        ScannedAll glob pattern store nodes (gone ++ node.returned pattern (rounds + 1))

/-- Every key is on some node, the scans are full, and UNLINK works. -/
structure Redis.Honest (redis : Redis) (glob : Key → Key → Bool) (pattern : Key) (store : Store) :
    Prop where
  served : ∀ key, store.entry key ≠ none → ∃ node ∈ redis.nodes, node.serves key = true
  scanned : ScannedAll glob pattern store redis.nodes []
  unlinks : ∀ key, redis.unlink key = .ok ()

/-- The two tiers lose the same keys: those that start with the prefix. -/
def TiersAgree (glob : Key → Key → Bool) (start : Key) : Prop :=
  ∀ (redis : Redis) (store : Store), redis.Honest glob (scanPattern start) store →
    (redis.delPrefix store start).2 = .ok () ∧
      ∀ (V : Type) (cache : Local V) (key : Key),
        ((redis.delPrefix store start).1.entry key =
            if (Scope.prefixed start).covers key then none else store.entry key) ∧
          (cache.evictL1 (.prefixed start)).l1 key =
            if (Scope.prefixed start).covers key then none else cache.l1 key

variable {redis : Redis} {node : Node} {glob : Key → Key → Bool} {pattern key : Key}
variable {store : Store} {sweep : Sweep}

theorem collect_mem (seen keys : List Key) :
    (∀ key, key ∈ (collect seen keys).1 ↔ key ∈ keys ∧ key ∉ seen) ∧
      ∀ key, key ∈ (collect seen keys).2 ↔ key ∈ seen ∨ key ∈ keys := by
  induction keys generalizing seen with
  | nil => simp [collect]
  | cons first keys ih =>
    unfold collect
    by_cases known : first ∈ seen
    · rw [if_pos known]
      obtain ⟨commands, all⟩ := ih seen
      refine ⟨fun key => ?_, fun key => ?_⟩
      · rw [commands, mem_cons]
        constructor
        · rintro ⟨member, fresh⟩
          exact ⟨.inr member, fresh⟩
        · rintro ⟨rfl | member, fresh⟩
          · exact absurd known fresh
          · exact ⟨member, fresh⟩
      · rw [all, mem_cons]
        constructor
        · rintro (old | member)
          · exact .inl old
          · exact .inr (.inr member)
        · rintro (old | rfl | member)
          · exact .inl old
          · exact .inl known
          · exact .inr member
    · rw [if_neg known]
      obtain ⟨commands, all⟩ := ih (first :: seen)
      refine ⟨fun key => ?_, fun key => ?_⟩
      · simp only [mem_cons, commands]
        by_cases same : key = first
        · subst same
          simp [known]
        · simp [same]
      · simp only [all, mem_cons]
        tauto

/-- The keys seen so far are gone, and nothing else is. -/
def Sweep.Clears (sweep : Sweep) (store : Store) : Prop :=
  ∀ key, sweep.store.entry key = if key ∈ sweep.seen then none else store.entry key

theorem unlinked (works : ∀ key, redis.unlink key = .ok ()) (keys : List Key) (store : Store)
    (key : Key) :
    (keys.foldl redis.unlinkOne store).entry key =
      if key ∈ keys then none else store.entry key := by
  induction keys generalizing store with
  | nil => simp
  | cons first keys ih =>
    have one : (redis.unlinkOne store first).entry key =
        if key = first then none else store.entry key := by
      simp only [Redis.unlinkOne, works, Store.del, Scope.covers, beq_iff_eq]
      by_cases same : key = first
      · simp [same]
      · simp [same, Ne.symm same]
    rw [foldl_cons, ih, one]
    by_cases same : key = first
    · simp [same]
    · simp [same]

variable (works : ∀ key, redis.unlink key = .ok ())

include works in
theorem Redis.unlinkKeys_clears (clears : sweep.Clears store) (keys : List Key) :
    ∃ next, redis.unlinkKeys sweep keys = (next, .ok ()) ∧ next.Clears store ∧
      next.round = sweep.round ∧ ∀ key, key ∈ next.seen ↔ key ∈ sweep.seen ∨ key ∈ keys := by
  obtain ⟨commands, all⟩ := collect_mem sweep.seen keys
  refine ⟨⟨(collect sweep.seen keys).1.foldl redis.unlinkOne sweep.store,
    (collect sweep.seen keys).2, sweep.round⟩, ?_, ?_, rfl, all⟩
  · simp [Redis.unlinkKeys, works]
  · intro key
    simp only [unlinked works, commands, all, clears key]
    by_cases old : key ∈ sweep.seen
    · simp [old]
    · simp [old]

include works in
/-- A round that is answered unlinks its page and passes the cursor on. -/
theorem Redis.scanRound_clears (clears : sweep.Clears store) {entry : ScanEntry} (cursor : Nat)
    (answered : node.answer pattern sweep.round = .ok entry) :
    ∃ next, redis.scanRound node pattern cursor sweep = (next, .ok entry.cursor) ∧
      next.Clears store ∧ next.round = sweep.round + 1 ∧
      ∀ key, key ∈ next.seen ↔ key ∈ sweep.seen ∨ key ∈ node.page pattern sweep.round := by
  have forward : ({ sweep with round := sweep.round + 1 } : Sweep).Clears store := clears
  obtain ⟨next, result, clears, round, seen⟩ := Redis.unlinkKeys_clears works forward entry.elements
  refine ⟨next, ?_, clears, round, ?_⟩
  · unfold Redis.scanRound
    simp only [answered, result]
  · intro key
    rw [seen]
    simp only [Node.page, answered]

include works in
/-- The rounds of a scan from any of them on. -/
theorem Redis.scanRounds_clears {gone : List Key} {rounds : Nat}
    (scanned : node.Scanned glob pattern store gone rounds) (left fuel cursor : Nat)
    (clears : sweep.Clears store) (here : sweep.round + left = rounds) (enough : left < fuel) :
    ∃ next, runBoundedScan .rounds (redis.scanRound node pattern) fuel cursor sweep =
        (next, .ok ()) ∧ next.Clears store ∧
      ∀ key, key ∈ next.seen ↔ key ∈ sweep.seen ∨
        ∃ round, sweep.round ≤ round ∧ round ≤ rounds ∧ key ∈ node.page pattern round := by
  induction left generalizing fuel cursor sweep with
  | zero =>
    obtain ⟨elements, answered⟩ := scanned.ends
    obtain ⟨fuel, rfl⟩ := Nat.exists_eq_succ_of_ne_zero (Nat.ne_of_gt enough)
    rw [← here] at answered
    obtain ⟨next, result, cleared, -, seen⟩ := Redis.scanRound_clears works clears cursor answered
    refine ⟨next, ?_, cleared, ?_⟩
    · unfold runBoundedScan
      rw [result]
    · intro key
      rw [seen]
      constructor
      · rintro (old | page)
        · exact .inl old
        · exact .inr ⟨sweep.round, Nat.le_refl _, by omega, page⟩
      · rintro (old | ⟨round, low, high, page⟩)
        · exact .inl old
        · obtain rfl : round = sweep.round := by omega
          exact .inr page
  | succ left ih =>
    obtain ⟨elements, cursor', answered⟩ := scanned.going sweep.round (by omega)
    obtain ⟨fuel, rfl⟩ := Nat.exists_eq_succ_of_ne_zero (Nat.ne_of_gt (Nat.zero_lt_of_lt enough))
    obtain ⟨middle, result, cleared, round, seen⟩ :=
      Redis.scanRound_clears works clears cursor answered
    obtain ⟨next, rest, cleared, seen'⟩ := ih fuel (cursor' + 1) cleared (by omega) (by omega)
    refine ⟨next, ?_, cleared, ?_⟩
    · unfold runBoundedScan
      rw [result]
      exact rest
    · intro key
      rw [seen', seen]
      constructor
      · rintro ((old | page) | ⟨other, low, high, page⟩)
        · exact .inl old
        · exact .inr ⟨sweep.round, Nat.le_refl _, by omega, page⟩
        · exact .inr ⟨other, by omega, high, page⟩
      · rintro (old | ⟨other, low, high, page⟩)
        · exact .inl (.inl old)
        · rcases Nat.eq_or_lt_of_le low with rfl | later
          · exact .inl (.inr page)
          · exact .inr ⟨other, by omega, high, page⟩

include works in
theorem Redis.scanPrefix_clears {gone : List Key} {rounds : Nat}
    (scanned : node.Scanned glob pattern store gone rounds) (clears : sweep.Clears store) :
    ∃ next, redis.scanPrefix pattern sweep node = (next, .ok ()) ∧ next.Clears store ∧
      ∀ key, key ∈ next.seen ↔ key ∈ sweep.seen ∨ key ∈ node.returned pattern (rounds + 1) := by
  have begun : ({ sweep with round := 0 } : Sweep).Clears store := clears
  obtain ⟨next, result, cleared, seen⟩ :=
    Redis.scanRounds_clears works scanned rounds maxScanRounds 0 begun (Nat.zero_add _)
      scanned.bounded
  refine ⟨next, result, cleared, ?_⟩
  intro key
  rw [seen, Node.returned, mem_flatMap]
  simp only [mem_range, Nat.lt_succ_iff, Nat.zero_le, true_and]

include works in
/-- All nodes: what has been seen is gone, and is what was returned. -/
theorem Redis.scanNodes_clears {nodes : List Node} {gone : List Key}
    (scanned : ScannedAll glob pattern store nodes gone) (clears : sweep.Clears store)
    (seen : ∀ key, key ∈ sweep.seen ↔ key ∈ gone) :
    ∃ next, redis.scanNodes pattern sweep nodes = (next, .ok ()) ∧ next.Clears store ∧
      (∀ key ∈ next.seen, key ∈ gone ∨ glob pattern key = true) ∧
      (∀ key ∈ gone, key ∈ next.seen) ∧
      ∀ key, store.entry key ≠ none → glob pattern key = true →
        (∃ node ∈ nodes, node.serves key = true) → key ∈ next.seen := by
  induction nodes generalizing sweep gone with
  | nil =>
    refine ⟨sweep, rfl, clears, fun key member => .inl ((seen key).mp member),
      fun key member => (seen key).mpr member, ?_⟩
    rintro key - - ⟨node, member, -⟩
    cases member
  | cons node nodes ih =>
    obtain ⟨rounds, here, rest⟩ := scanned
    obtain ⟨middle, result, cleared, seen'⟩ := Redis.scanPrefix_clears works here clears
    have together : ∀ key, key ∈ middle.seen ↔
        key ∈ gone ++ node.returned pattern (rounds + 1) := by
      intro key
      rw [seen', seen, mem_append]
    obtain ⟨next, results, cleared, onlyFound, kept, all⟩ := ih rest cleared together
    refine ⟨next, ?_, cleared, ?_, ?_, ?_⟩
    · unfold Redis.scanNodes
      rw [result]
      exact results
    · intro key member
      rcases onlyFound key member with before | found
      · rcases mem_append.mp before with before | returned
        · exact .inl before
        · exact .inr (here.sound key returned)
      · exact .inr found
    · intro key member
      exact kept key (mem_append_left _ member)
    · rintro key present found ⟨server, member, serves⟩
      rcases mem_cons.mp member with rfl | later
      · by_cases before : key ∈ gone
        · exact kept key (mem_append_left _ before)
        · exact kept key (mem_append_right _ (here.complete key present serves found before))
      · exact all key present found ⟨server, later, serves⟩

/-- `DelPrefix` removes the keys that match its pattern. -/
theorem Redis.delPrefix_spec {start : Key} (nonempty : start ≠ [])
    (honest : redis.Honest glob (scanPattern start) store) :
    (redis.delPrefix store start).2 = .ok () ∧
      ∀ key, (redis.delPrefix store start).1.entry key =
        if glob (scanPattern start) key then none else store.entry key := by
  have untouched : (⟨store, [], 0⟩ : Sweep).Clears store := by
    intro key
    simp
  obtain ⟨next, result, cleared, onlyFound, -, all⟩ :=
    Redis.scanNodes_clears honest.unlinks honest.scanned untouched (fun key => Iff.rfl)
  unfold Redis.delPrefix
  rw [if_neg nonempty]
  simp only [result, true_and]
  intro key
  rw [cleared key]
  by_cases found : glob (scanPattern start) key = true
  · rw [if_pos found]
    by_cases present : store.entry key = none
    · rw [present, ite_self]
    · rw [if_pos (all key present found (honest.served key present))]
  · rw [if_neg found, if_neg]
    intro member
    rcases onlyFound key member with never | matched
    · cases never
    · exact found matched

/-- One key in L2. -/
def onlyKey (key : Key) : Store := ⟨fun other => if other = key then some [] else none, fun _ => 1⟩

/-- One node that finds the key on its only page, if the pattern matches it. -/
def onlyNode (glob : Key → Key → Bool) (key : Key) : Redis where
  nodes := [⟨fun _ => true, fun pattern _ => .ok ⟨if glob pattern key then [key] else [], 0⟩⟩]
  unlink := fun _ => .ok ()

theorem onlyNode_honest (glob : Key → Key → Bool) (pattern key : Key) :
    (onlyNode glob key).Honest glob pattern (onlyKey key) where
  served := fun _ _ => ⟨_, mem_singleton_self _, rfl⟩
  unlinks := fun _ => rfl
  scanned := by
    refine ⟨0, ⟨by decide, nofun, ⟨_, rfl⟩, ?_, ?_⟩, trivial⟩
    · intro other member
      by_cases found : glob pattern key = true
      · obtain rfl : other = key := by simpa [Node.returned, Node.page, found] using member
        exact found
      · simp [Node.returned, Node.page, found] at member
    · intro other present _ found _
      obtain rfl : other = key := by
        by_contra different
        exact present (if_neg different)
      simp [Node.returned, Node.page, found]

/-- For a prefix that is not empty, DelPrefix removes from L2 what
`evictL1Prefix` removes from L1, whatever is cached, exactly when no byte of the
prefix is special in a pattern. -/
theorem tiers_agree_iff (glob : Key → Key → Bool) (style : GlobStyle glob) (start : Key)
    (nonempty : start ≠ []) :
    TiersAgree glob start ↔ ∀ byte ∈ start, Glob.special byte = false := by
  rw [← style.prefix_iff start]
  constructor
  · intro agree key
    obtain ⟨-, same⟩ := agree _ _ (onlyNode_honest glob (scanPattern start) key)
    obtain ⟨-, removed⟩ := Redis.delPrefix_spec nonempty (onlyNode_honest glob (scanPattern start) key)
    have both := (removed key).symm.trans (same UInt8 (built UInt8).1 key).1
    have present : (onlyKey key).entry key = some [] := if_pos rfl
    rw [present] at both
    rw [← List.isPrefixOf_iff_prefix]
    by_cases found : glob (scanPattern start) key = true
    · by_cases starts : (Scope.prefixed start).covers key = true
      · exact iff_of_true found starts
      · rw [if_pos found, if_neg starts] at both
        cases both
    · by_cases starts : (Scope.prefixed start).covers key = true
      · rw [if_neg found, if_pos starts] at both
        cases both
      · exact iff_of_false found starts
  · intro same redis store honest
    obtain ⟨done, removed⟩ := Redis.delPrefix_spec nonempty honest
    refine ⟨done, fun V cache key => ⟨?_, rfl⟩⟩
    have covers : (Scope.prefixed start).covers key = glob (scanPattern start) key := by
      rw [Bool.eq_iff_iff]
      exact List.isPrefixOf_iff_prefix.trans (same key).symm
    rw [removed, covers]

/-- The prefix "u:" is read as it stands. -/
theorem tiers_agree_plain : GlobStyle Glob.matchGlob ∧ TiersAgree Glob.matchGlob [117, 58] :=
  ⟨Glob.matchGlob_style,
    (tiers_agree_iff Glob.matchGlob Glob.matchGlob_style [117, 58] (by decide)).mpr
      (List.forall_mem_cons.mpr ⟨rfl, List.forall_mem_singleton.mpr rfl⟩)⟩

/-- For the prefix "a?" Redis also removes the key "ab", which L1 keeps. -/
theorem tiers_disagree : ([97, 63] : Key) ≠ [] ∧ ¬ TiersAgree Glob.matchGlob [97, 63] := by
  refine ⟨by decide, ?_⟩
  intro agree
  obtain ⟨-, same⟩ := agree (onlyNode Glob.matchGlob [97, 98]) (onlyKey [97, 98])
    (onlyNode_honest _ _ _)
  have kept := (same UInt8 (built UInt8).1 [97, 98]).1
  revert kept
  decide

end Golusoris.Twotier
