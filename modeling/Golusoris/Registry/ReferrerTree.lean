import Golusoris.Lib.Postorder
import Golusoris.Lib.Results
import Golusoris.Registry.Delete
import Golusoris.Registry.Explore
import Mathlib.Algebra.Group.Action.Defs
import Mathlib.Algebra.Order.BigOperators.Group.Finset
import Mathlib.Data.Finset.Card

/-!
# The tree of referrers

`referrerTree` is a walk of `Lib.Postorder` through the referrers of a finite
relation. What it emits are the roots and their referrers at every level, each
once; without cycles each one after its referrers. Every frame of the stack costs
one step, so the walk succeeds just when the two bounds leave room for all of it.
-/

namespace Golusoris.Registry.Delete

open List
open Lib
open TreeWalk

variable {hash : Hash}

section Climbing

variable {limits : Graph.Limits} {list : Hash → Except DeleteError (List Hash)}

/-- The referrers of a manifest among pairs of subject and entry. -/
def referrersOf (pairs : List (Hash × Hash)) (hash : Hash) : List Hash :=
  (pairs.filter fun pair => pair.1 = hash).map Prod.snd

theorem mem_referrersOf {pairs : List (Hash × Hash)} {subject : Hash} :
    hash ∈ referrersOf pairs subject ↔ (subject, hash) ∈ pairs := by
  simp [referrersOf]

theorem listReferrers_ok {pairs : List (Hash × Hash)} {found : List Hash}
    (listed : listReferrers limits pairs hash = .ok found) : found = referrersOf pairs hash := by
  rw [listReferrers] at listed
  split at listed
  · cases listed
  · exact (Except.ok.inj listed).symm

theorem treeVisit_ok {maxNodes : Int}
    {walk after : TreeWalk} {frame : Hash × Bool} {next : List (Hash × Bool)}
    (visited : treeVisit limits list maxNodes walk frame = .ok (next, after)) :
    (frame.2 = true ∧ next = [] ∧ after = { walk with order := walk.order ++ [frame.1] }) ∨
    (frame.2 = false ∧ frame.1 ∈ walk.seen ∧ next = [] ∧ after = walk) ∨
    (frame.2 = false ∧ frame.1 ∉ walk.seen ∧ walk.seen.length < maxNodes ∧ ∃ found,
      list frame.1 = .ok found ∧
      next = (frame.1, true) :: found.map (fun hash => (hash, false)) ∧
      after = { walk with seen := frame.1 :: walk.seen }) := by
  rw [treeVisit] at visited
  split at visited
  · rename_i done
    cases visited
    exact .inl ⟨done, rfl, rfl⟩
  · rename_i pending
    rw [Bool.not_eq_true] at pending
    split at visited
    · rename_i met
      cases visited
      exact .inr (.inl ⟨pending, met, rfl, rfl⟩)
    · rename_i fresh
      split at visited
      · cases visited
      · rename_i room
        obtain ⟨found, listed, same⟩ := exists_of_bind_eq_ok visited
        cases same
        exact .inr (.inr ⟨pending, fresh, not_le.mp room, found, listed, rfl, rfl⟩)

/-- The referrers of the digests met, as `Lib.Postorder` has them. -/
def TreeWalk.kids (pairs : List (Hash × Hash)) (walk : TreeWalk) (hash : Hash) :
    Option (List Hash) :=
  if hash ∈ walk.seen then some (referrersOf pairs hash) else none

/-- What holds while the tree is walked. -/
structure Climbing (pairs : List (Hash × Hash)) (roots : List Hash) (walk : TreeWalk)
    (stack : List (Hash × Bool)) : Prop where
  visits : Postorder.Visits (walk.kids pairs) walk.order stack
  seen : ∀ hash ∈ walk.seen, ∃ root ∈ roots,
    Relation.ReflTransGen (fun subject hash => (subject, hash) ∈ pairs) root hash
  pending : ∀ frame ∈ stack, ∃ root ∈ roots,
    Relation.ReflTransGen (fun subject hash => (subject, hash) ∈ pairs) root frame.1
  roots : ∀ root ∈ roots, root ∈ walk.seen ∨ (root, false) ∈ stack

variable {pairs : List (Hash × Hash)} {roots : List Hash} {walk after : TreeWalk}
variable {frame : Hash × Bool} {next stack : List (Hash × Bool)}
variable (lists : ∀ {hash found}, list hash = .ok found → found = referrersOf pairs hash)

theorem TreeWalk.kids_ne_none : walk.kids pairs hash ≠ none ↔ hash ∈ walk.seen := by
  rw [kids]
  split <;> simp_all

/-- Opening a node adds its referrers. -/
theorem TreeWalk.kids_enter (walk : TreeWalk) (hash : Hash) :
    kids pairs { walk with seen := hash :: walk.seen } =
      Function.update (walk.kids pairs) hash (some (referrersOf pairs hash)) := by
  funext other
  by_cases same : other = hash
  · subst same
    simp [kids]
  · simp [kids, same]

include lists in
theorem Climbing.visit {maxNodes : Int} (climbing : Climbing pairs roots walk (frame :: stack))
    (visited : treeVisit limits list maxNodes walk frame = .ok (next, after)) :
    Climbing pairs roots after (next.reverse ++ stack) := by
  obtain ⟨hash, done⟩ := frame
  have others : ∀ frame ∈ stack, ∃ root ∈ roots,
      Relation.ReflTransGen (fun subject hash => (subject, hash) ∈ pairs) root frame.1 :=
    fun frame member => climbing.pending frame (mem_cons_of_mem _ member)
  rcases treeVisit_ok visited with ⟨rfl, rfl, rfl⟩ | ⟨rfl, met, rfl, rfl⟩ |
    ⟨rfl, fresh, -, found, listed, rfl, rfl⟩
  · refine ⟨climbing.visits.emit, climbing.seen, others, fun root member => ?_⟩
    rcases climbing.roots root member with met | pending
    · exact .inl met
    · exact .inr (by simpa using pending)
  · refine ⟨climbing.visits.skip (kids_ne_none.mpr met), climbing.seen, others,
      fun root member => ?_⟩
    rcases climbing.roots root member with met | pending
    · exact .inl met
    · rcases mem_cons.mp pending with same | pending
      · obtain ⟨rfl, -⟩ := Prod.mk.inj same
        exact .inl met
      · exact .inr pending
  · obtain rfl := lists listed
    obtain ⟨root, member, chain⟩ := climbing.pending (hash, false) mem_cons_self
    have unseen : walk.kids pairs hash = none := by
      rw [kids, if_neg fresh]
    constructor
    · rw [kids_enter]
      exact climbing.visits.enter unseen
    · intro other met
      rcases mem_cons.mp met with rfl | met
      · exact ⟨root, member, chain⟩
      · exact climbing.seen other met
    · intro frame pushed
      rcases mem_append.mp pushed with pushed | pushed
      · rcases mem_cons.mp (mem_reverse.mp pushed) with rfl | pushed
        · exact ⟨root, member, chain⟩
        · obtain ⟨referrer, named, rfl⟩ := mem_map.mp pushed
          exact ⟨root, member, chain.tail (mem_referrersOf.mp named)⟩
      · exact others frame pushed
    · intro other listed
      rcases climbing.roots other listed with met | pending
      · exact .inl (mem_cons_of_mem _ met)
      · rcases mem_cons.mp pending with same | pending
        · obtain ⟨rfl, -⟩ := Prod.mk.inj same
          exact .inl mem_cons_self
        · exact .inr (mem_append_right _ pending)

theorem TreeWalk.kids_nil : kids pairs {} = fun _ => none := by
  funext hash
  simp [kids]

theorem Climbing.start : Climbing pairs roots {} (roots.map fun root => (root, false)) where
  visits := by
    rw [kids_nil]
    exact Postorder.Visits.nil.start roots
  seen := by simp
  pending frame member := by
    obtain ⟨root, listed, rfl⟩ := mem_map.mp member
    exact ⟨root, listed, .refl⟩
  roots root member := .inr (mem_map_of_mem (f := fun root => (root, false)) member)

/-- At the end everything in reach was met. -/
theorem Climbing.mem_seen (climbing : Climbing pairs roots walk []) :
    hash ∈ walk.seen ↔ ∃ root ∈ roots,
      Relation.ReflTransGen (fun subject hash => (subject, hash) ∈ pairs) root hash := by
  constructor
  · exact climbing.seen hash
  · rintro ⟨root, member, chain⟩
    induction chain with
    | refl => exact (climbing.roots root member).resolve_right not_mem_nil
    | @tail subject hash chain named ih =>
      have known : walk.kids pairs subject = some (referrersOf pairs subject) := if_pos ih
      exact kids_ne_none.mp (climbing.visits.closed known (mem_referrersOf.mpr named))

include lists in
/-- The tree has the roots and their referrers at every level. -/
theorem mem_referrerTree {order : List Hash}
    (climbed : referrerTree limits list roots = .ok order) (hash : Hash) :
    hash ∈ order ↔ ∃ root ∈ roots,
      Relation.ReflTransGen (fun subject hash => (subject, hash) ∈ pairs) root hash := by
  obtain ⟨walk, walked, same⟩ := exists_of_bind_eq_ok climbed
  cases same
  have final : Climbing pairs roots walk [] := by
    refine walkFrames_invariant (Climbing pairs roots) ?_ ?_ walked
    · intro state top stack next after climbing visited
      exact climbing.visit lists visited
    · exact .start
  rw [final.visits.mem_order, kids_ne_none, final.mem_seen]

end Climbing

section Bounds

variable (limits : Graph.Limits) (pairs : List (Hash × Hash)) (roots : List Hash)

/-- A pair of the relation. -/
def RefersTo (subject hash : Hash) : Prop := (subject, hash) ∈ pairs

open Classical in
/-- The roots and the referrers at every level. -/
noncomputable def reached : Finset Hash :=
  (roots ++ pairs.map Prod.snd).toFinset.filter fun hash =>
    ∃ root ∈ roots, Relation.ReflTransGen (RefersTo pairs) root hash

open Classical in
/-- The referrers at every level. -/
noncomputable def reachedReferrers : Finset Hash :=
  (pairs.map Prod.snd).toFinset.filter fun hash =>
    ∃ root ∈ roots, Relation.TransGen (RefersTo pairs) root hash

/-- What a node costs: its emission, and a step for each of its referrers. -/
def cost (hash : Hash) : Nat := (referrersOf pairs hash).length + 1

/-- The steps of a whole walk. -/
noncomputable def treeSteps : Nat := roots.length + ∑ hash ∈ reached pairs roots, cost pairs hash

/-- The bounds as 64 bits hold them. -/
def maxNodes : Int := Graph.int64 (roots.length + limits.referrers)

def maxSteps : Int := Graph.int64 (2 * maxNodes limits roots * (limits.referrers + 1))

variable {limits pairs roots}

theorem mem_reached : hash ∈ reached pairs roots ↔
    ∃ root ∈ roots, Relation.ReflTransGen (RefersTo pairs) root hash := by
  simp only [reached, Finset.mem_filter, and_iff_right_iff_imp]
  rintro ⟨root, member, chain⟩
  rw [mem_toFinset, mem_append]
  cases chain with
  | refl => exact .inl member
  | @tail subject _ _ named => exact .inr (mem_map.mpr ⟨(subject, hash), named, rfl⟩)

theorem mem_reachedReferrers : hash ∈ reachedReferrers pairs roots ↔
    ∃ root ∈ roots, Relation.TransGen (RefersTo pairs) root hash := by
  simp only [reachedReferrers, Finset.mem_filter, and_iff_right_iff_imp]
  rintro ⟨root, member, chain⟩
  rw [mem_toFinset]
  obtain ⟨subject, -, named⟩ := Relation.TransGen.tail'_iff.mp chain
  exact mem_map.mpr ⟨(subject, hash), named, rfl⟩

/-- What is left to do for nodes that were not met. -/
noncomputable def unmet (pairs : List (Hash × Hash)) (roots : List Hash) (walk : TreeWalk) : Nat :=
  ∑ hash ∈ (reached pairs roots).filter (· ∉ walk.seen), cost pairs hash

/-- What holds of a walk through a relation without cycles. -/
structure Ordered (pairs : List (Hash × Hash)) (roots : List Hash) (maxNodes : Int) (walk : TreeWalk)
    (stack : List (Hash × Bool)) : Prop extends Climbing pairs roots walk stack where
  distinct : walk.seen.Nodup
  within : walk.seen.length ≤ maxNodes.toNat
  sorted : Postorder.Sorted (RefersTo pairs) (walk.kids pairs) walk.order stack

/-- The referrers of a relation. -/
def listed (pairs : List (Hash × Hash)) (hash : Hash) : Except DeleteError (List Hash) :=
  .ok (referrersOf pairs hash)

theorem listed_ok {found : List Hash} (ok : listed pairs hash = .ok found) :
    found = referrersOf pairs hash :=
  (Except.ok.inj ok).symm

variable {walk after : TreeWalk} {frame : Hash × Bool} {next stack : List (Hash × Bool)} {bound : Int}

variable (acyclic : ∀ hash, ¬Relation.TransGen (RefersTo pairs) hash hash)
variable (ordered : Ordered pairs roots bound walk (frame :: stack))

include acyclic ordered in
theorem Ordered.visit
    (visited : treeVisit limits (listed pairs) bound walk frame = .ok (next, after)) :
    Ordered pairs roots bound after (next.reverse ++ stack) := by
  have climbing := ordered.toClimbing.visit listed_ok visited
  obtain ⟨hash, done⟩ := frame
  rcases treeVisit_ok visited with ⟨rfl, rfl, rfl⟩ | ⟨rfl, met, rfl, rfl⟩ |
    ⟨rfl, fresh, room, found, ok, rfl, rfl⟩
  · exact ⟨climbing, ordered.distinct, ordered.within, ordered.sorted.emit⟩
  · exact ⟨climbing, ordered.distinct, ordered.within,
      ordered.sorted.skip ordered.visits acyclic (kids_ne_none.mpr met)⟩
  · obtain rfl := listed_ok ok
    have unseen : walk.kids pairs hash = none := if_neg fresh
    refine ⟨climbing, nodup_cons.mpr ⟨fresh, ordered.distinct⟩, ?_, ?_⟩
    · rw [length_cons]
      omega
    · rw [kids_enter]
      exact ordered.sorted.enter ordered.visits unseen fun kid named => mem_referrersOf.mp named

include ordered in
theorem Ordered.unmet_visit
    (visited : treeVisit limits (listed pairs) bound walk frame = .ok (next, after)) :
    unmet pairs roots after + next.length = unmet pairs roots walk := by
  obtain ⟨hash, done⟩ := frame
  rcases treeVisit_ok visited with ⟨rfl, rfl, rfl⟩ | ⟨rfl, met, rfl, rfl⟩ |
    ⟨rfl, fresh, room, found, ok, rfl, rfl⟩
  · rfl
  · rfl
  · obtain rfl := listed_ok ok
    have pending := mem_reached.mpr (ordered.pending (hash, false) mem_cons_self)
    have member : hash ∈ (reached pairs roots).filter (· ∉ walk.seen) :=
      Finset.mem_filter.mpr ⟨pending, fresh⟩
    have smaller : (reached pairs roots).filter (· ∉ hash :: walk.seen) =
        ((reached pairs roots).filter (· ∉ walk.seen)).erase hash := by
      ext other
      simp only [Finset.mem_filter, Finset.mem_erase, mem_cons, not_or]
      tauto
    rw [unmet, unmet, smaller, ← Finset.sum_erase_add _ _ member, length_cons, length_map]
    rfl

theorem Ordered.start : Ordered pairs roots bound {} (roots.map fun root => (root, false)) where
  toClimbing := .start
  distinct := nodup_nil
  within := Nat.zero_le _
  sorted := by
    rw [kids_nil]
    exact Postorder.Sorted.nil.start roots

theorem Ordered.mem_seen (ordered : Ordered pairs roots bound walk []) :
    hash ∈ walk.seen ↔ hash ∈ reached pairs roots :=
  ordered.toClimbing.mem_seen.trans mem_reached.symm

include acyclic in
/-- A walk that ends had room for all that it reaches, and steps for all that it costs. -/
theorem bounds_of_walked
    {tooMany : DeleteError} {steps : Nat} {final : TreeWalk}
    (walked : walkFrames tooMany (treeVisit limits (listed pairs) bound) steps {}
      (roots.map fun root => (root, false)) = .ok final) :
    Ordered pairs roots bound final [] ∧ (reached pairs roots).card ≤ bound.toNat ∧
      treeSteps pairs roots ≤ steps := by
  have kept : ∀ state top stack next after, Ordered pairs roots bound state (top :: stack) →
      treeVisit limits (listed pairs) bound state top = .ok (next, after) →
      Ordered pairs roots bound after (next.reverse ++ stack) :=
    fun state top stack next after ordered visited => ordered.visit acyclic visited
  have ordered := walkFrames_invariant (Ordered pairs roots bound) kept Ordered.start walked
  have counted := steps_of_walkFrames (Ordered pairs roots bound) (unmet pairs roots) kept
    (fun state top stack next after ordered visited => ordered.unmet_visit visited) Ordered.start walked
  have seen : final.seen.toFinset = reached pairs roots := by
    ext hash
    rw [mem_toFinset, ordered.mem_seen]
  have nothing : unmet pairs roots final = 0 := by
    refine Finset.sum_eq_zero fun hash member => ?_
    obtain ⟨inside, outside⟩ := Finset.mem_filter.mp member
    exact absurd (ordered.mem_seen.mpr inside) outside
  have everything : unmet pairs roots {} = ∑ hash ∈ reached pairs roots, cost pairs hash := by
    rw [unmet, Finset.filter_true_of_mem fun hash _ => not_mem_nil]
  refine ⟨ordered, ?_, ?_⟩
  · rw [← seen, toFinset_card_of_nodup ordered.distinct]
    exact ordered.within
  · rw [length_map, nothing, everything] at counted
    rw [treeSteps]
    omega

/-- The nodes met leave room for one more that is in reach. -/
theorem Ordered.visit_succeeds (limits : Graph.Limits)
    (ordered : Ordered pairs roots bound walk (frame :: stack))
    (room : (reached pairs roots).card ≤ bound.toNat) :
    ∃ next after, treeVisit limits (listed pairs) bound walk frame = .ok (next, after) := by
  obtain ⟨hash, done⟩ := frame
  rw [treeVisit]
  by_cases emitted : done = true
  · exact ⟨_, _, if_pos emitted⟩
  · by_cases met : hash ∈ walk.seen
    · exact ⟨_, _, by rw [if_neg emitted, if_pos met]⟩
    · have inside : (hash :: walk.seen).toFinset ⊆ reached pairs roots := by
        intro other member
        rcases mem_cons.mp (mem_toFinset.mp member) with rfl | member
        · exact mem_reached.mpr (ordered.pending (other, done) mem_cons_self)
        · exact mem_reached.mpr (ordered.seen other member)
      have fits := Finset.card_le_card inside
      rw [toFinset_card_of_nodup (nodup_cons.mpr ⟨met, ordered.distinct⟩),
        length_cons] at fits
      have below : ¬bound ≤ walk.seen.length := by omega
      exact ⟨_, _, by rw [if_neg emitted, if_neg met, if_neg below]; rfl⟩

include acyclic in
/-- With room and steps enough a walk ends. -/
theorem walked_of_bounds {tooMany : DeleteError} {steps : Nat}
    (room : (reached pairs roots).card ≤ bound.toNat) (enough : treeSteps pairs roots ≤ steps) :
    ∃ final, walkFrames tooMany (treeVisit limits (listed pairs) bound) steps {}
      (roots.map fun root => (root, false)) = .ok final := by
  have everything : unmet pairs roots {} = ∑ hash ∈ reached pairs roots, cost pairs hash := by
    rw [unmet, Finset.filter_true_of_mem fun hash _ => not_mem_nil]
  refine walkFrames_succeeds (Ordered pairs roots bound) (unmet pairs roots) ?_ Ordered.start ?_
  · intro walk frame stack ordered
    obtain ⟨next, after, visited⟩ := ordered.visit_succeeds limits room
    exact ⟨next, after, visited, ordered.visit acyclic visited, (ordered.unmet_visit visited).le⟩
  · rw [length_map, everything]
    rw [treeSteps] at enough
    omega

/-- The errors that wrap `ErrTooLarge`. -/
def DeleteError.IsTooLarge : DeleteError → Prop
  | .tooManyReferrers _ _ | .tooManyToDelete _ | .tooManySteps _ => True
  | _ => False

theorem referrerTree_eq (list : Hash → Except DeleteError (List Hash)) :
    referrerTree limits list roots =
      (walkFrames (.tooManySteps (maxSteps limits roots)) (treeVisit limits list (maxNodes limits roots))
        (maxSteps limits roots).toNat {} (roots.map fun root => (root, false))).map order := by
  rfl

/-- A walk through a relation fails with `ErrTooLarge` only. -/
theorem tooLarge_of_failed {failure : DeleteError}
    (failed : referrerTree limits (listed pairs) roots = .error failure) : failure.IsTooLarge := by
  rw [referrerTree_eq] at failed
  cases walked : walkFrames (.tooManySteps (maxSteps limits roots))
      (treeVisit limits (listed pairs) (maxNodes limits roots)) (maxSteps limits roots).toNat {}
      (roots.map fun root => (root, false)) with
  | ok final =>
    rw [walked] at failed
    cases failed
  | error other =>
    rw [walked] at failed
    cases failed
    rcases error_of_walkFrames walked with rfl | ⟨walk, frame, refused⟩
    · trivial
    · rw [treeVisit] at refused
      split_ifs at refused
      · cases refused
        trivial
      · cases refused

/-- What is asked of the tree of referrers. -/
structure Complete (limits : Graph.Limits) (pairs : List (Hash × Hash)) (roots : List Hash) : Prop where
  few : (reachedReferrers pairs roots).card ≤ limits.referrers →
    ∃ order, referrerTree limits (listed pairs) roots = .ok order ∧ order.Nodup ∧
      (∀ hash, hash ∈ order ↔ ∃ root ∈ roots, Relation.ReflTransGen (RefersTo pairs) root hash) ∧
      ∀ before hash after, order = before ++ hash :: after →
        ∀ referrer, RefersTo pairs hash referrer → referrer ∈ before
  many : roots.length + limits.referrers < (reached pairs roots).card →
    ∃ failure, referrerTree limits (listed pairs) roots = .error failure ∧ failure.IsTooLarge

/-- The 64-bit bounds leave room for the walk. -/
def Bounded (limits : Graph.Limits) (pairs : List (Hash × Hash)) (roots : List Hash) : Prop :=
  (reached pairs roots).card ≤ (maxNodes limits roots).toNat ∧
    treeSteps pairs roots ≤ (maxSteps limits roots).toNat

theorem toNat_maxNodes_le : (maxNodes limits roots).toNat ≤ roots.length + limits.referrers := by
  have wrapped := Graph.int64_le (roots.length + limits.referrers)
  rw [Int.natCast_add] at wrapped
  rw [maxNodes]
  omega

/-- Every node in reach is a root or a referrer. -/
theorem card_reached_le : (reached pairs roots).card ≤ roots.length +
    (reachedReferrers pairs roots).card := by
  have inside : reached pairs roots ⊆ roots.toFinset ∪ reachedReferrers pairs roots := by
    intro hash member
    obtain ⟨root, listed, chain⟩ := mem_reached.mp member
    rw [Finset.mem_union, mem_toFinset]
    rcases Relation.reflTransGen_iff_eq_or_transGen.mp chain with rfl | chain
    · exact .inl listed
    · exact .inr (mem_reachedReferrers.mpr ⟨root, listed, chain⟩)
  refine (Finset.card_le_card inside).trans ((Finset.card_union_le _ _).trans ?_)
  exact Nat.add_le_add_right (toFinset_card_le roots) _

/-- A node has no more referrers than are reached. -/
theorem cost_le (distinct : pairs.Nodup) (member : hash ∈ reached pairs roots) :
    cost pairs hash ≤ (reachedReferrers pairs roots).card + 1 := by
  obtain ⟨root, listed, chain⟩ := mem_reached.mp member
  have apart : (referrersOf pairs hash).Nodup := by
    refine Nodup.map_on ?_ (distinct.filter _)
    rintro ⟨first, referrer⟩ found ⟨second, referrer'⟩ found' same
    have subject := of_decide_eq_true (mem_filter.mp found).2
    have subject' := of_decide_eq_true (mem_filter.mp found').2
    exact Prod.ext (subject.trans subject'.symm) same
  have inside : (referrersOf pairs hash).toFinset ⊆ reachedReferrers pairs roots := by
    intro referrer named
    have pair := mem_referrersOf.mp (mem_toFinset.mp named)
    exact mem_reachedReferrers.mpr ⟨root, listed, .tail' chain pair⟩
  have few := Finset.card_le_card inside
  rw [toFinset_card_of_nodup apart] at few
  exact Nat.add_le_add_right few 1

/-- Bounds that fit 64 bits leave room for every relation within the limit. -/
theorem bounded_of_fits (distinct : pairs.Nodup)
    (fits : 2 * (roots.length + limits.referrers) * (limits.referrers + 1) < 2 ^ 63)
    (few : (reachedReferrers pairs roots).card ≤ limits.referrers) : Bounded limits pairs roots := by
  have wide : roots.length + limits.referrers ≤
      (roots.length + limits.referrers) * (limits.referrers + 1) := Nat.le_mul_of_pos_right _ (by omega)
  have half : 2 * (roots.length + limits.referrers) * (limits.referrers + 1) =
      2 * ((roots.length + limits.referrers) * (limits.referrers + 1)) := Nat.mul_assoc _ _ _
  have size : UInt64.size / 2 = 2 ^ 63 := rfl
  have nodes : maxNodes limits roots = ((roots.length + limits.referrers : Nat) : Int) := by
    rw [maxNodes, ← Int.natCast_add]
    exact Graph.int64_of_lt (by rw [size]; omega)
  have steps : maxSteps limits roots =
      ((2 * (roots.length + limits.referrers) * (limits.referrers + 1) : Nat) : Int) := by
    rw [maxSteps, nodes]
    have whole : 2 * ((roots.length + limits.referrers : Nat) : Int) * (limits.referrers + 1) =
        ((2 * (roots.length + limits.referrers) * (limits.referrers + 1) : Nat) : Int) := by
      push_cast
      rfl
    rw [whole]
    exact Graph.int64_of_lt (by rw [size]; omega)
  have reach : (reached pairs roots).card ≤ roots.length + (reachedReferrers pairs roots).card :=
    card_reached_le
  have costs : ∑ hash ∈ reached pairs roots, cost pairs hash ≤
      (reached pairs roots).card * (limits.referrers + 1) := by
    refine (Finset.sum_le_card_nsmul _ _ _ fun hash member => ?_).trans_eq (smul_eq_mul _ _)
    exact (cost_le distinct member).trans (by omega)
  have total : (reached pairs roots).card * (limits.referrers + 1) ≤
      (roots.length + limits.referrers) * (limits.referrers + 1) :=
    Nat.mul_le_mul_right _ (by omega)
  refine ⟨?_, ?_⟩
  · rw [nodes, Int.toNat_natCast]
    omega
  · rw [steps, Int.toNat_natCast, treeSteps]
    omega

/-- The tree is complete and in order just when the bounds, where they matter, are not
wrapped below what the walk needs; they are not if the bound on steps fits 64 bits. -/
theorem referrerTree_complete_iff (limits : Graph.Limits) (pairs : List (Hash × Hash))
    (roots : List Hash)
    (acyclic : ∀ hash, ¬Relation.TransGen (RefersTo pairs) hash hash) :
    (Complete limits pairs roots ↔
      ((reachedReferrers pairs roots).card ≤ limits.referrers → Bounded limits pairs roots)) ∧
      (pairs.Nodup → 2 * (roots.length + limits.referrers) * (limits.referrers + 1) < 2 ^ 63 →
        (reachedReferrers pairs roots).card ≤ limits.referrers → Bounded limits pairs roots) := by
  refine ⟨⟨fun complete few => ?_, fun bounded => ⟨fun few => ?_, fun many => ?_⟩⟩, ?_⟩
  · obtain ⟨order, climbed, -⟩ := complete.few few
    obtain ⟨final, walked, -⟩ := exists_of_bind_eq_ok climbed
    exact (bounds_of_walked acyclic walked).2
  · obtain ⟨room, enough⟩ := bounded few
    obtain ⟨final, walked⟩ : ∃ final, walkFrames _ (treeVisit limits (listed pairs) (maxNodes limits roots))
        (maxSteps limits roots).toNat {} (roots.map fun root => (root, false)) = .ok final :=
      walked_of_bounds acyclic room enough
    obtain ⟨ordered, -⟩ := bounds_of_walked acyclic walked
    refine ⟨final.order, ?_, ?_, fun hash => ?_, ?_⟩
    · rw [referrerTree_eq, walked]
      rfl
    · simpa using ordered.visits.once
    · rw [ordered.visits.mem_order, TreeWalk.kids_ne_none, ordered.toClimbing.mem_seen]
      rfl
    · intro before hash after shape referrer named
      have met : hash ∈ final.seen := by
        rw [← TreeWalk.kids_ne_none, ← ordered.visits.mem_order, shape]
        simp
      exact ordered.sorted.placed before hash after shape _ (if_pos met) referrer
        (mem_referrersOf.mpr named)
  · cases climbed : referrerTree limits (listed pairs) roots with
    | error failure => exact ⟨failure, rfl, tooLarge_of_failed climbed⟩
    | ok order =>
      obtain ⟨final, walked, -⟩ := exists_of_bind_eq_ok climbed
      obtain ⟨-, room, -⟩ := bounds_of_walked acyclic walked
      exact absurd (room.trans toNat_maxNodes_le) (not_le.mpr many)
  · exact bounded_of_fits

/-- A manifest with one signature. -/
def signedPair : List (Hash × Hash) := [(hashOf (textBytes "a"), hashOf (textBytes "b"))]

theorem acyclic_signedPair (hash : Hash) : ¬Relation.TransGen (RefersTo signedPair) hash hash := by
  intro cycle
  obtain ⟨next, first, -⟩ := Relation.TransGen.head'_iff.mp cycle
  obtain ⟨before, -, last⟩ := Relation.TransGen.tail'_iff.mp cycle
  have subject := (Prod.mk.inj (mem_singleton.mp first)).1
  have referrer := (Prod.mk.inj (mem_singleton.mp last)).2
  exact absurd (subject.symm.trans referrer) (by decide)

/-- Limits of a number of referrers. -/
def referrerLimits (referrers : Nat) : Graph.Limits :=
  ⟨⟨1048576, 4096⟩, 1073741824, 4294967296, referrers⟩

/-- The manifest named twice and its signature, within a limit of one referrer. -/
theorem referrerTree_complete_signed :
    Complete (referrerLimits 1) signedPair [hashOf (textBytes "a"), hashOf (textBytes "a")] := by
  obtain ⟨complete, bounded⟩ := referrerTree_complete_iff (referrerLimits 1) signedPair
    [hashOf (textBytes "a"), hashOf (textBytes "a")] acyclic_signedPair
  exact complete.mpr (bounded (by decide) (by decide))

/-- With a limit of 2³¹ referrers the bound on the steps is negative, and a manifest without
referrers is refused. -/
theorem referrerTree_refused :
    ¬∀ (limits : Graph.Limits) (pairs : List (Hash × Hash)) (roots : List Hash),
      (∀ hash, ¬Relation.TransGen (RefersTo pairs) hash hash) → Complete limits pairs roots := by
  intro all
  have complete := all (referrerLimits 2147483648) [] [hashOf (textBytes "a")] (by
    intro hash cycle
    obtain ⟨next, first, -⟩ := Relation.TransGen.head'_iff.mp cycle
    exact absurd first List.not_mem_nil)
  obtain ⟨order, climbed, -⟩ := complete.few (Nat.zero_le _)
  have bound : (maxSteps (referrerLimits 2147483648) [hashOf (textBytes "a")]).toNat = 0 := by
    decide +kernel
  rw [referrerTree_eq, bound] at climbed
  cases climbed

end Bounds

end Golusoris.Registry.Delete
