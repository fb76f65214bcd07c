import Mathlib

/-!
# Walks that emit a node before its children

`Walk` is the recursive depth-first traversal with a set of visited nodes: a node
that was not visited is emitted, then its children are walked, then its siblings.
`loop` is the traversal with an explicit stack that marks a node when it is popped.
Both emit the same nodes in the same order, whatever cycles the graph has, and the
loop pops no more frames than there are roots and edges.
-/

namespace Golusoris.Lib.Preorder

variable {α : Type*} (next : α → List α)

/-- From the visited nodes and the nodes to walk to the nodes emitted. -/
inductive Walk : List α → List α → List α → Prop where
  | nil {seen : List α} : Walk seen [] []
  | skip {seen rest order : List α} {node : α} (visited : node ∈ seen) (later : Walk seen rest order) :
      Walk seen (node :: rest) order
  | visit {seen rest below order : List α} {node : α} (fresh : node ∉ seen)
      (children : Walk (node :: seen) (next node) below)
      (later : Walk (below.reverse ++ node :: seen) rest order) :
      Walk seen (node :: rest) (node :: (below ++ order))

/-- The loop over a stack: the nodes emitted, and the stack that is left. -/
def loop [DecidableEq α] : Nat → List α → List α → List α × List α
  | _, _, [] => ([], [])
  | 0, _, stack => ([], stack)
  | steps + 1, seen, node :: stack =>
      if node ∈ seen then loop steps seen stack
      else
        let (order, left) := loop steps (node :: seen) (next node ++ stack)
        (node :: order, left)

variable {next} {seen todo order : List α}

/-- Walking some nodes and then others is walking all of them. -/
theorem Walk.split {first second : List α} (walk : Walk next seen (first ++ second) order) :
    ∃ below later, Walk next seen first below ∧ Walk next (below.reverse ++ seen) second later ∧
      order = below ++ later := by
  generalize together : first ++ second = todo at walk
  induction walk generalizing first with
  | nil =>
    obtain ⟨rfl, rfl⟩ := List.append_eq_nil_iff.mp together
    exact ⟨[], [], .nil, .nil, rfl⟩
  | @skip seen rest order node visited later ih =>
    cases first with
    | nil =>
      obtain rfl : second = node :: rest := together
      exact ⟨[], order, .nil, .skip visited later, rfl⟩
    | cons head first =>
      obtain ⟨rfl, rfl⟩ := List.cons.inj together
      obtain ⟨below, last, left, right, rfl⟩ := ih rfl
      exact ⟨below, last, .skip visited left, right, rfl⟩
  | @visit seen rest below order node fresh children later _ ih =>
    cases first with
    | nil =>
      obtain rfl : second = node :: rest := together
      exact ⟨[], _, .nil, .visit fresh children later, rfl⟩
    | cons head first =>
      obtain ⟨rfl, rfl⟩ := List.cons.inj together
      obtain ⟨middle, last, left, right, rfl⟩ := ih rfl
      refine ⟨head :: (below ++ middle), last, .visit fresh children left, ?_, ?_⟩
      · simpa using right
      · simp

theorem Walk.unique {other : List α} (walk : Walk next seen todo order)
    (again : Walk next seen todo other) :
    order = other := by
  induction walk generalizing other with
  | nil =>
    cases again
    rfl
  | skip visited later ih =>
    cases again with
    | skip _ later' => exact ih later'
    | visit fresh => exact absurd visited fresh
  | visit fresh children later ihChildren ih =>
    cases again with
    | skip visited => exact absurd visited fresh
    | visit _ children' later' =>
      obtain rfl := ihChildren children'
      rw [ih later']

/-- Nodes that are emitted can be reached. -/
theorem Walk.reached (walk : Walk next seen todo order) : ∀ node ∈ order, ∃ start ∈ todo,
    Relation.ReflTransGen (fun parent child => child ∈ next parent) start node := by
  induction walk with
  | nil => simp
  | skip visited later ih =>
    intro node found
    obtain ⟨start, listed, chain⟩ := ih node found
    exact ⟨start, List.mem_cons_of_mem _ listed, chain⟩
  | @visit seen rest below order node fresh children later ihChildren ih =>
    intro other found
    rcases List.mem_cons.mp found with rfl | found
    · exact ⟨other, List.mem_cons_self, .refl⟩
    · rcases List.mem_append.mp found with found | found
      · obtain ⟨start, listed, chain⟩ := ihChildren other found
        exact ⟨node, List.mem_cons_self, .head listed chain⟩
      · obtain ⟨start, listed, chain⟩ := ih other found
        exact ⟨start, List.mem_cons_of_mem _ listed, chain⟩

/-- What is walked was visited, and so were the children of what is emitted. -/
theorem Walk.closed (walk : Walk next seen todo order) :
    (∀ node ∈ todo, node ∈ order ∨ node ∈ seen) ∧
      ∀ node ∈ order, ∀ child ∈ next node, child ∈ order ∨ child ∈ seen := by
  induction walk with
  | nil => simp
  | skip visited later ih =>
    refine ⟨fun node listed => ?_, ih.2⟩
    rcases List.mem_cons.mp listed with rfl | listed
    · exact .inr visited
    · exact ih.1 node listed
  | @visit seen rest below order node fresh children later ihChildren ih =>
    obtain ⟨listed, closed⟩ := ihChildren
    obtain ⟨listed', closed'⟩ := ih
    simp only [List.mem_append, List.mem_reverse, List.mem_cons] at listed closed listed' closed' ⊢
    refine ⟨?_, ?_⟩
    · rintro other (rfl | found)
      · exact .inl (.inl rfl)
      · have := listed' other found
        tauto
    · rintro other (rfl | found | found) child below
      · have := listed child below
        tauto
      · have := closed other found child below
        tauto
      · have := closed' other found child below
        tauto

/-- A walk from one node emits what can be reached from it. -/
theorem Walk.mem_iff {start : α} (walk : Walk next [] [start] order) (node : α) :
    node ∈ order ↔ Relation.ReflTransGen (fun parent child => child ∈ next parent) start node := by
  constructor
  · intro found
    obtain ⟨first, listed, chain⟩ := walk.reached node found
    exact List.mem_singleton.mp listed ▸ chain
  · intro chain
    obtain ⟨listed, closed⟩ := walk.closed
    induction chain with
    | refl => exact (listed start List.mem_cons_self).resolve_right List.not_mem_nil
    | tail _ child ih => exact (closed _ ih _ child).resolve_right List.not_mem_nil

variable [DecidableEq α]

/-- The edges from nodes that were not visited. -/
def edgesLeft (next : α → List α) (keys seen : List α) : Nat :=
  ((keys.filter (· ∉ seen)).map fun key => (next key).length).sum

theorem edgesLeft_nil (keys : List α) :
    edgesLeft next keys [] = (keys.map fun key => (next key).length).sum := by
  rw [edgesLeft, List.filter_eq_self.mpr fun key _ => decide_eq_true List.not_mem_nil]

/-- Visiting a node spends its edges. -/
theorem edgesLeft_visit {keys : List α} (distinct : keys.Nodup)
    (all : ∀ node, node ∉ keys → next node = [])
    {node : α} (fresh : node ∉ seen) :
    (next node).length + edgesLeft next keys (node :: seen) = edgesLeft next keys seen := by
  have fewer : keys.filter (· ∉ node :: seen) = (keys.filter (· ∉ seen)).erase node := by
    rw [(distinct.filter _).erase_eq_filter, List.filter_filter]
    refine List.filter_congr fun key _ => ?_
    simp [not_or, bne, beq_eq_decide]
  rw [edgesLeft, fewer]
  by_cases known : node ∈ keys
  · have member : node ∈ keys.filter (· ∉ seen) := List.mem_filter.mpr ⟨known, decide_eq_true fresh⟩
    exact List.sum_map_erase (fun key => (next key).length) member
  · have absent : node ∉ keys.filter (· ∉ seen) := fun found => known (List.mem_filter.mp found).1
    rw [all node known, List.erase_of_not_mem absent, List.length_nil, Nat.zero_add, edgesLeft]

/-- With a step for every node on the stack and every edge that is left, the loop is the
recursive walk. -/
theorem loop_walk {keys : List α} (distinct : keys.Nodup) (all : ∀ node, node ∉ keys → next node = [])
    {steps : Nat} {stack : List α} (enough : edgesLeft next keys seen + stack.length ≤ steps) :
    ∃ order, Walk next seen stack order ∧ loop next steps seen stack = (order, []) := by
  induction steps generalizing seen stack with
  | zero =>
    obtain rfl : stack = [] := List.length_eq_zero_iff.mp (by omega)
    exact ⟨[], .nil, rfl⟩
  | succ steps ih =>
    cases stack with
    | nil => exact ⟨[], .nil, rfl⟩
    | cons node stack =>
      rw [List.length_cons] at enough
      by_cases visited : node ∈ seen
      · obtain ⟨order, walk, looped⟩ := @ih seen stack (by omega)
        exact ⟨order, .skip visited walk, by rw [loop, if_pos visited, looped]⟩
      · have spent := edgesLeft_visit distinct all visited
        obtain ⟨order, walk, looped⟩ := @ih (node :: seen) (next node ++ stack) (by
          rw [List.length_append]
          omega)
        obtain ⟨below, later, children, rest, rfl⟩ := walk.split
        exact ⟨_, .visit visited children rest, by rw [loop, if_neg visited, looped]⟩

end Golusoris.Lib.Preorder
