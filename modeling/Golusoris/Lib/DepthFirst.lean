import Mathlib

/-!
# Three-colour depth-first walks with a step limit

A node has slots, some of which hold a child. The walk keeps a stack of frames
with the slot that comes next; a node without a mark was not seen, one on the
stack is open, one that is done was left. A child that is open closes a cycle.

`walk_finished` says what the walk is for: it finishes exactly when nothing
descends forever from the root and the limit pays for every slot of every node
that is reached, and one turn more for each node.
-/

namespace Golusoris.Lib.DepthFirst

open List
open Function (update update_of_ne update_self)

variable {T : Type}

inductive Mark where
  | onStack
  | done
  deriving DecidableEq

structure Frame (T : Type) where
  node : T
  next : ℕ

inductive Outcome (T : Type) where
  | finished
  | cycle (node : T)
  | exhausted
  deriving DecidableEq

/-- What one turn leads to: an open child, or the marks and the stack after it. -/
inductive Turn (T : Type) where
  | cycle (node : T)
  | on (marks : T → Option Mark) (stack : List (Frame T))

section Walking

variable [DecidableEq T]

/-- One turn on the top frame. -/
def turn (slots : T → List (Option T)) (marks : T → Option Mark) (top : Frame T)
    (below : List (Frame T)) : Turn T :=
  match (slots top.node)[top.next]? with
  | none => .on (Function.update marks top.node (some .done)) below
  | some none => .on marks (⟨top.node, top.next + 1⟩ :: below)
  | some (some child) =>
    match marks child with
    | some .done => .on marks (⟨top.node, top.next + 1⟩ :: below)
    | some .onStack => .cycle child
    | none =>
      .on (Function.update marks child (some .onStack))
        (⟨child, 0⟩ :: ⟨top.node, top.next + 1⟩ :: below)

/-- The walk from given marks and a given stack, for a number of turns. -/
def walk (slots : T → List (Option T)) :
    ℕ → (T → Option Mark) → List (Frame T) → Outcome T
  | _, _, [] => .finished
  | 0, _, _ :: _ => .exhausted
  | turns + 1, marks, top :: below =>
    match turn slots marks top below with
    | .cycle node => .cycle node
    | .on marks' stack => walk slots turns marks' stack

/-- Only the root has a mark before the first turn. -/
def rootMark (root : T) : T → Option Mark :=
  Function.update (fun _ => none) root (some .onStack)

end Walking

/-- The child is held by a slot of the node. -/
def Below (slots : T → List (Option T)) (child node : T) : Prop :=
  some child ∈ slots node

/-- The node is the root or lies below it. -/
def Reached (slots : T → List (Option T)) (root node : T) : Prop :=
  Relation.ReflTransGen (Below slots) node root

variable {slots : T → List (Option T)} {node child : T}

theorem below_of_slot {index : ℕ} (slot : (slots node)[index]? = some (some child)) :
    Below slots child node :=
  mem_of_getElem? slot

theorem slot_of_below (edge : Below slots child node) :
    ∃ index < (slots node).length, (slots node)[index]? = some (some child) := by
  obtain ⟨index, bound, slot⟩ := List.getElem_of_mem edge
  exact ⟨index, bound, by rw [List.getElem?_eq_getElem bound, slot]⟩

theorem Reached.below {root : T} (reached : Reached slots root node)
    (edge : Below slots child node) : Reached slots root child :=
  .head edge reached

section Descent

variable {α : Type} {r : α → α → Prop} {a b : α}

theorem acc_of_reflTransGen (reached : Relation.ReflTransGen r b a) (ends : Acc r a) : Acc r b := by
  induction reached using Relation.ReflTransGen.head_induction_on with
  | refl => exact ends
  | head edge _ above => exact above.inv edge

/-- Something descends forever from what lies below itself. -/
theorem not_acc_of_loop (loop : Relation.TransGen r a a) : ¬ Acc r a := by
  intro ends
  have ends' : Acc (Relation.TransGen r) a := ends.transGen
  induction ends' with
  | intro b _ below => exact below b loop loop ends

end Descent

/-- The slots before `next` hold children that are done, except for the child
whose frame stands above. -/
def Visited (slots : T → List (Option T)) (marks : T → Option Mark) :
    Option T → List (Frame T) → Prop
  | _, [] => True
  | above, top :: below =>
    (∀ index < top.next, ∀ child, (slots top.node)[index]? = some (some child) →
      marks child = some .done ∨ above = some child) ∧
    Visited slots marks (some top.node) below

/-- What holds of the marks and the stack after every turn. -/
structure Sound (slots : T → List (Option T)) (root : T) (marks : T → Option Mark)
    (stack : List (Frame T)) : Prop where
  started : marks root ≠ none
  reached : ∀ node, marks node ≠ none → Reached slots root node
  opened : ∀ node, marks node = some .onStack ↔ node ∈ stack.map Frame.node
  once : (stack.map Frame.node).Nodup
  chain : (stack.map Frame.node).IsChain (Below slots)
  bounded : ∀ frame ∈ stack, frame.next ≤ (slots frame.node).length
  visited : Visited slots marks none stack
  ends : ∀ node, marks node = some .done → Acc (Below slots) node
  closed : ∀ node, marks node = some .done → ∀ child, Below slots child node →
    marks child = some .done

section Invariant

variable {slots : T → List (Option T)} {marks marks' : T → Option Mark} {root child : T}
variable {top : Frame T} {below stack : List (Frame T)}

theorem Visited.mono {above above' : Option T} (visited : Visited slots marks above stack)
    (keep : ∀ node, marks node = some .done → marks' node = some .done)
    (turned : ∀ node, above = some node → marks' node = some .done ∨ above' = some node) :
    Visited slots marks' above' stack := by
  induction stack generalizing above above' with
  | nil => trivial
  | cons frame rest hyp =>
    obtain ⟨here, under⟩ := visited
    refine ⟨fun index before node slot => ?_, hyp under fun node same => .inr same⟩
    rcases here index before node slot with left | open'
    · exact .inl (keep node left)
    · exact turned node open'

/-- A frame that went past a slot whose child is done, or stands above now. -/
theorem Visited.advance {above : Option T} (visited : Visited slots marks none (top :: below))
    (keep : ∀ node, marks node = some .done → marks' node = some .done)
    (slot : ∀ child, (slots top.node)[top.next]? = some (some child) →
      marks' child = some .done ∨ above = some child) :
    Visited slots marks' above (⟨top.node, top.next + 1⟩ :: below) := by
  obtain ⟨here, under⟩ := visited
  refine ⟨fun index before node held => ?_, under.mono keep fun node same => .inr same⟩
  rcases Nat.lt_succ_iff_lt_or_eq.mp before with earlier | rfl
  · rcases here index earlier node held with left | none
    · exact .inl (keep node left)
    · simp at none
  · exact slot node held

namespace Sound

theorem topOpen (sound : Sound slots root marks (top :: below)) : marks top.node = some .onStack :=
  (sound.opened top.node).mpr (by simp)

theorem topReached (sound : Sound slots root marks (top :: below)) : Reached slots root top.node :=
  sound.reached top.node (by simp [sound.topOpen])

/-- Whatever is open has the top of the stack below it. -/
theorem aboveTop (sound : Sound slots root marks (top :: below))
    (open' : marks child = some .onStack) :
    Relation.ReflTransGen (Below slots) top.node child := by
  have member := (sound.opened child).mp open'
  have chain := sound.chain
  clear sound
  generalize names : below.map Frame.node = nodes at *
  simp only [map_cons, names] at member chain
  clear names
  generalize top.node = start at *
  induction nodes generalizing start with
  | nil =>
    rw [mem_singleton] at member
    rw [member]
  | cons node rest hyp =>
    rw [isChain_cons_cons] at chain
    rcases mem_cons.mp member with rfl | deeper
    · exact .refl
    · exact .head chain.1 (hyp node deeper chain.2)

/-- An open child closes a cycle. -/
theorem loops (sound : Sound slots root marks (top :: below))
    (slot : (slots top.node)[top.next]? = some (some child))
    (open' : marks child = some .onStack) : ¬ Acc (Below slots) root := by
  intro ends
  have loop : Relation.TransGen (Below slots) child child :=
    .head' (below_of_slot slot) (sound.aboveTop open')
  exact not_acc_of_loop loop
    (acc_of_reflTransGen (sound.topReached.below (below_of_slot slot)) ends)

/-- The frame went past a slot that needs no visit. -/
theorem skip (sound : Sound slots root marks (top :: below))
    (inside : top.next < (slots top.node).length)
    (slot : ∀ child, (slots top.node)[top.next]? = some (some child) → marks child = some .done) :
    Sound slots root marks (⟨top.node, top.next + 1⟩ :: below) where
  started := sound.started
  reached := sound.reached
  opened := by simpa using sound.opened
  once := by simpa using sound.once
  chain := by simpa using sound.chain
  bounded := by
    intro frame member
    rcases mem_cons.mp member with rfl | deeper
    · exact inside
    · exact sound.bounded frame (.tail _ deeper)
  visited := sound.visited.advance (fun _ same => same) fun child held =>
    .inl (slot child held)
  ends := sound.ends
  closed := sound.closed

section Updates

variable [DecidableEq T]

/-- A child without a mark gets a frame of its own. -/
theorem push (sound : Sound slots root marks (top :: below))
    (slot : (slots top.node)[top.next]? = some (some child)) (unseen : marks child = none) :
    Sound slots root (update marks child (some .onStack))
      (⟨child, 0⟩ :: ⟨top.node, top.next + 1⟩ :: below) := by
  have fresh : child ∉ (top :: below).map Frame.node := by
    intro member
    rw [← sound.opened, unseen] at member
    simp at member
  have other : ∀ {node mark}, marks node = some mark → node ≠ child := by
    rintro node mark marked rfl
    rw [unseen] at marked
    cases marked
  have keep : ∀ node mark, marks node = some mark →
      update marks child (some .onStack) node = some mark := by
    intro node mark marked
    rw [update_of_ne (other marked), marked]
  have left : ∀ node, update marks child (some Mark.onStack) node = some .done →
      marks node = some .done := by
    intro node marked
    by_cases same : node = child
    · rw [same, update_self] at marked
      cases marked
    · rwa [update_of_ne same] at marked
  constructor
  case started =>
    obtain ⟨mark, marked⟩ := Option.ne_none_iff_exists'.mp sound.started
    simp [keep root mark marked]
  case reached =>
    intro node marked
    by_cases same : node = child
    · subst same
      exact sound.topReached.below (below_of_slot slot)
    · rw [update_of_ne same] at marked
      exact sound.reached node marked
  case opened =>
    intro node
    by_cases same : node = child
    · simp [same]
    · rw [update_of_ne same, sound.opened]
      simp [same]
  case once => exact nodup_cons.mpr ⟨fresh, sound.once⟩
  case chain => exact isChain_cons_cons.mpr ⟨below_of_slot slot, sound.chain⟩
  case bounded =>
    intro frame member
    rcases mem_cons.mp member with rfl | member
    · exact Nat.zero_le _
    · rcases mem_cons.mp member with rfl | deeper
      · exact (List.getElem?_eq_some_iff.mp slot).1
      · exact sound.bounded frame (.tail _ deeper)
  case visited =>
    refine ⟨fun index before => absurd before (Nat.not_lt_zero index), ?_⟩
    refine sound.visited.advance (fun node => keep node .done) fun node held => .inr ?_
    rw [slot] at held
    exact Option.some.inj held
  case ends => exact fun node marked => sound.ends node (left node marked)
  case closed =>
    intro node marked deeper edge
    exact keep deeper .done (sound.closed node (left node marked) deeper edge)

/-- A frame past its last slot leaves the stack. -/
theorem pop (sound : Sound slots root marks (top :: below))
    (past : (slots top.node).length ≤ top.next) :
    Sound slots root (update marks top.node (some .done)) below := by
  have away : top.node ∉ below.map Frame.node := (nodup_cons.mp sound.once).1
  have keep : ∀ node, marks node = some .done →
      update marks top.node (some Mark.done) node = some .done := by
    intro node marked
    by_cases same : node = top.node
    · rw [same, update_self]
    · rw [update_of_ne same, marked]
  have all : ∀ child, Below slots child top.node → marks child = some .done := by
    intro child edge
    obtain ⟨index, bound, slot⟩ := slot_of_below edge
    rcases sound.visited.1 index (bound.trans_le past) child slot with left | none
    · exact left
    · cases none
  constructor
  case started =>
    by_cases same : root = top.node
    · rw [same, update_self]
      simp
    · rw [update_of_ne same]
      exact sound.started
  case reached =>
    intro node marked
    by_cases same : node = top.node
    · rw [same]
      exact sound.topReached
    · rw [update_of_ne same] at marked
      exact sound.reached node marked
  case opened =>
    intro node
    by_cases same : node = top.node
    · subst same
      simpa using away
    · rw [update_of_ne same, sound.opened]
      simp [same]
  case once => exact (nodup_cons.mp sound.once).2
  case chain => exact List.IsChain.tail sound.chain
  case bounded => exact fun frame member => sound.bounded frame (.tail _ member)
  case visited =>
    refine sound.visited.2.mono keep fun node same => .inl ?_
    rw [← Option.some.inj same, update_self]
  case ends =>
    intro node marked
    by_cases same : node = top.node
    · rw [same]
      exact ⟨_, fun child edge => sound.ends child (all child edge)⟩
    · rw [update_of_ne same] at marked
      exact sound.ends node marked
  case closed =>
    intro node marked child edge
    by_cases same : node = top.node
    · rw [same] at edge
      exact keep child (all child edge)
    · rw [update_of_ne same] at marked
      exact keep child (sound.closed node marked child edge)

theorem start (slots : T → List (Option T)) (root : T) :
    Sound slots root (rootMark root) [⟨root, 0⟩] := by
  have only : ∀ {node}, rootMark root node ≠ none → node = root := by
    intro node marked
    by_contra other
    simp [rootMark, update_of_ne other] at marked
  have never : ∀ node, rootMark root node ≠ some .done := by
    intro node marked
    have same := only (by rw [marked]; simp)
    subst same
    simp [rootMark] at marked
  constructor
  case started => simp [rootMark]
  case reached =>
    intro node marked
    rw [only marked]
    exact .refl
  case opened =>
    intro node
    by_cases same : node = root <;> simp [rootMark, same]
  case once => simp
  case chain => simp
  case bounded => simp
  case visited => exact ⟨by simp, trivial⟩
  case ends => exact fun node marked => absurd marked (never node)
  case closed => exact fun node marked => absurd marked (never node)

end Updates

/-- An empty stack leaves no node open. -/
theorem left (sound : Sound slots root marks []) (marked : marks node ≠ none) :
    marks node = some .done := by
  have shut : marks node ≠ some .onStack := by
    rw [ne_eq, sound.opened]
    simp
  rcases same : marks node with _ | mark
  · exact absurd same marked
  · cases mark
    · exact absurd same shut
    · rfl

/-- A walk that came to its end saw whatever lies below the root. -/
theorem covers (sound : Sound slots root marks []) (reached : Reached slots root node) :
    marks node = some .done := by
  induction reached using Relation.ReflTransGen.head_induction_on with
  | refl => exact sound.left sound.started
  | head edge _ above => exact sound.closed _ above _ edge

end Sound

end Invariant

/-- The turns a node takes: one for each slot and one to leave it. -/
def weight (slots : T → List (Option T)) (node : T) : ℕ :=
  (slots node).length + 1

/-- The turns that a frame still takes for its own node. -/
def Frame.rest (slots : T → List (Option T)) (frame : Frame T) : ℕ :=
  weight slots frame.node - frame.next

section Turns

variable [Fintype T]

open Classical in
/-- The turns for the nodes below the root that have no mark yet. -/
noncomputable def unseen (slots : T → List (Option T)) (root : T) (marks : T → Option Mark) : ℕ :=
  ∑ node with Reached slots root node ∧ marks node = none, weight slots node

/-- The turns the walk still takes. -/
noncomputable def pending (slots : T → List (Option T)) (root : T) (marks : T → Option Mark)
    (stack : List (Frame T)) : ℕ :=
  unseen slots root marks + (stack.map (Frame.rest slots)).sum

open Classical in
/-- The turns a whole walk takes: the weights of the nodes it reaches. -/
noncomputable def cost (slots : T → List (Option T)) (root : T) : ℕ :=
  ∑ node with Reached slots root node, weight slots node

variable {slots : T → List (Option T)} {marks : T → Option Mark} {root child : T}
variable {top : Frame T} {below stack : List (Frame T)}

theorem unseen_remark [DecidableEq T] (mark : Mark) (marked : marks child ≠ none) :
    unseen slots root (update marks child (some mark)) = unseen slots root marks := by
  have same : ∀ node, update marks child (some mark) node = none ↔ marks node = none := by
    intro node
    by_cases same : node = child
    · simp [same, marked]
    · rw [update_of_ne same]
  unfold unseen
  congr 1
  ext node
  simp only [Finset.mem_filter, same]

/-- A first mark takes the weight of its node away. -/
theorem unseen_mark [DecidableEq T] (mark : Mark) (fresh : marks child = none)
    (reached : Reached slots root child) :
    unseen slots root marks =
      weight slots child + unseen slots root (update marks child (some mark)) := by
  classical
  have member : child ∈ Finset.univ.filter
      fun node => Reached slots root node ∧ marks node = none := by
    simp [reached, fresh]
  have erased : (Finset.univ.filter fun node => Reached slots root node ∧
      update marks child (some mark) node = none) =
      (Finset.univ.filter fun node => Reached slots root node ∧ marks node = none).erase child := by
    ext node
    by_cases same : node = child
    · simp [same]
    · simp [same]
  rw [unseen, ← Finset.add_sum_erase _ _ member, ← erased]
  rfl

theorem pending_skip (inside : top.next < (slots top.node).length) :
    pending slots root marks (top :: below) =
      pending slots root marks (⟨top.node, top.next + 1⟩ :: below) + 1 := by
  simp only [pending, map_cons, sum_cons, Frame.rest, weight]
  omega

theorem pending_pop [DecidableEq T] (sound : Sound slots root marks (top :: below))
    (past : (slots top.node).length ≤ top.next) :
    pending slots root marks (top :: below) =
      pending slots root (update marks top.node (some .done)) below + 1 := by
  have bound := sound.bounded top (.head _)
  rw [pending, pending, unseen_remark .done (by simp [sound.topOpen])]
  simp only [map_cons, sum_cons, Frame.rest, weight]
  omega

theorem pending_push [DecidableEq T] (sound : Sound slots root marks (top :: below))
    (slot : (slots top.node)[top.next]? = some (some child)) (fresh : marks child = none) :
    pending slots root marks (top :: below) =
      pending slots root (update marks child (some .onStack))
        (⟨child, 0⟩ :: ⟨top.node, top.next + 1⟩ :: below) + 1 := by
  have inside := (List.getElem?_eq_some_iff.mp slot).1
  have reached := sound.topReached.below (below_of_slot slot)
  rw [pending, pending, unseen_mark .onStack fresh reached]
  simp only [map_cons, sum_cons, Frame.rest, weight]
  omega

theorem pending_end (sound : Sound slots root marks []) : pending slots root marks [] = 0 := by
  have none : ∀ node, ¬ (Reached slots root node ∧ marks node = none) := by
    rintro node ⟨reached, fresh⟩
    rw [sound.covers reached] at fresh
    cases fresh
  simp [pending, unseen, none]

theorem pending_start [DecidableEq T] (slots : T → List (Option T)) (root : T) :
    pending slots root (rootMark root) [⟨root, 0⟩] = cost slots root := by
  have all : cost slots root = unseen slots root fun _ => none := by
    unfold cost unseen
    congr 1
    ext node
    simp
  rw [all, unseen_mark .onStack rfl (.refl : Reached slots root root), pending, rootMark]
  simp [Frame.rest, Nat.add_comm]

/-- A turn finds a cycle, or costs just what it takes off. -/
theorem turn_spec [DecidableEq T] (sound : Sound slots root marks (top :: below)) :
    (∃ node, turn slots marks top below = .cycle node ∧ ¬ Acc (Below slots) root) ∨
    ∃ marks' stack, turn slots marks top below = .on marks' stack ∧ Sound slots root marks' stack ∧
      pending slots root marks (top :: below) = pending slots root marks' stack + 1 := by
  rcases slot : (slots top.node)[top.next]? with _ | _ | child
  · have past := List.getElem?_eq_none_iff.mp slot
    exact .inr ⟨_, _, by rw [turn, slot], sound.pop past, pending_pop sound past⟩
  · have inside := (List.getElem?_eq_some_iff.mp slot).1
    exact .inr ⟨_, _, by rw [turn, slot], sound.skip inside (by simp [slot]),
      pending_skip inside⟩
  · have inside := (List.getElem?_eq_some_iff.mp slot).1
    rcases mark : marks child with _ | _ | _
    · exact .inr ⟨_, _, by simp only [turn, slot, mark], sound.push slot mark,
        pending_push sound slot mark⟩
    · exact .inl ⟨child, by simp only [turn, slot, mark], sound.loops slot mark⟩
    · refine .inr ⟨_, _, by simp only [turn, slot, mark], sound.skip inside ?_, pending_skip inside⟩
      intro held same
      rw [slot] at same
      rw [← Option.some.inj (Option.some.inj same), mark]

theorem Sound.walk_finished [DecidableEq T] (sound : Sound slots root marks stack) (turns : ℕ) :
    walk slots turns marks stack = .finished ↔
      Acc (Below slots) root ∧ pending slots root marks stack ≤ turns := by
  induction turns generalizing marks stack with
  | zero =>
    cases stack with
    | nil =>
      have ends := sound.ends root (sound.covers .refl)
      simp [walk, ends, pending_end sound]
    | cons top below =>
      have bound := sound.bounded top (.head _)
      have waits : 0 < pending slots root marks (top :: below) := by
        simp only [pending, map_cons, sum_cons, Frame.rest, weight]
        omega
      simp only [walk, reduceCtorEq, false_iff, not_and]
      intro _
      omega
  | succ turns hyp =>
    cases stack with
    | nil =>
      have ends := sound.ends root (sound.covers .refl)
      simp [walk, ends, pending_end sound]
    | cons top below =>
      rcases turn_spec sound with ⟨node, found, loops⟩ | ⟨marks', stack, found, sound', one⟩
      · simp [walk, found, loops]
      · rw [walk, found, one, Nat.add_le_add_iff_right]
        exact hyp sound'

/-- A walk finishes exactly when nothing below the root descends forever and the
limit pays for all of it. -/
theorem walk_finished [DecidableEq T] (slots : T → List (Option T)) (root : T) (turns : ℕ) :
    walk slots turns (rootMark root) [⟨root, 0⟩] = .finished ↔
      Acc (Below slots) root ∧ cost slots root ≤ turns := by
  rw [(Sound.start slots root).walk_finished, pending_start]

end Turns

end Golusoris.Lib.DepthFirst
