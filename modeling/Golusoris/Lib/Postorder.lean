import Golusoris.Lib.Lists
import Mathlib.Data.List.Nodup
import Mathlib.Logic.Function.Basic
import Mathlib.Logic.Relation

/-!
# Walks that emit a node after its children

A depth-first walk with an explicit stack of frames. A frame `(key, false)` is a
node to be visited; visiting a node for the first time opens it, which leaves
`(key, true)` on the stack below its children. The open frame, popped, emits the
node. What was visited may be the start of a further walk.

`Visits` says what holds of any graph. `Sorted` adds the order of what was
emitted, which takes a graph without cycles.
-/

namespace Golusoris.Lib.Postorder

open List

variable {κ : Type*}

/-- The open nodes, the innermost first. -/
def opened (stack : List (κ × Bool)) : List κ := (stack.filter Prod.snd).map Prod.fst

@[simp] theorem opened_nil : opened ([] : List (κ × Bool)) = [] := rfl

@[simp] theorem opened_open (key : κ) (stack : List (κ × Bool)) :
    opened ((key, true) :: stack) = key :: opened stack := by
  simp [opened]

@[simp] theorem opened_pending (key : κ) (stack : List (κ × Bool)) :
    opened ((key, false) :: stack) = opened stack := by
  simp [opened]

theorem mem_opened {key : κ} {stack : List (κ × Bool)} :
    key ∈ opened stack ↔ (key, true) ∈ stack := by
  simp [opened]

/-- The frames that opening a node puts on the stack, the top first. -/
def frames (key : κ) (kids : List κ) : List (κ × Bool) :=
  ((key, true) :: kids.map fun kid => (kid, false)).reverse

theorem frames_append (key : κ) (kids : List κ) (stack : List (κ × Bool)) :
    frames key kids ++ stack = (kids.map fun kid => (kid, false)).reverse ++ (key, true) :: stack := by
  simp [frames]

theorem opened_frames (key : κ) (kids : List κ) (stack : List (κ × Bool)) :
    opened (frames key kids ++ stack) = key :: opened stack := by
  have none : (kids.map fun kid => (kid, false)).reverse.filter Prod.snd = [] := by
    simp
  rw [frames_append, opened, filter_append, none, nil_append]
  exact opened_open key stack

theorem mem_frames {key kid : κ} {kids : List κ} {stack : List (κ × Bool)} (member : kid ∈ kids) :
    (kid, false) ∈ frames key kids ++ stack := by
  rw [frames_append]
  simp [member]

/-- Nodes are emitted or open just once; their children are visited or pending. -/
structure Visits (kids : κ → Option (List κ)) (order : List κ) (stack : List (κ × Bool)) :
    Prop where
  once : (order ++ opened stack).Nodup
  known : ∀ key, kids key ≠ none ↔ key ∈ order ∨ key ∈ opened stack
  children : ∀ key below, kids key = some below → ∀ kid ∈ below,
    kids kid ≠ none ∨ (kid, false) ∈ stack

section Walking

variable {kids : κ → Option (List κ)} {order : List κ} {stack : List (κ × Bool)}
variable {key : κ} {below : List κ}

theorem Visits.nil : Visits (fun _ : κ => none) [] [] where
  once := nodup_nil
  known := by simp
  children := by simp

theorem opened_map_pending (keys : List κ) : opened (keys.map fun key => (key, false)) = [] := by
  simp [opened]

/-- A finished walk can go on elsewhere. -/
theorem Visits.start (visits : Visits kids order []) (keys : List κ) :
    Visits kids order (keys.map fun key => (key, false)) where
  once := by simpa [opened_map_pending] using visits.once
  known := by simpa [opened_map_pending] using visits.known
  children := fun other below found kid member =>
    .inl ((visits.children other below found kid member).resolve_right not_mem_nil)

theorem Visits.emit (visits : Visits kids order ((key, true) :: stack)) :
    Visits kids (order ++ [key]) stack where
  once := by simpa using visits.once
  known := by
    intro other
    rw [visits.known, opened_open, mem_append, mem_cons, mem_singleton, or_assoc]
  children := by
    intro other below found kid member
    rcases visits.children other below found kid member with seen | pending
    · exact .inl seen
    · exact .inr (by simpa using pending)

theorem Visits.skip (visits : Visits kids order ((key, false) :: stack)) (seen : kids key ≠ none) :
    Visits kids order stack where
  once := by simpa using visits.once
  known := by simpa using visits.known
  children := by
    intro other below found kid member
    rcases visits.children other below found kid member with met | pending
    · exact .inl met
    · rcases mem_cons.mp pending with same | pending
      · obtain ⟨rfl, -⟩ := Prod.mk.inj same
        exact .inl seen
      · exact .inr pending

variable [DecidableEq κ]

theorem Visits.enter (visits : Visits kids order ((key, false) :: stack)) (fresh : kids key = none) :
    Visits (Function.update kids key (some below)) order (frames key below ++ stack) where
  once := by
    have absent := mt (visits.known key).mpr (not_not.mpr fresh)
    have once := visits.once
    rw [opened_pending] at absent once
    rw [opened_frames]
    refine nodup_middle.mpr (nodup_cons.mpr ⟨?_, once⟩)
    simpa using absent
  known := by
    intro other
    have known := visits.known other
    rw [opened_pending] at known
    rw [opened_frames, mem_cons]
    by_cases same : other = key
    · simp [same]
    · rw [Function.update_of_ne same, known]
      simp [same]
  children := by
    intro other lower found kid member
    by_cases same : other = key
    · subst same
      rw [Function.update_self, Option.some.injEq] at found
      subst found
      exact .inr (mem_frames member)
    · rw [Function.update_of_ne same] at found
      by_cases itself : kid = key
      · subst itself
        exact .inl (by simp)
      · rcases visits.children other lower found kid member with met | pending
        · exact .inl (by rwa [Function.update_of_ne itself])
        · rcases mem_cons.mp pending with same | pending
          · exact absurd (Prod.mk.inj same).1 itself
          · exact .inr (mem_append_right _ pending)

omit [DecidableEq κ] in
/-- At the end of a walk the nodes visited are those emitted, each once. -/
theorem Visits.mem_order (visits : Visits kids order []) : key ∈ order ↔ kids key ≠ none := by
  simp [visits.known key]

omit [DecidableEq κ] in
/-- What a walk has visited is closed under children. -/
theorem Visits.closed (visits : Visits kids order []) (found : kids key = some below) {kid : κ}
    (member : kid ∈ below) : kids kid ≠ none :=
  (visits.children key below found kid member).resolve_right not_mem_nil

/-- Children are emitted before their parents. A child of an open node is emitted or
above it on the stack, and what is above an open node is below it in the graph. -/
structure Sorted (edge : κ → κ → Prop) (kids : κ → Option (List κ)) (order : List κ)
    (stack : List (κ × Bool)) : Prop where
  placed : ∀ before key after, order = before ++ key :: after → ∀ below, kids key = some below →
    ∀ kid ∈ below, kid ∈ before
  waiting : ∀ above key rest, stack = above ++ (key, true) :: rest → ∀ below,
    kids key = some below → ∀ kid ∈ below, kid ∈ order ∨ ∃ status, (kid, status) ∈ above
  nested : ∀ above key rest, stack = above ++ (key, true) :: rest → ∀ frame ∈ above,
    Relation.TransGen edge key frame.1

variable {edge : κ → κ → Prop}

omit [DecidableEq κ] in
theorem Sorted.nil : Sorted edge (fun _ : κ => none) [] [] where
  placed := by simp
  waiting := by simp
  nested := by simp

omit [DecidableEq κ] in
theorem Sorted.start (sorted : Sorted edge kids order []) (keys : List κ) :
    Sorted edge kids order (keys.map fun key => (key, false)) where
  placed := sorted.placed
  waiting := by
    intro above key rest shape
    have member : (key, true) ∈ keys.map fun key => (key, false) := by simp [shape]
    simp at member
  nested := by
    intro above key rest shape
    have member : (key, true) ∈ keys.map fun key => (key, false) := by simp [shape]
    simp at member

omit [DecidableEq κ] in
theorem Sorted.emit (sorted : Sorted edge kids order ((key, true) :: stack)) :
    Sorted edge kids (order ++ [key]) stack where
  placed := by
    intro before other after shape below found kid member
    rcases snoc_eq_append_cons shape with ⟨-, rfl, rfl⟩ | ⟨rest, -, shape⟩
    · -- Nothing is above the node that is emitted.
      rcases sorted.waiting [] key stack rfl below found kid member with emitted | ⟨status, above⟩
      · exact emitted
      · cases above
    · exact sorted.placed before other rest shape below found kid member
  waiting := by
    intro above other rest shape below found kid member
    rcases sorted.waiting ((key, true) :: above) other rest (by rw [shape, cons_append]) below
      found kid member with emitted | ⟨status, higher⟩
    · exact .inl (mem_append_left _ emitted)
    · rcases mem_cons.mp higher with same | higher
      · obtain ⟨rfl, -⟩ := Prod.mk.inj same
        exact .inl (by simp)
      · exact .inr ⟨status, higher⟩
  nested := by
    intro above other rest shape frame member
    exact sorted.nested ((key, true) :: above) other rest (by rw [shape, cons_append]) frame
      (mem_cons_of_mem _ member)

omit [DecidableEq κ] in
/-- Without cycles, a pending node that was visited was emitted. -/
theorem Sorted.emitted (sorted : Sorted edge kids order ((key, false) :: stack))
    (visits : Visits kids order ((key, false) :: stack))
    (acyclic : ∀ key, ¬Relation.TransGen edge key key) (seen : kids key ≠ none) : key ∈ order := by
  rcases (visits.known key).mp seen with emitted | unfinished
  · exact emitted
  · rw [opened_pending, mem_opened] at unfinished
    obtain ⟨above, rest, shape⟩ := append_of_mem unfinished
    have cycle := sorted.nested ((key, false) :: above) key rest (by rw [shape, cons_append])
      (key, false) mem_cons_self
    exact absurd cycle (acyclic key)

omit [DecidableEq κ] in
theorem Sorted.skip (sorted : Sorted edge kids order ((key, false) :: stack))
    (visits : Visits kids order ((key, false) :: stack))
    (acyclic : ∀ key, ¬Relation.TransGen edge key key) (seen : kids key ≠ none) :
    Sorted edge kids order stack where
  placed := sorted.placed
  waiting := by
    intro above other rest shape below found kid member
    rcases sorted.waiting ((key, false) :: above) other rest (by rw [shape, cons_append]) below
      found kid member with emitted | ⟨status, higher⟩
    · exact .inl emitted
    · rcases mem_cons.mp higher with same | higher
      · obtain ⟨rfl, -⟩ := Prod.mk.inj same
        exact .inl (sorted.emitted visits acyclic seen)
      · exact .inr ⟨status, higher⟩
  nested := by
    intro above other rest shape frame member
    exact sorted.nested ((key, false) :: above) other rest (by rw [shape, cons_append]) frame
      (mem_cons_of_mem _ member)

omit [DecidableEq κ] in
/-- An open node below a node just opened is that node or was open before. -/
theorem frames_cut {above rest : List (κ × Bool)} {other : κ}
    (shape : frames key below ++ stack = above ++ (other, true) :: rest) :
    (above = (below.map fun kid => (kid, false)).reverse ∧ other = key ∧ rest = stack) ∨
      ∃ higher, above = frames key below ++ higher ∧ stack = higher ++ (other, true) :: rest := by
  rw [frames_append] at shape
  rcases append_eq_append_iff.mp shape with ⟨middle, rfl, split⟩ | ⟨middle, split, shape⟩
  · cases middle with
    | nil =>
      obtain ⟨same, rfl⟩ := List.cons.inj split
      exact .inl ⟨by simp, (Prod.mk.inj same).1.symm, rfl⟩
    | cons first middle =>
      obtain ⟨rfl, rfl⟩ := List.cons.inj split
      exact .inr ⟨middle, (frames_append key below middle).symm, rfl⟩
  · cases middle with
    | nil =>
      obtain ⟨same, rfl⟩ := List.cons.inj shape
      exact .inl ⟨by simpa using split.symm, (Prod.mk.inj same).1, rfl⟩
    | cons first middle =>
      obtain ⟨rfl, -⟩ := List.cons.inj shape
      have member : (other, true) ∈ (below.map fun kid => (kid, false)).reverse := by
        simp [split]
      simp at member

theorem Sorted.enter (sorted : Sorted edge kids order ((key, false) :: stack))
    (visits : Visits kids order ((key, false) :: stack)) (fresh : kids key = none)
    (edges : ∀ kid ∈ below, edge key kid) :
    Sorted edge (Function.update kids key (some below)) order (frames key below ++ stack) where
  placed := by
    intro before other after shape lower found kid member
    have seen : kids other ≠ none := (visits.known other).mpr (.inl (by simp [shape]))
    have different : other ≠ key := by
      rintro rfl
      exact seen fresh
    rw [Function.update_of_ne different] at found
    exact sorted.placed before other after shape lower found kid member
  waiting := by
    intro above other rest shape lower found kid member
    rcases frames_cut shape with ⟨rfl, rfl, rfl⟩ | ⟨higher, rfl, split⟩
    · rw [Function.update_self, Option.some.injEq] at found
      subst found
      exact .inr ⟨false, by simp [member]⟩
    · have seen : kids other ≠ none := by
        refine (visits.known other).mpr (.inr ?_)
        rw [opened_pending, mem_opened, split]
        simp
      have different : other ≠ key := by
        rintro rfl
        exact seen fresh
      rw [Function.update_of_ne different] at found
      rcases sorted.waiting ((key, false) :: higher) other rest (by rw [split, cons_append])
        lower found kid member with emitted | ⟨status, member⟩
      · exact .inl emitted
      · rcases mem_cons.mp member with same | member
        · obtain ⟨rfl, -⟩ := Prod.mk.inj same
          exact .inr ⟨true, mem_append_left _ (by simp [frames])⟩
        · exact .inr ⟨status, mem_append_right _ member⟩
  nested := by
    intro above other rest shape frame member
    rcases frames_cut shape with ⟨rfl, rfl, rfl⟩ | ⟨higher, rfl, split⟩
    · obtain ⟨kid, found, rfl⟩ := mem_map.mp (mem_reverse.mp member)
      exact .single (edges kid found)
    · have nested := sorted.nested ((key, false) :: higher) other rest
        (by rw [split, cons_append])
      rcases mem_append.mp member with member | member
      · have parent := nested (key, false) mem_cons_self
        rw [frames, mem_reverse] at member
        rcases mem_cons.mp member with rfl | member
        · exact parent
        · obtain ⟨kid, found, rfl⟩ := mem_map.mp member
          exact parent.tail (edges kid found)
      · exact nested frame (mem_cons_of_mem _ member)

end Walking

end Golusoris.Lib.Postorder
