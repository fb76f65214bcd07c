import Golusoris.Registry.Layout
import Mathlib.Data.List.Nodup

/-!
# What a walk through manifests meets

The rules for walks over a stack of frames, and what `reachable` has seen when it
comes to its end: the manifests in reach of its roots that it read, with their
children and blobs. What is in reach is a predicate that is closed under children,
so that walks from all of `index.json` and from a part of it are the same to prove.
-/

namespace Golusoris.Registry

open List
open Lib

section Frames

variable {State Frame Failure : Type} {tooMany : Failure}
variable {visit : State → Frame → Except Failure (List Frame × State)}

variable {steps : Nat} {state : State} {stack : List Frame}

variable (Holds : State → List Frame → Prop)

/-- What every visit keeps holds at the end of the walk. -/
theorem walkFrames_invariant
    (kept : ∀ state top stack next after, Holds state (top :: stack) →
      visit state top = .ok (next, after) → Holds after (next.reverse ++ stack)) {final :
      State} (holds : Holds state stack)
    (walked : walkFrames tooMany visit steps state stack = .ok final) : Holds final [] := by
  fun_induction walkFrames tooMany visit steps state stack with
  | case1 =>
    cases walked
    exact holds
  | case2 => cases walked
  | case3 => cases walked
  | case4 steps state top stack next after visited ih =>
    exact ih (kept state top stack next after holds visited) walked

variable (potential : State → Nat)

/-- A walk whose visits succeed and use up a potential ends within the bound. -/
theorem walkFrames_succeeds
    (visits : ∀ state top stack, Holds state (top :: stack) → ∃ next after,
      visit state top = .ok (next, after) ∧ Holds after (next.reverse ++ stack) ∧
        potential after + next.length ≤ potential state) (holds : Holds state stack)
    (enough : potential state + stack.length ≤ steps) :
    ∃ final, walkFrames tooMany visit steps state stack = .ok final := by
  fun_induction walkFrames tooMany visit steps state stack with
  | case1 steps state => exact ⟨state, rfl⟩
  | case2 => simp at enough
  | case3 steps state top stack failure refused =>
    obtain ⟨next, after, visited, -⟩ := visits state top stack holds
    cases refused.symm.trans visited
  | case4 steps state top stack next after visited ih =>
    obtain ⟨_, _, same, later, less⟩ := visits state top stack holds
    cases visited.symm.trans same
    rw [length_cons] at enough
    refine ih later ?_
    rw [length_append, length_reverse]
    omega

/-- A walk fails as one of its visits does, or runs out of steps. -/
theorem error_of_walkFrames {failure : Failure}
    (failed : walkFrames tooMany visit steps state stack = .error failure) :
    failure = tooMany ∨ ∃ state top, visit state top = .error failure := by
  fun_induction walkFrames tooMany visit steps state stack with
  | case1 => cases failed
  | case2 => exact .inl (Except.error.inj failed).symm
  | case3 steps state top stack other visited =>
    cases failed
    exact .inr ⟨state, top, visited⟩
  | case4 steps state top stack next after visited ih => exact ih failed

/-- A walk whose visits push what they use up of a potential takes a step for each unit. -/
theorem steps_of_walkFrames
    (kept : ∀ state top stack next after, Holds state (top :: stack) →
      visit state top = .ok (next, after) → Holds after (next.reverse ++ stack))
    (exact : ∀ state top stack next after, Holds state (top :: stack) →
      visit state top = .ok (next, after) → potential after + next.length = potential state) {final : State} (holds : Holds state stack)
    (walked : walkFrames tooMany visit steps state stack = .ok final) :
    potential state + stack.length ≤ steps + potential final := by
  fun_induction walkFrames tooMany visit steps state stack with
  | case1 =>
    cases walked
    simp
  | case2 => cases walked
  | case3 => cases walked
  | case4 steps state top stack next after visited ih =>
    have later := ih (kept state top stack next after holds visited) walked
    have same := exact state top stack next after holds visited
    rw [length_append, length_reverse] at later
    rw [length_cons]
    omega

/-- A walk whose visits use up a potential does not run out of steps: it fails only as a
visit does. -/
theorem exists_of_walkFrames_eq_error
    (less : ∀ state top next after, visit state top = .ok (next, after) →
      potential after + next.length ≤ potential state) {failure : Failure}
    (enough : potential state + stack.length ≤ steps)
    (failed : walkFrames tooMany visit steps state stack = .error failure) :
    ∃ state top, visit state top = .error failure := by
  fun_induction walkFrames tooMany visit steps state stack with
  | case1 => cases failed
  | case2 => simp at enough
  | case3 steps state top stack other visited =>
    cases failed
    exact ⟨state, top, visited⟩
  | case4 steps state top stack next after visited ih =>
    have shrinks := less state top next after visited
    rw [length_cons] at enough
    refine ih ?_ failed
    rw [length_append, length_reverse]
    omega

end Frames

theorem foldl_blob (blobs : List Descriptor) (seen : Seen) :
    (blobs.foldl (fun seen blob => seen.blob blob.digest) seen).read = seen.read ∧
      ∀ hash, (blobs.foldl (fun seen blob => seen.blob blob.digest) seen).digests hash =
        match seen.digests hash with
        | some role => some role
        | none => if hash ∈ blobs.map Descriptor.digest then some false else none := by
  induction blobs generalizing seen with
  | nil =>
    refine ⟨rfl, fun hash => ?_⟩
    cases found : seen.digests hash with
    | none => simp [found]
    | some role => simp [found]
  | cons blob blobs ih =>
    obtain ⟨read, digests⟩ := ih (seen.blob blob.digest)
    have unread : (seen.blob blob.digest).read = seen.read := by
      rw [Seen.blob]
      split <;> rfl
    refine ⟨read.trans unread, fun hash => ?_⟩
    rw [foldl_cons, digests hash]
    -- Meeting the first blob changes its own digest only, and only if it is new.
    have first : (seen.blob blob.digest).digests hash = match seen.digests hash with
        | some role => some role
        | none => if hash = blob.digest then some false else none := by
      rw [Seen.blob]
      cases met : seen.digests blob.digest with
      | some role =>
        simp only
        cases found : seen.digests hash with
        | some other => rfl
        | none =>
          have different : hash ≠ blob.digest := by
            rintro rfl
            rw [met] at found
            cases found
          simp [different]
      | none =>
        simp only
        by_cases same : hash = blob.digest
        · subst same
          simp [met]
        · rw [Function.update_of_ne same]
          cases seen.digests hash with
          | some other => rfl
          | none => simp [same]
    rw [first]
    cases seen.digests hash with
    | some role => rfl
    | none =>
      by_cases same : hash = blob.digest
      · simp [same]
      · simp [same]

section Manifest

variable {seen : Seen} {hash other : Hash} {blobs : List Descriptor}

theorem Seen.read_manifest : (seen.manifest hash blobs).read = seen.read + 1 :=
  (foldl_blob blobs _).1

theorem Seen.manifest_self : (seen.manifest hash blobs).digests hash = some true := by
  rw [Seen.manifest, (foldl_blob blobs _).2]
  simp

theorem Seen.manifest_of_ne (different : other ≠ hash) :
    (seen.manifest hash blobs).digests other = match seen.digests other with
      | some role => some role
      | none => if other ∈ blobs.map Descriptor.digest then some false else none := by
  rw [Seen.manifest, (foldl_blob blobs _).2]
  simp only [Function.update_of_ne different]

/-- A manifest stays one. -/
theorem Seen.manifest_true (found : seen.digests other = some true) :
    (seen.manifest hash blobs).digests other = some true := by
  by_cases same : other = hash
  · subst same
    exact Seen.manifest_self
  · rw [Seen.manifest_of_ne same, found]

theorem Seen.manifest_ne_none (found : seen.digests other ≠ none) :
    (seen.manifest hash blobs).digests other ≠ none := by
  by_cases same : other = hash
  · subst same
    rw [Seen.manifest_self]
    exact nofun
  · rw [Seen.manifest_of_ne same]
    cases role : seen.digests other with
    | none => exact absurd role found
    | some role => exact nofun

theorem Seen.manifest_blob {blob : Descriptor} (member : blob ∈ blobs) :
    (seen.manifest hash blobs).digests blob.digest ≠ none := by
  by_cases same : blob.digest = hash
  · rw [same, Seen.manifest_self]
    exact nofun
  · rw [Seen.manifest_of_ne same]
    cases seen.digests blob.digest with
    | none =>
      simp only [if_pos (mem_map_of_mem member)]
      exact nofun
    | some role => exact nofun

/-- What is new is the manifest and its blobs. -/
theorem Seen.manifest_eq_true (found : (seen.manifest hash blobs).digests other = some true) :
    other = hash ∨ seen.digests other = some true := by
  by_cases same : other = hash
  · exact .inl same
  · rw [Seen.manifest_of_ne same] at found
    cases role : seen.digests other with
    | none =>
      rw [role] at found
      simp only at found
      split at found <;> cases found
    | some role' =>
      rw [role] at found
      exact .inr found

theorem Seen.manifest_eq_false (found : (seen.manifest hash blobs).digests other = some false) :
    other ∈ blobs.map Descriptor.digest ∨ seen.digests other = some false := by
  by_cases same : other = hash
  · subst same
    rw [Seen.manifest_self] at found
    cases found
  · rw [Seen.manifest_of_ne same] at found
    cases role : seen.digests other with
    | none =>
      rw [role] at found
      simp only at found
      split at found
      · rename_i member
        exact .inl member
      · cases found
    | some role' =>
      rw [role] at found
      exact .inr found

end Manifest

section Exploring

variable {codec : Codec} {limits : Limits} {layout : Layout} {reach : Descriptor → Prop}
variable {roots : List Descriptor} {descriptor : Descriptor} {kids blobs : List Descriptor}
variable {seen after : Seen} {stack next : List Descriptor} {budget : Nat}

/-- What is read below a manifest in reach is in reach. -/
def ClosedBelow (codec : Codec) (limits : Limits) (layout : Layout) (reach : Descriptor → Prop) :
    Prop :=
  ∀ parent kids blobs, reach parent → content codec limits layout parent = .ok (kids, blobs) →
    ∀ kid ∈ kids, reach kid

/-- What holds while a walk runs. -/
structure Explored (codec : Codec) (limits : Limits) (layout : Layout) (reach : Descriptor → Prop)
    (roots : List Descriptor) (seen : Seen) (stack : List Descriptor) : Prop where
  pending : ∀ descriptor ∈ stack, reach descriptor
  roots : ∀ descriptor ∈ roots,
    seen.digests descriptor.digest = some true ∨ descriptor ∈ stack
  manifests : ∀ hash, seen.digests hash = some true → ∃ descriptor kids blobs,
    reach descriptor ∧ descriptor.digest = hash ∧
      content codec limits layout descriptor = .ok (kids, blobs) ∧
      (∀ kid ∈ kids, seen.digests kid.digest = some true ∨ kid ∈ stack) ∧
      ∀ blob ∈ blobs, seen.digests blob.digest ≠ none
  blobs : ∀ hash, seen.digests hash = some false → ∃ parent kids blobs blob,
    reach parent ∧ content codec limits layout parent = .ok (kids, blobs) ∧ blob ∈ blobs ∧
      blob.digest = hash
  counted : ∃ hashes : List Hash, hashes.Nodup ∧ hashes.length = seen.read ∧
    ∀ hash ∈ hashes, seen.digests hash = some true

/-- A manifest read before is skipped. -/
theorem Explored.skip (explored : Explored codec limits layout reach roots seen (descriptor :: stack))
    (met : seen.digests descriptor.digest = some true) :
    Explored codec limits layout reach roots seen stack := by
  have settle : ∀ other, seen.digests other.digest = some true ∨ other ∈ descriptor :: stack →
      seen.digests other.digest = some true ∨ other ∈ stack := by
    rintro other (found | member)
    · exact .inl found
    · rcases mem_cons.mp member with rfl | member
      · exact .inl met
      · exact .inr member
  refine ⟨fun other member => explored.pending other (mem_cons_of_mem _ member),
    fun root member => settle root (explored.roots root member), fun hash found => ?_, explored.blobs,
    explored.counted⟩
  obtain ⟨reader, kids, blobs, reached, named, read, below, beside⟩ := explored.manifests hash found
  exact ⟨reader, kids, blobs, reached, named, read,
    fun kid member => settle kid (below kid member), beside⟩

variable (closed : ClosedBelow codec limits layout reach)

include closed in
/-- A manifest that is read puts its children on the stack. -/
theorem Explored.read
    (explored : Explored codec limits layout reach roots seen (descriptor :: stack))
    (fresh : seen.digests descriptor.digest ≠ some true)
    (read : content codec limits layout descriptor = .ok (kids, blobs)) :
    Explored codec limits layout reach roots (seen.manifest descriptor.digest blobs)
      (kids.reverse ++ stack) := by
  have reached := explored.pending descriptor mem_cons_self
  have settle : ∀ other, seen.digests other.digest = some true ∨ other ∈ descriptor :: stack →
      (seen.manifest descriptor.digest blobs).digests other.digest = some true ∨
        other ∈ kids.reverse ++ stack := by
    rintro other (found | member)
    · exact .inl (Seen.manifest_true found)
    · rcases mem_cons.mp member with rfl | member
      · exact .inl Seen.manifest_self
      · exact .inr (mem_append_right _ member)
  constructor
  · intro other member
    rcases mem_append.mp member with member | member
    · exact closed descriptor kids blobs reached read other (mem_reverse.mp member)
    · exact explored.pending other (mem_cons_of_mem _ member)
  · exact fun root member => settle root (explored.roots root member)
  · intro hash found
    rcases Seen.manifest_eq_true found with rfl | found
    · exact ⟨descriptor, kids, blobs, reached, rfl, read,
        fun kid member => .inr (mem_append_left _ (mem_reverse.mpr member)),
        fun blob member => Seen.manifest_blob member⟩
    · obtain ⟨reader, kids', blobs', reached, named, read, below, beside⟩ :=
        explored.manifests hash found
      exact ⟨reader, kids', blobs', reached, named, read,
        fun kid member => settle kid (below kid member),
        fun blob member => Seen.manifest_ne_none (beside blob member)⟩
  · intro hash found
    rcases Seen.manifest_eq_false found with member | found
    · obtain ⟨blob, listed, rfl⟩ := mem_map.mp member
      exact ⟨descriptor, kids, blobs, blob, reached, read, listed, rfl⟩
    · exact explored.blobs hash found
  · obtain ⟨hashes, nodup, length, all⟩ := explored.counted
    refine ⟨descriptor.digest :: hashes, nodup_cons.mpr ⟨fun member => ?_, nodup⟩, ?_, ?_⟩
    · exact fresh (all _ member)
    · rw [length_cons, length, Seen.read_manifest]
    · intro hash member
      rcases mem_cons.mp member with rfl | member
      · exact Seen.manifest_self
      · exact Seen.manifest_true (all hash member)

include closed in
theorem Explored.visit
    (explored : Explored codec limits layout reach roots seen (descriptor :: stack))
    (visited : visit codec limits layout budget seen descriptor = .ok (next, after)) :
    Explored codec limits layout reach roots after (next.reverse ++ stack) := by
  rw [Registry.visit] at visited
  by_cases met : seen.digests descriptor.digest = some true
  · rw [if_pos met] at visited
    cases visited
    exact explored.skip met
  · rw [if_neg met] at visited
    split at visited
    · cases visited
    · cases read : content codec limits layout descriptor with
      | error failure =>
        rw [read] at visited
        cases visited
      | ok pair =>
        obtain ⟨kids, blobs⟩ := pair
        rw [read] at visited
        cases visited
        exact explored.read closed met read

/-- The walk begins with its roots. -/
theorem explored_roots (within : ∀ root ∈ roots, reach root) :
    Explored codec limits layout reach roots {} roots.reverse := by
  refine ⟨fun root member => within root (mem_reverse.mp member),
    fun root member => .inr (mem_reverse.mpr member), by simp, by simp, [], nodup_nil, rfl,
    by simp⟩

include closed in
theorem explored_of_reachable (within : ∀ root ∈ roots, reach root)
    (walked : reachable codec limits layout roots budget = .ok seen) :
    Explored codec limits layout reach roots seen [] := by
  refine walkFrames_invariant (Explored codec limits layout reach roots) ?_ (explored_roots within)
    walked
  intro state top stack next after holds visited
  exact holds.visit closed visited

end Exploring

end Golusoris.Registry
