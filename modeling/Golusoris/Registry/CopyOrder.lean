import Golusoris.Lib.Postorder
import Golusoris.Lib.Results
import Golusoris.Registry.Collect
import Golusoris.Registry.Graph

/-!
# The order of a copy

The walk of a plan is a walk of `Lib.Postorder`, over digests: a manifest is
planned after its children, whether it is met first below the root or below a
referrer. The run keeps that order, so whatever stops it, the manifests stored so
far stand on what was stored before them.
-/

namespace Golusoris.Registry

open List

namespace Graph

open Lib

variable {Failure : Type} {codec : Codec} {limits : Limits} {source : Source Failure}

/-- What a plan has apart from its counters. -/
structure SameNodes (plan after : Plan) : Prop where
  nodes : after.nodes = plan.nodes
  loaded : after.loaded = plan.loaded
  order : after.order = plan.order

variable {first second third plan after : Plan}

theorem SameNodes.trans (left : SameNodes first second) (right : SameNodes second third) :
    SameNodes first third where
  nodes := right.nodes.trans left.nodes
  loaded := right.loaded.trans left.loaded
  order := right.order.trans left.order

theorem count_ok {size : Int}
    (counted : (Plan.count limits plan size : Except (CopyError Failure) Plan) = .ok after) :
    SameNodes plan after := by
  rw [Plan.count] at counted
  split at counted
  · cases counted
  · cases counted
    exact ⟨rfl, rfl, rfl⟩

/-- The blobs of a manifest that a copy carries. -/
def carried (codec : Codec) (blobs : List Described) : List Described :=
  blobs.filter fun blob => codec.isDistributable blob.mediaType

variable {node : Node}

theorem addBlob_ok {node' : Node} {blob : Described}
    (added : (addBlob codec limits (plan, node) blob : Except (CopyError Failure) (Plan × Node)) =
      .ok (after, node')) :
    SameNodes plan after ∧ node' = { node with blobs := node.blobs ++ carried codec [blob] } := by
  rw [addBlob] at added
  simp only at added
  split at added
  · rename_i foreign
    cases added
    refine ⟨⟨rfl, rfl, rfl⟩, ?_⟩
    simp only [Bool.not_eq_true'] at foreign
    simp [carried, foreign]
  · rename_i distributable
    have carries : carried codec [blob] = [blob] := by
      simp only [Bool.not_eq_true', Bool.not_eq_false] at distributable
      simp [carried, distributable]
    rw [carries]
    split at added
    · cases added
    · split at added
      · cases added
      · split at added
        · cases added
          exact ⟨⟨rfl, rfl, rfl⟩, rfl⟩
        · obtain ⟨counted, total, same⟩ := exists_of_bind_eq_ok added
          cases same
          have kept := count_ok total
          exact ⟨⟨kept.nodes, kept.loaded, kept.order⟩, rfl⟩

theorem addBlobs_ok {blobs : List Described} {node' : Node}
    (added : (blobs.foldlM (addBlob codec limits) (plan, node) :
      Except (CopyError Failure) (Plan × Node)) = .ok (after, node')) :
    SameNodes plan after ∧ node' = { node with blobs := node.blobs ++ carried codec blobs } := by
  induction blobs generalizing plan node with
  | nil =>
    cases added
    exact ⟨⟨rfl, rfl, rfl⟩, by simp [carried]⟩
  | cons blob blobs ih =>
    rw [foldlM_cons] at added
    obtain ⟨⟨middle, between⟩, first, rest⟩ := exists_of_bind_eq_ok added
    obtain ⟨kept, rfl⟩ := addBlob_ok first
    obtain ⟨later, rfl⟩ := ih rest
    refine ⟨kept.trans later, ?_⟩
    simp [carried, filter_cons]
    split <;> rfl

/-- The children and the blobs of a manifest, read as a descriptor has it. -/
def Reads (codec : Codec) (limits : Limits) (source : Source Failure) (d : Described) (raw : Bytes)
    (kids blobs : List Described) : Prop :=
  source.manifest d.digest = .ok raw ∧
    (contentOf codec limits d.digest d.mediaType raw :
      Except (CopyError Failure) (List Described × List Described)) = .ok (kids, blobs)

/-- A manifest as a copy loads it. -/
structure Loads (codec : Codec) (limits : Limits) (source : Source Failure) (plan after : Plan)
    (d : Described) (node : Node) : Prop where
  kept : SameNodes plan after
  room : (plan.loaded : Int) < limits.maxManifests
  desc : node.desc = d
  role : node.role = .child
  reads : ∃ blobs, Reads codec limits source d node.raw node.kids blobs ∧
    node.blobs = carried codec blobs

theorem answer_ok {α : Type} {result : Except Failure α} {value : α}
    (answered : answer result = .ok value) : result = .ok value := by
  cases result with
  | error failure => cases answered
  | ok other => rw [Except.ok.inj answered]

variable {d : Described}

theorem load_ok (loaded : load codec limits source plan d = .ok (after, node)) :
    Loads codec limits source plan after d node := by
  rw [load] at loaded
  split at loaded
  · cases loaded
  · rename_i room
    split at loaded
    · cases loaded
    · split at loaded
      · cases loaded
      · obtain ⟨raw, answered, loaded⟩ := exists_of_bind_eq_ok loaded
        split at loaded
        · cases loaded
        · obtain ⟨counted, total, loaded⟩ := exists_of_bind_eq_ok loaded
          obtain ⟨⟨kids, blobs⟩, parsed, added⟩ := exists_of_bind_eq_ok loaded
          obtain ⟨kept, rfl⟩ := addBlobs_ok added
          exact ⟨(count_ok total).trans kept, by omega, rfl, rfl, blobs,
            ⟨answer_ok answered, parsed⟩, by simp⟩

/-- Loading does not fail for lack of steps. -/
theorem load_ne_tooManySteps (plan : Plan) (d : Described) (bound : Int) :
    load codec limits source plan d ≠ .error (.tooManySteps bound) := by
  have counts : ∀ plan size, (Plan.count limits plan size : Except (CopyError Failure) Plan) ≠
      .error (.tooManySteps bound) := by
    intro plan size
    rw [Plan.count]
    split <;> simp
  have blobs : ∀ state blob, (addBlob codec limits state blob :
      Except (CopyError Failure) (Plan × Node)) ≠ .error (.tooManySteps bound) := by
    intro state blob
    rw [addBlob]
    split
    · simp
    · split
      · simp
      · split
        · simp
        · split
          · simp
          · exact bind_ne_error (counts _ _) fun middle _ => by simp [pure, Except.pure]
  have parses : ∀ hash mediaType raw, (contentOf codec limits hash mediaType raw :
      Except (CopyError Failure) (List Described × List Described)) ≠
        .error (.tooManySteps bound) := by
    intro hash mediaType raw
    rw [contentOf]
    split
    · rw [indexContent]
      split
      · simp
      · split <;> simp
    · split
      · simp
      · split
        · simp
        · split <;> simp
  have answers : answer (source.manifest d.digest) ≠ .error (.tooManySteps bound) := by
    cases source.manifest d.digest with
    | error _ | ok _ => simp [answer]
  rw [load]
  split
  · simp
  · split
    · simp
    · split
      · simp
      · refine bind_ne_error answers fun raw _ => ?_
        split
        · simp
        · exact bind_ne_error (counts _ _) fun counted _ =>
            bind_ne_error (parses _ _ _) fun content _ => foldlM_ne_error blobs _ _

variable {frame : Frame} {next stack : List Frame}

variable (visited : planVisit codec limits source plan frame = .ok (next, after))

include visited in
/-- What a visit does: it emits, skips or loads a manifest. -/
theorem planVisit_ok :
    (frame.done = true ∧ next = [] ∧
      after = { plan with order := plan.order ++ [frame.d.digest] }) ∨
    (frame.done = false ∧ plan.nodes frame.d.digest ≠ none ∧ next = [] ∧ after = plan) ∨
    (frame.done = false ∧ plan.nodes frame.d.digest = none ∧
      ∃ middle node, Loads codec limits source plan middle frame.d node ∧
        next = { d := frame.d, done := true } :: node.kids.map (fun kid => { d := kid }) ∧
        after = { middle with
          nodes := Function.update middle.nodes frame.d.digest (some node)
          loaded := middle.loaded + 1 }) := by
  rw [planVisit] at visited
  split at visited
  · rename_i done
    cases visited
    exact .inl ⟨done, rfl, rfl⟩
  · rename_i pending
    rw [Bool.not_eq_true] at pending
    split at visited
    · rename_i node found
      cases visited
      exact .inr (.inl ⟨pending, by simp [found], rfl, rfl⟩)
    · rename_i fresh
      obtain ⟨⟨middle, node⟩, loaded, same⟩ := exists_of_bind_eq_ok visited
      cases same
      exact .inr (.inr ⟨pending, fresh, middle, node, load_ok loaded, rfl, rfl⟩)

theorem planVisit_ne_tooManySteps (plan : Plan) (frame : Frame) (bound : Int) :
    planVisit codec limits source plan frame ≠ .error (.tooManySteps bound) := by
  rw [planVisit]
  split
  · simp
  · split
    · simp
    · exact bind_ne_error (load_ne_tooManySteps _ _ _) fun loaded _ => by simp [pure, Except.pure]

/-- The decoders without the sizes, as a collection has them. -/
def Codec.plain (codec : Codec) (sha256 : Bytes → Bytes) (mediaType : Bytes → Option Bytes) :
    Registry.Codec where
  sha256 := sha256
  mediaType := mediaType
  parseIndexManifest raw := (codec.parseIndexManifest raw).map (List.map Described.toDescriptor)
  parseManifest raw := (codec.parseManifest raw).map fun parsed =>
    ⟨parsed.1.toDescriptor, parsed.2.map Described.toDescriptor⟩

variable {hash other : Hash} {raw : Bytes}

/-- A copy and a collection find the same content in a manifest. -/
theorem contentOf_plain (sha256 : Bytes → Bytes) (declared : Bytes → Option Bytes)
    {mediaType : Bytes} {kids blobs : List Described}
    (parsed : (contentOf codec limits hash mediaType raw :
      Except (CopyError Failure) (List Described × List Described)) = .ok (kids, blobs)) :
    Registry.contentOf (codec.plain sha256 declared) limits.toLimits hash mediaType raw =
      .ok (kids.map Described.toDescriptor, blobs.map Described.toDescriptor) := by
  rw [contentOf] at parsed
  rw [Registry.contentOf]
  split at parsed
  · rename_i index
    rw [if_pos index, Registry.indexContent]
    rw [indexContent] at parsed
    cases found : codec.parseIndexManifest raw with
    | none =>
      rw [found] at parsed
      cases parsed
    | some entries =>
      rw [found] at parsed
      simp only [Codec.plain, found, Option.map_some, length_map]
      simp only at parsed
      split at parsed
      · cases parsed
      · rename_i few
        cases parsed
        rw [if_neg few, filter_map, filter_map]
        rfl
  · rename_i index
    rw [if_neg index]
    split at parsed
    · cases parsed
    · rename_i image
      rw [if_neg image]
      cases found : codec.parseManifest raw with
      | none =>
        rw [found] at parsed
        cases parsed
      | some manifest =>
        rw [found] at parsed
        simp only [Codec.plain, found, Option.map_some, length_map]
        simp only at parsed
        split at parsed
        · cases parsed
        · rename_i few
          cases parsed
          rw [if_neg few]
          rfl

theorem Reads.length_kids {kids blobs : List Described}
    (reads : Reads codec limits source d raw kids blobs) : kids.length ≤ limits.blobs := by
  have plain := contentOf_plain id some reads.2
  simpa using length_contentOf plain

/-- The bound on the steps is a number that 64 bits hold with a sign. -/
def Limits.Fit (limits : Limits) : Prop :=
  2 * (1 + limits.blobs + limits.referrers) * (limits.blobs + 1) < UInt64.size / 2

theorem Limits.Fit.maxManifests (fits : limits.Fit) :
    limits.maxManifests = ((1 + limits.blobs + limits.referrers : Nat) : Int) := by
  have small : 1 + limits.blobs + limits.referrers < UInt64.size / 2 := by
    refine Nat.lt_of_le_of_lt ?_ fits
    calc
      1 + limits.blobs + limits.referrers ≤ 2 * (1 + limits.blobs + limits.referrers) := by omega
      _ ≤ 2 * (1 + limits.blobs + limits.referrers) * (limits.blobs + 1) :=
          Nat.le_mul_of_pos_right _ (Nat.succ_pos _)
  rw [Limits.maxManifests, ← int64_of_lt small]
  congr 1

theorem Limits.Fit.maxSteps (fits : limits.Fit) :
    limits.maxSteps.toNat = 2 * (1 + limits.blobs + limits.referrers) * (limits.blobs + 1) := by
  rw [Limits.maxSteps, fits.maxManifests]
  have same : (2 * ((1 + limits.blobs + limits.referrers : Nat) : Int) * ((limits.blobs : Int) + 1)) =
      ((2 * (1 + limits.blobs + limits.referrers) * (limits.blobs + 1) : Nat) : Int) := by
    rw [Int.natCast_mul, Int.natCast_mul, Int.natCast_succ]
    rfl
  rw [same, int64_of_lt fits, Int.toNat_natCast]

/-- The frames that the loads to come can put on the stack. -/
def potential (limits : Limits) (plan : Plan) : Nat :=
  (1 + limits.blobs + limits.referrers - plan.loaded) * (limits.blobs + 1)

theorem planVisit_potential (fits : limits.Fit)
    (visited : planVisit codec limits source plan frame = .ok (next, after)) :
    potential limits after + next.length ≤ potential limits plan := by
  rcases planVisit_ok visited with ⟨-, rfl, rfl⟩ | ⟨-, -, rfl, rfl⟩ |
    ⟨-, -, middle, node, loads, rfl, rfl⟩
  · exact Nat.le_refl _
  · exact Nat.le_refl _
  · obtain ⟨blobs, reads, -⟩ := loads.reads
    have short := reads.length_kids
    have room := loads.room
    rw [fits.maxManifests] at room
    simp only [potential, loads.kept.loaded, length_cons, length_map]
    calc
      (1 + limits.blobs + limits.referrers - (plan.loaded + 1)) * (limits.blobs + 1) +
            (node.kids.length + 1)
          ≤ (1 + limits.blobs + limits.referrers - (plan.loaded + 1)) * (limits.blobs + 1) +
            (limits.blobs + 1) := by omega
      _ = (1 + limits.blobs + limits.referrers - (plan.loaded + 1) + 1) * (limits.blobs + 1) := by
          rw [Nat.add_mul, Nat.one_mul]
      _ = (1 + limits.blobs + limits.referrers - plan.loaded) * (limits.blobs + 1) := by
          congr 1
          omega

theorem walk_ne_tooManySteps (fits : limits.Fit) (plan : Plan) (root : Described) (bound : Int) :
    walk codec limits source plan root ≠ .error (.tooManySteps bound) := by
  intro failed
  have enough : potential limits plan + 1 ≤ limits.maxSteps.toNat := by
    rw [fits.maxSteps, potential]
    have most : (1 + limits.blobs + limits.referrers - plan.loaded) * (limits.blobs + 1) ≤
        (1 + limits.blobs + limits.referrers) * (limits.blobs + 1) :=
      Nat.mul_le_mul_right _ (Nat.sub_le _ _)
    have some : 1 ≤ (1 + limits.blobs + limits.referrers) * (limits.blobs + 1) :=
      Nat.mul_pos (by omega) (Nat.succ_pos _)
    rw [Nat.mul_assoc]
    omega
  obtain ⟨state, frame, visited⟩ := exists_of_walkFrames_eq_error (potential limits)
    (fun _ _ _ _ visited => planVisit_potential fits visited) enough failed
  exact planVisit_ne_tooManySteps state frame bound visited

/-- Planning does not run out of steps. -/
theorem makePlan_ne_tooManySteps (fits : limits.Fit) (root : Described) (bound : Int) :
    makePlan codec limits source root ≠ .error (.tooManySteps bound) := by
  have referrers : ∀ plan referrer, addReferrer codec limits source plan referrer ≠
      .error (.tooManySteps bound) := by
    intro plan referrer
    rw [addReferrer]
    split
    · simp
    · refine bind_ne_error (walk_ne_tooManySteps fits _ _ _) fun walked _ => ?_
      simp only
      split <;> simp [pure, Except.pure]
  have answers : ∀ subject, answer (source.referrers subject) ≠ .error (.tooManySteps bound) := by
    intro subject
    cases source.referrers subject with
    | error _ | ok _ => simp [answer]
  refine bind_ne_error (walk_ne_tooManySteps fits _ _ _) fun walked _ => ?_
  refine foldlM_ne_error (fun plan subject => ?_) _ _
  exact bind_ne_error (answers subject) fun listed _ => foldlM_ne_error referrers _ _

section Graphs

variable (codec limits source)

/-- A chain of manifests leads from one descriptor to another. -/
inductive Below (start : Described) : Described → Prop where
  | self : Below start start
  | child {parent kid : Described} {raw : Bytes} {kids blobs : List Described}
      (reached : Below start parent) (reads : Reads codec limits source parent raw kids blobs)
      (member : kid ∈ kids) : Below start kid

/-- The source lists the descriptor for a manifest of the root's graph. -/
def RefersBelow (root referrer : Described) : Prop :=
  ∃ subject listed, Below codec limits source root subject ∧
    source.referrers subject.digest = .ok listed ∧ referrer ∈ listed

/-- What a copy of the root is to carry: the manifests below it, and those below the
referrers of these. -/
def Reachable (root d : Described) : Prop :=
  Below codec limits source root d ∨
    ∃ referrer, RefersBelow codec limits source root referrer ∧ Below codec limits source referrer d

/-- One digest names another as a child, where a descriptor in reach has it read so. -/
def Edge (reach : Described → Prop) (parent kid : Hash) : Prop :=
  ∃ d raw kids blobs, reach d ∧ d.digest = parent ∧ Reads codec limits source d raw kids blobs ∧
    ∃ child ∈ kids, child.digest = kid

def Acyclic (reach : Described → Prop) : Prop :=
  ∀ hash, ¬Relation.TransGen (Edge codec limits source reach) hash hash

/-- What is read below a manifest in reach is in reach. -/
def Closed (reach : Described → Prop) : Prop :=
  ∀ parent raw kids blobs, reach parent → Reads codec limits source parent raw kids blobs →
    ∀ kid ∈ kids, reach kid

/-- The manifests that a copy is to carry are a graph of digests, without cycles. -/
structure Dag (root : Described) : Prop where
  byDigest : ∀ first second, Reachable codec limits source root first →
    Reachable codec limits source root second → first.digest = second.digest →
    ∀ raw kids blobs, Reads codec limits source first raw kids blobs →
      Reads codec limits source second raw kids blobs
  acyclic : Acyclic codec limits source (Reachable codec limits source root)

end Graphs

/-- The children of the planned manifests, by digest. -/
def Plan.kids (plan : Plan) (hash : Hash) : Option (List Hash) :=
  (plan.nodes hash).map fun node => node.kids.map fun kid => kid.digest

theorem Plan.kids_eq_none : plan.kids hash = none ↔ plan.nodes hash = none := by
  simp [Plan.kids]

/-- A frame as `Lib.Postorder` has it. -/
def Frame.key (frame : Frame) : Hash × Bool := (frame.d.digest, frame.done)

/-- What holds of a plan while a walk goes on. -/
structure Planning (codec : Codec) (limits : Limits) (source : Source Failure)
    (reach : Described → Prop) (plan : Plan) (stack : List Frame) : Prop where
  nodes : ∀ hash node, plan.nodes hash = some node → node.desc.digest = hash ∧
    ∃ d blobs, reach d ∧ d.digest = hash ∧ d.mediaType = node.desc.mediaType ∧
      Reads codec limits source d node.raw node.kids blobs ∧ node.blobs = carried codec blobs
  pending : ∀ frame ∈ stack, reach frame.d
  visits : Postorder.Visits plan.kids plan.order (stack.map Frame.key)
  sorted : Acyclic codec limits source reach →
    Postorder.Sorted (Edge codec limits source reach) plan.kids plan.order (stack.map Frame.key)

variable {reach : Described → Prop} {root : Described}

theorem planning_empty : Planning codec limits source reach {} [] where
  nodes := by simp
  pending := by simp
  visits := Postorder.Visits.nil
  sorted := fun _ => Postorder.Sorted.nil

variable (planning : Planning codec limits source reach plan [])

include planning in
theorem Planning.start (reached : reach d) :
    Planning codec limits source reach plan [{ d := d }] where
  nodes := planning.nodes
  pending := by simpa using reached
  visits := planning.visits.start [d.digest]
  sorted := fun acyclic => (planning.sorted acyclic).start [d.digest]

theorem closed_reachable : Closed codec limits source (Reachable codec limits source root) := by
  rintro parent raw kids blobs (below | ⟨referrer, refers, below⟩) reads kid member
  · exact .inl (below.child reads member)
  · exact .inr ⟨referrer, refers, below.child reads member⟩

theorem closed_below : Closed codec limits source (Below codec limits source root) :=
  fun _ _ _ _ below reads _ member => below.child reads member

/-- A plan stays one where more is in reach. -/
theorem Planning.mono {wider : Described → Prop}
    (planning : Planning codec limits source reach plan stack) (wide : ∀ d, reach d → wider d) :
    Planning codec limits source wider plan stack := by
  have edges : ∀ parent kid, Edge codec limits source reach parent kid →
      Edge codec limits source wider parent kid := by
    rintro parent kid ⟨d, raw, kids, blobs, reached, rest⟩
    exact ⟨d, raw, kids, blobs, wide d reached, rest⟩
  refine ⟨?_, fun frame member => wide _ (planning.pending frame member), planning.visits, ?_⟩
  · intro hash node found
    obtain ⟨digest, d, blobs, reached, rest⟩ := planning.nodes hash node found
    exact ⟨digest, d, blobs, wide d reached, rest⟩
  · intro acyclic
    have narrow : Acyclic codec limits source reach :=
      fun hash cycle => acyclic hash (Relation.TransGen.mono edges _ _ cycle)
    have sorted := planning.sorted narrow
    exact ⟨sorted.placed, sorted.waiting, fun above key rest shape frame member =>
      Relation.TransGen.mono edges _ _ (sorted.nested above key rest shape frame member)⟩

variable (closed : Closed codec limits source reach)

include closed in
/-- A manifest that is loaded is planned after its children. -/
theorem Planning.load {middle : Plan}
    (planning : Planning codec limits source reach plan ({ d := d } :: stack))
    (fresh : plan.nodes d.digest = none) (loads : Loads codec limits source plan middle d node) :
    Planning codec limits source reach
      { middle with
        nodes := Function.update middle.nodes d.digest (some node)
        loaded := middle.loaded + 1 }
      (({ d := d, done := true } :: node.kids.map fun kid => { d := kid }).reverse ++ stack) := by
  obtain ⟨blobs, reads, carries⟩ := loads.reads
  have reached := planning.pending _ mem_cons_self
  have kids : Plan.kids { middle with
        nodes := Function.update middle.nodes d.digest (some node)
        loaded := middle.loaded + 1 } =
      Function.update plan.kids d.digest (some (node.kids.map fun kid => kid.digest)) := by
    funext hash
    simp only [Plan.kids, loads.kept.nodes]
    by_cases same : hash = d.digest
    · subst same
      simp
    · rw [Function.update_of_ne same, Function.update_of_ne same, Plan.kids]
  have keys : (({ d := d, done := true } :: node.kids.map fun kid => ({ d := kid } : Frame)).reverse ++
      stack).map Frame.key = Postorder.frames d.digest (node.kids.map fun kid => kid.digest) ++
        stack.map Frame.key := by
    simp [Postorder.frames, Frame.key, Function.comp_def]
  have unseen : plan.kids d.digest = none := Plan.kids_eq_none.mpr fresh
  constructor
  · intro hash other found
    simp only [loads.kept.nodes] at found
    by_cases same : hash = d.digest
    · subst same
      rw [Function.update_self, Option.some.injEq] at found
      subst found
      exact ⟨by rw [loads.desc], d, blobs, reached, rfl, by rw [loads.desc], reads, carries⟩
    · rw [Function.update_of_ne same] at found
      exact planning.nodes hash other found
  · intro frame member
    rcases mem_append.mp member with member | member
    · rcases mem_cons.mp (mem_reverse.mp member) with rfl | member
      · exact reached
      · obtain ⟨kid, found, rfl⟩ := mem_map.mp member
        exact closed d node.raw node.kids blobs reached reads kid found
    · exact planning.pending frame (mem_cons_of_mem _ member)
  · rw [kids, keys]
    simp only [loads.kept.order]
    exact planning.visits.enter unseen
  · intro acyclic
    rw [kids, keys]
    simp only [loads.kept.order]
    refine (planning.sorted acyclic).enter planning.visits unseen fun kid member => ?_
    obtain ⟨child, found, rfl⟩ := mem_map.mp member
    exact ⟨d, node.raw, node.kids, blobs, reached, rfl, reads, child, found, rfl⟩

include closed in
theorem Planning.visit (planning : Planning codec limits source reach plan (frame :: stack))
    (visited : planVisit codec limits source plan frame = .ok (next, after)) :
    Planning codec limits source reach after (next.reverse ++ stack) := by
  obtain ⟨d, done⟩ := frame
  have others : ∀ frame ∈ stack, reach frame.d :=
    fun frame member => planning.pending frame (mem_cons_of_mem _ member)
  rcases planVisit_ok visited with ⟨rfl, rfl, rfl⟩ | ⟨rfl, seen, rfl, rfl⟩ |
    ⟨rfl, fresh, middle, node, loads, rfl, rfl⟩
  · exact ⟨planning.nodes, others, planning.visits.emit,
      fun acyclic => (planning.sorted acyclic).emit⟩
  · have known := mt Plan.kids_eq_none.mp seen
    exact ⟨planning.nodes, others, planning.visits.skip known,
      fun acyclic => (planning.sorted acyclic).skip planning.visits acyclic known⟩
  · exact planning.load closed fresh loads

/-- A plan with the manifests of another, and perhaps more. -/
def Plan.Extends (after plan : Plan) : Prop :=
  ∀ hash, plan.nodes hash ≠ none → after.nodes hash ≠ none

theorem Plan.Extends.trans (later : third.Extends second) (sooner : second.Extends first) :
    third.Extends first :=
  fun hash known => later hash (sooner hash known)

include visited in
theorem planVisit_extends :
    after.Extends plan ∧ (frame.done = false → after.nodes frame.d.digest ≠ none) := by
  rcases planVisit_ok visited with ⟨done, rfl, rfl⟩ | ⟨-, seen, rfl, rfl⟩ |
    ⟨-, -, middle, node, loads, rfl, rfl⟩
  · exact ⟨fun hash known => known, by simp [done]⟩
  · exact ⟨fun hash known => known, fun _ => seen⟩
  · refine ⟨fun hash known => ?_, fun _ => by simp⟩
    simp only [loads.kept.nodes]
    by_cases same : hash = frame.d.digest
    · subst same
      simp
    · rwa [Function.update_of_ne same]

/-- What a step of planning leaves: a finished plan with more in it. -/
structure Advances (codec : Codec) (limits : Limits) (source : Source Failure)
    (reach : Described → Prop) (plan after : Plan) : Prop where
  planning : Planning codec limits source reach after []
  grown : after.Extends plan

theorem walk_extends (walked : walk codec limits source plan d = .ok after) :
    after.Extends plan ∧ after.nodes d.digest ≠ none := by
  have final := walkFrames_invariant
    (fun state stack => state.Extends plan ∧ (state.nodes d.digest ≠ none ∨ { d := d } ∈ stack)) ?_
    ⟨fun hash known => known, .inr mem_cons_self⟩ walked
  · obtain ⟨grown, met⟩ := final
    exact ⟨grown, met.resolve_right not_mem_nil⟩
  · rintro state top stack next later ⟨grown, met⟩ visited
    obtain ⟨more, loaded⟩ := planVisit_extends visited
    refine ⟨more.trans grown, ?_⟩
    rcases met with met | pending
    · exact .inl (more _ met)
    · rcases mem_cons.mp pending with rfl | pending
      · exact .inl (loaded rfl)
      · exact .inr (mem_append_right _ pending)

include closed in
theorem walk_advances (planning : Planning codec limits source reach plan []) (reached : reach d)
    (walked : walk codec limits source plan d = .ok after) :
    Advances codec limits source reach plan after ∧ after.nodes d.digest ≠ none := by
  obtain ⟨grown, loaded⟩ := walk_extends walked
  have final := walkFrames_invariant (Planning codec limits source reach) ?_
    (planning.start reached) walked
  · exact ⟨⟨final, grown⟩, loaded⟩
  · intro state top stack next later going visited
    exact going.visit closed visited

/-- Changes of a node that leave its content. -/
def Benign (change : Node → Node) : Prop :=
  ∀ node, (change node).desc.digest = node.desc.digest ∧
    (change node).desc.mediaType = node.desc.mediaType ∧ (change node).raw = node.raw ∧
    (change node).kids = node.kids ∧ (change node).blobs = node.blobs

theorem benign_role (role : Role) : Benign fun node => { node with role := role } :=
  fun _ => ⟨rfl, rfl, rfl, rfl, rfl⟩

theorem benign_type (artifactType : Bytes) :
    Benign fun node => { node with desc := { node.desc with artifactType := artifactType } } :=
  fun _ => ⟨rfl, rfl, rfl, rfl, rfl⟩

@[simp] theorem Plan.modify_self (plan : Plan) (hash : Hash) (change : Node → Node) :
    (plan.modify hash change).nodes hash = (plan.nodes hash).map change := by
  simp [Plan.modify]

theorem Plan.modify_of_ne (plan : Plan) (different : other ≠ hash) (change : Node → Node) :
    (plan.modify hash change).nodes other = plan.nodes other := by
  simp [Plan.modify, Function.update_of_ne different]

variable {change : Node → Node}

theorem Plan.modify_nodes (found : (plan.modify hash change).nodes other = some node) :
    ∃ before, plan.nodes other = some before ∧ (node = change before ∨ node = before) := by
  by_cases same : other = hash
  · subst same
    rw [Plan.modify_self, Option.map_eq_some_iff] at found
    obtain ⟨before, known, rfl⟩ := found
    exact ⟨before, known, .inl rfl⟩
  · rw [Plan.modify_of_ne plan same] at found
    exact ⟨node, found, .inr rfl⟩

theorem Plan.modify_nodes_eq_none :
    (plan.modify hash change).nodes other = none ↔ plan.nodes other = none := by
  by_cases same : other = hash
  · subst same
    simp
  · rw [Plan.modify_of_ne plan same]

theorem Plan.modify_kids (benign : Benign change) : (plan.modify hash change).kids = plan.kids := by
  funext other
  rw [Plan.kids, Plan.kids]
  by_cases same : other = hash
  · subst same
    cases known : plan.nodes other with
    | none => simp [known]
    | some node => simp [known, (benign node).2.2.2.1]
  · rw [Plan.modify_of_ne plan same]

include planning in
theorem Planning.modify (hash : Hash) (benign : Benign change) :
    Advances codec limits source reach plan (plan.modify hash change) := by
  refine ⟨⟨?_, planning.pending, ?_, ?_⟩, fun other known => ?_⟩
  · intro other node found
    obtain ⟨before, known, rfl | rfl⟩ := Plan.modify_nodes found
    · obtain ⟨digest, mediaType, raw, kids, blobs⟩ := benign before
      rw [digest, mediaType, raw, kids, blobs]
      exact planning.nodes other before known
    · exact planning.nodes other node known
  · rw [Plan.modify_kids benign]
    exact planning.visits
  · rw [Plan.modify_kids benign]
    exact planning.sorted
  · exact mt Plan.modify_nodes_eq_none.mp known

theorem Advances.trans (left : Advances codec limits source reach first second)
    (right : Advances codec limits source reach second third) :
    Advances codec limits source reach first third :=
  ⟨right.planning, right.grown.trans left.grown⟩

include closed in
theorem addReferrer_advances {referrer : Described}
    (planning : Planning codec limits source reach plan []) (reached : reach referrer)
    (added : addReferrer codec limits source plan referrer = .ok after) :
    Advances codec limits source reach plan after ∧ after.nodes referrer.digest ≠ none := by
  rw [addReferrer] at added
  split at added
  · rename_i node known
    cases added
    exact ⟨⟨planning, fun hash known => known⟩, by simp [known]⟩
  · obtain ⟨walked, walks, added⟩ := exists_of_bind_eq_ok added
    obtain ⟨advances, loaded⟩ := walk_advances closed planning reached walks
    have listed := advances.planning.modify referrer.digest (benign_role .referrer)
    simp only at added
    split at added
    · cases added
    · rename_i fields _
      cases added
      have typed := listed.planning.modify referrer.digest (benign_type fields.effectiveType)
      exact ⟨(advances.trans listed).trans typed, typed.grown _ (listed.grown _ loaded)⟩

include closed in
theorem addReferrersOf_advances {subject : Hash}
    (planning : Planning codec limits source reach plan [])
    (reached : ∀ listed, source.referrers subject = .ok listed → ∀ referrer ∈ listed, reach referrer)
    (added : addReferrersOf codec limits source plan subject = .ok after) :
    Advances codec limits source reach plan after ∧ ∀ listed,
      source.referrers subject = .ok listed → ∀ referrer ∈ listed,
        after.nodes referrer.digest ≠ none := by
  obtain ⟨referrers, answered, folded⟩ := exists_of_bind_eq_ok added
  replace answered := answer_ok answered
  have final := foldlM_invariant (fun before state => Advances codec limits source reach plan state ∧
    ∀ referrer ∈ before, state.nodes referrer.digest ≠ none) ?_
    ⟨⟨planning, fun hash known => known⟩, by simp⟩ folded
  · obtain ⟨advances, loaded⟩ := final
    refine ⟨advances, fun listed again referrer member => ?_⟩
    obtain rfl := Except.ok.inj (answered.symm.trans again)
    exact loaded referrer member
  · rintro before referrer state later member ⟨advances, loaded⟩ step
    obtain ⟨further, met⟩ := addReferrer_advances closed advances.planning
      (reached referrers answered referrer member) step
    refine ⟨advances.trans further, fun other listed => ?_⟩
    rcases mem_append.mp listed with listed | listed
    · exact further.grown _ (loaded other listed)
    · rw [mem_singleton] at listed
      subst listed
      exact met

/-- A plan that is made: the walk from the root, and then the referrers of what it met. -/
theorem makePlan_planning (made : makePlan codec limits source root = .ok plan) :
    Planning codec limits source (Reachable codec limits source root) plan [] ∧ ∃ first,
      Planning codec limits source (Below codec limits source root) first [] ∧
      first.nodes root.digest ≠ none ∧ plan.Extends first ∧
      ∀ subject ∈ first.order, ∀ listed, source.referrers subject = .ok listed →
        ∀ referrer ∈ listed, plan.nodes referrer.digest ≠ none := by
  obtain ⟨walked, walks, added⟩ := exists_of_bind_eq_ok made
  obtain ⟨advances, loaded⟩ := walk_advances closed_below planning_empty .self walks
  have rooted := advances.planning.modify root.digest (benign_role .root)
  have wide := rooted.planning.mono fun d below =>
    show Reachable codec limits source root d from .inl below
  -- The subjects are below the root, so their referrers are in reach.
  have refer : ∀ subject ∈ (walked.modify root.digest fun node => { node with role := .root }).order,
      ∀ listed, source.referrers subject = .ok listed → ∀ referrer ∈ listed,
        Reachable codec limits source root referrer := by
    intro subject member listed answered referrer found
    have known := wide.visits.mem_order.mp member
    obtain ⟨node, held⟩ := Option.ne_none_iff_exists'.mp (mt Plan.kids_eq_none.mpr known)
    obtain ⟨-, d, -, below, rfl, -⟩ := rooted.planning.nodes subject node held
    exact .inr ⟨referrer, ⟨d, listed, below, answered, found⟩, .self⟩
  have final := foldlM_invariant
    (fun before state =>
      Advances codec limits source (Reachable codec limits source root) _ state ∧
      ∀ subject ∈ before, ∀ listed, source.referrers subject = .ok listed →
        ∀ referrer ∈ listed, state.nodes referrer.digest ≠ none) ?_
    ⟨⟨wide, fun hash known => known⟩, by simp⟩ added
  · obtain ⟨whole, referred⟩ := final
    exact ⟨whole.planning, _, rooted.planning, rooted.grown _ loaded, whole.grown, referred⟩
  · rintro before subject state later member ⟨whole, referred⟩ step
    obtain ⟨further, met⟩ := addReferrersOf_advances closed_reachable whole.planning
      (refer subject member) step
    refine ⟨whole.trans further, fun other found listed answered referrer among => ?_⟩
    rcases mem_append.mp found with found | found
    · exact further.grown _ (referred other found listed answered referrer among)
    · rw [mem_singleton] at found
      subst found
      exact met listed answered referrer among

include planning in
/-- A plan closed under children has all that is below what it has. -/
theorem Planning.loaded_of_below {start : Described}
    (byDigest : ∀ first second, reach first → reach second → first.digest = second.digest →
      ∀ raw kids blobs, Reads codec limits source first raw kids blobs →
        Reads codec limits source second raw kids blobs)
    (within : ∀ d, Below codec limits source start d → reach d)
    (loaded : plan.nodes start.digest ≠ none) (below : Below codec limits source start d) :
    plan.nodes d.digest ≠ none := by
  induction below with
  | self => exact loaded
  | @child parent kid raw kids blobs below reads member ih =>
    obtain ⟨node, held⟩ := Option.ne_none_iff_exists'.mp ih
    obtain ⟨-, reader, blobs', reached, named, -, reads', -⟩ := planning.nodes _ node held
    -- The reading that was taken is the one of this chain.
    have same := byDigest parent reader (within parent below) reached named.symm raw kids blobs reads
    obtain ⟨read, parsed⟩ := same
    obtain ⟨read', parsed'⟩ := reads'
    obtain rfl := Except.ok.inj (read.symm.trans read')
    obtain ⟨rfl, -⟩ := Prod.mk.inj (Except.ok.inj (parsed.symm.trans parsed'))
    have known : plan.kids parent.digest = some (node.kids.map fun kid => kid.digest) := by
      rw [Plan.kids, held, Option.map_some]
    exact mt Plan.kids_eq_none.mpr
      (planning.visits.closed known (mem_map_of_mem member))

/-- The plan has just what the copy is to carry. -/
theorem mem_order_iff (dag : Dag codec limits source root)
    (made : makePlan codec limits source root = .ok plan) (hash : Hash) :
    hash ∈ plan.order ↔ ∃ d, Reachable codec limits source root d ∧ d.digest = hash := by
  obtain ⟨planning, first, below, loaded, grown, referred⟩ := makePlan_planning made
  rw [planning.visits.mem_order]
  constructor
  · intro known
    obtain ⟨node, held⟩ := Option.ne_none_iff_exists'.mp (mt Plan.kids_eq_none.mpr known)
    obtain ⟨-, d, -, reached, named, -⟩ := planning.nodes hash node held
    exact ⟨d, reached, named⟩
  · rintro ⟨d, reached, rfl⟩
    apply mt Plan.kids_eq_none.mp
    rcases reached with chain | ⟨referrer, ⟨subject, listed, chain, answered, member⟩, beyond⟩
    · exact planning.loaded_of_below dag.byDigest (fun _ => .inl) (grown _ loaded) chain
    · have subjects : first.nodes subject.digest ≠ none :=
        below.loaded_of_below (fun left right reached reached' => dag.byDigest left right
          (.inl reached) (.inl reached')) (fun _ => id) loaded chain
      have known := below.visits.mem_order.mpr (mt Plan.kids_eq_none.mp subjects)
      have refers : RefersBelow codec limits source root referrer :=
        ⟨subject, listed, chain, answered, member⟩
      exact planning.loaded_of_below dag.byDigest (fun _ chain => .inr ⟨referrer, refers, chain⟩)
        (referred _ known listed answered referrer member) beyond

/-- A call that stored something. -/
inductive Put where
  | blob (blob : Described)
  | manifest (d : Described) (raw : Bytes) (role : Role)
  deriving DecidableEq, Repr

section Running

variable {Store : Type}

/-- A sink with a log of the calls it accepted. -/
def Sink.logged (sink : Sink Failure Store) : Sink Failure (Store × List Put) where
  putBlob blob state :=
    match sink.putBlob blob state.1 with
    | (.error failure, store) => (.error failure, (store, state.2))
    | (.ok _, store) => (.ok (), (store, state.2 ++ [.blob blob]))
  putManifest d raw role state :=
    match sink.putManifest d raw role state.1 with
    | (.error failure, store) => (.error failure, (store, state.2))
    | (.ok _, store) => (.ok (), (store, state.2 ++ [.manifest d raw role]))

/-- A blob of this digest was stored. -/
def SentBlob (log : List Put) (hash : Hash) : Prop :=
  ∃ blob, .blob blob ∈ log ∧ blob.digest = hash

/-- A manifest of this digest was stored. -/
def SentManifest (log : List Put) (hash : Hash) : Prop :=
  ∃ d raw role, .manifest d raw role ∈ log ∧ d.digest = hash

/-- What a manifest rests on was stored. -/
def Grounded (Failure : Type) (codec : Codec) (limits : Limits) (log : List Put) (d : Described)
    (raw : Bytes) : Prop :=
  ∃ kids blobs, (contentOf codec limits d.digest d.mediaType raw :
      Except (CopyError Failure) (List Described × List Described)) = .ok (kids, blobs) ∧
    (∀ blob ∈ blobs, codec.isDistributable blob.mediaType → SentBlob log blob.digest) ∧
    ∀ kid ∈ kids, SentManifest log kid.digest

/-- Each manifest of the log was stored after what it rests on. -/
def Founded (Failure : Type) (codec : Codec) (limits : Limits) (log : List Put) : Prop :=
  ∀ before d raw role after, log = before ++ .manifest d raw role :: after →
    Grounded Failure codec limits before d raw

theorem founded_nil : Founded Failure codec limits [] := by
  intro before d raw role after shape
  simp at shape

variable {log : List Put}

theorem Founded.blob (founded : Founded Failure codec limits log) (blob : Described) :
    Founded Failure codec limits (log ++ [.blob blob]) := by
  intro before d raw role after shape
  rcases snoc_eq_append_cons shape with ⟨-, -, same⟩ | ⟨rest, -, shape⟩
  · cases same
  · exact founded before d raw role rest shape

theorem Founded.manifest (founded : Founded Failure codec limits log)
    (grounded : Grounded Failure codec limits log d raw) (role : Role) :
    Founded Failure codec limits (log ++ [.manifest d raw role]) := by
  intro before other bytes kind after shape
  rcases snoc_eq_append_cons shape with ⟨-, rfl, same⟩ | ⟨rest, -, shape⟩
  · obtain ⟨rfl, rfl, -⟩ := Put.manifest.inj same
    exact grounded
  · exact founded before other bytes kind rest shape

theorem SentBlob.snoc (sent : SentBlob log hash) (put : Put) : SentBlob (log ++ [put]) hash := by
  obtain ⟨blob, member, same⟩ := sent
  exact ⟨blob, mem_append_left _ member, same⟩

theorem SentManifest.snoc (sent : SentManifest log hash) (put : Put) :
    SentManifest (log ++ [put]) hash := by
  obtain ⟨d, raw, role, member, same⟩ := sent
  exact ⟨d, raw, role, mem_append_left _ member, same⟩

/-- What holds of a run between two calls: the log is founded, and has what was sent
and the manifests done. -/
structure Running (Failure : Type) (codec : Codec) (limits : Limits) (sent done : List Hash)
    (log : List Put) : Prop where
  founded : Founded Failure codec limits log
  blobs : ∀ hash ∈ sent, SentBlob log hash
  manifests : ∀ hash ∈ done, SentManifest log hash

theorem Sink.logged_putBlob (sink : Sink Failure Store) (blob : Described)
    (state : Store × List Put) :
    (∃ failure store, sink.logged.putBlob blob state = (.error failure, (store, state.2))) ∨
      ∃ store, sink.logged.putBlob blob state = (.ok (), (store, state.2 ++ [.blob blob])) := by
  simp only [Sink.logged]
  split
  · exact .inl ⟨_, _, rfl⟩
  · exact .inr ⟨_, rfl⟩

theorem Sink.logged_putManifest (sink : Sink Failure Store) (d : Described) (raw : Bytes)
    (role : Role) (state : Store × List Put) :
    (∃ failure store, sink.logged.putManifest d raw role state =
      (.error failure, (store, state.2))) ∨
      ∃ store, sink.logged.putManifest d raw role state =
        (.ok (), (store, state.2 ++ [.manifest d raw role])) := by
  simp only [Sink.logged]
  split
  · exact .inl ⟨_, _, rfl⟩
  · exact .inr ⟨_, rfl⟩

variable (sink : Sink Failure Store)

theorem putBlobs_running (blobs : List Described) {sent done : List Hash}
    (state : Store × List Put) (running : Running Failure codec limits sent done state.2) :
    Founded Failure codec limits (putBlobs sink.logged sent blobs state).2.2 ∧
      ∀ after, (putBlobs sink.logged sent blobs state).1 = .ok after →
        Running Failure codec limits after done (putBlobs sink.logged sent blobs state).2.2 ∧
        (∀ hash ∈ sent, hash ∈ after) ∧ ∀ blob ∈ blobs, blob.digest ∈ after := by
  induction blobs generalizing sent state with
  | nil =>
    refine ⟨running.founded, fun after same => ?_⟩
    cases same
    exact ⟨running, fun hash member => member, by simp⟩
  | cons blob blobs ih =>
    rw [putBlobs]
    split
    · rename_i before
      obtain ⟨founded, rest⟩ := ih state running
      refine ⟨founded, fun after same => ?_⟩
      obtain ⟨later, kept, stored⟩ := rest after same
      refine ⟨later, kept, fun other member => ?_⟩
      rcases mem_cons.mp member with rfl | member
      · exact kept _ before
      · exact stored other member
    · rcases sink.logged_putBlob blob state with ⟨failure, store, put⟩ | ⟨store, put⟩
      · rw [put]
        exact ⟨running.founded, fun after same => by cases same⟩
      · rw [put]
        have next : Running Failure codec limits (blob.digest :: sent) done
            (state.2 ++ [.blob blob]) := by
          refine ⟨running.founded.blob blob, fun hash member => ?_,
            fun hash member => (running.manifests hash member).snoc _⟩
          rcases mem_cons.mp member with rfl | member
          · exact ⟨blob, by simp, rfl⟩
          · exact (running.blobs hash member).snoc _
        obtain ⟨founded, rest⟩ := ih (store, state.2 ++ [.blob blob]) next
        refine ⟨founded, fun after same => ?_⟩
        obtain ⟨later, kept, stored⟩ := rest after same
        refine ⟨later, fun hash member => kept hash (mem_cons_of_mem _ member),
          fun other member => ?_⟩
        rcases mem_cons.mp member with rfl | member
        · exact kept _ mem_cons_self
        · exact stored other member

/-- Nodes that can be stored one after the other. -/
structure Arranged (Failure : Type) (codec : Codec) (limits : Limits) (nodes : List Node) : Prop where
  content : ∀ node ∈ nodes, ∃ blobs,
    (contentOf codec limits node.desc.digest node.desc.mediaType node.raw :
      Except (CopyError Failure) (List Described × List Described)) = .ok (node.kids, blobs) ∧
      node.blobs = carried codec blobs
  kids : ∀ before node after, nodes = before ++ node :: after → ∀ kid ∈ node.kids,
    kid.digest ∈ before.map fun node => node.desc.digest

theorem runNodes_founded (before nodes : List Node) {sent : List Hash} (state : Store × List Put)
    (arranged : Arranged Failure codec limits (before ++ nodes))
    (running : Running Failure codec limits sent (before.map fun node => node.desc.digest) state.2) :
    Founded Failure codec limits (runNodes sink.logged sent nodes state).2.2 := by
  induction nodes generalizing before sent state with
  | nil => exact running.founded
  | cons node nodes ih =>
    rw [runNodes]
    obtain ⟨founded, rest⟩ := putBlobs_running sink node.blobs state running
    cases outcome : putBlobs sink.logged sent node.blobs state with
    | mk result later =>
      rw [outcome] at founded rest
      cases result with
      | error failure => exact founded
      | ok after =>
        obtain ⟨stored, -, all⟩ := rest after rfl
        simp only
        rcases sink.logged_putManifest node.desc node.raw node.role later with
          ⟨failure, store, put⟩ | ⟨store, put⟩
        · rw [put]
          exact founded
        · rw [put]
          obtain ⟨blobs, parsed, carries⟩ := arranged.content node (by simp)
          have kids := arranged.kids before node nodes rfl
          have grounded : Grounded Failure codec limits later.2 node.desc node.raw := by
            refine ⟨node.kids, blobs, parsed, fun blob member distributable => ?_,
              fun kid member => stored.manifests _ (kids kid member)⟩
            refine stored.blobs _ (all blob ?_)
            rw [carries]
            exact mem_filter.mpr ⟨member, distributable⟩
          have next : Running Failure codec limits after
              ((before ++ [node]).map fun node => node.desc.digest)
              (later.2 ++ [.manifest node.desc node.raw node.role]) := by
            refine ⟨stored.founded.manifest grounded node.role,
              fun hash member => (stored.blobs hash member).snoc _, fun hash member => ?_⟩
            rw [map_append] at member
            rcases mem_append.mp member with member | member
            · exact (stored.manifests hash member).snoc _
            · rw [map_singleton, mem_singleton] at member
              subst member
              exact ⟨node.desc, node.raw, node.role, by simp, rfl⟩
          refine ih (before ++ [node]) (store, later.2 ++ [.manifest node.desc node.raw node.role])
            ?_ next
          rwa [← append_cons]

include planning in
/-- A plan of an acyclic graph has its nodes arranged. -/
theorem Planning.arranged (acyclic : Acyclic codec limits source reach) :
    Arranged Failure codec limits (plan.order.filterMap plan.nodes) := by
  have named : ∀ hash node, plan.nodes hash = some node → node.desc.digest = hash :=
    fun hash node found => (planning.nodes hash node found).1
  constructor
  · intro node member
    obtain ⟨hash, -, found⟩ := mem_filterMap.mp member
    obtain ⟨digest, d, blobs, -, rfl, mediaType, ⟨-, parsed⟩, carries⟩ :=
      planning.nodes hash node found
    refine ⟨blobs, ?_, carries⟩
    rw [digest, ← mediaType]
    exact parsed
  · intro before node after shape kid member
    obtain ⟨left, right, split, taken, rest⟩ := filterMap_eq_append_iff.mp shape
    obtain ⟨skipped, hash, right', rfl, none, found, -⟩ := filterMap_eq_cons_iff.mp rest
    rw [← append_assoc] at split
    have known : plan.kids hash = some (node.kids.map fun kid => kid.digest) := by
      rw [Plan.kids, found, Option.map_some]
    have placed := (planning.sorted acyclic).placed _ hash right' split _ known kid.digest
      (mem_map_of_mem member)
    -- A child has a node, so it is not among the digests without one.
    have held := mt Plan.kids_eq_none.mpr (planning.visits.closed known (mem_map_of_mem member))
    obtain ⟨child, found'⟩ := Option.ne_none_iff_exists'.mp held
    rcases mem_append.mp placed with placed | placed
    · rw [← taken, ← named _ child found']
      exact mem_map_of_mem (mem_filterMap.mpr ⟨kid.digest, placed, found'⟩)
    · exact absurd (none _ placed) held

theorem copyGraph_founded (dag : Dag codec limits source root) (store : Store) :
    Founded Failure codec limits
      (copyGraph sink.logged codec limits source root (store, [])).2.2 := by
  rw [copyGraph]
  cases made : makePlan codec limits source root with
  | error failure => exact founded_nil
  | ok plan =>
    have arranged := (makePlan_planning made).1.arranged dag.acyclic
    have running : Running Failure codec limits [] [] ([] : List Put) :=
      ⟨founded_nil, by simp, by simp⟩
    exact runNodes_founded sink [] _ (store, []) arranged running

end Running

/-- What a copy is to do: its plan has each manifest once, whatever stops the run leaves
each manifest after what it rests on, and planning does not run out of steps. -/
structure CopiesInOrder (codec : Codec) (limits : Limits) (source : Source Failure)
    (root : Described) : Prop where
  once : ∀ plan, makePlan codec limits source root = .ok plan → plan.order.Nodup ∧
    ∀ hash, hash ∈ plan.order ↔ ∃ d, Reachable codec limits source root d ∧ d.digest = hash
  founded : ∀ (Store : Type) (sink : Sink Failure Store) (store : Store),
    Founded Failure codec limits (copyGraph sink.logged codec limits source root (store, [])).2.2
  steps : ∀ bound, makePlan codec limits source root ≠ .error (.tooManySteps bound)

/-- An image without layers, with the empty config. -/
def emptyImageText : Bytes :=
  textBytes "\x7b\"schemaVersion\":2,\"config\":\x7b\"mediaType\":\"" ++
    textBytes "application/vnd.oci.empty.v1+json" ++ textBytes "\",\"digest\":\"sha256:" ++
    configHex ++ textBytes "\",\"size\":2\x7d,\"layers\":[]\x7d"

def emptyImageHex : Bytes :=
  textBytes "91f862fccf6f849deec349bc66cd9dafffefb5179629c1e53c58b2010fda0e02"

def emptyImage : Described where
  mediaType := textBytes "application/vnd.oci.image.manifest.v1+json"
  digest := hashOf emptyImageHex
  size := 182

def emptyConfig : Described where
  mediaType := textBytes "application/vnd.oci.empty.v1+json"
  digest := hashOf configHex
  size := 2

/-- The other packages on this text. -/
def imageCodec : Codec where
  parseIndexManifest raw := if raw = emptyImageText then some [] else none
  parseManifest raw := if raw = emptyImageText then some (emptyConfig, []) else none
  referrerFields raw :=
    if raw = emptyImageText then
      some { configMediaType := textBytes "application/vnd.oci.empty.v1+json" }
    else none
  isDistributable _ := true

/-- A repository with the image alone. -/
def imageSource : Source Unit where
  manifest hash := if hash = emptyImage.digest then .ok emptyImageText else .error ()
  referrers _ := .ok []

/-- The default limits, with another one on the entries of a manifest. -/
def limitsWith (blobs : Nat) : Limits where
  manifestBytes := 4194304
  blobs := blobs
  blobBytes := 1073741824
  totalBytes := 4294967296
  referrers := 256

theorem reads_emptyImage (blobs : Nat) :
    Reads imageCodec (limitsWith blobs) imageSource emptyImage emptyImageText [] [emptyConfig] := by
  have image : isImage emptyImage.mediaType := by decide +kernel
  have index : isIndex emptyImage.mediaType = false := by decide +kernel
  refine ⟨by simp [imageSource], ?_⟩
  simp [contentOf, image, index, imageCodec]

theorem reachable_emptyImage {blobs : Nat}
    (reached : Reachable imageCodec (limitsWith blobs) imageSource emptyImage d) :
    d = emptyImage := by
  have below : ∀ d, Below imageCodec (limitsWith blobs) imageSource emptyImage d →
      d = emptyImage := by
    intro d chain
    induction chain with
    | self => rfl
    | child _ reads member ih =>
      subst ih
      obtain ⟨found, parsed⟩ := reads_emptyImage blobs
      obtain ⟨again, reparsed⟩ := reads
      obtain rfl := Except.ok.inj (found.symm.trans again)
      obtain ⟨rfl, -⟩ := Prod.mk.inj (Except.ok.inj (parsed.symm.trans reparsed))
      cases member
  rcases reached with chain | ⟨referrer, ⟨subject, listed, -, answered, member⟩, -⟩
  · exact below d chain
  · cases answered
    cases member

theorem dag_emptyImage (blobs : Nat) :
    Dag imageCodec (limitsWith blobs) imageSource emptyImage where
  byDigest := by
    intro first second reached reached' _ raw kids found reads
    rwa [reachable_emptyImage reached', ← reachable_emptyImage reached]
  acyclic := by
    intro hash cycle
    -- The image has no child.
    obtain ⟨kid, ⟨d, raw, kids, found, reached, -, reads, child, member, -⟩, -⟩ :=
      Relation.TransGen.head'_iff.mp cycle
    obtain rfl := reachable_emptyImage reached
    obtain ⟨held, parsed⟩ := reads_emptyImage blobs
    obtain ⟨again, reparsed⟩ := reads
    obtain rfl := Except.ok.inj (held.symm.trans again)
    obtain ⟨rfl, -⟩ := Prod.mk.inj (Except.ok.inj (parsed.symm.trans reparsed))
    cases member

end Graph

end Golusoris.Registry
