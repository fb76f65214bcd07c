import Golusoris.Registry.CopyOrder
import Golusoris.Registry.Referrers
import Golusoris.Registry.Unlist

/-!
# Which referrers a copied layout lists

A copy lists a manifest in `index.json` by the role it has in the plan. A referrer
has the role of one if nothing planned it before its turn came; one that was
planned as a child keeps that role and is not listed. `Turn` says when a referrer
comes to its turn unplanned.
-/

variable {plan after : Plan} {raw : Bytes}

namespace Golusoris.Registry.Graph

open Lib

section Roles

variable {Failure : Type} {codec : Codec} {limits : Limits} {source : Source Failure}
variable {root : Described}

/-- The manifest is planned with a role that has it listed. -/
def Plan.Lists (plan : Plan) (hash : Hash) : Prop :=
  ∃ node, plan.nodes hash = some node ∧ node.role ≠ .child

/-- Nodes stay as they are, and new ones are children. -/
structure Plan.Adds (plan after : Plan) : Prop where
  same : ∀ hash node, plan.nodes hash = some node → after.nodes hash = some node
  fresh : ∀ hash node, plan.nodes hash = none → after.nodes hash = some node → node.role = .child

theorem Plan.Adds.trans {first second third : Plan} (left : first.Adds second)
    (right : second.Adds third) : first.Adds third where
  same := fun hash node known => right.same hash node (left.same hash node known)
  fresh := by
    intro hash node unknown found
    cases between : second.nodes hash with
    | none => exact right.fresh hash node between found
    | some other =>
      have same := right.same hash other between
      rw [found, Option.some.injEq] at same
      subst same
      exact left.fresh hash node unknown between

theorem planVisit_adds {frame : Frame} {next : List Frame}
    (visited : planVisit codec limits source plan frame = .ok (next, after)) : plan.Adds after := by
  rcases planVisit_ok visited with ⟨-, rfl, rfl⟩ | ⟨-, -, rfl, rfl⟩ |
    ⟨-, unseen, middle, node, loads, rfl, rfl⟩
  · exact ⟨fun _ _ known => known, fun _ _ unknown found => by simp [unknown] at found⟩
  · exact ⟨fun _ _ known => known, fun _ _ unknown found => by simp [unknown] at found⟩
  · constructor
    · intro hash other known
      have different : hash ≠ frame.d.digest := by
        rintro rfl
        rw [unseen] at known
        cases known
      simpa only [loads.kept.nodes, Function.update_of_ne different] using known
    · intro hash other unknown found
      simp only [loads.kept.nodes] at found
      by_cases same : hash = frame.d.digest
      · subst same
        rw [Function.update_self, Option.some.injEq] at found
        subst found
        exact loads.role
      · rw [Function.update_of_ne same, unknown] at found
        cases found

theorem walk_adds {d : Described} (walked : walk codec limits source plan d = .ok after) :
    plan.Adds after := by
  refine walkFrames_invariant (fun state _ => plan.Adds state) ?_
    ⟨fun _ _ known => known, fun _ _ unknown found => by simp [unknown] at found⟩ walked
  intro state top stack next later adds visited
  exact adds.trans (planVisit_adds visited)

theorem Plan.Adds.lists_iff (adds : plan.Adds after) (hash : Hash) :
    after.Lists hash ↔ plan.Lists hash := by
  constructor
  · rintro ⟨node, found, role⟩
    cases known : plan.nodes hash with
    | none => exact absurd (adds.fresh hash node known found) role
    | some other =>
      have same := adds.same hash other known
      rw [found, Option.some.injEq] at same
      subst same
      exact ⟨node, known, role⟩
  · rintro ⟨node, known, role⟩
    exact ⟨node, adds.same hash node known, role⟩

/-- A change that sets a role to one that is listed, or keeps the roles. -/
theorem Plan.lists_modify {hash other : Hash} {change : Node → Node}
    (known : plan.nodes hash ≠ none) (listed : ∀ node, (change node).role ≠ .child) :
    (plan.modify hash change).Lists other ↔ other = hash ∨ plan.Lists other := by
  by_cases same : other = hash
  · subst same
    obtain ⟨node, found⟩ := Option.ne_none_iff_exists'.mp known
    simp only [true_or, iff_true]
    exact ⟨change node, by rw [Plan.modify_self, found, Option.map_some], listed node⟩
  · simp only [Plan.Lists, Plan.modify_of_ne plan same, same, false_or]

theorem Plan.lists_modify_of_role {hash other : Hash} {change : Node → Node}
    (kept : ∀ node, (change node).role = node.role) :
    (plan.modify hash change).Lists other ↔ plan.Lists other := by
  by_cases same : other = hash
  · subst same
    simp only [Plan.Lists, Plan.modify_self, Option.map_eq_some_iff]
    constructor
    · rintro ⟨node, ⟨before, found, rfl⟩, role⟩
      exact ⟨before, found, by rwa [kept] at role⟩
    · rintro ⟨node, found, role⟩
      exact ⟨change node, ⟨node, found, rfl⟩, by rwa [kept]⟩
  · simp only [Plan.Lists, Plan.modify_of_ne plan same]

/-- A referrer is listed if nothing planned it before. -/
theorem addReferrer_lists {referrer : Described}
    (added : addReferrer codec limits source plan referrer = .ok after) (hash : Hash) :
    after.Lists hash ↔
      plan.Lists hash ∨ (hash = referrer.digest ∧ plan.nodes referrer.digest = none) := by
  rw [addReferrer] at added
  split at added
  · rename_i node known
    cases added
    simp [known]
  · rename_i unknown
    obtain ⟨walked, walks, added⟩ := exists_of_bind_eq_ok added
    have loaded := (walk_extends walks).2
    simp only at added
    split at added
    · cases added
    · cases added
      refine (Plan.lists_modify_of_role ?_).trans ((Plan.lists_modify loaded ?_).trans ?_)
      · intro node
        rfl
      · intro node
        simp
      · rw [(walk_adds walks).lists_iff]
        simp [unknown, or_comm]

/-- What the source lists for these subjects, one after the other. -/
def reportedFor (source : Source Failure) (subjects : List Hash) : List Described :=
  subjects.flatMap fun subject =>
    match source.referrers subject with
    | .ok listed => listed
    | .error _ => []

/-- A manifest below the root or below one of these referrers. -/
def Within (codec : Codec) (limits : Limits) (source : Source Failure) (root : Described)
    (referrers : List Described) (d : Described) : Prop :=
  Below codec limits source root d ∨
    ∃ referrer ∈ referrers, Below codec limits source referrer d

/-- Among these referrers one of this digest comes to its turn before anything that is
planned by then has the digest. -/
def Turn (codec : Codec) (limits : Limits) (source : Source Failure) (root : Described)
    (referrers : List Described) (hash : Hash) : Prop :=
  ∃ before referrer after, referrers = before ++ referrer :: after ∧ referrer.digest = hash ∧
    ¬∃ d, Within codec limits source root before d ∧ d.digest = hash

theorem turn_snoc {referrers : List Described} {referrer : Described} {hash : Hash} :
    Turn codec limits source root (referrers ++ [referrer]) hash ↔
      Turn codec limits source root referrers hash ∨ (hash = referrer.digest ∧
        ¬∃ d, Within codec limits source root referrers d ∧ d.digest = hash) := by
  constructor
  · rintro ⟨before, first, after, shape, named, unplanned⟩
    rcases snoc_eq_append_cons shape with ⟨rfl, rfl, rfl⟩ | ⟨rest, rfl, cut⟩
    · exact .inr ⟨named.symm, unplanned⟩
    · exact .inl ⟨before, first, rest, cut, named, unplanned⟩
  · rintro (⟨before, first, after, rfl, named, unplanned⟩ | ⟨rfl, unplanned⟩)
    · exact ⟨before, first, after ++ [referrer], by simp, named, unplanned⟩
    · exact ⟨referrers, referrer, [], rfl, rfl, unplanned⟩

theorem closed_within {referrers : List Described} :
    Closed codec limits source (Within codec limits source root referrers) := by
  rintro parent raw kids blobs (below | ⟨referrer, member, below⟩) reads kid found
  · exact .inl (below.child reads found)
  · exact .inr ⟨referrer, member, below.child reads found⟩

/-- A plan after these referrers: it has what is below them and the root, and lists the
root and those that came to their turn. -/
structure Sequenced (codec : Codec) (limits : Limits) (source : Source Failure) (root : Described)
    (referrers : List Described) (plan : Plan) : Prop where
  reported : ∀ referrer ∈ referrers, RefersBelow codec limits source root referrer
  planning : Planning codec limits source (Within codec limits source root referrers) plan []
  loaded : ∀ d, Within codec limits source root referrers d → plan.nodes d.digest ≠ none
  lists : ∀ hash, plan.Lists hash ↔
    hash = root.digest ∨ Turn codec limits source root referrers hash

/-- The descriptors that a copy reaches have a manifest read alike. -/
def ByDigest (codec : Codec) (limits : Limits) (source : Source Failure) (root : Described) :
    Prop :=
  ∀ first second, Reachable codec limits source root first →
    Reachable codec limits source root second → first.digest = second.digest →
    ∀ raw kids blobs, Reads codec limits source first raw kids blobs →
      Reads codec limits source second raw kids blobs

variable (byDigest : ByDigest codec limits source root)

include byDigest in
theorem Sequenced.addReferrer {referrers : List Described} {referrer : Described}
    (sequenced : Sequenced codec limits source root referrers plan)
    (refers : RefersBelow codec limits source root referrer)
    (added : addReferrer codec limits source plan referrer = .ok after) :
    Sequenced codec limits source root (referrers ++ [referrer]) after := by
  have reported : ∀ other ∈ referrers ++ [referrer], RefersBelow codec limits source root other := by
    intro other member
    rcases List.mem_append.mp member with member | member
    · exact sequenced.reported other member
    · rw [List.mem_singleton] at member
      rwa [member]
  have wide : ∀ d, Within codec limits source root referrers d →
      Within codec limits source root (referrers ++ [referrer]) d := by
    rintro d (below | ⟨other, member, below⟩)
    · exact .inl below
    · exact .inr ⟨other, List.mem_append_left _ member, below⟩
  have reachable : ∀ d, Within codec limits source root (referrers ++ [referrer]) d →
      Reachable codec limits source root d := by
    rintro d (below | ⟨other, member, below⟩)
    · exact .inl below
    · exact .inr ⟨other, reported other member, below⟩
  have itself : ∀ d, Below codec limits source referrer d →
      Within codec limits source root (referrers ++ [referrer]) d :=
    fun d below => .inr ⟨referrer, by simp, below⟩
  obtain ⟨advances, met⟩ := addReferrer_advances closed_within (sequenced.planning.mono wide)
    (itself referrer .self) added
  constructor
  · exact reported
  · exact advances.planning
  · rintro d (below | ⟨other, member, below⟩)
    · exact advances.grown _ (sequenced.loaded d (.inl below))
    · rcases List.mem_append.mp member with member | member
      · exact advances.grown _ (sequenced.loaded d (.inr ⟨other, member, below⟩))
      · rw [List.mem_singleton] at member
        subst member
        exact advances.planning.loaded_of_below (fun first second reached reached' =>
          byDigest first second (reachable first reached) (reachable second reached')) itself met below
  · intro hash
    have unplanned : plan.nodes referrer.digest = none ↔
        ¬∃ d, Within codec limits source root referrers d ∧ d.digest = referrer.digest := by
      constructor
      · rintro unknown ⟨d, within, same⟩
        exact sequenced.loaded d within (by rw [same, unknown])
      · intro none
        by_contra known
        obtain ⟨node, held⟩ := Option.ne_none_iff_exists'.mp known
        obtain ⟨-, d, -, within, same, -⟩ := sequenced.planning.nodes _ node held
        exact none ⟨d, within, same⟩
    rw [addReferrer_lists added, sequenced.lists, turn_snoc, unplanned, or_assoc]
    constructor
    · rintro (first | turn | ⟨rfl, rest⟩)
      · exact .inl first
      · exact .inr (.inl turn)
      · exact .inr (.inr ⟨rfl, rest⟩)
    · rintro (first | turn | ⟨rfl, rest⟩)
      · exact .inl first
      · exact .inr (.inl turn)
      · exact .inr (.inr ⟨rfl, rest⟩)

include byDigest in
theorem Sequenced.addReferrersOf {referrers : List Described} {subject : Described}
    (sequenced : Sequenced codec limits source root referrers plan)
    (below : Below codec limits source root subject)
    (added : addReferrersOf codec limits source plan subject.digest = .ok after) :
    Sequenced codec limits source root (referrers ++ reportedFor source [subject.digest]) after := by
  obtain ⟨listed, answered, folded⟩ := exists_of_bind_eq_ok added
  replace answered := answer_ok answered
  have reports : reportedFor source [subject.digest] = listed := by
    simp [reportedFor, answered]
  rw [reports]
  refine foldlM_invariant
    (fun before state => Sequenced codec limits source root (referrers ++ before) state) ?_
    (by rwa [List.append_nil]) folded
  intro before referrer state later member going step
  rw [← List.append_assoc]
  exact going.addReferrer byDigest ⟨subject, listed, below, answered, member⟩ step

include byDigest in
/-- The order in which the referrers come to their turn is that of the root's graph. -/
theorem makePlan_sequenced (made : makePlan codec limits source root = .ok plan) :
    ∃ first, walk codec limits source {} root = .ok first ∧
      Sequenced codec limits source root (reportedFor source first.order) plan := by
  obtain ⟨first, walks, added⟩ := exists_of_bind_eq_ok made
  refine ⟨first, walks, ?_⟩
  obtain ⟨advances, loaded⟩ := walk_advances closed_below planning_empty .self walks
  have rooted := advances.planning.modify root.digest (benign_role .root)
  have alone : ∀ d, Within codec limits source root [] d ↔ Below codec limits source root d := by
    simp [Within]
  have start : Sequenced codec limits source root []
      (first.modify root.digest fun node => { node with role := .root }) := by
    constructor
    · simp
    · exact rooted.planning.mono fun d below => (alone d).mpr below
    · intro d within
      refine rooted.planning.loaded_of_below (fun left right reached reached' =>
        byDigest left right (.inl reached) (.inl reached')) (fun _ => id) (rooted.grown _ loaded)
        ((alone d).mp within)
    · intro hash
      have none : ¬first.Lists hash := by
        rw [(walk_adds walks).lists_iff]
        rintro ⟨node, found, -⟩
        cases found
      have never : ¬Turn codec limits source root [] hash := by
        rintro ⟨before, referrer, after, shape, -⟩
        simp at shape
      rw [Plan.lists_modify loaded fun node => by simp]
      simp [none, never]
  -- The subjects are below the root.
  have subjects : ∀ subject ∈ first.order, ∃ d, Below codec limits source root d ∧
      d.digest = subject := by
    intro subject member
    have known := advances.planning.visits.mem_order.mp member
    obtain ⟨node, held⟩ := Option.ne_none_iff_exists'.mp (mt Plan.kids_eq_none.mpr known)
    obtain ⟨-, d, -, below, same, -⟩ := advances.planning.nodes subject node held
    exact ⟨d, below, same⟩
  refine foldlM_invariant
    (fun before state => Sequenced codec limits source root (reportedFor source before) state) ?_
    start added
  intro before subject state later member going step
  obtain ⟨d, below, rfl⟩ := subjects subject member
  have more : reportedFor source (before ++ [d.digest]) =
      reportedFor source before ++ reportedFor source [d.digest] := by
    simp [reportedFor]
  rw [more]
  exact going.addReferrersOf byDigest below step

/-- The manifests below these as a walk is done with them, and those it has seen before
and after: what is below the last child comes first, each manifest comes after its
children, and none comes twice. -/
inductive Emits (codec : Codec) (limits : Limits) (source : Source Failure) :
    Set Hash → List Described → Set Hash → List Hash → Prop where
  | nil {seen : Set Hash} : Emits codec limits source seen [] seen []
  | skip {seen after : Set Hash} {d : Described} {ds : List Described} {order : List Hash} :
      d.digest ∈ seen → Emits codec limits source seen ds after order →
      Emits codec limits source seen (d :: ds) after order
  | enter {seen between after : Set Hash} {d : Described} {ds kids blobs : List Described}
      {raw : Bytes} {below order : List Hash} :
      d.digest ∉ seen → Reads codec limits source d raw kids blobs →
      Emits codec limits source (insert d.digest seen) kids.reverse between below →
      Emits codec limits source between ds after order →
      Emits codec limits source seen (d :: ds) after (below ++ d.digest :: order)

theorem Reads.unique {d : Described} {raw' : Bytes} {kids kids' blobs blobs' : List Described}
    (reads : Reads codec limits source d raw kids blobs)
    (reads' : Reads codec limits source d raw' kids' blobs') :
    raw = raw' ∧ kids = kids' ∧ blobs = blobs' := by
  obtain ⟨read, parsed⟩ := reads
  obtain ⟨read', parsed'⟩ := reads'
  obtain rfl := Except.ok.inj (read.symm.trans read')
  exact ⟨rfl, Prod.mk.inj (Except.ok.inj (parsed.symm.trans parsed'))⟩

theorem Reads.isManifest {d : Described} {kids blobs : List Described}
    (reads : Reads codec limits source d raw kids blobs) : isManifest d.mediaType := by
  obtain ⟨-, parsed⟩ := reads
  rw [contentOf] at parsed
  rw [Registry.isManifest, Bool.or_eq_true]
  split at parsed
  · rename_i index
    exact .inr index
  · split at parsed
    · cases parsed
    · rename_i image
      exact .inl (by simpa using image)

theorem Emits.unique {seen after after' : Set Hash} {ds : List Described} {order order' : List Hash}
    (first : Emits codec limits source seen ds after order)
    (second : Emits codec limits source seen ds after' order') : after = after' ∧ order = order' := by
  induction first generalizing after' order' with
  | nil =>
    cases second
    exact ⟨rfl, rfl⟩
  | skip met _ ih =>
    cases second with
    | skip _ rest => exact ih rest
    | enter fresh => exact absurd met fresh
  | enter fresh reads _ _ ihBelow ihRest =>
    cases second with
    | skip met => exact absurd met fresh
    | enter _ reads' below rest =>
      obtain ⟨rfl, rfl, rfl⟩ := reads.unique reads'
      obtain ⟨rfl, rfl⟩ := ihBelow below
      obtain ⟨rfl, rfl⟩ := ihRest rest
      exact ⟨rfl, rfl⟩

/-- The digests that are planned. -/
def Plan.seen (plan : Plan) : Set Hash := Set.ofPred fun hash => plan.nodes hash ≠ none

/-- A walk is done with what lies on top of its stack before it goes on with the rest. -/
theorem walkFrames_emits {tooMany : CopyError Failure} {steps : Nat} {final : Plan}
    {ds : List Described} {rest : List Frame}
    (walked : walkFrames tooMany (planVisit codec limits source) steps plan
      (ds.map (fun d => { d := d }) ++ rest) = .ok final) :
    ∃ left ≤ steps, ∃ middle order, Emits codec limits source plan.seen ds middle.seen order ∧
      middle.order = plan.order ++ order ∧
      walkFrames tooMany (planVisit codec limits source) left middle rest = .ok final := by
  induction steps using Nat.strong_induction_on generalizing plan ds rest with
  | _ steps ih =>
    cases ds with
    | nil => exact ⟨steps, Nat.le_refl _, plan, [], .nil, by simp, walked⟩
    | cons d ds =>
      cases steps with
      | zero => cases walked
      | succ steps =>
        rw [List.map_cons, List.cons_append, walkFrames] at walked
        cases visited : planVisit codec limits source plan { d := d } with
        | error failure =>
          rw [visited] at walked
          cases walked
        | ok pair =>
          obtain ⟨next, after⟩ := pair
          rw [visited] at walked
          rcases planVisit_ok visited with ⟨done, -⟩ | ⟨-, met, rfl, rfl⟩ |
            ⟨-, fresh, loaded, node, loads, rfl, rfl⟩
          · cases done
          · obtain ⟨left, fewer, middle, order, emits, ordered, goes⟩ :=
              ih steps (Nat.lt_succ_self _) walked
            exact ⟨left, by omega, middle, order, .skip met emits, ordered, goes⟩
          · simp only [List.reverse_cons, ← List.map_reverse, List.append_assoc] at walked
            obtain ⟨left, fewer, between, below, emits, ordered, goes⟩ :=
              ih steps (Nat.lt_succ_self _) walked
            -- The manifest itself is next, and then those beside it.
            cases left with
            | zero => cases goes
            | succ left =>
              rw [List.singleton_append, walkFrames] at goes
              simp only [planVisit, if_true] at goes
              obtain ⟨left', fewer', middle, order, emits', ordered', goes'⟩ :=
                ih left (by omega) goes
              obtain ⟨blobs, reads, -⟩ := loads.reads
              have seen : Plan.seen { loaded with
                  nodes := Function.update loaded.nodes d.digest (some node)
                  loaded := loaded.loaded + 1 } = insert d.digest plan.seen := by
                ext hash
                by_cases same : hash = d.digest
                · simp [Plan.seen, same]
                · simp [Plan.seen, same, loads.kept.nodes]
              refine ⟨left', by omega, middle, below ++ d.digest :: order,
                .enter (fun met => met fresh) reads ?_ emits', ?_, goes'⟩
              · rwa [seen] at emits
              · rw [ordered', ordered, loads.kept.order]
                simp

/-- The order of a walk from the root is that of its graph. -/
theorem walk_emits {first : Plan} (walks : walk codec limits source {} root = .ok first) :
    Emits codec limits source ∅ [root] first.seen first.order := by
  obtain ⟨left, -, middle, order, emits, ordered, goes⟩ :=
    @walkFrames_emits _ _ _ _ _ _ _ _ [root] [] walks
  have done : middle = first := by
    rw [walkFrames] at goes
    exact Except.ok.inj goes
  subst done
  have empty : Plan.seen {} = ∅ := by
    ext hash
    simp [Plan.seen]
  rw [empty] at emits
  have same : middle.order = order := ordered
  rwa [same]

/-- A referrer with this digest comes to its turn unplanned. -/
def Comes (codec : Codec) (limits : Limits) (source : Source Failure) (root : Described)
    (hash : Hash) : Prop :=
  ∃ seen order, Emits codec limits source ∅ [root] seen order ∧
    Turn codec limits source root (reportedFor source order) hash

include byDigest in
/-- A plan lists the root and the referrers that come to their turn unplanned. -/
theorem makePlan_lists (made : makePlan codec limits source root = .ok plan) (hash : Hash) :
    plan.Lists hash ↔ hash = root.digest ∨ Comes codec limits source root hash := by
  obtain ⟨first, walks, sequenced⟩ := makePlan_sequenced byDigest made
  rw [sequenced.lists]
  have emits := walk_emits walks
  constructor
  · rintro (itself | turn)
    · exact .inl itself
    · exact .inr ⟨_, _, emits, turn⟩
  · rintro (itself | ⟨seen, order, emits', turn⟩)
    · exact .inl itself
    · obtain ⟨-, rfl⟩ := emits.unique emits'
      exact .inr turn

end Roles

end Golusoris.Registry.Graph

namespace Golusoris.Registry.Referrers

open Lib Graph

section Copying

variable {codec : LayoutCodec} {limits : Graph.Limits}
variable {fetch : Described → Except LayoutFailure Bytes}

/-- Some entry has the digest. -/
def Entered (entries : List Described) (hash : Hash) : Prop :=
  ∃ entry ∈ entries, entry.digest = hash

/-- Some entry has the digest and the type of a manifest. -/
def Shown (entries : List Described) (hash : Hash) : Prop :=
  ∃ entry ∈ entries, isManifest entry.mediaType ∧ entry.digest = hash

/-- An `index.json` to which an entry is added has the old entries and the new one, if it
can be read at all. -/
def Appends (codec : LayoutCodec) : Prop :=
  ∀ text entries d after, codec.parseIndexManifest text = some entries → checkDigest d.digest →
    isManifest d.mediaType →
    codec.parseIndexManifest (codec.marshalIndex text (entries ++ [d])) = some after →
    after.map Described.toDescriptor = (entries ++ [d]).map Described.toDescriptor

theorem entered_map {entries : List Described} {hash : Hash} :
    Entered entries hash ↔ ∃ entry ∈ entries.map Described.toDescriptor, entry.digest = hash := by
  simp [Entered]

theorem shown_map {entries : List Described} {hash : Hash} :
    Shown entries hash ↔
      ∃ entry ∈ entries.map Described.toDescriptor, isManifest entry.mediaType ∧ entry.digest = hash := by
  simp [Shown]

/-- The entries after are those before and one for each of these digests that had none. -/
def Grows (codec : LayoutCodec) (limits : Graph.Limits) (before after : Shelf)
    (hashes : List Hash) : Prop :=
  ∀ later, readIndex codec limits after = .ok later →
    ∃ entries, readIndex codec limits before = .ok entries ∧ ∀ hash,
      (Entered later hash ↔ Entered entries hash ∨ hash ∈ hashes) ∧
      (Shown later hash ↔ Shown entries hash ∨ (hash ∈ hashes ∧ ¬Entered entries hash))

variable {after shelf : Shelf}

theorem grows_of_index_eq {before : Shelf} (same : after.index = before.index) :
    Grows codec limits before after [] := by
  intro later read
  refine ⟨later, ?_, by simp⟩
  rw [← read, readIndex, readIndex, same]

theorem Grows.trans {first second third : Shelf} {hashes others : List Hash}
    (left : Grows codec limits first second hashes) (right : Grows codec limits second third others) :
    Grows codec limits first third (hashes ++ others) := by
  intro later read
  obtain ⟨between, readBetween, grew⟩ := right later read
  obtain ⟨entries, readFirst, grown⟩ := left between readBetween
  refine ⟨entries, readFirst, fun hash => ?_⟩
  obtain ⟨entered, shown⟩ := grew hash
  obtain ⟨entered', shown'⟩ := grown hash
  rw [entered, shown, entered', shown', List.mem_append]
  constructor
  · rw [or_assoc]
  · by_cases known : hash ∈ hashes
    · simp [known]
    · simp [known]

theorem readIndex_ok {entries : List Described}
    (read : readIndex codec limits shelf = .ok entries) :
    ∃ text, shelf.index = some text ∧ codec.parseIndexManifest text = some entries := by
  rw [readIndex] at read
  split at read
  · cases read
  · rename_i text held
    split at read
    · cases read
    · split at read
      · cases read
      · rename_i parsed found
        cases read
        exact ⟨text, held, found⟩

/-- Listing a manifest adds one entry if none has its digest. -/
theorem list_grows (appends : Appends codec) {d : Described} (named : checkDigest d.digest)
    (manifest : isManifest d.mediaType) (listed : list codec limits shelf d = (.ok (), after)) :
    Grows codec limits shelf after [d.digest] := by
  rw [list] at listed
  split at listed
  · cases listed
  · rename_i entries read
    split at listed
    · rename_i known
      obtain ⟨-, rfl⟩ := Prod.mk.inj listed
      have entered : Entered entries d.digest := by simpa [Entered] using known
      intro later readLater
      obtain rfl := Except.ok.inj (read.symm.trans readLater)
      refine ⟨entries, read, fun hash => ⟨?_, ?_⟩⟩
      · rw [List.mem_singleton]
        constructor
        · exact .inl
        · rintro (old | rfl)
          · exact old
          · exact entered
      · rw [List.mem_singleton]
        constructor
        · exact .inl
        · rintro (old | ⟨rfl, missing⟩)
          · exact old
          · exact absurd entered missing
    · rename_i fresh
      obtain ⟨-, rfl⟩ := Prod.mk.inj listed
      obtain ⟨text, held, parsed⟩ := readIndex_ok read
      have missing : ¬Entered entries d.digest := by simpa [Entered] using fresh
      intro later readLater
      obtain ⟨written, held', parsed'⟩ := readIndex_ok readLater
      simp only [held, Option.map_some, Option.some.injEq] at held'
      subst held'
      have same := appends text entries d later parsed named manifest parsed'
      refine ⟨entries, read, fun hash => ?_⟩
      rw [@entered_map later, @shown_map later, same, ← entered_map, ← shown_map]
      simp only [Entered, Shown, List.mem_append, List.mem_singleton]
      constructor
      · grind
      · have apart : hash = d.digest → ¬∃ entry ∈ entries, entry.digest = hash := by
          rintro rfl
          exact missing
        grind

theorem writeBlob_index (shelf : Shelf) (d : Described) (content : Bytes) :
    (writeBlob codec shelf d content).2.index = shelf.index := by
  rw [writeBlob]
  split
  · rfl
  · split <;> rfl

theorem putContent_index (shelf : Shelf) (d : Described) (content : Except LayoutFailure Bytes) :
    (putContent codec shelf d content).2.index = shelf.index := by
  unfold putContent
  split
  · rfl
  · split
    · rfl
    · exact writeBlob_index shelf d _

theorem putContent_named {d : Described} {content : Except LayoutFailure Bytes}
    (put : putContent codec shelf d content = (.ok (), after)) : checkDigest d.digest := by
  unfold putContent at put
  split at put
  · rename_i held
    rw [hasBlob, Bool.and_eq_true] at held
    exact held.1
  · split at put
    · cases put
    · rw [writeBlob] at put
      split at put
      · cases put
      · rename_i named
        simpa using named

theorem putBlobs_index (blobs : List Described) {sent sent' : List Hash}
    (put : putBlobs (layoutSink codec limits fetch) sent blobs shelf = (.ok sent', after)) :
    after.index = shelf.index := by
  induction blobs generalizing sent shelf with
  | nil =>
    obtain ⟨-, rfl⟩ := Prod.mk.inj put
    rfl
  | cons blob blobs ih =>
    rw [putBlobs] at put
    split at put
    · exact ih put
    · split at put
      · cases put
      · rename_i done between stored
        rw [ih put]
        have index := @putContent_index codec shelf blob (fetch blob)
        rw [show putContent codec shelf blob (fetch blob) = _ from stored] at index
        exact index

theorem putManifest_grows (appends : Appends codec) {d : Described} {role : Role}
    (manifest : isManifest d.mediaType)
    (put : (layoutSink codec limits fetch).putManifest d raw role shelf = (.ok (), after)) :
    Grows codec limits shelf after (if role = .child then [] else [d.digest]) := by
  simp only [layoutSink] at put
  have index := @putContent_index codec shelf d (.ok raw)
  split at put
  · cases put
  · rename_i done between stored
    rw [stored] at index
    have named := putContent_named stored
    have start : Grows codec limits shelf between [] := grows_of_index_eq index
    cases role with
    | child =>
      obtain ⟨-, rfl⟩ := Prod.mk.inj put
      exact start
    | root | referrer => exact start.trans (list_grows appends named manifest put)

/-- The digests of the nodes that a run lists. -/
def listedBy (nodes : List Node) : List Hash :=
  (nodes.filter fun node => node.role ≠ .child).map fun node => node.desc.digest

theorem runNodes_grows (appends : Appends codec) (nodes : List Node) {sent : List Hash}
    (manifests : ∀ node ∈ nodes, isManifest node.desc.mediaType)
    (ran : runNodes (layoutSink codec limits fetch) sent nodes shelf = (.ok (), after)) :
    Grows codec limits shelf after (listedBy nodes) := by
  induction nodes generalizing sent shelf with
  | nil =>
    obtain ⟨-, rfl⟩ := Prod.mk.inj ran
    exact grows_of_index_eq rfl
  | cons node nodes ih =>
    rw [runNodes] at ran
    split at ran
    · cases ran
    · rename_i stored
      split at ran
      · cases ran
      · rename_i put
        have first : Grows codec limits shelf _ [] := grows_of_index_eq (putBlobs_index _ stored)
        have second := putManifest_grows appends (manifests node (by simp)) put
        have third := ih (fun other member => manifests other (List.mem_cons_of_mem _ member)) ran
        have whole := (first.trans second).trans third
        have shape : listedBy (node :: nodes) =
            [] ++ (if node.role = .child then [] else [node.desc.digest]) ++ listedBy nodes := by
          by_cases child : node.role = .child
          · simp [listedBy, child]
          · simp [listedBy, child]
        rwa [shape]

theorem mem_listedBy {codec : Graph.Codec} {source : Source LayoutFailure}
    {reach : Described → Prop} (planning : Planning codec limits source reach plan [])
    (hash : Hash) : hash ∈ listedBy (plan.order.filterMap plan.nodes) ↔ plan.Lists hash := by
  simp only [listedBy, List.mem_map, List.mem_filter, List.mem_filterMap, decide_eq_true_eq]
  constructor
  · rintro ⟨node, ⟨⟨key, -, found⟩, role⟩, rfl⟩
    obtain ⟨rfl, -⟩ := planning.nodes key node found
    exact ⟨node, found, role⟩
  · rintro ⟨node, found, role⟩
    have known : plan.nodes hash ≠ none := by
      rw [found]
      simp
    have ordered := planning.visits.mem_order.mpr (mt Plan.kids_eq_none.mp known)
    exact ⟨node, ⟨⟨hash, ordered, found⟩, role⟩, (planning.nodes hash node found).1⟩

end Copying

section Finding

variable {codec : LayoutCodec} {limits : Graph.Limits} {shelf : Shelf}

/-- The layout's manifest of this digest names the subject. -/
def Names (codec : LayoutCodec) (limits : Graph.Limits) (shelf : Shelf) (hash subject : Hash) :
    Prop :=
  ∃ raw fields, readManifest codec limits shelf hash = .ok raw ∧
    codec.referrerFields raw = some fields ∧ fields.subject = some subject

variable {found : Option (Hash × Described)}

theorem referrer_ok {d : Described} (read : referrer codec limits shelf d = .ok found) :
    ∃ raw fields, readManifest codec limits shelf d.digest = .ok raw ∧
      codec.referrerFields raw = some fields ∧ found = fields.subject.map fun subject =>
        (subject, { d with size := raw.length, artifactType := fields.effectiveType }) := by
  obtain ⟨raw, readRaw, parsed⟩ := exists_of_bind_eq_ok read
  cases known : codec.referrerFields raw with
  | none =>
    rw [known] at parsed
    cases parsed
  | some fields =>
    rw [known] at parsed
    exact ⟨raw, fields, readRaw, known, (Except.ok.inj parsed).symm⟩

theorem referrer_digest {d reported : Described} {subject : Hash}
    (read : referrer codec limits shelf d = .ok found) (here : found = some (subject, reported)) :
    reported.digest = d.digest := by
  obtain ⟨raw, fields, -, -, rfl⟩ := referrer_ok read
  obtain ⟨named, -, same⟩ := Option.map_eq_some_iff.mp here
  rw [← (Prod.mk.inj same).2]

theorem referrer_names {d : Described} (read : referrer codec limits shelf d = .ok found)
    (subject : Hash) :
    (∃ reported, found = some (subject, reported)) ↔ Names codec limits shelf d.digest subject := by
  obtain ⟨raw, fields, readRaw, known, rfl⟩ := referrer_ok read
  simp [Names, readRaw, known]

/-- A scan reports nothing that it has seen before. -/
theorem referrersIn_fresh {entries : List Described} {seen : List Hash}
    {pairs : List (Hash × Described)} {subject hash : Hash} {d : Described}
    (scanned : referrersIn codec limits shelf seen entries = .ok pairs) (met : hash ∈ seen)
    (same : d.digest = hash) : (subject, d) ∉ pairs := by
  induction entries generalizing seen pairs with
  | nil =>
    cases scanned
    simp
  | cons entry entries ih =>
    rw [referrersIn] at scanned
    split at scanned
    · exact ih scanned met
    · rename_i taken
      rw [Bool.or_eq_true, decide_eq_true_eq, not_or] at taken
      obtain ⟨found, read, scanned⟩ := exists_of_bind_eq_ok scanned
      obtain ⟨others, rest, shape⟩ := exists_of_bind_eq_ok scanned
      cases shape
      rw [List.mem_append, Option.mem_toList, not_or]
      refine ⟨fun here => taken.1 ?_, ih rest (List.mem_cons_of_mem _ met)⟩
      rwa [← referrer_digest read here, same]

/-- A scan reads every manifest that is shown and reports those with a subject. -/
theorem mem_referrersIn {entries : List Described} {seen : List Hash}
    {pairs : List (Hash × Described)}
    (scanned : referrersIn codec limits shelf seen entries = .ok pairs) {hash : Hash}
    (fresh : hash ∉ seen) :
    (Shown entries hash → ∃ raw, readManifest codec limits shelf hash = .ok raw) ∧
      ∀ subject, (∃ d, (subject, d) ∈ pairs ∧ d.digest = hash) ↔
        Shown entries hash ∧ Names codec limits shelf hash subject := by
  induction entries generalizing seen pairs with
  | nil =>
    cases scanned
    simp [Shown]
  | cons entry entries ih =>
    have shown : Shown (entry :: entries) hash ↔
        (isManifest entry.mediaType ∧ entry.digest = hash) ∨ Shown entries hash := by
      simp [Shown]
    rw [referrersIn] at scanned
    split at scanned
    · -- The entry is passed over: it is known, or not a manifest.
      rename_i skipped
      rw [Bool.or_eq_true, decide_eq_true_eq, Bool.not_eq_true'] at skipped
      have same : Shown (entry :: entries) hash ↔ Shown entries hash := by
        rw [shown, or_iff_right]
        rintro ⟨manifest, rfl⟩
        rcases skipped with met | other
        · exact fresh met
        · rw [other] at manifest
          cases manifest
      rw [same]
      exact ih scanned fresh
    · rename_i taken
      rw [Bool.or_eq_true, decide_eq_true_eq, Bool.not_eq_true', not_or, Bool.not_eq_false] at taken
      obtain ⟨found, read, scanned⟩ := exists_of_bind_eq_ok scanned
      obtain ⟨others, rest, same⟩ := exists_of_bind_eq_ok scanned
      cases same
      by_cases itself : entry.digest = hash
      · subst itself
        obtain ⟨raw, fields, readRaw, -⟩ := referrer_ok read
        refine ⟨fun _ => ⟨raw, readRaw⟩, fun subject => ?_⟩
        rw [← referrer_names read subject, shown]
        constructor
        · rintro ⟨d, member, same⟩
          rw [List.mem_append, Option.mem_toList] at member
          refine ⟨.inl ⟨taken.2, rfl⟩, ?_⟩
          rcases member with here | later
          · exact ⟨d, here⟩
          · exact absurd later (referrersIn_fresh rest (by simp) same)
        · rintro ⟨-, d, here⟩
          exact ⟨d, by simp [here], referrer_digest read here⟩
      · obtain ⟨ihRead, ihReports⟩ := ih rest (by simp [fresh, Ne.symm itself])
        have other : Shown (entry :: entries) hash ↔ Shown entries hash := by
          simp [shown, itself]
        rw [other]
        refine ⟨ihRead, fun subject => ?_⟩
        rw [← ihReports subject]
        constructor
        · rintro ⟨d, member, rfl⟩
          rw [List.mem_append, Option.mem_toList] at member
          rcases member with here | later
          · exact absurd (referrer_digest read here).symm itself
          · exact ⟨d, later, rfl⟩
        · rintro ⟨d, later, same⟩
          exact ⟨d, List.mem_append_right _ later, same⟩

theorem readManifest_sha256 {hash : Hash} (read : readManifest codec limits shelf hash = .ok raw) :
    codec.sha256 raw = hash.hex := by
  rw [readManifest] at read
  split at read
  · cases read
  · split at read
    · cases read
    · split at read
      · cases read
      · split at read
        · cases read
        · rename_i verified
          cases read
          simpa using verified

/-- A listing that answers has the manifests shown that name the subject. -/
theorem mem_referrers {subject : Hash} {listed : List Described}
    (answered : referrers codec limits shelf subject [] = .ok listed) :
    ∃ entries, readIndex codec limits shelf = .ok entries ∧ ∀ hash,
      (Shown entries hash → ∃ raw, readManifest codec limits shelf hash = .ok raw) ∧
      ((∃ d ∈ listed, d.digest = hash) ↔
        Shown entries hash ∧ Names codec limits shelf hash subject) := by
  rw [referrers] at answered
  split at answered
  · cases answered
  · obtain ⟨entries, read, answered⟩ := exists_of_bind_eq_ok answered
    obtain ⟨pairs, scanned, answered⟩ := exists_of_bind_eq_ok answered
    refine ⟨entries, read, fun hash => ?_⟩
    obtain ⟨readable, reports⟩ := mem_referrersIn scanned (@List.not_mem_nil _ hash)
    refine ⟨readable, ?_⟩
    rw [← reports subject]
    simp only [true_or, decide_true, List.filter_true] at answered
    split at answered
    · cases answered
    · cases answered
      simp

end Finding

section Discovering

variable {codec : LayoutCodec} {limits : Graph.Limits} {source : Source LayoutFailure}
variable {fetch : Described → Except LayoutFailure Bytes} {root : Described}

/-- The digest of a manifest of the source is that of its content and of no other. -/
def Addressed (codec : LayoutCodec) (source : Source LayoutFailure) : Prop :=
  ∀ hash raw content, source.manifest hash = .ok raw →
    (codec.sha256 content = hash.hex ↔ content = raw)

/-- A referrer of a manifest of the root's own graph, as the source has it: reported for
the manifest, and with it as the subject. -/
structure Refers (codec : LayoutCodec) (limits : Graph.Limits) (source : Source LayoutFailure)
    (root m r : Described) : Prop where
  below : Below codec.toCodec limits source root m
  reported : ∃ listed, source.referrers m.digest = .ok listed ∧ r ∈ listed
  names : ∃ raw fields, source.manifest r.digest = .ok raw ∧
    codec.referrerFields raw = some fields ∧ fields.subject = some m.digest

/-- Every such referrer is in the layout's listing for its subject. -/
def Discoverable (codec : LayoutCodec) (limits : Graph.Limits) (source : Source LayoutFailure)
    (root : Described) (layout : Shelf) : Prop :=
  ∀ m r, Refers codec limits source root m r →
    ∃ listed, referrers codec limits layout m.digest [] = .ok listed ∧
      ∃ d ∈ listed, d.digest = r.digest

/-- Every such referrer has an entry of a manifest in the layout already, or it has none
there and comes to its turn before the plan has it. -/
def Placed (codec : LayoutCodec) (limits : Graph.Limits) (source : Source LayoutFailure)
    (root : Described) (layout : Shelf) : Prop :=
  ∀ m r, Refers codec limits source root m r →
    ∃ entries, readIndex codec limits layout = .ok entries ∧
      (Shown entries r.digest ∨ (¬Entered entries r.digest ∧
        (r.digest = root.digest ∨ Comes codec.toCodec limits source root r.digest)))

end Discovering

section Attestation

/-- A manifest with what the decoders make of its text. -/
structure Text where
  hex : Bytes
  raw : Bytes
  manifests : List Described := []
  subject : Option Hash := none

def indexType : Bytes := textBytes "application/vnd.oci.image.index.v1+json"

def Text.described (text : Text) : Described where
  mediaType := indexType
  digest := hashOf text.hex
  size := text.raw.length

/-- The entries as a list of manifests has them. -/
def entriesText : List Described → Bytes
  | [] => []
  | entry :: entries =>
      textBytes "\x7b\"mediaType\":\"" ++ entry.mediaType ++ textBytes "\",\"size\":" ++
        textBytes (toString entry.size) ++ textBytes ",\"digest\":\"sha256:" ++ entry.digest.hex ++
        textBytes (if entries = [] then "\"\x7d" else "\"\x7d,") ++ entriesText entries

/-- An index without entries. -/
def leafIndex : Text where
  hex := Delete.hexDigits 0x27b7a2ad77ebd6c3663a9dc5d493a96943c48d8c7c77b3c123d2f6712f1ff7ed 64 []
  raw := textBytes "\x7b\"manifests\":[]\x7d"

/-- What attests the leaf, an index itself. -/
def attestation : Text where
  hex := Delete.hexDigits 0x3c19b35d6dd0142fed318a2d830ad2a20a45615f6ba9538e6bcc9ba7135f0c31 64 []
  raw := textBytes "\x7b\"manifests\":[],\"subject\":\x7b\"digest\":\"sha256:" ++ leafIndex.hex ++
    textBytes "\"\x7d\x7d"
  subject := some (hashOf leafIndex.hex)

/-- An index of the leaf and of what attests it. -/
def topIndex : Text where
  hex := Delete.hexDigits 0x986854abca2480823ec201052c809cdd68ed088c101771ff1834ab3b1dedffbb 64 []
  raw := textBytes "\x7b\"manifests\":[" ++
    entriesText [leafIndex.described, attestation.described] ++ textBytes "]\x7d"
  manifests := [leafIndex.described, attestation.described]

def texts : List Text := [leafIndex, attestation, topIndex]

def textOf (raw : Bytes) : Option Text := texts.find? fun text => text.raw = raw

/-- The entries that the copies below write. -/
def listings : List (List Described) :=
  [[], [leafIndex.described], [leafIndex.described, attestation.described], [topIndex.described]]

def indexText (entries : List Described) : Bytes :=
  textBytes "\x7b\"schemaVersion\":2,\"manifests\":[" ++ entriesText entries ++ textBytes "]\x7d"

/-- The other packages on these texts. -/
def textCodec : LayoutCodec where
  parseIndexManifest raw :=
    match textOf raw with
    | some text => some text.manifests
    | none => listings.find? fun entries => indexText entries = raw
  parseManifest _ := none
  referrerFields raw := (textOf raw).map fun text => { subject := text.subject }
  isDistributable _ := true
  sha256 raw := ((textOf raw).map Text.hex).getD []
  marshalIndex _ entries := if entries ∈ listings then indexText entries else []

/-- A registry that reports the attestation for the leaf. -/
def textSource : Source LayoutFailure where
  manifest hash :=
    match texts.find? fun text => hashOf text.hex = hash with
    | some text => .ok text.raw
    | none => .error .registry
  referrers hash := .ok (if hash = hashOf leafIndex.hex then [attestation.described] else [])

/-- A new layout. -/
def newShelf : Shelf := ⟨some (indexText []), fun _ => none⟩

/-- The copy of a manifest into a new layout, with what is left there. -/
def copyNew (root : Described) : Except (CopyError LayoutFailure) Unit × Shelf :=
  copyGraph (layoutSink textCodec Delete.chainLimits fun _ => .error .registry) textCodec.toCodec
    Delete.chainLimits textSource root newShelf

/-- What the functions return on these texts, evaluated at once: the texts are spelled out
only once. -/
theorem computed :
    ((∀ entries ∈ listings, textCodec.parseIndexManifest (indexText entries) = some entries) ∧
      textCodec.parseIndexManifest [] = none ∧
      (∀ text ∈ texts, ∀ other ∈ texts,
        (textCodec.sha256 other.raw = text.hex ↔ other.raw = text.raw) ∧ text.hex ≠ []) ∧
      leafIndex.described.digest ≠ attestation.described.digest ∧
      textCodec.referrerFields attestation.raw = some { subject := attestation.subject } ∧
      (readIndex textCodec Delete.chainLimits newShelf).toOption = some []) ∧
    (((copyNew leafIndex.described).1.toOption = some () ∧
        (referrers textCodec Delete.chainLimits (copyNew leafIndex.described).2
          leafIndex.described.digest []).toOption = some [attestation.described]) ∧
      ((copyNew topIndex.described).1.toOption = some () ∧
        (referrers textCodec Delete.chainLimits (copyNew topIndex.described).2
          leafIndex.described.digest []).toOption = some [])) := by
  decide +kernel

theorem listings_read : ∀ entries ∈ listings,
    textCodec.parseIndexManifest (indexText entries) = some entries := computed.1.1

theorem empty_unread : textCodec.parseIndexManifest [] = none := computed.1.2.1

theorem appends_textCodec : Appends textCodec := by
  intro text entries d after _ _ _ parsed
  by_cases known : entries ++ [d] ∈ listings
  · have written : textCodec.marshalIndex text (entries ++ [d]) = indexText (entries ++ [d]) :=
      if_pos known
    rw [written, listings_read _ known] at parsed
    rw [Option.some.inj parsed]
  · have written : textCodec.marshalIndex text (entries ++ [d]) = [] := if_neg known
    rw [written, empty_unread] at parsed
    cases parsed

theorem texts_addressed : ∀ text ∈ texts, ∀ other ∈ texts,
    (textCodec.sha256 other.raw = text.hex ↔ other.raw = text.raw) ∧ text.hex ≠ [] :=
  computed.1.2.2.1

theorem textSource_manifest {hash : Hash} (served : textSource.manifest hash = .ok raw) :
    ∃ text ∈ texts, hashOf text.hex = hash ∧ text.raw = raw := by
  rw [textSource] at served
  simp only at served
  split at served
  · rename_i text found
    have same := List.find?_some found
    exact ⟨text, List.mem_of_find?_eq_some found, by simpa using same, Except.ok.inj served⟩
  · cases served

theorem addressed_textSource : Addressed textCodec textSource := by
  intro hash raw content served
  obtain ⟨text, member, rfl, rfl⟩ := textSource_manifest served
  have known := texts_addressed text member
  cases found : textOf content with
  | none =>
    have unknown : textCodec.sha256 content = [] := by
      simp [textCodec, found]
    have other : content ≠ text.raw := by
      rintro rfl
      have missing := List.find?_eq_none.mp found text member
      simp at missing
    rw [unknown]
    exact iff_of_false (known text member).2.symm other
  | some other =>
    have same : other.raw = content := by simpa using List.find?_some found
    rw [← same]
    exact (known other (List.mem_of_find?_eq_some found)).1

theorem reads_texts :
    Reads textCodec.toCodec Delete.chainLimits textSource leafIndex.described leafIndex.raw [] [] ∧
      Reads textCodec.toCodec Delete.chainLimits textSource attestation.described attestation.raw
        [] [] ∧
      Reads textCodec.toCodec Delete.chainLimits textSource topIndex.described topIndex.raw
        [leafIndex.described, attestation.described] [] := by
  refine ⟨⟨ok_of_toOption ?_, ok_of_toOption ?_⟩, ⟨ok_of_toOption ?_, ok_of_toOption ?_⟩,
    ok_of_toOption ?_, ok_of_toOption ?_⟩ <;> decide +kernel

theorem reads_leaf : Reads textCodec.toCodec Delete.chainLimits textSource leafIndex.described
    leafIndex.raw [] [] := reads_texts.1

theorem reads_attestation : Reads textCodec.toCodec Delete.chainLimits textSource
    attestation.described attestation.raw [] [] := reads_texts.2.1

/-- Nothing is below a manifest without children. -/
theorem eq_of_below_childless {start d : Described}
    (reads : Reads textCodec.toCodec Delete.chainLimits textSource start raw [] [])
    (below : Below textCodec.toCodec Delete.chainLimits textSource start d) : d = start := by
  induction below with
  | self => rfl
  | child _ reads' member ih =>
    subst ih
    obtain ⟨-, rfl, -⟩ := reads.unique reads'
    cases member

theorem attestation_refers {root : Described}
    (below : Below textCodec.toCodec Delete.chainLimits textSource root leafIndex.described) :
    Refers textCodec Delete.chainLimits textSource root leafIndex.described
      attestation.described where
  below := below
  reported := ⟨[attestation.described], by simp [textSource, Text.described], by simp⟩
  names := ⟨attestation.raw, { subject := attestation.subject }, reads_attestation.1,
    computed.1.2.2.2.2.1, rfl⟩

theorem leaf_ne_attestation : leafIndex.described.digest ≠ attestation.described.digest :=
  computed.1.2.2.2.1

theorem eq_attestation_of_refersBelow {r : Described}
    (refers : RefersBelow textCodec.toCodec Delete.chainLimits textSource leafIndex.described r) :
    r = attestation.described := by
  obtain ⟨subject, listed, below, answered, member⟩ := refers
  obtain rfl := eq_of_below_childless reads_leaf below
  have reports : textSource.referrers leafIndex.described.digest = .ok [attestation.described] := by
    simp [textSource, Text.described]
  obtain rfl := Except.ok.inj (reports.symm.trans answered)
  exact List.mem_singleton.mp member

theorem byDigest_leaf :
    ByDigest textCodec.toCodec Delete.chainLimits textSource leafIndex.described := by
  have only : ∀ d, Reachable textCodec.toCodec Delete.chainLimits textSource leafIndex.described d →
      d = leafIndex.described ∨ d = attestation.described := by
    rintro d (below | ⟨referrer, refers, below⟩)
    · exact .inl (eq_of_below_childless reads_leaf below)
    · obtain rfl := eq_attestation_of_refersBelow refers
      exact .inr (eq_of_below_childless reads_attestation below)
  intro first second reached reached' same raw kids blobs reads
  rcases only first reached with rfl | rfl
  · rcases only second reached' with rfl | rfl
    · exact reads
    · exact absurd same leaf_ne_attestation
  · rcases only second reached' with rfl | rfl
    · exact absurd same.symm leaf_ne_attestation
    · exact reads

theorem attestation_comes : Comes textCodec.toCodec Delete.chainLimits textSource
    leafIndex.described attestation.described.digest := by
  refine ⟨_, _, .enter (by simp) reads_leaf .nil .nil, [], attestation.described, [], ?_, rfl, ?_⟩
  · simp [reportedFor, textSource, Text.described]
  · rintro ⟨d, below | ⟨referrer, member, -⟩, same⟩
    · rw [eq_of_below_childless reads_leaf below] at same
      exact leaf_ne_attestation same
    · cases member

theorem copyNew_leaf : (copyNew leafIndex.described).1.toOption = some () ∧
    (referrers textCodec Delete.chainLimits (copyNew leafIndex.described).2
      leafIndex.described.digest []).toOption = some [attestation.described] := computed.2.1

theorem readIndex_newShelf : readIndex textCodec Delete.chainLimits newShelf = .ok [] :=
  ok_of_toOption computed.1.2.2.2.2.2

theorem reads_top : Reads textCodec.toCodec Delete.chainLimits textSource topIndex.described
    topIndex.raw [leafIndex.described, attestation.described] [] := reads_texts.2.2

theorem copyNew_top : (copyNew topIndex.described).1.toOption = some () ∧
    (referrers textCodec Delete.chainLimits (copyNew topIndex.described).2
      leafIndex.described.digest []).toOption = some [] := computed.2.2

end Attestation

end Golusoris.Registry.Referrers
