import Golusoris.Lib.Postorder
import Golusoris.Lib.Results
import Golusoris.Registry.Collect
import Golusoris.Registry.ReferrerTree
import Mathlib.Data.List.Sublists

/-!
# What a deletion unlists

A deletion takes two rounds. The first unlists the digest with its referrers at
every level, the second the referrers of the manifests that lose their last entry
by the first. `Gone` is the least set that no further round adds to. A second
round can orphan manifests in turn, and their referrers stay listed: the rounds
reach `Gone` just where that does not happen.
-/

namespace Golusoris.Registry.Delete

open List
open Lib

section Chains

variable (codec : Codec) (limits : Registry.Limits) (layout : Layout)

/-- A chain of manifests leads from one descriptor to another. -/
inductive Leads (start : Descriptor) : Descriptor → Prop where
  | self : Leads start start
  | child {parent kid : Descriptor} {kids blobs : List Descriptor} (chain : Leads start parent)
      (read : content codec limits layout parent = .ok (kids, blobs)) (member : kid ∈ kids) :
      Leads start kid

/-- A manifest of this digest is below the descriptor, or is it. -/
def Holds (start : Descriptor) (hash : Hash) : Prop :=
  ∃ d, Leads codec limits layout start d ∧ d.digest = hash

/-- A chain ends at the digest: at a manifest, or at a blob of one. -/
def Keeps (start : Descriptor) (hash : Hash) : Prop :=
  Holds codec limits layout start hash ∨ ∃ parent kids blobs blob,
    Leads codec limits layout start parent ∧
      content codec limits layout parent = .ok (kids, blobs) ∧ blob ∈ blobs ∧ blob.digest = hash

end Chains

section Walks

variable {codec : Codec} {limits : Registry.Limits} {layout : Layout}
variable {roots : List Descriptor} {seen : Seen} {budget : Nat}

theorem closedBelow_leads : ClosedBelow codec limits layout
    fun d => ∃ root ∈ roots, Leads codec limits layout root d := by
  rintro parent kids blobs ⟨root, member, chain⟩ read kid found
  exact ⟨root, member, chain.child read found⟩

theorem reaches_iff_leads (listed : readIndex codec limits layout = .ok roots) (d : Descriptor) :
    Reaches codec limits layout d ↔ ∃ root ∈ roots, Leads codec limits layout root d := by
  constructor
  · intro reached
    induction reached with
    | root again member =>
      obtain rfl := Except.ok.inj (listed.symm.trans again)
      exact ⟨_, member, .self⟩
    | child _ read member ih =>
      obtain ⟨root, found, chain⟩ := ih
      exact ⟨root, found, chain.child read member⟩
  · rintro ⟨root, found, chain⟩
    induction chain with
    | self => exact .root listed found
    | child _ read member ih => exact .child ih read member

/-- What a walk from some of the entries has seen. -/
structure Surveyed (codec : Codec) (limits : Registry.Limits) (layout : Layout)
    (roots : List Descriptor) (seen : Seen) : Prop where
  manifests : ∀ hash, seen.digests hash = some true ↔
    ∃ root ∈ roots, Holds codec limits layout root hash
  digests : ∀ hash, seen.digests hash ≠ none ↔
    ∃ root ∈ roots, Keeps codec limits layout root hash
  readable : ∀ hash, seen.digests hash = some true →
    ∃ raw, readManifest codec limits layout hash = .ok raw

/-- A walk from a part of `index.json` sees what its chains lead to. -/
theorem surveyed_of_reachable {entries : List Descriptor}
    (listed : readIndex codec limits layout = .ok entries) (coherent : Coherent codec limits layout)
    (some : ∀ root ∈ roots, root ∈ entries)
    (walked : reachable codec limits layout roots budget = .ok seen) :
    Surveyed codec limits layout roots seen := by
  have explored := explored_of_reachable closedBelow_leads
    (fun root member => ⟨root, member, .self⟩) walked
  have within : ∀ {root d}, root ∈ roots → Leads codec limits layout root d →
      Reaches codec limits layout d :=
    fun member chain => (reaches_iff_leads listed _).mpr ⟨_, some _ member, chain⟩
  have below : ∀ root ∈ roots, ∀ d, Leads codec limits layout root d →
      seen.digests d.digest = Option.some true := by
    intro root member d chain
    induction chain with
    | self => exact (explored.roots root member).resolve_right not_mem_nil
    | @child parent kid kids blobs chain read found ih =>
      obtain ⟨reader, kids', blobs', ⟨origin, among, lead⟩, named, read', settled, -⟩ :=
        explored.manifests _ ih
      -- The reading that was taken is the one of this chain.
      have same := coherent parent reader (within member chain) (within among lead) named.symm _ read
      obtain ⟨rfl, rfl⟩ := Prod.mk.inj (Except.ok.inj (read'.symm.trans same))
      exact (settled kid found).resolve_right not_mem_nil
  constructor
  · intro hash
    constructor
    · intro found
      obtain ⟨d, kids, blobs, ⟨root, member, chain⟩, named, -⟩ := explored.manifests hash found
      exact ⟨root, member, d, chain, named⟩
    · rintro ⟨root, member, d, chain, rfl⟩
      exact below root member d chain
  · intro hash
    constructor
    · intro met
      obtain ⟨role, found⟩ := Option.ne_none_iff_exists'.mp met
      cases role with
      | true =>
        obtain ⟨d, kids, blobs, ⟨root, member, chain⟩, named, -⟩ := explored.manifests hash found
        exact ⟨root, member, .inl ⟨d, chain, named⟩⟩
      | false =>
        obtain ⟨parent, kids, blobs, blob, ⟨root, member, chain⟩, read, listed, named⟩ :=
          explored.blobs hash found
        exact ⟨root, member, .inr ⟨parent, kids, blobs, blob, chain, read, listed, named⟩⟩
    · rintro ⟨root, member, ⟨d, chain, rfl⟩ | ⟨parent, kids, blobs, blob, chain, read, listed, rfl⟩⟩
      · rw [below root member d chain]
        simp
      · obtain ⟨reader, kids', blobs', ⟨origin, among, lead⟩, named, read', -, beside⟩ :=
          explored.manifests _ (below root member parent chain)
        have same := coherent parent reader (within member chain) (within among lead) named.symm _ read
        obtain ⟨rfl, rfl⟩ := Prod.mk.inj (Except.ok.inj (read'.symm.trans same))
        exact beside blob listed
  · intro hash found
    obtain ⟨d, kids, blobs, -, rfl, read, -⟩ := explored.manifests hash found
    exact exists_readManifest read

end Walks

variable {hash : Hash}

section Referrers

variable {Rest : Type} {codec : IndexCodec Rest} {limits : Graph.Limits} {layout : Layout}
variable {entries : List (Listing Rest)}

theorem reading_ok {α : Type} {result : Except GcError α} {value : α}
    (read : reading result = .ok value) : result = .ok value := by
  cases result with
  | error failure => cases read
  | ok other => rw [Except.ok.inj read]

/-- An entry of `index.json` names a manifest as its subject. -/
def Names (codec : IndexCodec Rest) (limits : Graph.Limits) (layout : Layout)
    (entries : List (Listing Rest)) (subject hash : Hash) : Prop :=
  ∃ entry ∈ entries, isManifest entry.mediaType ∧ entry.digest = hash ∧
    ∃ raw, readManifest codec.toCodec limits.toLimits layout hash = .ok raw ∧
      codec.subject raw = some (some subject)

theorem referrer_ok {named : Option Hash} (found : referrer codec limits layout hash = .ok named) :
    ∃ raw, readManifest codec.toCodec limits.toLimits layout hash = .ok raw ∧
      codec.subject raw = some named := by
  obtain ⟨raw, read, found⟩ := exists_of_bind_eq_ok found
  refine ⟨raw, reading_ok read, ?_⟩
  cases parsed : codec.subject raw with
  | none =>
    rw [parsed] at found
    cases found
  | some other =>
    rw [parsed] at found
    rw [Except.ok.inj found]

theorem mem_referrersIn {seen : List Hash} {pairs : List (Hash × Hash)}
    (scanned : referrersIn codec limits layout seen entries = .ok pairs) (subject hash : Hash) :
    (subject, hash) ∈ pairs ↔ hash ∉ seen ∧ Names codec limits layout entries subject hash := by
  induction entries generalizing seen pairs with
  | nil =>
    cases scanned
    simp [Names]
  | cons entry entries ih =>
    have names : Names codec limits layout (entry :: entries) subject hash ↔
        (isManifest entry.mediaType ∧ entry.digest = hash ∧
          ∃ raw, readManifest codec.toCodec limits.toLimits layout hash = .ok raw ∧
            codec.subject raw = some (some subject)) ∨
          Names codec limits layout entries subject hash := by
      simp [Names]
    rw [referrersIn] at scanned
    split at scanned
    · rename_i skipped
      rw [ih scanned, names]
      rw [Bool.or_eq_true, decide_eq_true_eq, Bool.not_eq_true'] at skipped
      constructor
      · rintro ⟨fresh, later⟩
        exact ⟨fresh, .inr later⟩
      · rintro ⟨fresh, ⟨manifest, rfl, -⟩ | later⟩
        · rcases skipped with met | other
          · exact absurd met fresh
          · rw [other] at manifest
            cases manifest
        · exact ⟨fresh, later⟩
    · rename_i taken
      rw [Bool.or_eq_true, decide_eq_true_eq, Bool.not_eq_true', not_or, Bool.not_eq_false] at taken
      obtain ⟨fresh, manifest⟩ := taken
      obtain ⟨named, found, scanned⟩ := exists_of_bind_eq_ok scanned
      obtain ⟨others, rest, same⟩ := exists_of_bind_eq_ok scanned
      obtain ⟨raw, read, parsed⟩ := referrer_ok found
      -- The entry's own pair, if it names a subject, and those after it.
      have shape : (subject, hash) ∈ pairs ↔
          (named = some subject ∧ hash = entry.digest) ∨ (subject, hash) ∈ others := by
        cases named with
        | none =>
          cases same
          simp
        | some other =>
          cases same
          simp [eq_comm]
      rw [shape, ih rest, names, mem_cons, not_or]
      constructor
      · rintro (⟨rfl, rfl⟩ | ⟨⟨-, unseen⟩, later⟩)
        · exact ⟨fresh, .inl ⟨manifest, rfl, raw, read, parsed⟩⟩
        · exact ⟨unseen, .inr later⟩
      · rintro ⟨unseen, names⟩
        by_cases itself : hash = entry.digest
        · subst itself
          obtain ⟨raw', read', parsed'⟩ : ∃ raw, readManifest codec.toCodec limits.toLimits layout
              entry.digest = .ok raw ∧ codec.subject raw = some (some subject) := by
            rcases names with ⟨-, -, it⟩ | ⟨other, -, -, -, it⟩
            · exact it
            · exact it
          obtain rfl := Except.ok.inj (read.symm.trans read')
          exact .inl ⟨Option.some.inj (parsed.symm.trans parsed'), rfl⟩
        · rcases names with ⟨-, rfl, -⟩ | later
          · exact absurd rfl itself
          · exact .inr ⟨⟨itself, unseen⟩, later⟩

end Referrers

section Rounds

variable {Rest : Type} (codec : IndexCodec Rest) (limits : Graph.Limits) (layout : Layout)
variable (entries : List (Listing Rest)) (digest : Hash)

/-- The first round: the digest and its referrers at every level. -/
def InTree (hash : Hash) : Prop :=
  Relation.ReflTransGen (Names codec limits layout entries) digest hash

/-- A manifest below an entry of the first round that no other entry keeps. -/
structure Orphaned (hash : Hash) : Prop where
  below : ∃ entry ∈ entries, InTree codec limits layout entries digest entry.digest ∧
    Holds codec.toCodec limits.toLimits layout entry.toDescriptor hash
  outside : ¬InTree codec limits layout entries digest hash
  unkept : ∀ entry ∈ entries, Keeps codec.toCodec limits.toLimits layout entry.toDescriptor hash →
    InTree codec limits layout entries digest entry.digest

/-- The second round: the referrers of the manifests that the first one orphans. -/
def InMore (hash : Hash) : Prop :=
  ∃ orphan, Orphaned codec limits layout entries digest orphan ∧
    Relation.ReflTransGen (Names codec limits layout entries) orphan hash

/-- What one of the two rounds unlists, if it is listed. -/
def Unlisted (hash : Hash) : Prop :=
  InTree codec limits layout entries digest hash ∨ InMore codec limits layout entries digest hash

/-- The least set with the digest that has the referrers of its members and the manifests
that only entries in it keep. -/
inductive Gone : Hash → Prop where
  | target : Gone digest
  | referrer {subject hash : Hash} (gone : Gone subject)
      (names : Names codec limits layout entries subject hash) : Gone hash
  | orphan {entry : Listing Rest} {hash : Hash} (listed : entry ∈ entries)
      (gone : Gone entry.digest)
      (below : Holds codec.toCodec limits.toLimits layout entry.toDescriptor hash)
      (unkept : ∀ other ∈ entries,
        Keeps codec.toCodec limits.toLimits layout other.toDescriptor hash → Gone other.digest) :
      Gone hash

/-- Whenever an entry that goes in the second round keeps a manifest that a remaining
entry refers to and that is below some entry that goes, a remaining entry keeps the
manifest too. -/
def Settled : Prop :=
  ∀ entry ∈ entries, InMore codec limits layout entries digest entry.digest →
    ¬InTree codec limits layout entries digest entry.digest →
    ∀ hash, Keeps codec.toCodec limits.toLimits layout entry.toDescriptor hash →
      (∃ other ∈ entries, Unlisted codec limits layout entries digest other.digest ∧
        Holds codec.toCodec limits.toLimits layout other.toDescriptor hash) →
      ∀ referrer, Names codec limits layout entries hash referrer →
        ¬Unlisted codec limits layout entries digest referrer →
        ∃ keeper ∈ entries, ¬Unlisted codec limits layout entries digest keeper.digest ∧
          Keeps codec.toCodec limits.toLimits layout keeper.toDescriptor hash

end Rounds

variable {order : List Hash}

section Orders

variable {Rest : Type} {codec : IndexCodec Rest} {limits : Graph.Limits} {layout : Layout}
variable {entries : List (Listing Rest)} {digest : Hash}

theorem readIndex_of_readEntries (read : readEntries codec limits layout = .ok entries) :
    readIndex codec.toCodec limits.toLimits layout = .ok (entries.map Listing.toDescriptor) := by
  rw [readEntries] at read
  rw [readIndex]
  cases found : layout.index with
  | none =>
    rw [found] at read
    cases read
  | some text =>
    rw [found] at read
    simp only at read ⊢
    split at read
    · cases read
    · rename_i short
      rw [if_neg short, codec.parseIndexManifest_eq]
      cases parsed : codec.entries text with
      | none =>
        rw [parsed] at read
        cases read
      | some other =>
        rw [parsed] at read
        cases read
        rfl

/-- A manifest that can be read is a blob of the layout. -/
theorem mem_blobDigests {raw : Bytes}
    (read : readManifest codec.toCodec limits.toLimits layout hash = .ok raw) :
    hash ∈ blobDigests layout := by
  obtain ⟨named, found⟩ := blob_of_readManifest read
  rw [blobDigests]
  cases held : layout.blobs with
  | none =>
    rw [Layout.blob, held] at found
    cases found
  | some dir =>
    have member := (Layout.blob_eq_some held).mp found
    have listed := mem_map_of_mem (f := fun entry => hashOf entry.1) member
    rwa [hashOf_hex named] at listed

theorem mem_orphans {tree found : List Hash}
    (listed : readEntries codec limits layout = .ok entries)
    (coherent : Coherent codec.toCodec limits.toLimits layout)
    (members : ∀ hash, hash ∈ tree ↔ InTree codec limits layout entries digest hash)
    (searched : orphans codec limits layout entries tree = .ok found) (hash : Hash) :
    hash ∈ found ↔ Orphaned codec limits layout entries digest hash := by
  have indexed := readIndex_of_readEntries listed
  have part : ∀ keep : Listing Rest → Bool, ∀ root ∈ (entries.filter keep).map Listing.toDescriptor,
      root ∈ entries.map Listing.toDescriptor := by
    intro keep root member
    obtain ⟨entry, found, rfl⟩ := mem_map.mp member
    exact mem_map_of_mem (mem_filter.mp found).1
  obtain ⟨budget, -, searched⟩ := exists_of_bind_eq_ok searched
  obtain ⟨below, walked, searched⟩ := exists_of_bind_eq_ok searched
  have starts := surveyed_of_reachable indexed coherent (part _) (reading_ok walked)
  -- The children are the manifests below the tree that are not in it.
  have kids : ∀ hash, hash ∈ (blobDigests layout).filter (fun hash =>
      below.digests hash = some true ∧ hash ∉ tree) ↔
      (∃ entry ∈ entries, InTree codec limits layout entries digest entry.digest ∧
        Holds codec.toCodec limits.toLimits layout entry.toDescriptor hash) ∧
      ¬InTree codec limits layout entries digest hash := by
    intro hash
    rw [mem_filter, decide_eq_true_eq, starts.manifests, members]
    constructor
    · rintro ⟨-, ⟨root, member, holds⟩, outside⟩
      obtain ⟨entry, found, rfl⟩ := mem_map.mp member
      obtain ⟨member, inside⟩ := mem_filter.mp found
      exact ⟨⟨entry, member, (members _).mp (of_decide_eq_true inside), holds⟩, outside⟩
    · rintro ⟨⟨entry, member, inside, holds⟩, outside⟩
      have rooted : ∃ root ∈ (entries.filter fun entry => entry.digest ∈ tree).map
          Listing.toDescriptor, Holds codec.toCodec limits.toLimits layout root hash :=
        ⟨entry.toDescriptor, mem_map_of_mem (mem_filter.mpr
          ⟨member, decide_eq_true ((members _).mpr inside)⟩), holds⟩
      obtain ⟨raw, read⟩ := starts.readable hash ((starts.manifests hash).mpr rooted)
      exact ⟨mem_blobDigests read, rooted, outside⟩
  simp only at searched
  split at searched
  · rename_i empty
    cases searched
    constructor
    · intro member
      cases member
    · intro orphaned
      have member := (kids hash).mpr ⟨orphaned.below, orphaned.outside⟩
      rw [empty] at member
      cases member
  · obtain ⟨live, walked', same⟩ := exists_of_bind_eq_ok searched
    have rest := surveyed_of_reachable indexed coherent (part _) (reading_ok walked')
    cases same
    rw [mem_sortBy, mem_filter, kids, Option.isNone_iff_eq_none]
    have unreached : live.digests hash = none ↔ ∀ entry ∈ entries,
        Keeps codec.toCodec limits.toLimits layout entry.toDescriptor hash →
          InTree codec limits layout entries digest entry.digest := by
      rw [← not_iff_not, ← ne_eq, rest.digests]
      constructor
      · rintro ⟨root, member, keeps⟩ all
        obtain ⟨entry, found, rfl⟩ := mem_map.mp member
        obtain ⟨member, outside⟩ := mem_filter.mp found
        exact of_decide_eq_true outside ((members _).mpr (all entry member keeps))
      · intro some
        simp only [not_forall] at some
        obtain ⟨entry, member, keeps, outside⟩ := some
        exact ⟨entry.toDescriptor, mem_map_of_mem (mem_filter.mpr
          ⟨member, decide_eq_true (mt (members _).mp outside)⟩), keeps⟩
    rw [unreached]
    exact ⟨fun found => ⟨found.1.1, found.1.2, found.2⟩,
      fun orphaned => ⟨⟨orphaned.below, orphaned.outside⟩, orphaned.unkept⟩⟩

/-- The order is the tree of the digest and then that of the orphans. -/
theorem unlistOrder_ok (found : unlistOrder codec limits layout entries digest = .ok order) :
    ∃ tree orphaned more, order = tree ++ more ∧
      (∀ hash, hash ∈ tree ↔ InTree codec limits layout entries digest hash) ∧
      orphans codec limits layout entries tree = .ok orphaned ∧
      ∀ hash, hash ∈ more ↔ ∃ orphan ∈ orphaned,
        Relation.ReflTransGen (Names codec limits layout entries) orphan hash := by
  obtain ⟨pairs, scanned, found⟩ := exists_of_bind_eq_ok found
  obtain ⟨tree, climbed, found⟩ := exists_of_bind_eq_ok found
  obtain ⟨orphaned, searched, found⟩ := exists_of_bind_eq_ok found
  have same : (fun subject hash => (subject, hash) ∈ pairs) = Names codec limits layout entries := by
    funext subject hash
    rw [mem_referrersIn scanned]
    simp
  have members : ∀ hash, hash ∈ tree ↔ InTree codec limits layout entries digest hash := by
    intro hash
    rw [mem_referrerTree listReferrers_ok climbed, same]
    simp [InTree]
  split at found
  · rename_i none
    obtain rfl := Except.ok.inj found
    exact ⟨tree, orphaned, [], by simp, members, searched, by simp [none]⟩
  · obtain ⟨more, climbed', same'⟩ := exists_of_bind_eq_ok found
    obtain rfl := Except.ok.inj same'
    refine ⟨tree, orphaned, more, rfl, members, searched, fun hash => ?_⟩
    rw [mem_referrerTree listReferrers_ok climbed', same]

/-- The order has what the two rounds unlist. -/
theorem mem_unlistOrder (listed : readEntries codec limits layout = .ok entries)
    (coherent : Coherent codec.toCodec limits.toLimits layout)
    (found : unlistOrder codec limits layout entries digest = .ok order) (hash : Hash) :
    hash ∈ order ↔ Unlisted codec limits layout entries digest hash := by
  obtain ⟨tree, orphaned, more, rfl, members, searched, further⟩ := unlistOrder_ok found
  rw [mem_append, members, further, Unlisted, InMore]
  simp only [mem_orphans listed coherent members searched]

theorem gone_of_reflTransGen {start : Hash} (gone : Gone codec limits layout entries digest start)
    (chain : Relation.ReflTransGen (Names codec limits layout entries) start hash) :
    Gone codec limits layout entries digest hash := by
  induction chain with
  | refl => exact gone
  | tail _ names ih => exact .referrer ih names

/-- The rounds stay within the least set. -/
theorem gone_of_unlisted (unlisted : Unlisted codec limits layout entries digest hash) :
    Gone codec limits layout entries digest hash := by
  rcases unlisted with inside | ⟨orphan, orphaned, chain⟩
  · exact gone_of_reflTransGen .target inside
  · obtain ⟨entry, listed, inside, below⟩ := orphaned.below
    refine gone_of_reflTransGen (.orphan listed (gone_of_reflTransGen .target inside) below ?_) chain
    intro other member keeps
    exact gone_of_reflTransGen .target (orphaned.unkept other member keeps)

theorem Unlisted.referrer {subject : Hash}
    (unlisted : Unlisted codec limits layout entries digest subject)
    (names : Names codec limits layout entries subject hash) :
    Unlisted codec limits layout entries digest hash := by
  rcases unlisted with inside | ⟨orphan, orphaned, chain⟩
  · exact .inl (inside.tail names)
  · exact .inr ⟨orphan, orphaned, chain.tail names⟩

/-- Where no third round is needed, the least set has no further entries: what it has
beyond the two rounds is not listed, and its referrers went with them. -/
theorem unlisted_of_gone (settled : Settled codec limits layout entries digest)
    (gone : Gone codec limits layout entries digest hash) :
    Unlisted codec limits layout entries digest hash ∨
      ((∀ entry ∈ entries, entry.digest ≠ hash) ∧
        ∀ referrer, Names codec limits layout entries hash referrer →
          Unlisted codec limits layout entries digest referrer) := by
  induction gone with
  | target => exact .inl (.inl .refl)
  | referrer _ names ih =>
    rcases ih with unlisted | ⟨-, referrers⟩
    · exact .inl (unlisted.referrer names)
    · exact .inl (referrers _ names)
  | @orphan entry hash listed _ below _ ih keepers =>
    have entered : ∀ other ∈ entries,
        Keeps codec.toCodec limits.toLimits layout other.toDescriptor hash →
          Unlisted codec limits layout entries digest other.digest := by
      intro other member keeps
      exact (keepers other member keeps).resolve_right fun free => free.1 other member rfl
    have parent : Unlisted codec limits layout entries digest entry.digest :=
      ih.resolve_right fun free => free.1 entry listed rfl
    by_cases unlisted : Unlisted codec limits layout entries digest hash
    · exact .inl unlisted
    · refine .inr ⟨?_, fun referrer names => ?_⟩
      · rintro other member rfl
        exact unlisted (entered other member (.inl ⟨other.toDescriptor, .self, rfl⟩))
      · by_contra remains
        by_cases first : ∀ other ∈ entries,
            Keeps codec.toCodec limits.toLimits layout other.toDescriptor hash →
              InTree codec limits layout entries digest other.digest
        · -- Only the first round takes its entries, so the second round takes the referrer.
          have orphaned : Orphaned codec limits layout entries digest hash :=
            ⟨⟨entry, listed, first entry listed (.inl below), below⟩,
              fun inside => unlisted (.inl inside), first⟩
          exact remains (.inr ⟨hash, orphaned, .single names⟩)
        · simp only [not_forall] at first
          obtain ⟨other, member, keeps, outside⟩ := first
          have second := (entered other member keeps).resolve_left outside
          obtain ⟨keeper, among, stays, keeps'⟩ := settled other member second outside hash keeps
            ⟨entry, listed, parent, below⟩ referrer names remains
          exact stays (entered keeper among keeps')

/-- The rounds reach the least set just where no third round is needed. -/
theorem settled_iff : Settled codec limits layout entries digest ↔
    ∀ entry ∈ entries, Gone codec limits layout entries digest entry.digest →
      Unlisted codec limits layout entries digest entry.digest := by
  constructor
  · intro settled entry listed gone
    exact (unlisted_of_gone settled gone).resolve_right fun free => free.1 entry listed rfl
  · intro reached entry listed _ _ hash _ below referrer names remains
    by_contra unkept
    simp only [not_exists, not_and] at unkept
    obtain ⟨other, member, gone, holds⟩ := below
    have orphan : Gone codec limits layout entries digest hash := by
      refine .orphan member (gone_of_unlisted gone) holds fun keeper among keeps => ?_
      by_contra stays
      exact unkept keeper among (mt gone_of_unlisted stays) keeps
    obtain ⟨source, among, -, rfl, -⟩ := id names
    exact remains (reached source among (.referrer orphan names))

end Orders

section Deletions

variable {Rest : Type} {codec : IndexCodec Rest} {limits : Graph.Limits} {layout after : Layout}
variable {entries : List (Listing Rest)} {digest : Hash} {report : DeleteReport} {committed : Bool}

/-- The layout's `index.json` has these entries. -/
def Lists (codec : IndexCodec Rest) (layout : Layout) (entries : List (Listing Rest)) : Prop :=
  ∃ text, layout.index = some text ∧ codec.entries text = some entries

/-- The rewritten `index.json` has the entries it was given, where each has a digest. -/
def Rewrites (codec : IndexCodec Rest) (layout : Layout) : Prop :=
  ∀ text entries kept, layout.index = some text → codec.entries text = some entries →
    kept.Sublist entries → (∀ entry ∈ kept, checkDigest entry.digest) →
    codec.entries (codec.marshalIndex text kept) = some kept

theorem lists_of_readEntries (read : readEntries codec limits layout = .ok entries) :
    Lists codec layout entries := by
  rw [readEntries] at read
  cases found : layout.index with
  | none =>
    rw [found] at read
    cases read
  | some text =>
    rw [found] at read
    simp only at read
    split at read
    · cases read
    · cases parsed : codec.entries text with
      | none =>
        rw [parsed] at read
        cases read
      | some other =>
        rw [parsed] at read
        cases read
        exact ⟨text, found, parsed⟩

theorem Lists.unique {first second : List (Listing Rest)} (left : Lists codec layout first)
    (right : Lists codec layout second) : first = second := by
  obtain ⟨text, found, parsed⟩ := left
  obtain ⟨text', found', parsed'⟩ := right
  obtain rfl := Option.some.inj (found.symm.trans found')
  exact Option.some.inj (parsed.symm.trans parsed')

/-- What a deletion that succeeds has done. -/
theorem delete_ok (deleted : delete codec limits layout digest false committed = (.ok report, after)) :
    ∃ entries order, checkDigest digest ∧ readEntries codec limits layout = .ok entries ∧
      unlistOrder codec limits layout entries digest = .ok order ∧
      report = (splitEntries entries order digest).1 ∧
      ((report.removed = [] ∧ after = layout) ∨
        (report.removed ≠ [] ∧ committed = true ∧ after = { layout with
          index := layout.index.map fun text =>
            codec.marshalIndex text (splitEntries entries order digest).2 })) := by
  rw [delete] at deleted
  split at deleted
  · cases deleted
  · rename_i named
    cases listed : readEntries codec limits layout with
    | error failure =>
      rw [listed] at deleted
      cases deleted
    | ok entries =>
      rw [listed] at deleted
      simp only at deleted
      cases found : unlistOrder codec limits layout entries digest with
      | error failure =>
        rw [found] at deleted
        cases deleted
      | ok order =>
        rw [found] at deleted
        refine ⟨entries, order, by simpa using named, rfl, found, ?_⟩
        simp only [Bool.false_or, decide_eq_true_eq] at deleted
        split at deleted
        · rename_i nothing
          obtain ⟨same, rfl⟩ := Prod.mk.inj deleted
          cases same
          exact ⟨rfl, .inl ⟨nothing, rfl⟩⟩
        · rename_i something
          cases committed with
          | false => cases deleted
          | true =>
            obtain ⟨same, rfl⟩ := Prod.mk.inj deleted
            cases same
            exact ⟨rfl, .inr ⟨something, rfl, rfl⟩⟩

/-- With an order and a free hand a deletion succeeds. -/
theorem delete_succeeds (named : checkDigest digest)
    (listed : readEntries codec limits layout = .ok entries)
    (found : unlistOrder codec limits layout entries digest = .ok order) :
    ∃ report after, delete codec limits layout digest false true = (.ok report, after) := by
  rw [delete, named, listed]
  simp only [Bool.not_true, Bool.false_eq_true, if_false, found, Bool.false_or]
  split
  · exact ⟨_, _, rfl⟩
  · exact ⟨_, _, rfl⟩

/-- A deletion that fails changes nothing. -/
theorem delete_error {failure : DeleteError}
    (deleted : delete codec limits layout digest false committed = (.error failure, after)) :
    after = layout := by
  rw [delete] at deleted
  split at deleted
  · exact (Prod.mk.inj deleted).2.symm
  · cases listed : readEntries codec limits layout with
    | error other =>
      rw [listed] at deleted
      exact (Prod.mk.inj deleted).2.symm
    | ok entries =>
      rw [listed] at deleted
      simp only at deleted
      cases found : unlistOrder codec limits layout entries digest with
      | error other =>
        rw [found] at deleted
        exact (Prod.mk.inj deleted).2.symm
      | ok order =>
        rw [found] at deleted
        simp only [Bool.false_or, decide_eq_true_eq] at deleted
        split at deleted
        · cases deleted
        · cases committed with
          | false => exact (Prod.mk.inj deleted).2.symm
          | true => cases deleted

/-- A deletion leaves the entries that its order does not have. -/
theorem lists_of_delete (rewrites : Rewrites codec layout)
    (listed : readEntries codec limits layout = .ok entries)
    (named : ∀ entry ∈ entries, checkDigest entry.digest)
    (deleted : delete codec limits layout digest false committed = (.ok report, after)) :
    ∃ order, unlistOrder codec limits layout entries digest = .ok order ∧
      Lists codec after (entries.filter fun entry => entry.digest ∉ order) := by
  obtain ⟨entries', order, -, listed', found, rfl, done⟩ := delete_ok deleted
  obtain rfl := Except.ok.inj (listed.symm.trans listed')
  refine ⟨order, found, ?_⟩
  obtain ⟨text, held, parsed⟩ := lists_of_readEntries listed
  rcases done with ⟨nothing, rfl⟩ | ⟨-, -, rfl⟩
  · -- Nothing of the order is listed, so all entries stay.
    have all : entries.filter (fun entry => entry.digest ∉ order) = entries := by
      rw [filter_eq_self]
      intro entry member
      apply decide_eq_true
      intro ordered
      have removed : entry.digest ∈ (splitEntries entries order digest).1.removed :=
        mem_filter.mpr ⟨ordered, decide_eq_true (mem_map_of_mem member)⟩
      rw [nothing] at removed
      cases removed
    rw [all]
    exact ⟨text, held, parsed⟩
  · refine ⟨codec.marshalIndex text (splitEntries entries order digest).2, ?_, ?_⟩
    · simp [held]
    · exact rewrites text entries _ held parsed filter_sublist
        fun entry member => named entry (mem_filter.mp member).1

theorem blobs_of_delete
    (deleted : delete codec limits layout digest false committed = (.ok report, after)) :
    after.blobs = layout.blobs := by
  obtain ⟨entries, order, -, -, -, -, ⟨-, rfl⟩ | ⟨-, -, rfl⟩⟩ := delete_ok deleted
  · rfl
  · rfl

/-- Without an entry in the tree nothing is orphaned. -/
theorem orphans_eq_nil {tree found : List Hash} (unlisted : ∀ entry ∈ entries, entry.digest ∉ tree)
    (searched : orphans codec limits layout entries tree = .ok found) : found = [] := by
  have starts : entries.filter (fun entry => entry.digest ∈ tree) = [] := by
    rw [filter_eq_nil_iff]
    intro entry member
    simpa using unlisted entry member
  obtain ⟨budget, -, searched⟩ := exists_of_bind_eq_ok searched
  obtain ⟨below, walked, searched⟩ := exists_of_bind_eq_ok searched
  rw [starts, map_nil] at walked
  have nothing : reachable codec.toCodec limits.toLimits layout [] budget = .ok {} := by
    rw [reachable, reverse_nil, walkFrames]
  obtain rfl := Except.ok.inj ((reading_ok walked).symm.trans nothing)
  have none : (blobDigests layout).filter (fun hash =>
      ({} : Seen).digests hash = some true ∧ hash ∉ tree) = [] := by
    simp
  simp only [none] at searched
  exact (Except.ok.inj searched).symm

/-- A second deletion removes nothing. -/
theorem delete_again (rewrites : Rewrites codec layout)
    (listed : readEntries codec limits layout = .ok entries)
    (named : ∀ entry ∈ entries, checkDigest entry.digest)
    (deleted : delete codec limits layout digest false committed = (.ok report, after))
    (committed' : Bool) :
    (delete codec limits after digest false committed').2 = after ∧
      ∀ report', (delete codec limits after digest false committed').1 = .ok report' →
        report'.removed = [] := by
  cases outcome : delete codec limits after digest false committed' with
  | mk result later =>
    cases result with
    | error failure => exact ⟨delete_error outcome, fun report' same => by cases same⟩
    | ok second =>
      obtain ⟨order, found, lists⟩ := lists_of_delete rewrites listed named deleted
      obtain ⟨kept, order', -, listed', found', rfl, done⟩ := delete_ok outcome
      obtain rfl := lists.unique (lists_of_readEntries listed')
      obtain ⟨tree, orphaned, more, rfl, members, -, -⟩ := unlistOrder_ok found
      obtain ⟨tree', orphaned', more', rfl, members', searched, further⟩ := unlistOrder_ok found'
      have blobs := blobs_of_delete deleted
      have reads : ∀ hash, readManifest codec.toCodec limits.toLimits after hash =
          readManifest codec.toCodec limits.toLimits layout hash := by
        intro hash
        simp only [readManifest, Layout.blob, blobs]
      -- No entry that is left has a member of the tree for its subject.
      have alone : ∀ hash, InTree codec limits after
          (entries.filter fun entry => entry.digest ∉ tree ++ more) digest hash →
          hash = digest := by
        intro hash inside
        induction inside with
        | refl => rfl
        | @tail subject hash _ names ih =>
          subst ih
          obtain ⟨entry, member, manifest, rfl, raw, read, parsed⟩ := names
          obtain ⟨among, stays⟩ := mem_filter.mp member
          rw [reads] at read
          have before : InTree codec limits layout entries subject entry.digest :=
            .single ⟨entry, among, manifest, rfl, raw, read, parsed⟩
          exact absurd (mem_append_left _ ((members _).mpr before)) (of_decide_eq_true stays)
      have left : ∀ entry ∈ entries.filter (fun entry => entry.digest ∉ tree ++ more),
          entry.digest ∉ tree' := by
        intro entry member inside
        have same := alone _ ((members' _).mp inside)
        have stays := of_decide_eq_true (mem_filter.mp member).2
        rw [same] at stays
        exact stays (mem_append_left _ ((members _).mpr .refl))
      obtain rfl := orphans_eq_nil left searched
      have nothing : (splitEntries (entries.filter fun entry => entry.digest ∉ tree ++ more)
          (tree' ++ more') digest).1.removed = [] := by
        refine filter_eq_nil_iff.mpr fun hash member => ?_
        rw [decide_eq_true_eq, mem_map]
        rintro ⟨entry, kept, rfl⟩
        rcases mem_append.mp member with inside | inside
        · exact left entry kept inside
        · obtain ⟨orphan, none, -⟩ := (further _).mp inside
          cases none
      rcases done with ⟨-, rfl⟩ | ⟨something, -, -⟩
      · refine ⟨rfl, fun report' same => ?_⟩
        cases same
        exact nothing
      · exact absurd nothing something

open Classical in
/-- What a deletion is to do: unlist the least set and leave the other entries as they are,
so that no entry is left whose subject lost its last one; remove nothing the second time;
change nothing where it fails. -/
structure DeletesExactly (codec : IndexCodec Rest) (limits : Graph.Limits) (layout : Layout)
    (entries : List (Listing Rest)) (digest : Hash) : Prop where
  removed : ∀ committed report after,
    delete codec limits layout digest false committed = (.ok report, after) →
      Lists codec after
        (entries.filter fun entry => ¬Gone codec limits layout entries digest entry.digest)
  covered : ∀ committed report after,
    delete codec limits layout digest false committed = (.ok report, after) →
      ∀ kept, Lists codec after kept → ∀ entry ∈ kept, ∀ subject,
        Names codec limits layout entries subject entry.digest →
        (∃ other ∈ entries, other ∉ kept ∧
          Holds codec.toCodec limits.toLimits layout other.toDescriptor subject) →
        ∃ keeper ∈ kept, Keeps codec.toCodec limits.toLimits layout keeper.toDescriptor subject
  again : ∀ committed report after,
    delete codec limits layout digest false committed = (.ok report, after) → ∀ committed',
      (delete codec limits after digest false committed').2 = after ∧
        ∀ report', (delete codec limits after digest false committed').1 = .ok report' →
          report'.removed = []
  failed : ∀ committed failure after,
    delete codec limits layout digest false committed = (.error failure, after) → after = layout

end Deletions

section Chain

/-- The lower-case hexadecimal digits of a number, with these after them. -/
def hexDigits (value : Nat) : Nat → Bytes → Bytes
  | 0, digits => digits
  | count + 1, digits =>
      let digit := value % 16
      hexDigits (value / 16) count
        (UInt8.ofNat (if digit < 10 then 0x30 + digit else 0x57 + digit) :: digits)

/-- A manifest with what the decoders make of its text. -/
structure Document where
  hex : Bytes
  mediaType : Bytes
  text : Bytes
  manifests : List Descriptor := []
  subject : Option Hash := none

def Document.descriptor (document : Document) : Descriptor :=
  ⟨document.mediaType, hashOf document.hex⟩

/-- The document as an entry of `index.json`, with its size. -/
def Document.listing (document : Document) : Listing Nat :=
  { document.descriptor with rest := document.text.length }

/-- The empty object is an image without anything. -/
def firstImage : Document where
  hex := hexDigits 0x44136fa355b3678a1146ad16f7e8649e94fb4fc21fe77e8310c060f61caaff8a 64 []
  mediaType := textBytes "application/vnd.oci.image.manifest.v1+json"
  text := configText

def secondImage : Document where
  hex := hexDigits 0xc824a9aa7d2e3471306648c6d4baa1abbcb97ff0276181ab4722ca27127cdba0 64 []
  mediaType := textBytes "application/vnd.oci.image.manifest.v1+json"
  text := textBytes "\x7b\"layers\":[]\x7d"

def subjectText (subject : Document) : Bytes :=
  textBytes "\"subject\":\x7b\"digest\":\"sha256:" ++ subject.hex ++ textBytes "\"\x7d"

def manifestsText (child : Document) : Bytes :=
  textBytes "\"manifests\":[" ++ child.descriptor.text ++ textBytes "]"

/-- An index of the first image. -/
def firstIndex : Document where
  hex := hexDigits 0x5dadc23b13779be58ecd3485d99658e6f9ef3cbe6bfc75c426c64270889da264 64 []
  mediaType := textBytes "application/vnd.oci.image.index.v1+json"
  text := textBytes "\x7b" ++ manifestsText firstImage ++ textBytes "\x7d"
  manifests := [firstImage.descriptor]

/-- An index of the second image that refers to the first. -/
def secondIndex : Document where
  hex := hexDigits 0x90e58e8a1e4e62646c42853b32e2b4cb210705c5a0d2069c6631090e19e48ff8 64 []
  mediaType := textBytes "application/vnd.oci.image.index.v1+json"
  text := textBytes "\x7b" ++ subjectText firstImage ++ textBytes "," ++ manifestsText secondImage ++
    textBytes "\x7d"
  manifests := [secondImage.descriptor]
  subject := some firstImage.descriptor.digest

/-- A signature of the second image. -/
def signature : Document where
  hex := hexDigits 0x65f81a3d5bd9588142a32ca6ea2b6611c09d9794a45008628381e9fb44ba0d5d 64 []
  mediaType := textBytes "application/vnd.oci.image.manifest.v1+json"
  text := textBytes "\x7b" ++ subjectText secondImage ++ textBytes "\x7d"
  subject := some secondImage.descriptor.digest

def documents : List Document := [firstImage, secondImage, firstIndex, secondIndex, signature]

def chainEntries : List (Listing Nat) :=
  [firstIndex.listing, secondIndex.listing, signature.listing]

def document (raw : Bytes) : Option Document := documents.find? fun document => document.text = raw

/-- The entries as `index.json` has them. -/
def listingsText : List (Listing Nat) → Bytes
  | [] => textBytes "]\x7d"
  | listing :: listings =>
      textBytes "\x7b\"mediaType\":\"" ++ listing.mediaType ++ textBytes "\",\"size\":" ++
        textBytes (toString listing.rest) ++ textBytes ",\"digest\":\"sha256:" ++
        listing.digest.hex ++ textBytes (if listings = [] then "\"\x7d" else "\"\x7d,") ++
        listingsText listings

def indexJson (entries : List (Listing Nat)) : Bytes :=
  textBytes "\x7b\"schemaVersion\":2,\"manifests\":[" ++ listingsText entries

/-- The entries of an index among these texts. -/
def chainListings (raw : Bytes) : Option (List (Listing Nat)) :=
  match document raw with
  | some document => some (document.manifests.map fun child => { child with rest := 0 })
  | none => chainEntries.sublists.find? fun entries => indexJson entries = raw

/-- The other packages on these texts. -/
def chainCodec : IndexCodec Nat where
  sha256 raw := ((document raw).map Document.hex).getD []
  mediaType raw := (document raw).map fun _ => []
  parseIndexManifest raw := (chainListings raw).map (List.map Listing.toDescriptor)
  parseManifest raw := (document raw).map fun _ => ⟨⟨[], ⟨[], []⟩⟩, []⟩
  entries := chainListings
  parseIndexManifest_eq := fun _ => rfl
  subject raw := (document raw).map Document.subject
  marshalIndex _ entries := indexJson entries

/-- The default limits. -/
def chainLimits : Graph.Limits where
  manifestBytes := 4194304
  blobs := 64
  blobBytes := 1073741824
  totalBytes := 4294967296
  referrers := 256

def chainFiles : List (Bytes × Entry) :=
  documents.map fun document => (document.hex, Entry.regular document.text)

theorem nodup_chainFiles : (chainFiles.map Prod.fst).Nodup := by decide +kernel

def chainBlobs : BlobDir := ⟨chainFiles, nodup_chainFiles⟩

def chainLayout : Layout := ⟨some (indexJson chainEntries), some chainBlobs⟩

/-- The layout with the first index alone. -/
def loneLayout : Layout := ⟨some (indexJson [firstIndex.listing]), some chainBlobs⟩

/-- What the functions return on these layouts, evaluated at once: the texts are spelled
out only once. -/
theorem computed :
    ((unlistOrder chainCodec chainLimits chainLayout chainEntries
        firstIndex.listing.digest).toOption =
        some [firstIndex.listing.digest, secondIndex.listing.digest, firstImage.descriptor.digest] ∧
      (readEntries chainCodec chainLimits chainLayout).toOption = some chainEntries ∧
      (∀ kept ∈ chainEntries.sublists, chainListings (indexJson kept) = some kept) ∧
      (∀ entry ∈ chainEntries, checkDigest entry.digest)) ∧
    ((readEntries chainCodec chainLimits loneLayout).toOption = some [firstIndex.listing] ∧
      (unlistOrder chainCodec chainLimits loneLayout [firstIndex.listing]
        firstIndex.listing.digest).toOption =
        some [firstIndex.listing.digest, firstImage.descriptor.digest] ∧
      (content chainCodec.toCodec chainLimits.toLimits loneLayout firstIndex.descriptor).toOption =
        some ([firstImage.descriptor], []) ∧
      (content chainCodec.toCodec chainLimits.toLimits loneLayout firstImage.descriptor).toOption =
        some ([], [⟨[], ⟨[], []⟩⟩])) ∧
    (content chainCodec.toCodec chainLimits.toLimits chainLayout
        secondIndex.listing.toDescriptor).toOption = some ([secondImage.descriptor], []) ∧
      (content chainCodec.toCodec chainLimits.toLimits chainLayout
        signature.listing.toDescriptor).toOption = some ([], [⟨[], ⟨[], []⟩⟩]) ∧
      (readManifest chainCodec.toCodec chainLimits.toLimits chainLayout
        signature.listing.digest).toOption = some signature.text ∧
      chainCodec.subject signature.text = some (some secondImage.descriptor.digest) := by
  decide +kernel

/-- The second round takes the second index, and the signature of its image stays. -/
theorem unlistOrder_chain :
    unlistOrder chainCodec chainLimits chainLayout chainEntries firstIndex.listing.digest =
      .ok [firstIndex.listing.digest, secondIndex.listing.digest, firstImage.descriptor.digest] :=
  ok_of_toOption computed.1.1

theorem readEntries_chain : readEntries chainCodec chainLimits chainLayout = .ok chainEntries :=
  ok_of_toOption computed.1.2.1

theorem chainListings_indexJson : ∀ kept ∈ chainEntries.sublists,
    chainListings (indexJson kept) = some kept :=
  computed.1.2.2.1

theorem rewrites_chain : Rewrites chainCodec chainLayout := by
  intro text entries kept held parsed part _
  cases held
  have all := (lists_of_readEntries readEntries_chain).unique ⟨_, rfl, parsed⟩
  subst all
  exact chainListings_indexJson kept (mem_sublists.mpr part)

theorem named_chain : ∀ entry ∈ chainEntries, checkDigest entry.digest := computed.1.2.2.2

theorem readEntries_lone :
    readEntries chainCodec chainLimits loneLayout = .ok [firstIndex.listing] :=
  ok_of_toOption computed.2.1.1

theorem unlistOrder_lone :
    unlistOrder chainCodec chainLimits loneLayout [firstIndex.listing] firstIndex.listing.digest =
      .ok [firstIndex.listing.digest, firstImage.descriptor.digest] :=
  ok_of_toOption computed.2.1.2.1

theorem content_lone :
    content chainCodec.toCodec chainLimits.toLimits loneLayout firstIndex.descriptor =
        .ok ([firstImage.descriptor], []) ∧
      content chainCodec.toCodec chainLimits.toLimits loneLayout firstImage.descriptor =
        .ok ([], [⟨[], ⟨[], []⟩⟩]) :=
  ⟨ok_of_toOption computed.2.1.2.2.1, ok_of_toOption computed.2.1.2.2.2⟩

theorem coherent_lone : Coherent chainCodec.toCodec chainLimits.toLimits loneLayout := by
  obtain ⟨index, image⟩ := content_lone
  have only : ∀ d, Reaches chainCodec.toCodec chainLimits.toLimits loneLayout d →
      d = firstIndex.descriptor ∨ d = firstImage.descriptor := by
    intro d reached
    induction reached with
    | root listed member =>
      have indexed := readIndex_of_readEntries readEntries_lone
      obtain rfl := Except.ok.inj (indexed.symm.trans listed)
      exact .inl (mem_singleton.mp member)
    | child _ read member ih =>
      rcases ih with rfl | rfl
      · obtain ⟨rfl, -⟩ := Prod.mk.inj (Except.ok.inj (index.symm.trans read))
        exact .inr (mem_singleton.mp member)
      · obtain ⟨rfl, -⟩ := Prod.mk.inj (Except.ok.inj (image.symm.trans read))
        cases member
  have differ : firstIndex.descriptor.digest ≠ firstImage.descriptor.digest := by decide +kernel
  intro first second reached reached' same result read
  rcases only first reached with rfl | rfl
  · rcases only second reached' with rfl | rfl
    · exact read
    · exact absurd same differ
  · rcases only second reached' with rfl | rfl
    · exact absurd same.symm differ
    · exact read

theorem rewrites_lone : Rewrites chainCodec loneLayout := by
  intro text entries kept held parsed part _
  cases held
  have all := (lists_of_readEntries readEntries_lone).unique ⟨_, rfl, parsed⟩
  subst all
  refine chainListings_indexJson kept (mem_sublists.mpr (part.trans ?_))
  exact List.Sublist.cons_cons _ (nil_sublist _)

theorem content_secondIndex :
    content chainCodec.toCodec chainLimits.toLimits chainLayout
      secondIndex.listing.toDescriptor = .ok ([secondImage.descriptor], []) :=
  ok_of_toOption computed.2.2.1

theorem content_signature :
    content chainCodec.toCodec chainLimits.toLimits chainLayout
      signature.listing.toDescriptor = .ok ([], [⟨[], ⟨[], []⟩⟩]) :=
  ok_of_toOption computed.2.2.2.1

theorem readManifest_signature : readManifest chainCodec.toCodec chainLimits.toLimits chainLayout
    signature.listing.digest = .ok signature.text :=
  ok_of_toOption computed.2.2.2.2.1

theorem subject_signature :
    chainCodec.subject signature.text = some (some secondImage.descriptor.digest) :=
  computed.2.2.2.2.2

end Chain

end Golusoris.Registry.Delete
