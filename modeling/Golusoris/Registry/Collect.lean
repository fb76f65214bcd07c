import Golusoris.Registry.Explore
import Mathlib.Data.List.Nodup
import Mathlib.Data.List.Perm.Subperm

/-!
# What a collection removes

A chain of descriptors leads from `index.json` to everything that is to be kept.
The walk meets each digest of such a chain, but reads a manifest once for each
digest, as the first descriptor it meets has it. So a collection is exact where
all descriptors that name a manifest have it read alike.
-/

namespace Golusoris.Registry

open List
open Lib

section Chains

variable (codec : Codec) (limits : Limits) (layout : Layout)

/-- A chain of manifests leads from `index.json` to the descriptor. -/
inductive Reaches : Descriptor → Prop where
  | root {roots : List Descriptor} {descriptor : Descriptor}
      (listed : readIndex codec limits layout = .ok roots) (member : descriptor ∈ roots) :
      Reaches descriptor
  | child {parent kid : Descriptor} {kids blobs : List Descriptor} (reached : Reaches parent)
      (read : content codec limits layout parent = .ok (kids, blobs)) (member : kid ∈ kids) :
      Reaches kid

/-- A chain ends at the digest: at a manifest, or at a blob of one. -/
inductive ReachesDigest : Hash → Prop where
  | manifest {descriptor : Descriptor} (reached : Reaches codec limits layout descriptor) :
      ReachesDigest descriptor.digest
  | blob {parent descriptor : Descriptor} {kids blobs : List Descriptor}
      (reached : Reaches codec limits layout parent)
      (read : content codec limits layout parent = .ok (kids, blobs))
      (member : descriptor ∈ blobs) : ReachesDigest descriptor.digest

/-- The descriptors that name a manifest have it read alike. -/
def Coherent : Prop :=
  ∀ first second, Reaches codec limits layout first → Reaches codec limits layout second →
    first.digest = second.digest → ∀ result, content codec limits layout first = .ok result →
      content codec limits layout second = .ok result

/-- Every manifest on a chain can be read. -/
def Legible : Prop :=
  ∀ descriptor, Reaches codec limits layout descriptor →
    ∃ result, content codec limits layout descriptor = .ok result

end Chains

variable {raw name : Bytes}

section Walk

variable {codec : Codec} {limits : Limits} {layout : Layout} {roots : List Descriptor}
variable {descriptor : Descriptor} {kids blobs : List Descriptor}

theorem exists_readManifest (read : content codec limits layout descriptor = .ok (kids, blobs)) :
    ∃ raw, readManifest codec limits layout descriptor.digest = .ok raw := by
  rw [content] at read
  cases found : readManifest codec limits layout descriptor.digest with
  | error failure =>
    rw [found] at read
    cases read
  | ok raw => exact ⟨raw, rfl⟩

variable {hash : Hash}

/-- A manifest that is read is a blob of the layout. -/
theorem blob_of_readManifest (read : readManifest codec limits layout hash = .ok raw) :
    checkDigest hash ∧ layout.blob hash = some raw := by
  rw [readManifest] at read
  split at read
  · cases read
  · rename_i named
    cases found : layout.blob hash with
    | none =>
      rw [found] at read
      cases read
    | some other =>
      rw [found] at read
      simp only at read
      split at read
      · cases read
      · split at read
        · cases read
        · cases read
          exact ⟨by simpa using named, rfl⟩

theorem length_contentOf {mediaType : Bytes}
    (parsed : contentOf codec limits hash mediaType raw = .ok (kids, blobs)) :
    kids.length ≤ limits.blobs := by
  rw [contentOf] at parsed
  split at parsed
  · rw [indexContent] at parsed
    split at parsed
    · cases parsed
    · split at parsed
      · cases parsed
      · rename_i entries _ few
        obtain ⟨rfl, -⟩ := Prod.mk.inj (Except.ok.inj parsed)
        exact (length_filter_le _ entries).trans (Nat.le_of_not_lt few)
  · split at parsed
    · cases parsed
    · split at parsed
      · cases parsed
      · split at parsed
        · cases parsed
        · obtain ⟨rfl, -⟩ := Prod.mk.inj (Except.ok.inj parsed)
          exact Nat.zero_le _

/-- A manifest has a bounded number of children. -/
theorem length_kids (read : content codec limits layout descriptor = .ok (kids, blobs)) :
    kids.length ≤ limits.blobs := by
  obtain ⟨raw, found⟩ := exists_readManifest read
  simp only [content, found, bind, Except.bind] at read
  cases declared : codec.mediaType raw with
  | none =>
    rw [declared] at read
    cases read
  | some mediaType =>
    rw [declared] at read
    exact length_contentOf read

/-- What holds while the walk runs. -/
structure Walked (codec : Codec) (limits : Limits) (layout : Layout) (roots : List Descriptor)
    (seen : Seen) (stack : List Descriptor) : Prop where
  pending : ∀ descriptor ∈ stack, Reaches codec limits layout descriptor
  roots : ∀ descriptor ∈ roots,
    seen.digests descriptor.digest = some true ∨ descriptor ∈ stack
  manifests : ∀ hash, seen.digests hash = some true → ∃ descriptor kids blobs,
    Reaches codec limits layout descriptor ∧ descriptor.digest = hash ∧
      content codec limits layout descriptor = .ok (kids, blobs) ∧
      (∀ kid ∈ kids, seen.digests kid.digest = some true ∨ kid ∈ stack) ∧
      ∀ blob ∈ blobs, seen.digests blob.digest ≠ none
  blobs : ∀ hash, seen.digests hash = some false → ReachesDigest codec limits layout hash
  counted : ∃ hashes : List Hash, hashes.Nodup ∧ hashes.length = seen.read ∧
    ∀ hash ∈ hashes, seen.digests hash = some true

variable {seen after : Seen} {stack next : List Descriptor} {budget : Nat}

theorem closedBelow_reaches : ClosedBelow codec limits layout (Reaches codec limits layout) :=
  fun _ _ _ reached read _ member => .child reached read member

theorem Explored.walked
    (explored : Explored codec limits layout (Reaches codec limits layout) roots seen stack) :
    Walked codec limits layout roots seen stack := by
  refine ⟨explored.pending, explored.roots, explored.manifests, fun hash found => ?_,
    explored.counted⟩
  obtain ⟨parent, kids, blobs, blob, reached, read, member, rfl⟩ := explored.blobs hash found
  exact .blob reached read member

theorem walked_of_reachable (listed : readIndex codec limits layout = .ok roots)
    (walked : reachable codec limits layout roots budget = .ok seen) :
    Walked codec limits layout roots seen [] :=
  (explored_of_reachable closedBelow_reaches (fun _ member => .root listed member) walked).walked

/-- The walk has seen everything that the chains lead to, and nothing else. -/
theorem Walked.exact (walked : Walked codec limits layout roots seen [])
    (listed : readIndex codec limits layout = .ok roots) (coherent : Coherent codec limits layout) :
    (∀ descriptor, Reaches codec limits layout descriptor →
      seen.digests descriptor.digest = some true) ∧
    ∀ hash, seen.digests hash ≠ none ↔ ReachesDigest codec limits layout hash := by
  have settled : ∀ {other : Descriptor},
      seen.digests other.digest = some true ∨ other ∈ [] → seen.digests other.digest = some true :=
    fun found => found.resolve_right not_mem_nil
  have manifests : ∀ descriptor, Reaches codec limits layout descriptor →
      seen.digests descriptor.digest = some true := by
    intro descriptor reached
    induction reached with
    | root again member =>
      obtain rfl := Except.ok.inj (listed.symm.trans again)
      exact settled (walked.roots _ member)
    | @child parent kid kids blobs reached read member ih =>
      obtain ⟨reader, kids', blobs', reached', named, read', below, -⟩ := walked.manifests _ ih
      -- The reading that was taken is the one of this chain.
      have same := coherent parent reader reached reached' named.symm _ read
      obtain ⟨rfl, rfl⟩ := Prod.mk.inj (Except.ok.inj (read'.symm.trans same))
      exact settled (below kid member)
  refine ⟨manifests, fun hash => ⟨fun met => ?_, fun reached => ?_⟩⟩
  · cases role : seen.digests hash with
    | none => exact absurd role met
    | some manifest =>
      cases manifest with
      | true =>
        obtain ⟨descriptor, -, -, reached, rfl, -⟩ := walked.manifests hash role
        exact .manifest reached
      | false => exact walked.blobs hash role
  · cases reached with
    | manifest reached =>
      rw [manifests _ reached]
      exact nofun
    | @blob parent descriptor kids blobs reached read member =>
      obtain ⟨reader, kids', blobs', reached', named, read', -, beside⟩ :=
        walked.manifests _ (manifests _ reached)
      have same := coherent parent reader reached reached' named.symm _ read
      obtain ⟨rfl, rfl⟩ := Prod.mk.inj (Except.ok.inj (read'.symm.trans same))
      exact beside descriptor member

variable {dir : BlobDir}

theorem BlobDir.lookup_eq_some {entry : Entry} :
    dir.entries.lookup name = some entry ↔ (name, entry) ∈ dir.entries := by
  rw [lookup_eq_some_iff]
  constructor
  · rintro ⟨before, later, shape, -⟩
    rw [shape]
    simp
  · intro member
    obtain ⟨before, later, shape⟩ := append_of_mem member
    refine ⟨before, later, shape, fun other found => ?_⟩
    have nodup := dir.nodup
    rw [shape, map_append, map_cons] at nodup
    have differ := (nodup_append.mp nodup).2.2 other.1 (mem_map_of_mem found) name mem_cons_self
    simpa using differ.symm

theorem Layout.blob_eq_some (held : layout.blobs = some dir) :
    layout.blob hash = some raw ↔ (hash.hex, .regular raw) ∈ dir.entries := by
  rw [Layout.blob, held, ← BlobDir.lookup_eq_some]
  simp only
  cases found : dir.entries.lookup hash.hex with
  | none => simp
  | some entry =>
    cases entry with
    | regular other => simp
    | other => simp

theorem hashOf_hex (named : checkDigest hash) : hashOf hash.hex = hash := by
  simp only [checkDigest, Bool.and_eq_true, beq_iff_eq] at named
  rw [hashOf, ← named.1.1]

variable {files : List (Bytes × Nat)}

theorem mem_blobFiles (listed : blobFiles dir = .ok files) : name ∈ files.map Prod.fst ↔
      checkDigest (hashOf name) ∧ ∃ raw, (name, .regular raw) ∈ dir.entries := by
  rw [blobFiles] at listed
  split at listed
  · cases listed
  · rename_i regular
    cases listed
    rw [mem_map]
    constructor
    · rintro ⟨file, found, rfl⟩
      obtain ⟨⟨name, entry⟩, member, rfl⟩ := mem_map.mp (mem_sortBy.mp found)
      obtain ⟨member, named⟩ := mem_filter.mp member
      cases entry with
      | regular raw => exact ⟨named, raw, member⟩
      | other =>
        have missing := find?_eq_none.mp regular (name, .other) (mem_filter.mpr ⟨member, named⟩)
        simp at missing
    · rintro ⟨named, raw, member⟩
      refine ⟨(name, raw.length), mem_sortBy.mpr ?_, rfl⟩
      exact mem_map.mpr ⟨(name, .regular raw), mem_filter.mpr ⟨member, named⟩, rfl⟩

/-- Fewer manifests are read than the budget allows. -/
theorem Walked.read_le (walked : Walked codec limits layout roots seen stack)
    (held : layout.blobs = some dir) (listed : blobFiles dir = .ok files) :
    seen.read ≤ files.length := by
  obtain ⟨hashes, nodup, length, all⟩ := walked.counted
  have stored : ∀ hash ∈ hashes, checkDigest hash ∧ hash.hex ∈ files.map Prod.fst := by
    intro hash member
    obtain ⟨descriptor, kids, blobs, -, rfl, read, -⟩ := walked.manifests hash (all hash member)
    obtain ⟨raw, read⟩ := exists_readManifest read
    obtain ⟨named, found⟩ := blob_of_readManifest read
    refine ⟨named, (mem_blobFiles listed).mpr ⟨?_, raw, (Layout.blob_eq_some held).mp found⟩⟩
    rwa [hashOf_hex named]
  have names : (hashes.map Hash.hex).Nodup := by
    refine nodup.map_on fun first found second found' same => ?_
    rw [← hashOf_hex (stored first found).1, same, hashOf_hex (stored second found').1]
  have subset : hashes.map Hash.hex ⊆ files.map Prod.fst := by
    intro name found
    obtain ⟨hash, member, rfl⟩ := mem_map.mp found
    exact (stored hash member).2
  have count := (names.subperm subset).length_le
  rw [length_map, length_map] at count
  omega

/-- A walk over legible manifests stays within the budget and the bound. -/
theorem reachable_succeeds (held : layout.blobs = some dir) (listed : blobFiles dir = .ok files)
    (indexed : readIndex codec limits layout = .ok roots) (legible : Legible codec limits layout) :
    ∃ seen, reachable codec limits layout roots (files.length + 1) = .ok seen := by
  refine walkFrames_succeeds (Explored codec limits layout (Reaches codec limits layout) roots)
    (fun seen => (files.length + 1 - seen.read) * limits.blobs) ?_
    (explored_roots fun _ member => .root indexed member) ?_
  · intro seen top stack explored
    rw [visit]
    by_cases met : seen.digests top.digest = some true
    · rw [if_pos met]
      exact ⟨[], seen, rfl, explored.skip met, Nat.le_refl _⟩
    · have few := explored.walked.read_le held listed
      obtain ⟨⟨kids, blobs⟩, read⟩ := legible top (explored.pending top mem_cons_self)
      rw [if_neg met, if_neg (by omega), read]
      refine ⟨kids, _, rfl, explored.read closedBelow_reaches met read, ?_⟩
      have short := length_kids read
      rw [Seen.read_manifest]
      calc
        (files.length + 1 - (seen.read + 1)) * limits.blobs + kids.length
            ≤ (files.length + 1 - (seen.read + 1)) * limits.blobs + limits.blobs := by omega
        _ = (files.length + 1 - (seen.read + 1) + 1) * limits.blobs := by
            rw [Nat.add_mul, Nat.one_mul]
        _ = (files.length + 1 - seen.read) * limits.blobs := by
            congr 1
            omega
  · rw [length_reverse, stepBound, Nat.mul_succ]
    simp only [Nat.sub_zero]
    omega

end Walk

/-- Files and manifests can all be read. -/
structure Readable (codec : Codec) (limits : Limits) (layout : Layout) : Prop where
  files : ∃ dir files, layout.blobs = some dir ∧ blobFiles dir = .ok files
  index : ∃ roots, readIndex codec limits layout = .ok roots
  manifests : Legible codec limits layout

/-- The layout that is left without the blobs no chain leads to. -/
structure Swept (codec : Codec) (limits : Limits) (layout after : Layout) : Prop where
  index : after.index = layout.index
  blobs : ∃ dir dir', layout.blobs = some dir ∧ after.blobs = some dir' ∧
    ∀ entry, entry ∈ dir'.entries ↔ entry ∈ dir.entries ∧
      (checkDigest (hashOf entry.1) → ReachesDigest codec limits layout (hashOf entry.1))

/-- A collection is exact. Where everything can be read it removes just the blobs that
no chain leads to, and nothing the next time; otherwise it removes nothing. -/
structure CollectsExactly (codec : Codec) (limits : Limits) (layout : Layout) : Prop where
  complete : Readable codec limits layout → ∃ report after,
    gc codec limits layout false = (.ok report, after) ∧ Swept codec limits layout after ∧
      (∀ hash, hash ∈ report.removed ↔
        checkDigest hash ∧ layout.blob hash ≠ none ∧ ¬ReachesDigest codec limits layout hash) ∧
      gc codec limits after false = (.ok {}, after)
  closed : ¬Readable codec limits layout → (gc codec limits layout false).2 = layout ∧
    ∀ report, (gc codec limits layout false).1 = .ok report → report.removed = []

section Collecting

variable {codec : Codec} {limits : Limits} {layout after : Layout} {roots : List Descriptor}
variable {dir : BlobDir} {files : List (Bytes × Nat)} {keep : Seen}

/-- What the sweep removes, by name. -/
def garbage (files : List (Bytes × Nat)) (keep : Seen) : List (Bytes × Nat) :=
  files.filter fun file => (keep.digests (hashOf file.1)).isNone

theorem gc_eq_sweep (held : layout.blobs = some dir) (listed : blobFiles dir = .ok files)
    (indexed : readIndex codec limits layout = .ok roots)
    (walked : reachable codec limits layout roots (files.length + 1) = .ok keep) :
    gc codec limits layout false =
      (.ok ⟨(garbage files keep).map fun file => hashOf file.1, ((garbage files keep).map Prod.snd).sum⟩,
        { layout with blobs := some (dir.remove ((garbage files keep).map Prod.fst)) }) := by
  simp only [gc, held, listed, indexed, walked]
  rfl

theorem mem_garbage (listed : blobFiles dir = .ok files)
    (kept : ∀ hash, keep.digests hash ≠ none ↔ ReachesDigest codec limits layout hash) :
    name ∈ (garbage files keep).map Prod.fst ↔
      (checkDigest (hashOf name) ∧ ∃ raw, (name, .regular raw) ∈ dir.entries) ∧
        ¬ReachesDigest codec limits layout (hashOf name) := by
  rw [← mem_blobFiles listed, ← kept, not_not, mem_map, mem_map]
  constructor
  · rintro ⟨file, found, rfl⟩
    obtain ⟨member, unseen⟩ := mem_filter.mp found
    exact ⟨⟨file, member, rfl⟩, Option.isNone_iff_eq_none.mp unseen⟩
  · rintro ⟨⟨file, member, rfl⟩, unseen⟩
    exact ⟨file, mem_filter.mpr ⟨member, Option.isNone_iff_eq_none.mpr unseen⟩, rfl⟩

theorem BlobDir.mem_remove {names : List Bytes} {entry : Bytes × Entry} :
    entry ∈ (dir.remove names).entries ↔ entry ∈ dir.entries ∧ entry.1 ∉ names := by
  simp [BlobDir.remove]

theorem BlobDir.remove_nil (dir : BlobDir) : dir.remove [] = dir := by
  obtain ⟨entries, nodup⟩ := dir
  simp [BlobDir.remove]

theorem content_congr {descriptor : Descriptor}
    (same : checkDigest descriptor.digest →
      after.blob descriptor.digest = layout.blob descriptor.digest) :
    content codec limits after descriptor = content codec limits layout descriptor := by
  by_cases named : checkDigest descriptor.digest
  · simp only [content, readManifest, same named]
  · simp only [content, readManifest, Bool.not_eq_true _ ▸ named]
    rfl

/-- Chains stay where their manifests do. -/
theorem reaches_iff (index : after.index = layout.index)
    (blobs : ∀ hash, ReachesDigest codec limits layout hash → checkDigest hash →
      after.blob hash = layout.blob hash)
    (descriptor : Descriptor) :
    Reaches codec limits after descriptor ↔ Reaches codec limits layout descriptor := by
  have indexes : readIndex codec limits after = readIndex codec limits layout := by
    simp only [readIndex, index]
  constructor
  · intro reached
    induction reached with
    | root listed member => exact .root (indexes ▸ listed) member
    | child _ read member ih =>
      exact .child ih (content_congr (blobs _ (.manifest ih)) ▸ read) member
  · intro reached
    induction reached with
    | root listed member => exact .root (indexes.symm ▸ listed) member
    | child reached read member ih =>
      exact .child ih ((content_congr (blobs _ (.manifest reached))).symm ▸ read) member

theorem reachesDigest_iff (index : after.index = layout.index)
    (blobs : ∀ hash, ReachesDigest codec limits layout hash → checkDigest hash →
      after.blob hash = layout.blob hash)
    (hash : Hash) :
    ReachesDigest codec limits after hash ↔ ReachesDigest codec limits layout hash := by
  have chains := reaches_iff index blobs
  constructor
  · intro reached
    cases reached with
    | manifest reached => exact .manifest ((chains _).mp reached)
    | blob reached read member =>
      have before := (chains _).mp reached
      exact .blob before (content_congr (blobs _ (.manifest before)) ▸ read) member
  · intro reached
    cases reached with
    | manifest reached => exact .manifest ((chains _).mpr reached)
    | blob reached read member =>
      exact .blob ((chains _).mpr reached)
        ((content_congr (blobs _ (.manifest reached))).symm ▸ read) member

/-- Sweeping leaves the blobs that chains lead to. -/
theorem Swept.blob_eq (swept : Swept codec limits layout after) (hash : Hash)
    (reached : ReachesDigest codec limits layout hash) (named : checkDigest hash) :
    after.blob hash = layout.blob hash := by
  obtain ⟨dir, dir', held, held', kept⟩ := swept.blobs
  have same := hashOf_hex named
  refine Option.ext fun raw => ?_
  rw [Layout.blob_eq_some held', Layout.blob_eq_some held, kept]
  simp only [same]
  exact ⟨fun found => found.1, fun found => ⟨found, fun _ => reached⟩⟩

/-- The first of two collections, with what the next one will find. -/
theorem gc_complete (held : layout.blobs = some dir) (listed : blobFiles dir = .ok files)
    (indexed : readIndex codec limits layout = .ok roots) (legible : Legible codec limits layout)
    (coherent : Coherent codec limits layout) : ∃ report after,
      gc codec limits layout false = (.ok report, after) ∧ Swept codec limits layout after ∧
        ∀ hash, hash ∈ report.removed ↔
          checkDigest hash ∧ layout.blob hash ≠ none ∧ ¬ReachesDigest codec limits layout hash := by
  obtain ⟨keep, walked⟩ := reachable_succeeds held listed indexed legible
  have kept := ((walked_of_reachable indexed walked).exact indexed coherent).2
  refine ⟨_, _, gc_eq_sweep held listed indexed walked, ⟨rfl, dir, _, held, rfl, fun entry => ?_⟩,
    fun hash => ?_⟩
  · rw [BlobDir.mem_remove, mem_garbage listed kept]
    refine and_congr_right fun member => ?_
    constructor
    · intro spared named
      by_contra unreached
      obtain ⟨name, entry⟩ := entry
      cases entry with
      | regular raw => exact spared ⟨⟨named, raw, member⟩, unreached⟩
      | other =>
        -- Listing the files has refused an entry that is no file.
        rw [blobFiles] at listed
        split at listed
        · cases listed
        · rename_i regular
          have missing := find?_eq_none.mp regular (name, .other) (mem_filter.mpr ⟨member, named⟩)
          simp at missing
    · rintro reached ⟨⟨named, -⟩, unreached⟩
      exact unreached (reached named)
  · have names : hash ∈ (garbage files keep).map (fun file => hashOf file.1) ↔
        ∃ name ∈ (garbage files keep).map Prod.fst, hashOf name = hash := by
      simp
    rw [names]
    constructor
    · rintro ⟨name, found, rfl⟩
      obtain ⟨⟨named, raw, member⟩, unreached⟩ := (mem_garbage listed kept).mp found
      refine ⟨named, ?_, unreached⟩
      rw [(Layout.blob_eq_some held).mpr member]
      exact nofun
    · rintro ⟨named, present, unreached⟩
      obtain ⟨raw, found⟩ := Option.ne_none_iff_exists'.mp present
      refine ⟨hash.hex, (mem_garbage listed kept).mpr ?_, hashOf_hex named⟩
      rw [hashOf_hex named]
      exact ⟨⟨named, raw, (Layout.blob_eq_some held).mp found⟩, unreached⟩

/-- After a sweep everything is still readable, and nothing is left to remove. -/
theorem gc_again (listed : blobFiles dir = .ok files) (held : layout.blobs = some dir)
    (indexed : readIndex codec limits layout = .ok roots) (legible : Legible codec limits layout)
    (coherent : Coherent codec limits layout) (swept : Swept codec limits layout after) :
    gc codec limits after false = (.ok {}, after) := by
  have chains := reaches_iff swept.index swept.blob_eq
  have digests := reachesDigest_iff swept.index swept.blob_eq
  have contents : ∀ descriptor, Reaches codec limits layout descriptor →
      content codec limits after descriptor = content codec limits layout descriptor :=
    fun descriptor reached => content_congr (swept.blob_eq _ (.manifest reached))
  have legible' : Legible codec limits after := by
    intro descriptor reached
    have before := (chains descriptor).mp reached
    rw [contents descriptor before]
    exact legible descriptor before
  have coherent' : Coherent codec limits after := by
    intro first second reachedFirst reachedSecond same result read
    have before := (chains first).mp reachedFirst
    have before' := (chains second).mp reachedSecond
    rw [contents first before] at read
    rw [contents second before']
    exact coherent first second before before' same result read
  have indexed' : readIndex codec limits after = .ok roots := by
    rw [← indexed]
    simp only [readIndex, swept.index]
  obtain ⟨dir₀, dir', held₀, held', entries⟩ := swept.blobs
  obtain rfl : dir = dir₀ := Option.some.inj (held.symm.trans held₀)
  have listed' : ∃ files', blobFiles dir' = .ok files' := by
    rw [blobFiles]
    split
    · rename_i entry found
      have member := mem_filter.mp (mem_of_find?_eq_some found)
      have irregular : entry.2 = .other := by simpa using find?_some found
      rw [blobFiles] at listed
      split at listed
      · cases listed
      · rename_i regular
        have missing := find?_eq_none.mp regular entry
          (mem_filter.mpr ⟨((entries entry).mp member.1).1, member.2⟩)
        simp [irregular] at missing
    · exact ⟨_, rfl⟩
  obtain ⟨files', listed'⟩ := listed'
  obtain ⟨keep, walked⟩ := reachable_succeeds held' listed' indexed' legible'
  have kept := ((walked_of_reachable indexed' walked).exact indexed' coherent').2
  have nothing : garbage files' keep = [] := by
    refine eq_nil_iff_forall_not_mem.mpr fun file found => ?_
    obtain ⟨⟨named, raw, member⟩, unreached⟩ := (mem_garbage listed' kept).mp (mem_map_of_mem found)
    exact unreached ((digests _).mpr (((entries _).mp member).2 named))
  rw [gc_eq_sweep held' listed' indexed' walked, nothing]
  simp only [map_nil, sum_nil, BlobDir.remove_nil]
  rw [← held']

/-- Where something cannot be read, nothing is removed. -/
theorem gc_closed (coherent : Coherent codec limits layout)
    (unreadable : ¬Readable codec limits layout) :
    (gc codec limits layout false).2 = layout ∧
      ∀ report, (gc codec limits layout false).1 = .ok report → report.removed = [] := by
  rw [gc]
  cases held : layout.blobs with
  | none =>
    refine ⟨rfl, fun report same => ?_⟩
    cases same
    rfl
  | some dir =>
    simp only
    cases listed : blobFiles dir with
    | error failure => exact ⟨rfl, nofun⟩
    | ok files =>
      simp only
      cases indexed : readIndex codec limits layout with
      | error failure => exact ⟨rfl, nofun⟩
      | ok roots =>
        simp only
        cases walked : reachable codec limits layout roots (files.length + 1) with
        | error failure => exact ⟨rfl, nofun⟩
        | ok keep =>
          -- A walk that comes to its end has read every manifest on a chain.
          refine absurd ⟨⟨dir, files, held, listed⟩, ⟨roots, indexed⟩, ?_⟩ unreadable
          intro descriptor reached
          have complete := walked_of_reachable indexed walked
          have met := (complete.exact indexed coherent).1 descriptor reached
          obtain ⟨reader, kids, blobs, reached', named, read, -⟩ := complete.manifests _ met
          exact ⟨_, coherent reader descriptor reached' reached named _ read⟩

end Collecting

def configText : Bytes := textBytes "\x7b\x7d"

def configHex : Bytes :=
  textBytes "44136fa355b3678a1146ad16f7e8649e94fb4fc21fe77e8310c060f61caaff8a"

/-- A manifest that declares no media type: an image with a config, or an index
without entries. -/
def manifestText : Bytes :=
  textBytes "\x7b\"config\":\x7b\"digest\":\"sha256:" ++ configHex ++ textBytes "\"\x7d\x7d"

def manifestHex : Bytes :=
  textBytes "4ffb4f1f19d140f9ad37a61ae9419fbc02a2c4f680dbdfa4f611ba33641147d8"

def imageEntry : Descriptor :=
  ⟨textBytes "application/vnd.oci.image.manifest.v1+json", hashOf manifestHex⟩

def indexEntry : Descriptor :=
  ⟨textBytes "application/vnd.oci.image.index.v1+json", hashOf manifestHex⟩

def configEntry : Descriptor := ⟨[], hashOf configHex⟩

def Descriptor.text (entry : Descriptor) : Bytes :=
  textBytes "\x7b\"mediaType\":\"" ++ entry.mediaType ++ textBytes "\",\"digest\":\"sha256:" ++
    entry.digest.hex ++ textBytes "\"\x7d"

/-- An `index.json` that lists the manifest as an image. -/
def imageIndex : Bytes :=
  textBytes "\x7b\"manifests\":[" ++ imageEntry.text ++ textBytes "]\x7d"

/-- An `index.json` that lists it as an image and as an index. -/
def doubleIndex : Bytes :=
  textBytes "\x7b\"manifests\":[" ++ imageEntry.text ++ textBytes "," ++ indexEntry.text ++
    textBytes "]\x7d"

/-- The texts are run through the checks at once. -/
theorem computed :
    (checkDigest (hashOf configHex) ∧ checkDigest (hashOf manifestHex) ∧ configHex ≠ manifestHex) ∧
      ((textBytes "\x7b\"config\":\x7b\"digest\":\"sha256:").length = 28 ∧
        (textBytes "\"\x7d\x7d").length = 3) ∧
      ((textBytes "\x7b\"mediaType\":\"").length = 14 ∧
        (textBytes "\",\"digest\":\"sha256:").length = 19 ∧ (textBytes "\"\x7d").length = 2) ∧
      ((textBytes "\x7b\"manifests\":[").length = 14 ∧ (textBytes ",").length = 1 ∧
        (textBytes "]\x7d").length = 2) ∧
      (imageEntry.mediaType.length = 42 ∧ isImage imageEntry.mediaType ∧
        isIndex imageEntry.mediaType = false) ∧
      indexEntry.mediaType.length = 39 ∧ isIndex indexEntry.mediaType := by
  decide +kernel

theorem checkDigest_config : checkDigest (hashOf configHex) := computed.1.1

theorem checkDigest_manifest : checkDigest (hashOf manifestHex) := computed.1.2.1

theorem length_hex (named : checkDigest (hashOf name)) : name.length = 64 := by
  simp only [checkDigest, Bool.and_eq_true, beq_iff_eq] at named
  exact named.1.2

theorem length_manifestText : manifestText.length = 95 := by
  obtain ⟨front, back⟩ := computed.2.1
  simp only [manifestText, length_append, front, back, length_hex checkDigest_config]

theorem length_text (entry : Descriptor) (named : checkDigest entry.digest) :
    entry.text.length = 99 + entry.mediaType.length := by
  obtain ⟨front, middle, back⟩ := computed.2.2.1
  have hex := length_hex (hashOf_hex named ▸ named)
  simp only [Descriptor.text, length_append, front, middle, back, hex]
  omega

theorem length_imageIndex : imageIndex.length = 157 := by
  obtain ⟨front, -, back⟩ := computed.2.2.2.1
  have mediaType := computed.2.2.2.2.1.1
  simp only [imageIndex, length_append, front, back, length_text imageEntry checkDigest_manifest,
    mediaType]

theorem length_doubleIndex : doubleIndex.length = 296 := by
  obtain ⟨front, comma, back⟩ := computed.2.2.2.1
  have mediaType := computed.2.2.2.2.1.1
  have mediaType' := computed.2.2.2.2.2.1
  simp only [doubleIndex, length_append, front, comma, back,
    length_text imageEntry checkDigest_manifest, length_text indexEntry checkDigest_manifest,
    mediaType, mediaType']

/-- The other packages on these texts. -/
def recordedCodec : Codec where
  sha256 text :=
    if text = manifestText then manifestHex else if text = configText then configHex else []
  mediaType text := if text = manifestText ∨ text = configText then some [] else none
  parseIndexManifest text :=
    if text = manifestText then some []
    else if text = imageIndex then some [imageEntry]
    else if text = doubleIndex then some [imageEntry, indexEntry]
    else none
  parseManifest text := if text = manifestText then some ⟨configEntry, []⟩ else none

/-- The default limits. -/
def defaultLimits : Limits := ⟨4 * 1024 * 1024, 64⟩

def recordedBlobs : BlobDir where
  entries := [(manifestHex, .regular manifestText), (configHex, .regular configText)]
  nodup := by
    have other : manifestHex ≠ configHex := computed.1.2.2.symm
    simp [other]

variable {layout : Layout}

variable (held : layout.blobs = some recordedBlobs)

include held in
theorem readManifest_recorded :
    readManifest recordedCodec defaultLimits layout (hashOf manifestHex) = .ok manifestText := by
  have found : layout.blob (hashOf manifestHex) = some manifestText :=
    (Layout.blob_eq_some held).mpr (mem_cons_self ..)
  rw [readManifest, checkDigest_manifest, found]
  simp only [Bool.not_true, Bool.false_eq_true, if_false]
  rw [if_neg (by rw [length_manifestText]; decide), if_neg (by simp [recordedCodec, hashOf])]

include held in
theorem content_imageEntry :
    content recordedCodec defaultLimits layout imageEntry = .ok ([], [configEntry]) := by
  obtain ⟨-, image, index⟩ := computed.2.2.2.2.1
  have read := readManifest_recorded held
  rw [content, show imageEntry.digest = hashOf manifestHex from rfl, read]
  simp only [bind, Except.bind, recordedCodec, true_or, if_true, contentOf, image, index]
  rfl

include held in
theorem content_indexEntry :
    content recordedCodec defaultLimits layout indexEntry = .ok ([], []) := by
  have index : isIndex indexEntry.mediaType := computed.2.2.2.2.2.2
  have read := readManifest_recorded held
  rw [content, show indexEntry.digest = hashOf manifestHex from rfl, read]
  simp only [bind, Except.bind, recordedCodec, true_or, if_true, contentOf, index, indexContent]
  rfl

theorem ne_of_length {left right : Bytes} (differ : left.length ≠ right.length) : left ≠ right :=
  fun same => differ (congrArg List.length same)

theorem regular_recordedBlobs : ∃ files, blobFiles recordedBlobs = .ok files := by
  rw [blobFiles]
  split
  · rename_i entry found
    have member := (mem_filter.mp (mem_of_find?_eq_some found)).1
    have irregular : entry.2 = .other := by simpa using find?_some found
    rcases mem_pair.mp member with rfl | rfl <;> cases irregular
  · exact ⟨_, rfl⟩

def imageLayout : Layout := ⟨some imageIndex, some recordedBlobs⟩

theorem readIndex_imageLayout :
    readIndex recordedCodec defaultLimits imageLayout = .ok [imageEntry] := by
  have other : imageIndex ≠ manifestText :=
    ne_of_length (by rw [length_imageIndex, length_manifestText]; decide)
  have fits : ¬defaultLimits.manifestBytes < imageIndex.length := by
    rw [length_imageIndex]
    decide
  simp only [readIndex, imageLayout, if_neg fits, recordedCodec, if_neg other, if_true]

def doubleLayout : Layout := ⟨some doubleIndex, some recordedBlobs⟩

theorem readIndex_doubleLayout :
    readIndex recordedCodec defaultLimits doubleLayout = .ok [imageEntry, indexEntry] := by
  have other : doubleIndex ≠ manifestText :=
    ne_of_length (by rw [length_doubleIndex, length_manifestText]; decide)
  have other' : doubleIndex ≠ imageIndex :=
    ne_of_length (by rw [length_doubleIndex, length_imageIndex]; decide)
  have fits : ¬defaultLimits.manifestBytes < doubleIndex.length := by
    rw [length_doubleIndex]
    decide
  simp only [readIndex, doubleLayout, if_neg fits, recordedCodec, if_neg other, if_neg other',
    if_true]

/-- The last entry of `index.json` is read first, and the other one is skipped. -/
theorem reachable_doubleLayout (files : List (Bytes × Nat)) :
    reachable recordedCodec defaultLimits doubleLayout [imageEntry, indexEntry] (files.length + 1) =
      .ok (Seen.manifest {} (hashOf manifestHex) []) := by
  have first : visit recordedCodec defaultLimits doubleLayout (files.length + 1) {} indexEntry =
      .ok ([], Seen.manifest {} (hashOf manifestHex) []) := by
    rw [visit, if_neg (Option.some_ne_none true).symm, if_neg (Nat.not_succ_le_zero _), content_indexEntry rfl]
    rfl
  have second : visit recordedCodec defaultLimits doubleLayout (files.length + 1)
      (Seen.manifest {} (hashOf manifestHex) []) imageEntry =
        .ok ([], Seen.manifest {} (hashOf manifestHex) []) := by
    rw [visit, if_pos]
    exact Seen.manifest_self
  obtain ⟨steps, bound⟩ : ∃ steps, stepBound defaultLimits [imageEntry, indexEntry]
      (files.length + 1) = steps + 2 :=
    ⟨_, Nat.add_comm _ _⟩
  rw [reachable, bound]
  simp only [reverse_cons, reverse_nil, nil_append, singleton_append, walkFrames, first, second]

end Golusoris.Registry
