import Golusoris.Storage.Names

/-!
# What a listing returns

The walk keeps a stack of entries still to visit. Each of them covers keys: an
object its own, a directory those below it. Every key that is wanted is listed
already or covered, and both the entries and what they cover are in order, so
what is listed always begins the ascending list of the wanted keys.

A step takes two from `2 * entries + directories + 2 * budget` or one, which
starts below the bound on the steps.
-/

namespace Golusoris.Storage

open List
open Lib

variable {name key : Bytes}

namespace Tree

variable {tree : Tree} {path : Path} {kind : Kind}

theorem kind_eq_some : tree.kind path = some kind ↔ (path, kind) ∈ tree.entries := by
  rw [Tree.kind, Option.map_eq_some_iff]
  constructor
  · rintro ⟨⟨other, found⟩, search, rfl⟩
    have same : other = path := by simpa using find?_some search
    exact same ▸ mem_of_find?_eq_some search
  · intro present
    cases search : tree.entries.find? fun entry => entry.1 = path with
    | none =>
      have missing := find?_eq_none.mp search (path, kind) present
      exact absurd (decide_eq_true rfl) missing
    | some entry =>
      have same : entry.1 = path := by simpa using find?_some search
      have again := mem_of_find?_eq_some search
      exact ⟨entry, rfl, congrArg Prod.snd (inj_on_of_nodup_map tree.nodup again present same)⟩

theorem mem_children {directory : Path} :
    (name, kind) ∈ tree.children directory ↔ (directory ++ [name], kind) ∈ tree.entries := by
  rw [Tree.children, mem_filterMap]
  constructor
  · rintro ⟨⟨path, other⟩, present, chosen⟩
    cases last : path.getLast? with
    | none => simp [last] at chosen
    | some final =>
      simp only [last] at chosen
      split at chosen
      · rename_i front
        obtain ⟨rfl, rfl⟩ := Prod.mk.inj (Option.some.inj chosen)
        rw [← front, dropLast_append_getLast? final last]
        exact present
      · cases chosen
  · intro present
    exact ⟨_, present, by simp⟩

/-- The entries of a directory have different names. -/
theorem pairwise_children (tree : Tree) (directory : Path) :
    (tree.children directory).Pairwise fun left right => left.1 ≠ right.1 := by
  have different : tree.entries.Pairwise fun left right => left.1 ≠ right.1 :=
    pairwise_map.mp tree.nodup
  rw [Tree.children, pairwise_filterMap]
  refine different.imp ?_
  rintro ⟨path, kind⟩ ⟨other, otherKind⟩ differ ⟨name, _⟩ chosen ⟨otherName, _⟩ otherChosen same
  refine differ ?_
  cases last : path.getLast? with
  | none => simp [last] at chosen
  | some final =>
    cases otherLast : other.getLast? with
    | none => simp [otherLast] at otherChosen
    | some otherFinal =>
      simp only [last] at chosen
      simp only [otherLast] at otherChosen
      split at chosen
      · split at otherChosen
        · rename_i front otherFront
          have names : final = otherFinal :=
            (congrArg Prod.fst (Option.some.inj chosen)).trans
              (same.trans (congrArg Prod.fst (Option.some.inj otherChosen)).symm)
          calc
            path = path.dropLast ++ [final] := (dropLast_append_getLast? final last).symm
            _ = other.dropLast ++ [otherFinal] := by rw [front, otherFront, names]
            _ = other := dropLast_append_getLast? otherFinal otherLast
        · cases otherChosen
      · cases chosen

theorem plain_of_mem (present : (path, kind) ∈ tree.entries) : Plain path :=
  (tree.plain (path, kind) present).2

theorem ne_nil_of_mem (present : (path, kind) ∈ tree.entries) : path ≠ [] :=
  (tree.plain (path, kind) present).1

end Tree

/-- An object is stored under the key. -/
def Stored (tree : Tree) (key : Bytes) : Prop :=
  cleanKey key maxKeyBytes = .ok key ∧ ∃ info, (segments key, .regular info) ∈ tree.entries

/-- The key belongs on the page. -/
structure Wanted (tree : Tree) (query : LocalListQuery) (key : Bytes) : Prop where
  stored : Stored tree key
  leads : query.pathPrefix <+: key
  after : Precedes query.after key

theorem isLocalInternalName_iff (name : Bytes) : isLocalInternalName name ↔ Reserved name := by
  simp only [isLocalInternalName, Bool.or_eq_true, Reserved, isReservedTempName, isLocalTempName,
    isReservedMetadataName, isLocalMetadataName, isReservedControlName, isLocalControlName,
    localStagingDirectoryName, or_assoc]

variable {path start : Path}

section Walk

variable {tree : Tree} {query : LocalListQuery}

variable {info : FileInfo}

/-- A file whose path the listing shows is a stored object. -/
theorem stored_of_visible (present : (path, .regular info) ∈ tree.entries)
    (visible : ∀ name ∈ path, ¬Reserved name) : Stored tree (keyOf path) := by
  rcases tree.objects path info present with ⟨key, accepted, same⟩ | ⟨name, found, reserved⟩
  · have whole : keyOf path = key := by rw [← same, keyOf_segments]
    rw [whole]
    exact ⟨accepted, info, same ▸ present⟩
  · exact absurd reserved (visible name found)

/-- The entry that stands for a path. -/
def entryOf (path : Path) (kind : Kind) : LocalListEntry :=
  ⟨if kind = .directory then dirKey path else keyOf path, kind⟩

/-- An entry of the stack stands for a path of the tree that the listing shows. -/
structure Pending (tree : Tree) (entry : LocalListEntry) (path : Path) : Prop where
  present : (path, entry.kind) ∈ tree.entries
  visible : ∀ name ∈ path, ¬Reserved name
  shape : entry = entryOf path entry.kind

/-- The key is found by visiting the entry. -/
def Covers (entry : LocalListEntry) (key : Bytes) : Prop :=
  if entry.kind = .directory then entry.key <+: key else key = entry.key

@[simp] theorem covers_directory (path : Path) (key : Bytes) :
    Covers (entryOf path .directory) key ↔ dirKey path <+: key := by
  simp [Covers, entryOf]

@[simp] theorem covers_regular (path : Path) (info : FileInfo) (key : Bytes) :
    Covers (entryOf path (.regular info)) key ↔ key = keyOf path := by
  simp [Covers, entryOf]

/-- All that the first entry covers comes before all that the second does. -/
def Before (first second : LocalListEntry) : Prop :=
  ∀ left right, Covers first left → Covers second right → Precedes left right

variable {entry : LocalListEntry}

theorem Covers.isPrefix (covers : Covers entry key) : entry.key <+: key := by
  rw [Covers] at covers
  split at covers
  · exact covers
  · exact covers ▸ prefix_refl _

/-- The key of an entry beside others determines its order and theirs. -/
theorem before_of_precedes {first second : LocalListEntry} (less : Precedes first.key second.key)
    (apart : first.kind = .directory → ¬first.key <+: second.key) : Before first second := by
  intro left right coversLeft coversRight
  have extends' := coversRight.isPrefix
  by_cases directory : first.kind = .directory
  · obtain ⟨leftRest, rfl⟩ := coversLeft.isPrefix
    obtain ⟨rightRest, rfl⟩ := extends'
    exact less.append (apart directory) leftRest rightRest
  · rw [Covers, if_neg directory] at coversLeft
    exact coversLeft ▸ less.extend extends'

theorem take_append_drop_length {α : Type} (count : Nat) (items : List α) :
    items.take count ++ items.drop (items.take count).length = items := by
  rw [length_take]
  rcases Nat.le_total count items.length with fits | exceeds
  · rw [Nat.min_eq_left fits, take_append_drop]
  · rw [Nat.min_eq_right exceeds, take_of_length_le exceeds, drop_length, append_nil]

/-- A directory is read if the budget has more than its entries. -/
theorem readBatches_eq (directory : Bytes) (turns remaining : Nat) (kept : List LocalListEntry)
    (entries : List (Bytes × Kind)) (enough : remaining ≤ turns) :
    readBatches query directory turns remaining kept entries =
      if entries.length < remaining then
        some (kept ++ entries.filterMap (keep query directory), remaining - entries.length)
      else none := by
  induction turns generalizing remaining kept entries with
  | zero => rw [readBatches, if_neg (by omega)]
  | succ turns ih =>
    cases remaining with
    | zero => rw [readBatches, if_neg (by omega)]
    | succ remaining =>
      cases entries with
      | nil => simp [readBatches]
      | cons entry entries =>
        rw [readBatches]
        · have whole := take_append_drop_length (min localListReadBatch (remaining + 1))
            (entry :: entries)
          have size : ((entry :: entries).take (min localListReadBatch (remaining + 1))).length =
              min (min 32 (remaining + 1)) (entries.length + 1) := length_take
          generalize (entry :: entries).take (min localListReadBatch (remaining + 1)) = batch
            at whole size ⊢
          have total : batch.length + ((entry :: entries).drop batch.length).length =
              (entry :: entries).length := by
            rw [← length_append, whole]
          generalize (entry :: entries).drop batch.length = rest at whole total ⊢
          have next : remaining + 1 - batch.length ≤ turns := by omega
          have left : remaining + 1 - batch.length - rest.length =
              remaining + 1 - (entry :: entries).length := by omega
          rw [ih _ _ _ next, left, append_assoc, ← filterMap_append, whole]
          by_cases room : (entry :: entries).length < remaining + 1
          · rw [if_pos (by omega), if_pos room]
          · rw [if_neg (by omega), if_neg room]
        · exact Nat.succ_ne_zero remaining
        · exact cons_ne_nil entry entries

variable {remaining : Nat}

theorem readSorted_eq_some {left : Nat} {kept : List LocalListEntry} (plain : Plain path)
    (read : readSorted tree query remaining (nameOf path) = some (kept, left)) :
    (tree.children path).length + left = remaining ∧
      kept = sortBy LocalListEntry.key
        ((tree.children path).filterMap (keep query (nameOf path))) := by
  rw [readSorted, readDirectory, readBatches_eq _ _ _ _ _ (Nat.le_refl _), namePath_nameOf plain]
    at read
  by_cases room : (tree.children path).length < remaining
  · rw [if_pos room] at read
    cases read
    exact ⟨by omega, by rw [nil_append]⟩
  · rw [if_neg room] at read
    cases read

variable {kind : Kind}

theorem keep_eq_some (plain : Plain path) (last : PlainName name)
    (kept : keep query (nameOf path) (name, kind) = some entry) :
    ¬Reserved name ∧ entry = entryOf (path ++ [name]) kind := by
  have joined := pathJoin_nameOf plain last
  have directory : dirKey (path ++ [name]) = keyOf (path ++ [name]) ++ [slash] :=
    dirKey_eq (by simp)
  rw [keep] at kept
  by_cases internal : isLocalInternalName name
  · rw [if_pos internal] at kept
    cases kept
  · rw [if_neg internal] at kept
    refine ⟨fun reserved => internal ((isLocalInternalName_iff name).mpr reserved), ?_⟩
    cases kind with
    | symlink => cases kept
    | directory =>
      simp only [joined] at kept
      split at kept
      · rw [← Option.some.inj kept, entryOf, if_pos rfl, directory]
      · cases kept
    | regular info =>
      simp only [joined] at kept
      split at kept
      · rw [← Option.some.inj kept, entryOf, if_neg (by simp)]
      · cases kept

/-- An entry is kept if it leads to a key that is wanted. -/
theorem keep_of_wanted (plain : Plain path) (last : PlainName name) (unreserved : ¬Reserved name)
    (covers : Covers (entryOf (path ++ [name]) kind) key) (link : kind ≠ .symlink)
    (leads : query.pathPrefix <+: key) (after : Precedes query.after key) :
    keep query (nameOf path) (name, kind) = some (entryOf (path ++ [name]) kind) := by
  have joined := pathJoin_nameOf plain last
  have directory : dirKey (path ++ [name]) = keyOf (path ++ [name]) ++ [slash] :=
    dirKey_eq (by simp)
  have shown : ¬isLocalInternalName name :=
    fun internal => unreserved ((isLocalInternalName_iff name).mp internal)
  rw [keep, if_neg shown]
  cases kind with
  | symlink => exact absurd rfl link
  | directory =>
    rw [covers_directory, directory] at covers
    -- The prefix and the directory's key both begin the key, so one begins the other.
    have canMatch : localDirectoryCanMatch (keyOf (path ++ [name])) query.pathPrefix := by
      rw [localDirectoryCanMatch]
      split
      · rfl
      · rw [Bool.or_eq_true, isPrefixOf_iff_prefix, isPrefixOf_iff_prefix]
        exact prefix_or_prefix_of_prefix covers leads
    have subtreeAfter : localSubtreeAfter (keyOf (path ++ [name]) ++ [slash]) query.after := by
      rw [localSubtreeAfter, Bool.or_eq_true, decide_eq_true_eq, isPrefixOf_iff_prefix]
      by_cases below : Precedes query.after (keyOf (path ++ [name]) ++ [slash])
      · exact .inl below
      · exact .inr (prefix_of_between covers below after)
    simp only [joined, canMatch, subtreeAfter, Bool.and_self, if_pos, entryOf, directory]
  | regular info =>
    rw [covers_regular] at covers
    subst covers
    have started : query.pathPrefix.isPrefixOf (keyOf (path ++ [name])) :=
      isPrefixOf_iff_prefix.mpr leads
    simp [joined, started, after, entryOf]

theorem sibling_apart {first second : Bytes} (kind : Kind) (plain : Plain path)
    (plainFirst : PlainName first) (plainSecond : PlainName second) (differ : first ≠ second) :
    ¬dirKey (path ++ [first]) <+: (entryOf (path ++ [second]) kind).key := by
  intro leads
  have below : (entryOf (path ++ [second]) kind).key <+: keyOf (path ++ [second] ++ [second]) := by
    rw [keyOf_concat, entryOf]
    split
    · exact prefix_append _ _
    · rw [dirKey_eq (by simp), append_assoc]
      exact prefix_append _ _
  have above := (dirKey_prefix_iff (plain.concat plainFirst)
    ((plain.concat plainSecond).concat plainSecond) (by simp)).mp (leads.trans below)
  have same := prefix_of_prefix_length_le above.1 (prefix_append _ _) (by simp)
  have equal := same.eq_of_length (by simp)
  exact differ (by simpa using equal)

theorem sibling_key_ne {first second : Bytes} {other : Kind} (plain : Plain path)
    (plainFirst : PlainName first) (plainSecond : PlainName second) (differ : first ≠ second) :
    (entryOf (path ++ [first]) kind).key ≠ (entryOf (path ++ [second]) other).key := by
  intro same
  by_cases directory : kind = .directory
  · have apart := sibling_apart other plain plainFirst plainSecond differ
    rw [← same, entryOf, if_pos directory] at apart
    exact apart (prefix_refl _)
  · by_cases otherDirectory : other = .directory
    · have apart := sibling_apart kind plain plainSecond plainFirst differ.symm
      rw [same, entryOf, if_pos otherDirectory] at apart
      exact apart (prefix_refl _)
    · simp only [entryOf, if_neg directory, if_neg otherDirectory, keyOf_concat] at same
      exact differ (append_cancel_left same)

/-- The entries of a directory that the walk goes on with. -/
def visited (tree : Tree) (query : LocalListQuery) (path : Path) : List LocalListEntry :=
  sortBy LocalListEntry.key ((tree.children path).filterMap (keep query (nameOf path)))

theorem mem_visited (plain : Plain path) (found : entry ∈ visited tree query path) :
    ∃ name, (path ++ [name], entry.kind) ∈ tree.entries ∧ ¬Reserved name ∧
      entry = entryOf (path ++ [name]) entry.kind := by
  obtain ⟨⟨name, kind⟩, member, kept⟩ := mem_filterMap.mp (mem_sortBy.mp found)
  have present := Tree.mem_children.mp member
  have last := Tree.plain_of_mem present name (by simp)
  obtain ⟨unreserved, rfl⟩ := keep_eq_some plain last kept
  exact ⟨name, present, unreserved, rfl⟩

theorem pairwise_visited (plain : Plain path) : (visited tree query path).Pairwise Before := by
  let kept := (tree.children path).filterMap (keep query (nameOf path))
  let Apart (left right : LocalListEntry) : Prop :=
    left.key ≠ right.key ∧ (left.kind = .directory → ¬left.key <+: right.key) ∧
      (right.kind = .directory → ¬right.key <+: left.key)
  have apart : kept.Pairwise Apart := by
    refine pairwise_filterMap.mpr ((tree.pairwise_children path).imp_of_mem ?_)
    rintro ⟨first, firstKind⟩ ⟨second, secondKind⟩ foundFirst foundSecond differ left chosen right
      otherChosen
    have plainFirst := Tree.plain_of_mem (Tree.mem_children.mp foundFirst) first (by simp)
    have plainSecond := Tree.plain_of_mem (Tree.mem_children.mp foundSecond) second (by simp)
    obtain ⟨-, rfl⟩ := keep_eq_some plain plainFirst chosen
    obtain ⟨-, rfl⟩ := keep_eq_some plain plainSecond otherChosen
    refine ⟨sibling_key_ne plain plainFirst plainSecond differ, ?_, ?_⟩
    · rintro (rfl : firstKind = _)
      exact sibling_apart _ plain plainFirst plainSecond differ
    · rintro (rfl : secondKind = _)
      exact sibling_apart _ plain plainSecond plainFirst differ.symm
  have sorted := pairwise_sortBy (apart.imp fun differ => differ.1)
  have kept' : (sortBy LocalListEntry.key kept).Pairwise Apart :=
    (perm_insertionSort _ kept).symm.pairwise apart
      fun ⟨differ, left, right⟩ => ⟨differ.symm, right, left⟩
  exact (sorted.and kept').imp fun ⟨less, _, apart, _⟩ => before_of_precedes less apart

/-- What holds while the walk runs. -/
structure Walking (tree : Tree) (query : LocalListQuery) (out : List ListedObject)
    (entries : List LocalListEntry) : Prop where
  pending : ∀ entry ∈ entries, ∃ path, Pending tree entry path
  ordered : entries.Pairwise Before
  ascending : (out.map ListedObject.key).Pairwise Precedes
  wanted : ∀ key ∈ out.map ListedObject.key, Wanted tree query key
  found : ∀ key, Wanted tree query key →
    key ∈ out.map ListedObject.key ∨ ∃ entry ∈ entries, Covers entry key
  later : ∀ key ∈ out.map ListedObject.key, ∀ entry ∈ entries, ∀ other, Covers entry other →
    Precedes key other
  short : out.length < query.limit

variable {out : List ListedObject} {entries : List LocalListEntry} {entry : LocalListEntry}

theorem Walking.leading (walking : Walking tree query out entries) :
    Leading (Wanted tree query) (out.map ListedObject.key) := by
  refine ⟨walking.ascending, walking.wanted, fun key wanted => ?_⟩
  rcases walking.found key wanted with listed | ⟨entry, member, covers⟩
  · exact .inl listed
  · exact .inr fun earlier listed => walking.later earlier listed entry member key covers

/-- The path of a wanted key below a directory leads through an entry that is
kept. -/
theorem covers_visited (plain : Plain path) (wanted : Wanted tree query key)
    (below : dirKey path <+: key) : ∃ entry ∈ visited tree query path, Covers entry key := by
  obtain ⟨⟨accepted, info, present⟩, leads, after⟩ := wanted
  have plainKey := plain_of_cleanKey accepted
  have unreserved := not_reserved_of_cleanKey accepted
  have above := (dirKey_prefix_iff plain plainKey (segments_ne_nil key)).mp
    ((keyOf_segments key).symm ▸ below)
  obtain ⟨⟨rest, shape⟩, proper⟩ := above
  cases rest with
  | nil => exact absurd (by simpa using shape) proper
  | cons name rest =>
    have last : PlainName name := plainKey name (shape ▸ by simp)
    have shown : ¬Reserved name := unreserved name (shape ▸ by simp)
    have step : path ++ [name] ++ rest = segments key := by simpa using shape
    -- The next segment is the object itself or a directory above it.
    have next : ∃ kind, (path ++ [name], kind) ∈ tree.entries ∧
        Covers (entryOf (path ++ [name]) kind) key := by
      cases rest with
      | nil =>
        rw [append_nil] at step
        refine ⟨.regular info, step ▸ present, ?_⟩
        rw [covers_regular, step, keyOf_segments]
      | cons deeper rest =>
        have proper : path ++ [name] ≠ segments key := by
          intro same
          have lengths := congrArg List.length (step.trans same.symm)
          simp at lengths
        have leads : path ++ [name] <+: segments key := ⟨deeper :: rest, step⟩
        refine ⟨.directory, tree.parents _ present _ (by simp) leads proper, ?_⟩
        rw [covers_directory]
        have whole := (dirKey_prefix_iff (plain.concat last) plainKey
          (segments_ne_nil key)).mpr ⟨leads, proper⟩
        rwa [keyOf_segments] at whole
    obtain ⟨kind, member, covers⟩ := next
    have kept := keep_of_wanted plain last shown covers (tree.linkless _ member) leads after
    exact ⟨_, mem_sortBy.mpr (mem_filterMap.mpr
      ⟨(name, kind), Tree.mem_children.mpr member, kept⟩), covers⟩

/-- Reading a directory puts its entries in its place. -/
theorem Walking.directory (walking : Walking tree query out (entryOf path .directory :: entries))
    (plain : Plain path) (visible : ∀ name ∈ path, ¬Reserved name) :
    Walking tree query out (visited tree query path ++ entries) := by
  obtain ⟨first, ordered⟩ := pairwise_cons.mp walking.ordered
  have inside : ∀ entry ∈ visited tree query path, ∀ key, Covers entry key →
      Covers (entryOf path .directory) key := by
    intro entry found key covers
    obtain ⟨name, -, -, shape⟩ := mem_visited plain found
    have leads := covers.isPrefix
    rw [shape, entryOf] at leads
    rw [covers_directory]
    refine List.IsPrefix.trans ?_ leads
    split
    · rw [dirKey_append]
      exact prefix_append _ _
    · rw [keyOf_concat]
      exact prefix_append _ _
  refine ⟨?_, ?_, walking.ascending, walking.wanted, ?_, ?_, walking.short⟩
  · intro entry found
    rcases mem_append.mp found with found | found
    · obtain ⟨name, present, unreserved, shape⟩ := mem_visited plain found
      refine ⟨path ++ [name], present, fun other member => ?_, shape⟩
      rcases mem_append.mp member with member | member
      · exact visible other member
      · exact mem_singleton.mp member ▸ unreserved
    · exact walking.pending entry (mem_cons_of_mem _ found)
  · refine pairwise_append.mpr ⟨pairwise_visited plain, ordered, ?_⟩
    intro entry found other member left right coversLeft
    exact first other member left right (inside entry found left coversLeft)
  · intro key wanted
    rcases walking.found key wanted with listed | ⟨entry, member, covers⟩
    · exact .inl listed
    · rcases mem_cons.mp member with rfl | member
      · obtain ⟨entry, found, covers⟩ :=
          covers_visited plain wanted ((covers_directory path key).mp covers)
        exact .inr ⟨entry, mem_append_left _ found, covers⟩
      · exact .inr ⟨entry, mem_append_right _ member, covers⟩
  · intro key listed entry found other covers
    rcases mem_append.mp found with found | found
    · exact walking.later key listed _ mem_cons_self other (inside entry found other covers)
    · exact walking.later key listed entry (mem_cons_of_mem _ found) other covers

/-- The object of a pending entry is appended just when it is wanted. -/
theorem appendInfo_pending (query : LocalListQuery) (out : List ListedObject)
    (present : (path, .regular info) ∈ tree.entries) (visible : ∀ name ∈ path, ¬Reserved name) :
    (Wanted tree query (keyOf path) ∧ appendInfo query out (keyOf path) info =
        (out ++ [⟨keyOf path, info.size, info.modTime⟩], decide (query.limit ≤ out.length + 1))) ∨
      ¬Wanted tree query (keyOf path) ∧ appendInfo query out (keyOf path) info = (out, false) := by
  obtain ⟨front, name, shape⟩ := eq_nil_or_concat path |>.resolve_left (Tree.ne_nil_of_mem present)
  rw [concat_eq_append] at shape
  have plain : Plain (front ++ [name]) := shape ▸ Tree.plain_of_mem present
  have shown : isLocalInternalName (pathBase (keyOf path)) = false := by
    rw [shape, pathBase_keyOf plain, Bool.eq_false_iff]
    exact fun internal => visible name (shape ▸ by simp) ((isLocalInternalName_iff name).mp internal)
  rw [appendInfo, shown]
  by_cases leads : query.pathPrefix <+: keyOf path
  · have started := isPrefixOf_iff_prefix.mpr leads
    by_cases after : Precedes query.after (keyOf path)
    · left
      exact ⟨⟨stored_of_visible present visible, leads, after⟩, by simp [started, after]⟩
    · right
      exact ⟨fun wanted => after wanted.after, by simp [after]⟩
  · right
    have unstarted : query.pathPrefix.isPrefixOf (keyOf path) = false := by
      rw [Bool.eq_false_iff]
      exact fun started => leads ( isPrefixOf_iff_prefix.mp started)
    exact ⟨fun wanted => leads wanted.leads, by simp [unstarted]⟩

/-- An entry that covers nothing wanted is left out. -/
theorem Walking.skip (walking : Walking tree query out (entry :: entries))
    (unwanted : ∀ key, Covers entry key → ¬Wanted tree query key) :
    Walking tree query out entries := by
  refine ⟨fun other found => walking.pending other (mem_cons_of_mem _ found),
    (pairwise_cons.mp walking.ordered).2, walking.ascending, walking.wanted, ?_, ?_,
    walking.short⟩
  · intro key wanted
    rcases walking.found key wanted with listed | ⟨other, member, covers⟩
    · exact .inl listed
    · rcases mem_cons.mp member with rfl | member
      · exact absurd wanted (unwanted key covers)
      · exact .inr ⟨other, member, covers⟩
  · exact fun key listed other found => walking.later key listed other (mem_cons_of_mem _ found)

/-- Listing the first entry's object keeps the order. -/
theorem Walking.append {object : ListedObject}
    (walking : Walking tree query out (entryOf path (.regular info) :: entries))
    (named : object.key = keyOf path) (wanted : Wanted tree query (keyOf path))
    (room : out.length + 1 < query.limit) : Walking tree query (out ++ [object]) entries := by
  obtain ⟨first, ordered⟩ := pairwise_cons.mp walking.ordered
  have covers : Covers (entryOf path (.regular info)) (keyOf path) :=
    (covers_regular path info (keyOf path)).mpr rfl
  have keys : (out ++ [object]).map ListedObject.key = out.map ListedObject.key ++ [keyOf path] := by
    rw [map_append, map_singleton, named]
  refine ⟨fun other found => walking.pending other (mem_cons_of_mem _ found), ordered, ?_, ?_,
    ?_, ?_, by simpa using room⟩
  · rw [keys]
    refine pairwise_append.mpr ⟨walking.ascending, pairwise_singleton _ _, ?_⟩
    intro key listed last found
    rw [mem_singleton.mp found]
    exact walking.later key listed _ mem_cons_self _ covers
  · rw [keys]
    intro key found
    rcases mem_append.mp found with listed | last
    · exact walking.wanted key listed
    · exact mem_singleton.mp last ▸ wanted
  · rw [keys]
    intro key wantedKey
    rcases walking.found key wantedKey with listed | ⟨other, member, coversKey⟩
    · exact .inl (mem_append_left _ listed)
    · rcases mem_cons.mp member with rfl | member
      · rw [covers_regular] at coversKey
        exact .inl (mem_append_right _ (mem_singleton.mpr coversKey))
      · exact .inr ⟨other, member, coversKey⟩
  · rw [keys]
    intro key found other member right coversRight
    rcases mem_append.mp found with listed | last
    · exact walking.later key listed other (mem_cons_of_mem _ member) right coversRight
    · rw [mem_singleton.mp last]
      exact first other member _ right covers coversRight

/-- Listing the last object that the page has room for. -/
theorem Walking.leading_append {object : ListedObject}
    (walking : Walking tree query out (entryOf path (.regular info) :: entries))
    (named : object.key = keyOf path) (wanted : Wanted tree query (keyOf path)) :
    Leading (Wanted tree query) ((out ++ [object]).map ListedObject.key) := by
  -- The page may be full, so the step is taken for a query with room for one more.
  have wider : Walking tree { query with limit := query.limit + 1 } out
      (entryOf path (.regular info) :: entries) := by
    refine ⟨walking.pending, walking.ordered, walking.ascending, fun key listed => ?_,
      fun key wanted => walking.found key ?_, walking.later, Nat.lt_succ_of_lt walking.short⟩
    · obtain ⟨stored, leads, after⟩ := walking.wanted key listed
      exact ⟨stored, leads, after⟩
    · exact ⟨wanted.stored, wanted.leads, wanted.after⟩
  have short := walking.short
  have next := (wider.append named ⟨wanted.stored, wanted.leads, wanted.after⟩
    (Nat.succ_lt_succ short)).leading
  refine ⟨next.ascending, fun key listed => ?_, fun key wanted => next.rest key ?_⟩
  · obtain ⟨stored, leads, after⟩ := next.wanted key listed
    exact ⟨stored, leads, after⟩
  · exact ⟨wanted.stored, wanted.leads, wanted.after⟩

/-- What the end of a walk says about the objects it found. -/
structure Ended (tree : Tree) (query : LocalListQuery) (result : WalkEnd × List ListedObject) :
    Prop where
  leading : Leading (Wanted tree query) (result.2.map ListedObject.key)
  within : result.2.length ≤ query.limit
  finished : result.1 = .finished →
    ∀ key, Wanted tree query key → key ∈ result.2.map ListedObject.key
  full : result.1 = .limitReached → result.2.length = query.limit
  inspected : ∀ start, result.1 ≠ .inspectRoot start

theorem Walking.ended (walking : Walking tree query out entries) {reason : WalkEnd}
    (limited : reason = .workLimit ∨ reason = .stepLimit) : Ended tree query (reason, out) := by
  refine ⟨walking.leading, walking.short.le, ?_, ?_, ?_⟩
  all_goals rcases limited with rfl | rfl <;> exact nofun

theorem walkSteps_ended {steps : Nat} {stack : List (List LocalListEntry)}
    (walking : Walking tree query out stack.flatten) :
    Ended tree query (walkSteps tree query steps remaining out stack) := by
  induction steps generalizing remaining out stack with
  | zero => exact walking.ended (.inr rfl)
  | succ steps ih =>
    match stack with
    | [] =>
      rw [walkSteps]
      refine ⟨walking.leading, walking.short.le, fun _ key wanted => ?_, nofun, nofun⟩
      rcases walking.found key wanted with listed | ⟨entry, member, -⟩
      · exact listed
      · cases member
    | [] :: stack =>
      rw [walkSteps]
      exact ih walking
    | (next :: rest) :: stack =>
      have walking : Walking tree query out (next :: (rest :: stack).flatten) := walking
      obtain ⟨path, present, visible, shape⟩ := walking.pending next mem_cons_self
      obtain ⟨key, kind⟩ := next
      rw [walkSteps]
      cases kind with
      | symlink => exact absurd rfl (tree.linkless _ present)
      | regular info =>
        rw [shape] at walking
        have named : key = keyOf path := by simpa [entryOf] using shape
        simp only [named]
        rcases appendInfo_pending query out present visible with
          ⟨wanted, appended⟩ | ⟨unwanted, appended⟩
        · rw [appended]
          by_cases full : query.limit ≤ out.length + 1
          · rw [decide_eq_true full]
            have short := walking.short
            refine ⟨walking.leading_append rfl wanted, ?_, nofun, ?_, nofun⟩
            · simp only [length_append, length_singleton]
              omega
            · intro _
              simp only [length_append, length_singleton]
              omega
          · rw [decide_eq_false full]
            exact ih (walking.append rfl wanted (Nat.lt_of_not_le full))
        · rw [appended]
          refine ih (walking.skip fun key covers => ?_)
          exact (covers_regular path info key).mp covers ▸ unwanted
      | directory =>
        rw [shape] at walking
        have nonempty := Tree.ne_nil_of_mem present
        have plain := Tree.plain_of_mem present
        have named : trimSlash key = nameOf path := by
          have keyed : key = dirKey path := by simpa [entryOf] using shape
          rw [keyed, trimSlash_dirKey nonempty]
        simp only [named]
        cases read : readSorted tree query remaining (nameOf path) with
        | none => exact walking.ended (.inl rfl)
        | some pair =>
          obtain ⟨children, left⟩ := pair
          obtain ⟨-, rfl⟩ := readSorted_eq_some plain read
          exact ih (walking.directory plain visible)

/-- What is left to do, as steps of the loop. -/
def potential (remaining : Nat) (stack : List (List LocalListEntry)) : Nat :=
  2 * stack.flatten.length + stack.length + 2 * remaining

theorem readSorted_budget {left : Nat} {kept : List LocalListEntry}
    (read : readSorted tree query remaining name = some (kept, left)) :
    kept.length + left ≤ remaining := by
  rw [readSorted, readDirectory, readBatches_eq _ _ _ _ _ (Nat.le_refl _)] at read
  by_cases room : (tree.children (namePath name)).length < remaining
  · rw [if_pos room] at read
    cases read
    have fewer := length_filterMap_le (keep query name) (tree.children (namePath name))
    rw [length_sortBy, nil_append]
    omega
  · rw [if_neg room] at read
    cases read

/-- Every step takes from the potential, so a larger bound is never reached. -/
theorem walkSteps_ne_stepLimit {steps : Nat} {stack : List (List LocalListEntry)}
    (enough : potential remaining stack < steps) :
    (walkSteps tree query steps remaining out stack).1 ≠ .stepLimit := by
  induction steps generalizing remaining out stack with
  | zero => exact absurd enough (Nat.not_lt_zero _)
  | succ steps ih =>
    match stack with
    | [] => exact nofun
    | [] :: stack =>
      rw [walkSteps]
      refine ih ?_
      simp only [potential, flatten_cons, nil_append, length_cons] at enough ⊢
      omega
    | (next :: rest) :: stack =>
      have fewer : potential remaining (rest :: stack) < steps := by
        simp only [potential, flatten_cons, cons_append, length_cons] at enough ⊢
        omega
      obtain ⟨key, kind⟩ := next
      rw [walkSteps]
      cases kind with
      | symlink => exact ih fewer
      | regular info =>
        simp only []
        cases appendInfo query out key info with
        | mk out full =>
          cases full with
          | true => exact nofun
          | false => exact ih fewer
      | directory =>
        simp only []
        cases read : readSorted tree query remaining (trimSlash key) with
        | none => exact nofun
        | some pair =>
          obtain ⟨children, left⟩ := pair
          have budget := readSorted_budget read
          refine ih ?_
          simp only [potential, flatten_cons, cons_append, length_cons, length_append] at enough ⊢
          omega

variable (starts : StartsAt query.pathPrefix start)

include starts in
/-- The walk below a directory. -/
theorem walkTree_ended (room : 0 < query.limit) :
    Ended tree query (walkTree tree query (nameOf start)) ∧
      (walkTree tree query (nameOf start)).1 ≠ .stepLimit := by
  have covered : ∀ key, Wanted tree query key → dirKey start <+: key :=
    fun key wanted => starts.leads.trans wanted.leads
  rw [walkTree]
  cases read : readSorted tree query query.budget (nameOf start) with
  | none =>
    refine ⟨⟨⟨List.Pairwise.nil, nofun, fun key _ => .inr nofun⟩, Nat.zero_le _, nofun, nofun,
      nofun⟩, nofun⟩
  | some pair =>
    obtain ⟨first, left⟩ := pair
    have budget := readSorted_budget read
    obtain ⟨-, rfl⟩ := readSorted_eq_some starts.plain read
    refine ⟨walkSteps_ended ?_, walkSteps_ne_stepLimit ?_⟩
    · rw [flatten_singleton]
      refine ⟨fun entry found => ?_, pairwise_visited starts.plain, List.Pairwise.nil, nofun,
        fun key wanted => .inr (covers_visited starts.plain wanted (covered key wanted)), nofun,
        room⟩
      obtain ⟨name, present, unreserved, shape⟩ := mem_visited starts.plain found
      refine ⟨start ++ [name], present, fun other member => ?_, shape⟩
      rcases mem_append.mp member with member | member
      · exact starts.unreserved other member
      · exact mem_singleton.mp member ▸ unreserved
    · simp only [potential, flatten_singleton, length_singleton]
      omega

/-- A file stands above the start. -/
def Blocked (tree : Tree) (start : Path) : Prop :=
  ∃ above info, above <+: start ∧ above ≠ start ∧ (above, .regular info) ∈ tree.entries

theorem lstat_nameOf (tree : Tree) (plain : Plain start) :
    Blocked tree start ∧ tree.lstat (nameOf start) = .notDirectory ∨
      ¬Blocked tree start ∧
        (start = [] ∧ tree.lstat (nameOf start) = .found .directory ∨
          (∀ kind, (start, kind) ∉ tree.entries) ∧ tree.lstat (nameOf start) = .notExist ∨
          ∃ kind, (start, kind) ∈ tree.entries ∧ tree.lstat (nameOf start) = .found kind) := by
  rw [Tree.lstat, namePath_nameOf plain]
  by_cases root : start = []
  · right
    refine ⟨?_, .inl ⟨root, if_pos root⟩⟩
    rintro ⟨above, info, leads, proper, -⟩
    exact proper (by rw [root] at leads ⊢; exact prefix_nil.mp leads)
  · simp only [if_neg root]
    have inits : ∀ above, above ∈ start.dropLast.inits ↔ above <+: start ∧ above ≠ start := by
      intro above
      obtain ⟨front, name, rfl⟩ := eq_nil_or_concat start |>.resolve_left root
      rw [concat_eq_append, dropLast_concat, mem_inits, prefix_concat_iff]
      constructor
      · intro leads
        refine ⟨.inr leads, fun same => ?_⟩
        have lengths := leads.length_le
        rw [same, length_append, length_singleton] at lengths
        omega
      · rintro ⟨same | leads, proper⟩
        · exact absurd same proper
        · exact leads
    by_cases blocked : start.dropLast.inits.any fun above =>
        (tree.kind above).any fun kind => kind ≠ .directory
    · rw [if_pos blocked]
      left
      obtain ⟨above, member, other⟩ := any_eq_true.mp blocked
      obtain ⟨kind, found, notDirectory⟩ := (Option.any_eq_true _ _).mp other
      have present := Tree.kind_eq_some.mp found
      have proper := (inits above).mp member
      cases kind with
      | symlink => exact absurd rfl (tree.linkless _ present)
      | directory => simp at notDirectory
      | regular info => exact ⟨⟨above, info, proper.1, proper.2, present⟩, rfl⟩
    · rw [if_neg blocked]
      right
      refine ⟨?_, .inr ?_⟩
      · rintro ⟨above, info, leads, proper, present⟩
        refine blocked (any_eq_true.mpr ⟨above, (inits above).mpr ⟨leads, proper⟩, ?_⟩)
        simp [Tree.kind_eq_some.mpr present]
      · cases found : tree.kind start with
        | none =>
          refine .inl ⟨fun kind present => ?_, rfl⟩
          rw [Tree.kind_eq_some.mpr present] at found
          cases found
        | some kind => exact .inr ⟨kind, Tree.kind_eq_some.mp found, rfl⟩

include starts in
/-- Above a wanted key there are directories only. -/
theorem directory_of_wanted (wanted : Wanted tree query key) (nonempty : start ≠ []) :
    (start, .directory) ∈ tree.entries := by
  obtain ⟨⟨accepted, info, present⟩, leads, -⟩ := wanted
  have below : dirKey start <+: keyOf (segments key) :=
    (keyOf_segments key).symm ▸ starts.leads.trans leads
  obtain ⟨above, proper⟩ := (dirKey_prefix_iff starts.plain (plain_of_cleanKey accepted)
    (segments_ne_nil key)).mp below
  exact tree.parents _ present start nonempty above proper

/-- Where there is nothing to find the empty listing is right. -/
theorem ended_empty (none : ∀ key, ¬Wanted tree query key) : Ended tree query (.finished, []) := by
  refine ⟨⟨List.Pairwise.nil, nofun, fun key _ => .inr nofun⟩, Nat.zero_le _, fun _ key wanted => ?_,
    nofun, nofun⟩
  exact absurd wanted (none key)

include starts in
theorem walk_ended (room : 0 < query.limit) (free : ¬Blocked tree start) :
    Ended tree query (walk tree query (nameOf start)) ∧
      (walk tree query (nameOf start)).1 ≠ .stepLimit := by
  rcases lstat_nameOf tree starts.plain with ⟨blocked, -⟩ | ⟨-, found⟩
  · exact absurd blocked free
  · rw [walk]
    rcases found with ⟨-, root⟩ | ⟨missing, absent⟩ | ⟨kind, present, found⟩
    · rw [root]
      exact walkTree_ended starts room
    · rw [absent]
      refine ⟨ended_empty fun key wanted => ?_, by simp⟩
      by_cases root : start = []
      · have rooted : tree.lstat (nameOf start) = .found .directory := by
          rw [Tree.lstat, namePath_nameOf starts.plain]
          exact if_pos root
        rw [rooted] at absent
        cases absent
      · exact missing .directory (directory_of_wanted starts wanted root)
    · rw [found]
      cases kind with
      | symlink => exact absurd rfl (tree.linkless _ present)
      | directory => exact walkTree_ended starts room
      | regular info =>
        have nonempty := Tree.ne_nil_of_mem present
        -- The prefix is longer than the name of the start.
        have unstarted : query.pathPrefix.isPrefixOf (nameOf start) = false := by
          rw [Bool.eq_false_iff, ne_eq, isPrefixOf_iff_prefix]
          intro leads
          have shorter := (starts.leads.trans leads).length_le
          rw [dirKey_eq nonempty, nameOf, if_neg nonempty, length_append,
            length_singleton] at shorter
          omega
        have skipped : appendInfo query [] (nameOf start) info = ([], false) := by
          simp [appendInfo, unstarted]
        simp only [skipped]
        refine ⟨ended_empty fun key wanted => ?_, by simp⟩
        have again := Tree.kind_eq_some.mpr (directory_of_wanted starts wanted nonempty)
        rw [Tree.kind_eq_some.mpr present] at again
        cases again

include starts in
theorem walk_blocked (blocked : Blocked tree start) :
    walk tree query (nameOf start) = (.inspectRoot (nameOf start), []) := by
  rcases lstat_nameOf tree starts.plain with ⟨-, found⟩ | ⟨free, -⟩
  · rw [walk, found]
  · exact absurd blocked free

include starts in
/-- A file above the start is an object whose key leads to the start. -/
theorem blocked_iff :
    Blocked tree start ↔
      ∃ key, Stored tree key ∧ key ++ [slash] <+: localListStart query.pathPrefix := by
  rw [starts.name]
  constructor
  · rintro ⟨above, info, leads, proper, present⟩
    have nonempty := Tree.ne_nil_of_mem present
    have longer : start ≠ [] := by
      rintro rfl
      exact nonempty (prefix_nil.mp leads)
    refine ⟨keyOf above, stored_of_visible present fun name found =>
      starts.unreserved name (leads.subset found), ?_⟩
    rw [← dirKey_eq nonempty, nameOf, if_neg longer]
    exact (dirKey_prefix_iff (Tree.plain_of_mem present) starts.plain longer).mpr ⟨leads, proper⟩
  · rintro ⟨key, ⟨accepted, info, present⟩, leads⟩
    have plain := plain_of_cleanKey accepted
    have nonempty := segments_ne_nil key
    rw [← keyOf_segments key, ← dirKey_eq nonempty] at leads
    by_cases root : start = []
    · rw [root, nameOf, if_pos rfl, dirKey_eq nonempty] at leads
      have short := leads.length_le
      rw [length_append, length_singleton, length_singleton] at short
      exact absurd (length_eq_zero_iff.mp (by omega)) (keyOf_ne_nil plain nonempty)
    · rw [nameOf, if_neg root] at leads
      obtain ⟨above, proper⟩ := (dirKey_prefix_iff plain starts.plain root).mp leads
      exact ⟨segments key, info, above, proper, present⟩

end Walk

/-- The keys that are stored, in no order. -/
def Tree.storedKeys (tree : Tree) : List Bytes :=
  tree.entries.filterMap fun (path, kind) =>
    match kind with
    | .regular _ => if cleanKey (keyOf path) maxKeyBytes = .ok (keyOf path) then some (keyOf path) else none
    | _ => none

/-- What a listing is asked for: the stored keys that begin with the prefix and
come after the start position, in ascending order. -/
def matching (tree : Tree) (options : ListOptions) : List Bytes :=
  sortBy id (tree.storedKeys.filter fun key =>
    options.pathPrefix <+: key ∧ Precedes options.startAfter key)

theorem mem_storedKeys {tree : Tree} : key ∈ tree.storedKeys ↔ Stored tree key := by
  rw [Tree.storedKeys, mem_filterMap]
  constructor
  · rintro ⟨⟨path, kind⟩, present, chosen⟩
    cases kind with
    | directory => cases chosen
    | symlink => cases chosen
    | regular info =>
      simp only at chosen
      split at chosen
      · rename_i accepted
        cases chosen
        refine ⟨accepted, info, ?_⟩
        rwa [segments_keyOf (Tree.plain_of_mem present) (Tree.ne_nil_of_mem present)]
      · cases chosen
  · rintro ⟨accepted, info, present⟩
    refine ⟨_, present, ?_⟩
    simp only [keyOf_segments]
    exact if_pos accepted

theorem pairwise_storedKeys (tree : Tree) :
    tree.storedKeys.Pairwise fun left right => left ≠ right := by
  have different : tree.entries.Pairwise fun left right => left.1 ≠ right.1 :=
    pairwise_map.mp tree.nodup
  have chosen_eq : ∀ {entry : Path × Kind} {key : Bytes},
      (match entry.2 with
        | .regular _ =>
          if cleanKey (keyOf entry.1) maxKeyBytes = .ok (keyOf entry.1) then some (keyOf entry.1)
          else none
        | _ => none) = some key → keyOf entry.1 = key := by
    rintro ⟨path, kind⟩ key chosen
    cases kind with
    | directory => cases chosen
    | symlink => cases chosen
    | regular info =>
      simp only at chosen
      split at chosen
      · exact Option.some.inj chosen
      · cases chosen
  refine pairwise_filterMap.mpr (different.imp_of_mem ?_)
  intro left right foundLeft foundRight differ key chosen other otherChosen same
  refine differ ?_
  have keys : keyOf left.1 = keyOf right.1 :=
    (chosen_eq chosen).trans (same.trans (chosen_eq otherChosen).symm)
  rw [← segments_keyOf (tree.plain left foundLeft).2 (tree.plain left foundLeft).1, keys,
    segments_keyOf (tree.plain right foundRight).2 (tree.plain right foundRight).1]

section List

variable {tree : Tree} {options : ListOptions} {query : LocalListQuery} {empty : Bool}

theorem mem_matching : key ∈ matching tree options ↔
    Stored tree key ∧ options.pathPrefix <+: key ∧ Precedes options.startAfter key := by
  rw [matching, mem_sortBy, mem_filter, mem_storedKeys, decide_eq_true_eq]

theorem ascending_matching (tree : Tree) (options : ListOptions) :
    (matching tree options).Pairwise Precedes :=
  pairwise_sortBy ((pairwise_storedKeys tree).filter _)

theorem normalizeListLimit_pos {limit : Int} {result : Nat}
    (valid : normalizeListLimit limit = .ok result) : 0 < result := by
  rw [normalizeListLimit] at valid
  split at valid
  · cases valid
    decide
  · split at valid
    · cases valid
    · cases valid
      omega

theorem eq_ok_of_mapError {Failure Other α : Type} {outcome : Except Failure α}
    {relabel : Failure → Other} {value : α} (succeeded : outcome.mapError relabel = .ok value) :
    outcome = .ok value := by
  cases outcome with
  | error failure => cases succeeded
  | ok other => exact congrArg Except.ok (Except.ok.inj succeeded)

/-- What normalization makes of valid options. -/
structure Normalized (options : ListOptions) (query : LocalListQuery) (empty : Bool) : Prop where
  limit : normalizeListLimit options.limit = .ok query.limit
  pathPrefix : query.pathPrefix = options.pathPrefix
  start : ∃ start, StartsAt query.pathPrefix start
  beyond : empty = true →
    ¬query.pathPrefix <+: options.startAfter ∧ Precedes query.pathPrefix options.startAfter
  after : empty = false → ∀ key, query.pathPrefix <+: key →
    (Precedes query.after key ↔ Precedes options.startAfter key)

variable (valid : normalizeListOptions options = .ok (query, empty))

include valid in
theorem normalized_of_eq_ok : Normalized options query empty := by
  obtain ⟨limit, limited, valid⟩ := exists_of_bind_eq_ok valid
  obtain ⟨pathPrefix, cleanPrefix, valid⟩ := exists_of_bind_eq_ok valid
  obtain ⟨after, cleanAfter, valid⟩ := exists_of_bind_eq_ok valid
  obtain ⟨rfl, start⟩ := startsAt_of_cleanListPrefix (eq_ok_of_mapError cleanPrefix)
  obtain ⟨rfl, -⟩ := startsAt_of_cleanListPrefix (eq_ok_of_mapError cleanAfter)
  by_cases inside : options.pathPrefix <+: options.startAfter
  · rw [if_pos inside] at valid
    cases valid
    exact ⟨limited, rfl, start, nofun, fun _ _ _ => Iff.rfl⟩
  · rw [if_neg inside] at valid
    cases valid
    refine ⟨limited, rfl, start, fun beyond => ⟨inside, of_decide_eq_true beyond⟩, ?_⟩
    intro within key leads
    -- The start position sorts before the prefix, so before every key under it.
    have before : Precedes options.startAfter key := by
      rcases Precedes.total options.pathPrefix options.startAfter with less | same | more
      · exact absurd less (of_decide_eq_false within)
      · exact absurd (same ▸ prefix_refl _) inside
      · exact more.extend leads
    exact iff_of_true before.nil_left before

/-- How the walk of a listing ends, if there is one. -/
def listEnd (tree : Tree) (options : ListOptions) : Option WalkEnd :=
  match normalizeListOptions options with
  | .ok (query, false) => some (walk tree query (localListStart query.pathPrefix)).1
  | _ => none

/-- A listing is exact: without exhausting the entry budget it is the page that was
asked for, otherwise a beginning of it or the work limit error, and the bound on
the steps never ends the walk. -/
structure ListsExactly (tree : Tree) (options : ListOptions) (limit : Nat) : Prop where
  bounded : listEnd tree options ≠ some .stepLimit
  complete : listEnd tree options ≠ some .workLimit → ∃ page, list tree options = .ok page ∧
    page.map ListedObject.key = (matching tree options).take limit
  exhausted : listEnd tree options = some .workLimit →
    list tree options = .error .workLimit ∨
      ∃ page, list tree options = .ok page ∧ page ≠ [] ∧
        page.map ListedObject.key <+: (matching tree options).take limit

theorem Normalized.mem_matching_iff (normalized : Normalized options query false) (key : Bytes) :
    key ∈ matching tree options ↔ Wanted tree query key := by
  rw [mem_matching, ← normalized.pathPrefix]
  constructor
  · rintro ⟨stored, leads, after⟩
    exact ⟨stored, leads, (normalized.after rfl key leads).mpr after⟩
  · rintro ⟨stored, leads, after⟩
    exact ⟨stored, leads, (normalized.after rfl key leads).mp after⟩

theorem Normalized.matching_eq_nil (normalized : Normalized options query true) :
    matching tree options = [] := by
  refine eq_nil_iff_forall_not_mem.mpr fun key found => ?_
  obtain ⟨-, ⟨rest, rfl⟩, after⟩ := mem_matching.mp found
  obtain ⟨apart, beyond⟩ := normalized.beyond rfl
  rw [normalized.pathPrefix] at apart beyond
  have before := beyond.append apart rest []
  rw [append_nil] at before
  exact before.asymm after

theorem list_empty (valid : normalizeListOptions options = .ok (query, true)) :
    ListsExactly tree options query.limit := by
  have ended : listEnd tree options = none := by rw [listEnd, valid]
  have listed : list tree options = .ok [] := by rw [list, valid]; rfl
  refine ⟨by rw [ended]; exact nofun, fun _ => ⟨[], listed, ?_⟩, by rw [ended]; exact nofun⟩
  rw [(normalized_of_eq_ok valid).matching_eq_nil, take_nil, map_nil]

theorem Ended.listsExactly (valid : normalizeListOptions options = .ok (query, false))
    (starts : StartsAt query.pathPrefix start)
    (ended : Ended tree query (walk tree query (nameOf start)))
    (bounded : (walk tree query (nameOf start)).1 ≠ .stepLimit) :
    ListsExactly tree options query.limit := by
  have normalized := normalized_of_eq_ok valid
  have ascending := ascending_matching tree options
  have finish : listEnd tree options = some (walk tree query (nameOf start)).1 := by
    rw [listEnd, valid, ← starts.name]
  have listed : list tree options = walkLocalObjects tree query := by rw [list, valid]; rfl
  rw [walkLocalObjects, starts.name] at listed
  obtain ⟨leading, within, finished, full, inspected⟩ := ended
  have leads := leading.isPrefix ascending normalized.mem_matching_iff
  have taken : ((walk tree query (nameOf start)).2.map ListedObject.key) <+:
      (matching tree options).take query.limit := by
    rw [prefix_take_iff, length_map]
    exact ⟨leads, within⟩
  have whole := leading.eq ascending normalized.mem_matching_iff
  refine ⟨?_, ?_, ?_⟩
  · rw [finish]
    exact fun same => bounded (Option.some.inj same)
  · rw [finish]
    intro unlimited
    generalize walk tree query (nameOf start) = result at *
    obtain ⟨reason, out⟩ := result
    cases reason with
    | finished =>
      refine ⟨out, listed, ?_⟩
      have same := whole (finished rfl)
      rw [← same, take_of_length_le]
      rwa [length_map]
    | limitReached =>
      refine ⟨out, listed, taken.eq_of_length_le ?_⟩
      rw [length_map, full rfl]
      exact length_take_le _ _
    | workLimit => exact absurd rfl unlimited
    | stepLimit => exact absurd rfl bounded
    | inspectRoot start => exact absurd rfl (inspected start)
  · rw [finish]
    intro exhausted
    generalize walk tree query (nameOf start) = result at *
    obtain ⟨reason, out⟩ := result
    obtain rfl : reason = .workLimit := Option.some.inj exhausted
    simp only at listed
    by_cases nothing : out = []
    · rw [if_pos nothing] at listed
      exact .inl listed
    · rw [if_neg nothing] at listed
      exact .inr ⟨out, listed, nothing, taken⟩

/-- A listing that starts below no object is exact. -/
theorem listsExactly_of_free (valid : normalizeListOptions options = .ok (query, false))
    (starts : StartsAt query.pathPrefix start) (free : ¬Blocked tree start) :
    ListsExactly tree options query.limit := by
  have normalized := normalized_of_eq_ok valid
  obtain ⟨ended, bounded⟩ := walk_ended starts (normalizeListLimit_pos normalized.limit) free
  exact ended.listsExactly valid starts bounded

theorem list_blocked (valid : normalizeListOptions options = .ok (query, false))
    (starts : StartsAt query.pathPrefix start) (blocked : Blocked tree start) :
    listEnd tree options = some (.inspectRoot (nameOf start)) ∧
      list tree options = .error (.inspectRoot (nameOf start)) := by
  have stopped := walk_blocked starts blocked
  constructor
  · simp only [listEnd, valid, starts.name, stopped]
  · have listed : list tree options = walkLocalObjects tree query := by rw [list, valid]; rfl
    rw [listed, walkLocalObjects, starts.name, stopped]

include valid in
/-- A listing that succeeds is exact. -/
theorem listsExactly_of_eq_ok {page : List ListedObject} (listed : list tree options = .ok page) :
    ListsExactly tree options query.limit := by
  cases empty with
  | true => exact list_empty valid
  | false =>
    obtain ⟨start, starts⟩ := (normalized_of_eq_ok valid).start
    refine listsExactly_of_free valid starts fun blocked => ?_
    rw [(list_blocked valid starts blocked).2] at listed
    cases listed

include valid in
/-- A listing without a prefix starts below no object. -/
theorem listsExactly_of_no_prefix (whole : options.pathPrefix = []) :
    ListsExactly tree options query.limit := by
  cases empty with
  | true => exact list_empty valid
  | false =>
    have root : StartsAt query.pathPrefix [] := by
      rw [(normalized_of_eq_ok valid).pathPrefix, whole]
      exact ⟨nofun, nofun, rfl, nil_prefix⟩
    refine listsExactly_of_free valid root ?_
    rintro ⟨above, info, leads, proper, -⟩
    exact proper (prefix_nil.mp leads)

end List

/-- The bucket after a put of the key `a`. -/
def singleTree : Tree where
  entries := [
    ([textBytes ".golusoris-lock"], .regular ⟨0, 0⟩),
    ([textBytes ".golusoris-staging"], .directory),
    ([textBytes "a"], .regular ⟨3, 7⟩),
    ([textBytes
        ".golusoris-meta-ca978112ca1bbdcafac231b39a23dc4da786eff8147c4e72b9807785afee48bb.json"],
      .regular ⟨150, 7⟩)]
  nodup := by decide
  plain := by
    simp only [List.forall_mem_cons]
    refine ⟨⟨by decide, ?_⟩, ⟨by decide, ?_⟩, ⟨by decide, ?_⟩, ⟨by decide, ?_⟩, nofun⟩
    all_goals exact ⟨⟨by decide, by decide, by decide, by decide⟩, nofun⟩
  parents := by
    simp only [List.forall_mem_cons]
    refine ⟨?_, ?_, ?_, ?_, nofun⟩
    all_goals
      intro parent nonempty leads proper
      rcases List.prefix_cons_iff.mp leads with none | ⟨rest, rfl, inner⟩
      · exact absurd none nonempty
      · rw [List.prefix_nil.mp inner] at proper
        exact absurd rfl proper
  objects := by
    intro path info present
    simp only [List.mem_cons, Prod.mk.injEq, List.not_mem_nil, or_false] at present
    rcases present with ⟨rfl, -⟩ | ⟨-, impossible⟩ | ⟨rfl, -⟩ | ⟨rfl, -⟩
    · exact .inr ⟨_, List.mem_singleton_self _, .inr (.inr (by decide))⟩
    · cases impossible
    · exact .inl ⟨textBytes "a", by decide, by decide⟩
    · exact .inr ⟨_, List.mem_singleton_self _, .inr (.inl (by decide))⟩
  linkless := by decide

end Golusoris.Storage
