import Golusoris.Trainerio.Segments

/-!
# Tenants

`tenantDatasetPath` of `ai/tiny/internal/trainerio/io.go` computes the path of a
dataset relative to the directory of its tenant; `filepath.Join` and `filepath.Rel`
are what they are on a slash-separated system. An absolute clean path is a slash and
the key of a plain path, and under a root the tenant is the next name of that path.

Keys and directories tell all tenants apart but two: the empty ID stands for
`_default`, which is a tenant ID as well.
-/

namespace Golusoris.Trainerio

open List
open Lib Storage

/-- `filepath.Join` of two names that are not empty. -/
def filepathJoin (directory name : Bytes) : Bytes := pathClean (directory ++ slash :: name)

/-- The names of a clean path. -/
def elements (path : Bytes) : Path := (segments path).filter (· ≠ [])

/-- Two paths without the names that both begin with. -/
def apart : Path → Path → Path × Path
  | name :: base, other :: target =>
      if name = other then apart base target else (name :: base, other :: target)
  | base, target => (base, target)

/-- `filepath.Rel` of absolute paths. -/
def filepathRel (base target : Bytes) : Option Bytes :=
  let base := pathClean base
  let target := pathClean target
  if target = base then some [dot]
  else if !starts base "/" || !starts target "/" then none
  else
    let (back, forth) := apart (elements base) (elements target)
    if back.head? = some [dot, dot] then none
    else some (keyOf (back.map (fun _ => [dot, dot]) ++ forth))

inductive DatasetError where
  | tenant (cause : KeyError)
  | locate
  | outside
  deriving DecidableEq, Repr

/-- `tenantDatasetPath`: the tenant's directory and the path below it. -/
def tenantDatasetPath (canonicalRoot tenantID datasetPath : Bytes) :
    Except DatasetError (Bytes × Bytes) := do
  (validateStorageSegment "TenantID" (tenantSegment tenantID)).mapError .tenant
  match filepathRel (filepathJoin canonicalRoot (tenantSegment tenantID)) datasetPath with
  | none => .error .locate
  | some relative =>
      if relative = [dot] ∨ starts relative "/" ∨ relative = [dot, dot] ∨ starts relative "../" then
        .error .outside
      else return (tenantSegment tenantID, relative)

/-- A path that `filepath.Clean` leaves as it is, from the root on. -/
structure Absolute (path : Bytes) : Prop where
  rooted : starts path "/"
  clean : pathClean path = path

variable {path : Path}

theorem starts_slash_iff {text : Bytes} : starts text "/" ↔ ∃ rest, text = slash :: rest := by
  have slashText : textBytes "/" = [slash] := by decide
  rw [starts, isPrefixOf_iff_prefix, slashText]
  constructor
  · rintro ⟨rest, rfl⟩
    exact ⟨rest, rfl⟩
  · rintro ⟨rest, rfl⟩
    exact ⟨rest, rfl⟩

theorem cleanSegments_rooted {names kept : List Bytes} (free : ∀ name ∈ names, slash ∉ name)
    (plain : Plain kept) : Plain (cleanSegments true kept names) := by
  induction names generalizing kept with
  | nil => rwa [cleanSegments]
  | cons name names ih =>
    have later : ∀ {kept : List Bytes}, Plain kept → Plain (cleanSegments true kept names) :=
      ih fun other found => free other (mem_cons_of_mem _ found)
    rw [cleanSegments.eq_def]
    dsimp only
    split
    · exact later plain
    · rename_i kept'
      obtain ⟨filled, notDot⟩ := not_or.mp kept'
      split
      · cases kept with
        | nil => exact later fun _ found => absurd found not_mem_nil
        | cons last earlier =>
          have above : Plain earlier := fun other found => plain other (mem_cons_of_mem _ found)
          have notDots := (plain last mem_cons_self).notDots
          simp only [if_neg notDots]
          exact later above
      · rename_i notDots
        refine later fun other found => ?_
        rcases mem_cons.mp found with rfl | found
        · exact ⟨filled, free other mem_cons_self, notDot, notDots⟩
        · exact plain other found

theorem segments_slash_keyOf (plain : Plain path) :
    segments (slash :: keyOf path) = [] :: if path = [] then [[]] else path := by
  rw [segments, if_pos rfl]
  by_cases root : path = []
  · subst root
    rfl
  · rw [if_neg root, segments_keyOf plain root]

theorem elements_slash_keyOf (plain : Plain path) : elements (slash :: keyOf path) = path := by
  rw [elements, segments_slash_keyOf plain]
  by_cases root : path = []
  · subst root
    rfl
  · rw [if_neg root, filter_cons_of_neg (by simp), filter_eq_self]
    exact fun name found => decide_eq_true (plain name found).nonempty

theorem absolute_keyOf (plain : Plain path) : Absolute (slash :: keyOf path) := by
  have rooted : starts (slash :: keyOf path) "/" = true := starts_slash_iff.mpr ⟨_, rfl⟩
  refine ⟨rooted, ?_⟩
  have kept : cleanSegments true [] (segments (slash :: keyOf path)) = path.reverse := by
    rw [segments_slash_keyOf plain, cleanSegments, if_pos (.inl rfl)]
    split
    · rename_i root
      subst root
      rfl
    · rw [cleanSegments_plain plain, append_nil]
  rw [pathClean, rooted]
  simp only [kept, reverse_reverse, if_true]
  rfl

theorem Absolute.exists_keyOf {text : Bytes} (absolute : Absolute text) :
    ∃ path, Plain path ∧ text = slash :: keyOf path := by
  have plain : Plain (cleanSegments true [] (segments text)) :=
    cleanSegments_rooted (fun name listed => noSlash_of_mem_segments listed)
      fun _ none => absurd none not_mem_nil
  refine ⟨(cleanSegments true [] (segments text)).reverse, fun name found => ?_, ?_⟩
  · exact plain name (mem_reverse.mp found)
  · have clean := absolute.clean
    rw [pathClean, absolute.rooted] at clean
    exact clean.symm

/-- Joining goes down from a directory. -/
theorem filepathJoin_keyOf {rest : Path} (plain : Plain path) (below : Plain rest)
    (nonempty : rest ≠ []) :
    filepathJoin (slash :: keyOf path) (keyOf rest) = slash :: keyOf (path ++ rest) := by
  rw [filepathJoin]
  by_cases root : path = []
  · subst root
    have kept : cleanSegments true [] (segments (slash :: slash :: keyOf rest)) = rest.reverse := by
      rw [segments, if_pos rfl, segments, if_pos rfl, segments_keyOf below nonempty, cleanSegments,
        if_pos (.inl rfl), cleanSegments, if_pos (.inl rfl), cleanSegments_plain below, append_nil]
    have rooted : starts (slash :: slash :: keyOf rest) "/" = true := starts_slash_iff.mpr ⟨_, rfl⟩
    rw [nil_append, show slash :: keyOf [] ++ slash :: keyOf rest = slash :: slash :: keyOf rest
      from rfl, pathClean, rooted]
    simp only [kept, reverse_reverse, if_true]
    rfl
  · have all : Plain (path ++ rest) := fun name found =>
      (mem_append.mp found).elim (plain name) (below name)
    rw [← (absolute_keyOf all).clean, keyOf_append path nonempty, dirKey_eq root]
    simp

theorem apart_eq (base target : Path) : ∃ common,
    base = common ++ (apart base target).1 ∧ target = common ++ (apart base target).2 := by
  induction base generalizing target with
  | nil => exact ⟨[], by simp [apart], by simp [apart]⟩
  | cons name base ih =>
    cases target with
    | nil => exact ⟨[], by simp [apart], by simp [apart]⟩
    | cons other target =>
      rw [apart]
      split
      · rename_i same
        subst same
        obtain ⟨common, left, right⟩ := ih target
        exact ⟨name :: common, congrArg (name :: ·) left, congrArg (name :: ·) right⟩
      · exact ⟨[], rfl, rfl⟩

theorem apart_append (base rest : Path) : apart base (base ++ rest) = ([], rest) := by
  induction base with
  | nil => cases rest <;> rfl
  | cons name base ih => rw [cons_append, apart, if_pos rfl, ih]

/-- A path that leads back is no path below. -/
theorem back_outside (names rest : Path) :
    keyOf ([dot, dot] :: (names ++ rest)) = [dot, dot] ∨ starts
    (keyOf ([dot, dot] :: (names ++ rest))) "../" := by
  cases more : names ++ rest with
  | nil => exact .inl (keyOf_singleton _)
  | cons next later =>
    refine .inr ( isPrefixOf_iff_prefix.mpr ⟨keyOf (next :: later), ?_⟩)
    have text : textBytes "../" = [dot, dot] ++ [slash] := by decide
    rw [text, keyOf, keyOf, intercalate_cons_cons]

variable {target root : Path}

theorem filepathRel_keyOf {base : Path} (above : Plain base) (below : Plain target) :
    filepathRel (slash :: keyOf base) (slash :: keyOf target) =
      some (if target = base then [dot] else
        keyOf ((apart base target).1.map (fun _ => [dot, dot]) ++ (apart base target).2)) := by
  obtain ⟨common, left, -⟩ := apart_eq base target
  have first : (apart base target).1.head? ≠ some [dot, dot] := by
    intro back
    refine (above [dot, dot] ?_).notDots rfl
    rw [left]
    exact mem_append_right _ (mem_of_head? back)
  have same : slash :: keyOf target = slash :: keyOf base ↔ target = base := by
    refine ⟨fun equal => ?_, fun equal => equal ▸ rfl⟩
    rw [← elements_slash_keyOf below, equal, elements_slash_keyOf above]
  rw [filepathRel, (absolute_keyOf above).clean, (absolute_keyOf below).clean,
    (absolute_keyOf above).rooted, (absolute_keyOf below).rooted, elements_slash_keyOf above,
    elements_slash_keyOf below]
  simp only [same, first, if_false, Bool.not_true, Bool.or_self, Bool.false_eq_true]
  split <;> rfl

variable {tenantID other : Bytes}

/-- A tenant has the paths that go down from its directory. -/
theorem tenantDatasetPath_eq_ok {segment relative : Bytes} (above : Plain root)
    (below : Plain target) (safe : SafeSegment (tenantSegment tenantID)) :
    tenantDatasetPath (slash :: keyOf root) tenantID (slash :: keyOf target) = .ok
    (segment, relative) ↔
      segment = tenantSegment tenantID ∧ ∃ rest ≠ [], target = root ++ [segment] ++ rest ∧
        relative = keyOf rest := by
  have valid := (validateStorageSegment_eq_ok "TenantID").mpr safe
  have tenant : Plain (root ++ [tenantSegment tenantID]) := above.concat safe.plainName
  have single : Plain [tenantSegment tenantID] :=
    fun name found => mem_singleton.mp found ▸ safe.plainName
  have joined := filepathJoin_keyOf above single (cons_ne_nil _ _)
  rw [keyOf_singleton] at joined
  rw [tenantDatasetPath, valid, joined, filepathRel_keyOf tenant below]
  constructor
  · intro accepted
    obtain ⟨⟨⟩, -, accepted⟩ := exists_of_bind_eq_ok accepted
    dsimp only at accepted
    by_cases same : target = root ++ [tenantSegment tenantID]
    · rw [if_pos same, if_pos (.inl rfl)] at accepted
      cases accepted
    · rw [if_neg same] at accepted
      obtain ⟨common, left, right⟩ := apart_eq (root ++ [tenantSegment tenantID]) target
      generalize apart (root ++ [tenantSegment tenantID]) target = parts at *
      obtain ⟨back, forth⟩ := parts
      dsimp only at accepted left right
      cases back with
      | cons name back =>
        rw [map_cons, cons_append] at accepted
        have leads := back_outside (back.map fun _ => [dot, dot]) forth
        rw [if_pos (.inr (.inr leads))] at accepted
        cases accepted
      | nil =>
        rw [append_nil] at left
        subst left
        rw [map_nil, nil_append] at accepted
        split at accepted
        · cases accepted
        · cases accepted
          refine ⟨rfl, forth, ?_, right, rfl⟩
          rintro rfl
          exact same (by simpa using right)
  · rintro ⟨rfl, rest, nonempty, rfl, rfl⟩
    have plain : Plain rest := fun name found => below name (mem_append_right _ found)
    obtain ⟨notDot, notDots, inside⟩ := not_back plain nonempty
    have proper : root ++ [tenantSegment tenantID] ++ rest ≠ root ++ [tenantSegment tenantID] := by
      simpa using nonempty
    rw [if_neg proper, apart_append]
    dsimp only
    rw [map_nil, nil_append, if_neg]
    · rfl
    · simp [notDot, notDots, inside, starts_slash_keyOf plain]

/-- A tenant has the paths that begin with its directory's. -/
theorem tenant_has_iff (above : Plain root) (below : Plain target)
    (safe : SafeSegment (tenantSegment tenantID)) :
    (∃ found, tenantDatasetPath (slash :: keyOf root) tenantID (slash :: keyOf target) = .ok found) ↔
      dirKey (root ++ [tenantSegment tenantID]) <+: keyOf target := by
  have tenant : Plain (root ++ [tenantSegment tenantID]) := above.concat safe.plainName
  by_cases nonempty : target = []
  · subst nonempty
    constructor
    · rintro ⟨⟨segment, relative⟩, accepted⟩
      obtain ⟨-, rest, -, shape, -⟩ := (tenantDatasetPath_eq_ok above below safe).mp accepted
      simp at shape
    · intro leads
      have none := prefix_nil.mp leads
      simp [dirKey] at none
  · rw [dirKey_prefix_iff tenant below nonempty]
    constructor
    · rintro ⟨⟨segment, relative⟩, accepted⟩
      obtain ⟨rfl, rest, more, rfl, -⟩ := (tenantDatasetPath_eq_ok above below safe).mp accepted
      exact ⟨prefix_append _ _, by simpa using more⟩
    · rintro ⟨⟨rest, rfl⟩, proper⟩
      have more : rest ≠ [] := fun none => proper (by rw [none, append_nil])
      exact ⟨_, (tenantDatasetPath_eq_ok above below safe).mpr ⟨rfl, rest, more, rfl, rfl⟩⟩

/-- The empty tenant ID and the ID that it stands for, in either order. -/
def Shared (tenantID other : Bytes) : Prop :=
  (tenantID = [] ∧ other = textBytes "_default") ∨ (tenantID = textBytes "_default" ∧ other = [])

theorem tenantSegment_eq_iff :
    tenantSegment tenantID = tenantSegment other ↔ tenantID = other ∨ Shared tenantID other := by
  have filled : textBytes "_default" ≠ [] := by decide
  rw [tenantSegment, tenantSegment, Shared]
  generalize textBytes "_default" = shared at filled
  by_cases empty : tenantID = []
  · by_cases empty' : other = []
    · simp [empty, empty']
    · simp [empty, empty', Ne.symm filled, eq_comm]
  · by_cases empty' : other = []
    · simp [empty, empty', filled]
    · simp [empty, empty']

theorem not_shared_of_eq (same : tenantID = other) : ¬Shared tenantID other := by
  have filled : textBytes "_default" ≠ [] := by decide
  subst same
  rintro (⟨empty, named⟩ | ⟨named, empty⟩)
  · exact filled (named ▸ empty)
  · exact filled (named ▸ empty)

/-- The paths of two keys tell their arguments apart, up to the tenant's name. -/
theorem artifactPath_eq_iff {args args' : Artifact} : artifactPath args = artifactPath args' ↔
    tenantSegment args.tenantID = tenantSegment args'.tenantID ∧
      { args with tenantID := args'.tenantID } = args' := by
  obtain ⟨keyPrefix, tenantID, name, jobID, digest, artifact⟩ := args
  obtain ⟨keyPrefix', tenantID', name', jobID', digest', artifact'⟩ := args'
  constructor
  · intro same
    obtain ⟨prefixes, rest⟩ := append_inj' same rfl
    have keyPrefixes := segments_injective prefixes
    simp only [List.cons.injEq, and_true, true_and] at rest
    obtain ⟨tenants, names, jobs, digests, artifacts⟩ := rest
    exact ⟨tenants, by rw [Artifact.mk.injEq]; exact ⟨keyPrefixes, rfl, names, jobs, digests, artifacts⟩⟩
  · rintro ⟨tenants, same⟩
    obtain ⟨rfl, -, rfl, rfl, rfl, rfl⟩ := Artifact.mk.inj same
    simp only [artifactPath, tenants]

theorem tenantSegment_of_shared (shared : Shared tenantID other) :
    tenantSegment tenantID = textBytes "_default" ∧ tenantSegment other = textBytes "_default" := by
  have filled : textBytes "_default" ≠ [] := by decide
  rcases shared with ⟨rfl, rfl⟩ | ⟨rfl, rfl⟩
  · exact ⟨if_pos rfl, if_neg filled⟩
  · exact ⟨if_neg filled, if_pos rfl⟩

/-- A path names one tenant. -/
theorem same_name {name target : Bytes} (noSlash : slash ∉ name) (noSlash' : slash ∉ other)
    (first : dirKey (root ++ [name]) <+: target) (second : dirKey (root ++ [other]) <+: target) :
    name = other := by
  obtain ⟨rest, rfl⟩ := first
  obtain ⟨rest', same⟩ := second
  rw [dirKey_append, dirKey_append, append_assoc, append_assoc] at same
  have split := congrArg segments (append_cancel_left same)
  simp only [dirKey, flatMap_cons, flatMap_nil, append_nil, append_assoc,
    singleton_append] at split
  rw [segments_slash _ noSlash, segments_slash _ noSlash'] at split
  exact (List.cons.inj split).1.symm

/-- Keys and directories belong to one tenant each, unless the one tenant's ID is empty and
the other's is `_default`. -/
theorem tenants_isolated (args args' : Artifact) (key key' root path : Bytes) (job job' : Job) :
    (artifactKey args = .ok key → artifactKey args' = .ok key' →
      ((key = key' → args = args') ↔
        ¬(Shared args.tenantID args'.tenantID ∧ { args with tenantID := args'.tenantID } = args'))) ∧
    (Absolute root → Absolute path → validateJob job = .ok () → validateJob job' = .ok () →
      job.tenantID ≠ job'.tenantID →
        (¬((∃ found, tenantDatasetPath root job.tenantID path = .ok found) ∧
              ∃ found, tenantDatasetPath root job'.tenantID path = .ok found) ↔
          ¬(Shared job.tenantID job'.tenantID ∧
              filepathJoin root (textBytes "_default") ++ [slash] <+: path)) ∧
        ∀ segment relative, tenantDatasetPath root job.tenantID path = .ok (segment, relative) →
          filepathJoin (filepathJoin root segment) relative = path ∧
            [dot, dot] ∉ segments relative) := by
  constructor
  · intro made made'
    obtain ⟨admitted, rfl⟩ := artifactKey_eq_ok.mp made
    obtain ⟨admitted', rfl⟩ := artifactKey_eq_ok.mp made'
    have same : keyOf (artifactPath args) = keyOf (artifactPath args') ↔
        artifactPath args = artifactPath args' := by
      refine ⟨fun equal => ?_, fun equal => congrArg keyOf equal⟩
      have plain : Plain (artifactPath args) :=
        fun name listed => (safe_artifactPath admitted name listed).plainName
      have plain' : Plain (artifactPath args') :=
        fun name listed => (safe_artifactPath admitted' name listed).plainName
      rw [← segments_keyOf plain (by simp [artifactPath]), equal,
        segments_keyOf plain' (by simp [artifactPath])]
    rw [same, artifactPath_eq_iff, tenantSegment_eq_iff]
    constructor
    · rintro equal ⟨shared, others⟩
      have tenants := congrArg Artifact.tenantID (equal ⟨.inr shared, others⟩)
      exact not_shared_of_eq tenants shared
    · rintro apart ⟨tenants, others⟩
      rcases tenants with tenants | shared
      · rw [← others, ← tenants]
      · exact absurd ⟨shared, others⟩ apart
  · intro absolute absolute' accepted accepted' different
    obtain ⟨root, above, rfl⟩ := absolute.exists_keyOf
    obtain ⟨target, below, rfl⟩ := absolute'.exists_keyOf
    obtain ⟨-, -, safe⟩ := safe_of_validateJob accepted
    obtain ⟨-, -, safe'⟩ := safe_of_validateJob accepted'
    constructor
    · have single : Plain [textBytes "_default"] :=
        fun name listed => List.mem_singleton.mp listed ▸ safeSegment_default.plainName
      have joined := filepathJoin_keyOf above single (List.cons_ne_nil _ _)
      rw [keyOf_singleton] at joined
      rw [tenant_has_iff above below safe, tenant_has_iff above below safe', not_iff_not, joined,
        List.cons_append, List.cons_prefix_cons, ← dirKey_eq (by simp), eq_self, true_and]
      constructor
      · rintro ⟨first, second⟩
        have tenants := same_name safe.noSlash safe'.noSlash first second
        have shared := (tenantSegment_eq_iff.mp tenants).resolve_left different
        exact ⟨shared, (tenantSegment_of_shared shared).1 ▸ first⟩
      · rintro ⟨shared, leads⟩
        obtain ⟨first, second⟩ := tenantSegment_of_shared shared
        exact ⟨first.symm ▸ leads, second.symm ▸ leads⟩
    · intro segment relative found
      obtain ⟨rfl, rest, more, rfl, rfl⟩ := (tenantDatasetPath_eq_ok above below safe).mp found
      have plain : Plain rest := fun name listed => below name (List.mem_append_right _ listed)
      have tenant : Plain (root ++ [tenantSegment job.tenantID]) := above.concat safe.plainName
      have single : Plain [tenantSegment job.tenantID] :=
        fun name listed => List.mem_singleton.mp listed ▸ safe.plainName
      have joined := filepathJoin_keyOf above single (List.cons_ne_nil _ _)
      rw [keyOf_singleton] at joined
      refine ⟨?_, ?_⟩
      · rw [joined, filepathJoin_keyOf tenant plain more]
      · rw [segments_keyOf plain more]
        exact fun back => (plain _ back).notDots rfl

/-- A job of some tenant. -/
def tenantJob (tenantID : String) : Job where
  id := textBytes "j"
  name := textBytes "n"
  tenantID := textBytes tenantID
  dataset := ⟨textBytes "file:///data/_default/x", textBytes "text", textBytes "generate"⟩
  baseModel := textBytes "gemma3:270m"

/-- The empty tenant and `_default` have keys in common, and directories too. -/
theorem tenants_shared :
    (¬∀ args args' key, artifactKey args = .ok key → artifactKey args' = .ok key → args = args') ∧
      ¬∀ root path job job', Absolute root → Absolute path → validateJob job = .ok () →
        validateJob job' = .ok () → job.tenantID ≠ job'.tenantID →
          ¬((∃ found, tenantDatasetPath root job.tenantID path = .ok found) ∧
            ∃ found, tenantDatasetPath root job'.tenantID path = .ok found) := by
  constructor
  · intro isolated
    have same := isolated
      ⟨textBytes "p", [], textBytes "n", textBytes "j", List.replicate 64 0x61, textBytes "a"⟩
      ⟨textBytes "p", textBytes "_default", textBytes "n", textBytes "j", List.replicate 64 0x61,
        textBytes "a"⟩
      (textBytes "p/tenants/_default/n/j/" ++ List.replicate 64 0x61 ++ textBytes "/a")
      (by decide +kernel) (by decide +kernel)
    have tenants := congrArg Artifact.tenantID same
    exact absurd tenants (by decide)
  · intro isolated
    refine isolated (textBytes "/data") (textBytes "/data/_default/x") (tenantJob "")
      (tenantJob "_default") ⟨by decide +kernel, by decide +kernel⟩ ⟨by decide +kernel, by decide +kernel⟩
      (by decide +kernel) (by decide +kernel) (by decide +kernel)
      ⟨⟨(textBytes "_default", textBytes "x"), ?_⟩, (textBytes "_default", textBytes "x"), ?_⟩
    all_goals decide +kernel

end Golusoris.Trainerio
