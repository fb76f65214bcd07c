import Golusoris.Storage.Cells
import Golusoris.Storage.Listing

/-!
# Paths and the keys below them

A directory's key is the text that every key below it begins with. For plain
names this is exact: a key begins with the key of a directory just when its path
begins with the path of the directory. The names that the listing computes with
`path.Join`, `strings.TrimSuffix` and `localListStart` are names of such paths.
-/

namespace Golusoris.Storage

open List
open Lib

/-- The key whose segments are the path. -/
def keyOf (path : Path) : Bytes := [slash].intercalate path

/-- What every key below a directory begins with. -/
def dirKey (path : Path) : Bytes := path.flatMap fun name => name ++ [slash]

/-- The name of a path in an `fs.FS`. -/
def nameOf (path : Path) : Bytes := if path = [] then [dot] else keyOf path

/-- A path of plain names. -/
def Plain (path : Path) : Prop := ∀ name ∈ path, PlainName name

theorem keyOf_segments (key : Bytes) : keyOf (segments key) = key := intercalate_segments key

@[simp] theorem keyOf_singleton (name : Bytes) : keyOf [name] = name := by simp [keyOf]

@[simp] theorem dirKey_nil : dirKey [] = [] := rfl

@[simp] theorem dirKey_append (front rest : Path) :
    dirKey (front ++ rest) = dirKey front ++ dirKey rest :=
  flatMap_append

theorem keyOf_append (path : Path) {rest : Path} (nonempty : rest ≠ []) :
    keyOf (path ++ rest) = dirKey path ++ keyOf rest := by
  induction path with
  | nil => rfl
  | cons name path ih =>
    have more : path ++ rest ≠ [] := by simp [nonempty]
    obtain ⟨next, later, shape⟩ := exists_cons_of_ne_nil more
    rw [cons_append, keyOf, shape, intercalate_cons_cons, ← shape]
    rw [show [slash].intercalate (path ++ rest) = keyOf (path ++ rest) from rfl, ih]
    simp [dirKey]

theorem keyOf_concat (path : Path) (name : Bytes) :
    keyOf (path ++ [name]) = dirKey path ++ name := by
  rw [keyOf_append path (cons_ne_nil name []), keyOf_singleton]

variable {path : Path}

theorem dirKey_eq (nonempty : path ≠ []) : dirKey path = keyOf path ++ [slash] := by
  obtain ⟨front, name, rfl⟩ := eq_nil_or_concat path |>.resolve_left nonempty
  rw [concat_eq_append, keyOf_concat, dirKey_append, append_assoc]
  simp [dirKey]

theorem Plain.append_left {front rest : Path} (plain : Plain (front ++ rest)) : Plain front :=
  fun name found => plain name (mem_append_left rest found)

variable {name key : Bytes}

theorem Plain.concat (plain : Plain path) (last : PlainName name) : Plain (path ++ [name]) := by
  intro other found
  rcases mem_append.mp found with found | found
  · exact plain other found
  · exact mem_singleton.mp found ▸ last

theorem segments_of_noSlash (noSlash : slash ∉ name) : segments name = [name] := by
  induction name with
  | nil => rfl
  | cons byte name ih =>
    have different : byte ≠ slash := fun same => noSlash (same ▸ mem_cons_self)
    rw [segments, if_neg different, ih fun found => noSlash (mem_cons_of_mem _ found)]

theorem segments_slash (rest : Bytes) (noSlash : slash ∉ name) :
    segments (name ++ slash :: rest) = name :: segments rest := by
  induction name with
  | nil => rw [nil_append, segments, if_pos rfl]
  | cons byte name ih =>
    have different : byte ≠ slash := fun same => noSlash (same ▸ mem_cons_self)
    rw [cons_append, segments, if_neg different, ih fun found => noSlash (mem_cons_of_mem _ found)]

theorem segments_keyOf (plain : Plain path) (nonempty : path ≠ []) :
    segments (keyOf path) = path := by
  induction path with
  | nil => exact absurd rfl nonempty
  | cons name path ih =>
    have noSlash := (plain name mem_cons_self).noSlash
    by_cases last : path = []
    · rw [last, keyOf_singleton, segments_of_noSlash noSlash]
    · have rest := ih (fun other found => plain other (mem_cons_of_mem _ found)) last
      have joined := keyOf_append [name] last
      rw [singleton_append] at joined
      rw [joined, dirKey, flatMap_cons, flatMap_nil, append_nil, append_assoc,
        singleton_append, segments_slash _ noSlash, rest]

theorem noSlash_of_mem_segments (found : name ∈ segments key) : slash ∉ name := by
  induction key generalizing name with
  | nil =>
    obtain rfl : name = [] := by simpa [segments] using found
    exact not_mem_nil
  | cons byte rest ih =>
    rw [segments] at found
    by_cases separator : byte = slash
    · rw [if_pos separator] at found
      rcases mem_cons.mp found with rfl | found
      · exact not_mem_nil
      · exact ih found
    · rw [if_neg separator] at found
      cases split : segments rest with
      | nil => exact absurd split (segments_ne_nil rest)
      | cons segment later =>
        rw [split] at ih found
        rcases mem_cons.mp found with rfl | found
        · intro member
          rcases mem_cons.mp member with same | member
          · exact separator same.symm
          · exact ih mem_cons_self member
        · exact ih (mem_cons_of_mem _ found)

/-- The segments of an accepted key are plain. -/
theorem plain_of_cleanKey {clean : Bytes} {maximum : Nat}
    (accepted : cleanKey key maximum = .ok clean) : Plain (segments key) := by
  obtain ⟨-, lexical⟩ := cleanKey_eq_ok accepted
  rw [rejectKeyLexically] at lexical
  split at lexical
  · cases lexical
  · obtain ⟨⟨⟩, -, lexical⟩ := exists_of_bind_eq_ok lexical
    obtain ⟨⟨⟩, -, lexical⟩ := exists_of_bind_eq_ok lexical
    intro name found
    have allowed := ok_of_rejectEach lexical name found
    rw [rejectKeySegment] at allowed
    by_cases empty : name = []
    · rw [if_pos empty] at allowed
      cases allowed
    · rw [if_neg empty] at allowed
      by_cases dots : name = [dot] ∨ name = [dot, dot]
      · rw [if_pos dots] at allowed
        cases allowed
      · exact {
          nonempty := empty
          noSlash := noSlash_of_mem_segments found
          notDot := fun same => dots (.inl same)
          notDots := fun same => dots (.inr same) }

/-- A key begins with the key of the directories above its object, and of no
others. -/
theorem dirKey_prefix_iff {above : Path} (plainAbove : Plain above) (plain : Plain path)
    (nonempty : path ≠ []) : dirKey above <+: keyOf path ↔ above <+: path ∧ above ≠ path := by
  constructor
  · intro leads
    induction above generalizing path with
    | nil => exact ⟨ nil_prefix, nonempty.symm⟩
    | cons name above ih =>
      obtain ⟨first, path, rfl⟩ := exists_cons_of_ne_nil nonempty
      have noSlash := (plainAbove name mem_cons_self).noSlash
      have noSlash' := (plain first mem_cons_self).noSlash
      obtain ⟨extra, whole⟩ := leads
      have shape : dirKey (name :: above) ++ extra = name ++ slash :: (dirKey above ++ extra) := by
        simp [dirKey]
      rw [shape] at whole
      by_cases last : path = []
      · rw [last, keyOf_singleton] at whole
        exact absurd (whole ▸ by simp) noSlash'
      · have joined : keyOf (first :: path) = first ++ slash :: keyOf path := by
          rw [← singleton_append, keyOf_append [first] last]
          simp [dirKey]
        have split := congrArg segments (whole.trans joined)
        rw [segments_slash _ noSlash, segments_slash _ noSlash'] at split
        obtain ⟨rfl, later⟩ := List.cons.inj split
        have whole := segments_injective later
        have below := ih (fun other found => plainAbove other (mem_cons_of_mem _ found))
          (fun other found => plain other (mem_cons_of_mem _ found)) last ⟨extra, whole⟩
        refine ⟨cons_prefix_cons.mpr ⟨rfl, below.1⟩, fun same => below.2 ?_⟩
        exact (List.cons.inj same).2
  · rintro ⟨⟨rest, rfl⟩, proper⟩
    have more : rest ≠ [] := fun none => proper (by rw [none, append_nil])
    rw [keyOf_append above more]
    exact prefix_append _ _

theorem starts_slash_keyOf (plain : Plain path) : starts (keyOf path) "/" = false := by
  cases path with
  | nil => rfl
  | cons name path =>
    obtain ⟨nonempty, noSlash, -, -⟩ := plain name mem_cons_self
    obtain ⟨byte, name, rfl⟩ := exists_cons_of_ne_nil nonempty
    have different : slash ≠ byte := fun same => noSlash (same ▸ mem_cons_self)
    have first : ∃ rest, keyOf ((byte :: name) :: path) = byte :: rest := by
      cases path with
      | nil => exact ⟨name, keyOf_singleton _⟩
      | cons next path => exact ⟨_, intercalate_cons_cons⟩
    obtain ⟨rest, shape⟩ := first
    have text : textBytes "/" = [slash] := by decide
    simp [starts, text, shape, isPrefixOf, different]

theorem cleanSegments_plain (plain : Plain path) {rooted : Bool} (kept : List Bytes) :
    cleanSegments rooted kept path = path.reverse ++ kept := by
  induction path generalizing kept with
  | nil => rfl
  | cons name path ih =>
    obtain ⟨nonempty, -, notDot, notDots⟩ := plain name mem_cons_self
    rw [cleanSegments.eq_def]
    simp only []
    rw [if_neg (by simp [nonempty, notDot]), if_neg notDots,
      ih fun other found => plain other (mem_cons_of_mem _ found)]
    simp

theorem keyOf_ne_nil (plain : Plain path) (nonempty : path ≠ []) : keyOf path ≠ [] := by
  intro empty
  have split := segments_keyOf plain nonempty
  rw [empty] at split
  exact (plain [] (split ▸ mem_singleton_self _)).nonempty rfl

theorem pathClean_keyOf (plain : Plain path) (nonempty : path ≠ []) :
    pathClean (keyOf path) = keyOf path := by
  have kept : (cleanSegments false [] (segments (keyOf path))).reverse = path := by
    rw [segments_keyOf plain nonempty, cleanSegments_plain plain, append_nil, reverse_reverse]
  simp only [pathClean, starts_slash_keyOf plain, kept]
  exact if_neg (keyOf_ne_nil plain nonempty)

theorem pathJoin_nameOf (plain : Plain path) (last : PlainName name) :
    pathJoin (nameOf path) name = keyOf (path ++ [name]) := by
  by_cases root : path = []
  · subst root
    have rooted : starts ([dot] ++ slash :: name) "/" = false := by
      have text : textBytes "/" = [slash] := by decide
      have different : slash ≠ dot := by decide
      simp [starts, text, isPrefixOf, different]
    have split : segments ([dot] ++ slash :: name) = [[dot], name] := by
      rw [segments_slash name (by decide), segments_of_noSlash last.noSlash]
    have kept : cleanSegments false [] [[dot], name] = [name] := by
      rw [cleanSegments, if_pos (.inr rfl),
        cleanSegments_plain (fun other found => mem_singleton.mp found ▸ last)]
      rfl
    rw [pathJoin, nameOf, if_pos rfl, pathClean]
    simp only [rooted, split, kept]
    simp [last.nonempty]
  · have shape : nameOf path ++ slash :: name = keyOf (path ++ [name]) := by
      rw [nameOf, if_neg root, keyOf_concat, dirKey_eq root]
      simp
    rw [pathJoin, shape, pathClean_keyOf (plain.concat last) (by simp)]

theorem nameOf_ne_dot (plain : Plain path) (nonempty : path ≠ []) : nameOf path ≠ [dot] := by
  rw [nameOf, if_neg nonempty]
  intro same
  have split := segments_keyOf plain nonempty
  rw [same] at split
  exact (plain [dot] (split ▸ mem_singleton_self _)).notDot rfl

theorem namePath_nameOf (plain : Plain path) : namePath (nameOf path) = path := by
  by_cases root : path = []
  · subst root
    rfl
  · rw [namePath, if_neg (nameOf_ne_dot plain root), nameOf, if_neg root, segments_keyOf plain root]

theorem cutSlash_concat (name : Bytes) : cutSlash (name ++ [slash]) = some name := by
  simp [cutSlash]

theorem trimSlash_dirKey (nonempty : path ≠ []) : trimSlash (dirKey path) = nameOf path := by
  rw [dirKey_eq nonempty, trimSlash, cutSlash_concat, nameOf, if_neg nonempty, Option.getD_some]

theorem cutSlash_keyOf (plain : Plain path) : cutSlash (keyOf path) = none := by
  by_cases root : path = []
  · subst root
    rfl
  · obtain ⟨front, name, rfl⟩ := eq_nil_or_concat path |>.resolve_left root
    rw [concat_eq_append] at plain ⊢
    obtain ⟨nonempty, noSlash, -, -⟩ := plain name (by simp)
    have ending : (dirKey front ++ name).getLast? = name.getLast? :=
      getLast?_append_of_ne_nil _ nonempty
    rw [keyOf_concat, cutSlash, ending, if_neg]
    intro last
    exact noSlash (mem_of_getLast? last)

theorem pathBase_keyOf (plain : Plain (path ++ [name])) :
    pathBase (keyOf (path ++ [name])) = name := by
  rw [pathBase, segments_keyOf plain (by simp)]
  simp

theorem beforeLastSlash_concat (front : Bytes) (noSlash : slash ∉ name) :
    beforeLastSlash (front ++ slash :: name) = some front := by
  have present : slash ∈ front ++ slash :: name := by simp
  have dropped : (front ++ slash :: name).reverse.dropWhile (· ≠ slash) =
      slash :: front.reverse := by
    rw [reverse_append, reverse_cons, append_assoc, dropWhile_append_of_pos]
    · simp
    · intro byte found
      have different : byte ≠ slash := fun same =>
        noSlash (mem_reverse.mp (same ▸ found))
      simpa using different
  rw [beforeLastSlash, if_pos present, dropped]
  simp

/-- The directory from which the keys with a prefix are listed. -/
structure StartsAt (pathPrefix : Bytes) (start : Path) : Prop where
  plain : Plain start
  unreserved : ∀ name ∈ start, ¬Reserved name
  name : localListStart pathPrefix = nameOf start
  leads : dirKey start <+: pathPrefix

theorem startsAt_key (accepted : cleanKey key maxKeyBytes = .ok key) :
    StartsAt key (segments key).dropLast := by
  have plain := plain_of_cleanKey accepted
  have unreserved := not_reserved_of_cleanKey accepted
  obtain ⟨front, name, shape⟩ :=
    eq_nil_or_concat (segments key) |>.resolve_left (segments_ne_nil key)
  rw [concat_eq_append] at shape
  have whole : key = dirKey front ++ name := by
    rw [← keyOf_concat, ← shape, keyOf_segments]
  have noSlash := (plain name (shape ▸ by simp)).noSlash
  have uncut : cutSlash key = none := keyOf_segments key ▸ cutSlash_keyOf plain
  rw [shape] at plain unreserved ⊢
  rw [dropLast_concat]
  refine ⟨plain.append_left, fun name found => unreserved name (mem_append_left _ found), ?_,
    whole ▸ prefix_append _ _⟩
  rw [localListStart, uncut]
  by_cases root : front = []
  · subst root
    have absent : beforeLastSlash key = none := by
      rw [whole, dirKey_nil, nil_append, beforeLastSlash, if_neg noSlash]
    simp [absent, nameOf]
  · have found : beforeLastSlash key = some (keyOf front) := by
      rw [whole, dirKey_eq root, append_assoc, singleton_append, beforeLastSlash_concat _ noSlash]
    simp [found, nameOf, root]

theorem startsAt_directory (accepted : cleanKey key maxKeyBytes = .ok key) :
    StartsAt (key ++ [slash]) (segments key) := by
  have nonempty := segments_ne_nil key
  refine ⟨plain_of_cleanKey accepted, not_reserved_of_cleanKey accepted, ?_, ?_⟩
  · rw [localListStart, cutSlash_concat, nameOf, if_neg nonempty, keyOf_segments]
  · rw [dirKey_eq nonempty, keyOf_segments]

theorem eq_concat_of_cutSlash {before : Bytes} (cut : cutSlash name = some before) :
    name = before ++ [slash] := by
  rw [cutSlash] at cut
  split at cut
  · rename_i last
    cases cut
    exact (dropLast_append_getLast? slash last).symm
  · cases cut

/-- A valid prefix is unchanged and has a directory to start from. -/
theorem startsAt_of_cleanListPrefix {raw pathPrefix : Bytes}
    (valid : cleanListPrefix raw = .ok pathPrefix) :
    pathPrefix = raw ∧ ∃ start, StartsAt pathPrefix start := by
  rw [cleanListPrefix] at valid
  by_cases empty : raw = []
  · rw [if_pos empty] at valid
    cases valid
    exact ⟨empty.symm, [], nofun, nofun, rfl, nil_prefix⟩
  · rw [if_neg empty] at valid
    obtain ⟨⟨⟩, -, valid⟩ := exists_of_bind_eq_ok valid
    obtain ⟨clean, accepted, valid⟩ := exists_of_bind_eq_ok valid
    obtain ⟨rfl, -⟩ := cleanKey_eq_ok accepted
    cases cut : cutSlash raw with
    | some before =>
      have trimmed : trimSlash raw = before := by rw [trimSlash, cut, Option.getD_some]
      rw [cut, Option.isSome_some, if_pos rfl] at valid
      cases valid
      rw [trimmed] at accepted ⊢
      exact ⟨(eq_concat_of_cutSlash cut).symm, _, startsAt_directory accepted⟩
    | none =>
      have trimmed : trimSlash raw = raw := by rw [trimSlash, cut, Option.getD_none]
      rw [cut, Option.isSome_none, if_neg Bool.false_ne_true] at valid
      cases valid
      rw [trimmed] at accepted ⊢
      exact ⟨rfl, _, startsAt_key accepted⟩

end Golusoris.Storage
