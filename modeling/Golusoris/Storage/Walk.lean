import Golusoris.Storage.ListExact

/-!
# Walking a bucket

This module embeds `core/storage.Walk` over any bucket. The bucket, the context and
the callback are the caller's and may change with every call: `list` and `live` take
the number of the page, `fn` the objects visited before. What a walk does is the
objects it visited, the pages it listed with their start positions, and its error.
-/

namespace Golusoris.Storage.Walk

open List
open Lib

/-- An object; the walk reads its key and passes on the rest. -/
structure Object (Rest : Type) where
  key : Bytes
  rest : Rest
  deriving DecidableEq

inductive WalkError (Failure : Type) where
  | context (cause : Failure)
  | list (cause : Failure)
  | listOrder (key after : Bytes)
  | callback (key : Bytes) (cause : Failure)
  | pageBound (after : Bytes)
  deriving DecidableEq

variable {Rest Failure : Type}

/-- What a walk did. -/
structure Walked (Rest Failure : Type) where
  visited : List (Object Rest)
  pages : List (Bytes × List (Object Rest))
  error : Option (WalkError Failure)

def maxWalkPages : Nat := 1048576

section Code

variable (live : Nat → Option Failure) (list : Nat → ListOptions → Except Failure (List (Object Rest)))
  (fn : List (Object Rest) → Object Rest → Option Failure)

/-- `walkPage`: the objects visited, and the last key. -/
def walkPage : List (Object Rest) → Bytes → List (Object Rest) →
    List (Object Rest) × Except (WalkError Failure) Bytes
  | [], after, visited => (visited, .ok after)
  | object :: page, after, visited =>
      if ¬Precedes after object.key then (visited, .error (.listOrder object.key after))
      else
        match fn visited object with
        | some cause => (visited ++ [object], .error (.callback object.key cause))
        | none => walkPage page object.key (visited ++ [object])

/-- The loop of `Walk`, with so many pages left. -/
def walkPages (options : ListOptions) : Nat → Nat → Bytes → Walked Rest Failure → Walked Rest Failure
  | 0, _, after, walked => { walked with error := some (.pageBound after) }
  | left + 1, number, after, walked =>
      match live number with
      | some cause => { walked with error := some (.context cause) }
      | none =>
          match list number { options with startAfter := after } with
          | .error cause => { walked with error := some (.list cause) }
          | .ok page =>
              let pages := walked.pages ++ [(after, page)]
              if page = [] then { walked with pages := pages }
              else
                match walkPage fn page after walked.visited with
                | (visited, .error failure) => ⟨visited, pages, some failure⟩
                | (visited, .ok next) => walkPages options left (number + 1) next ⟨visited, pages, none⟩

/-- `Walk`. -/
def walk (options : ListOptions) : Walked Rest Failure :=
  walkPages live list fn options maxWalkPages 0 options.startAfter ⟨[], [], none⟩

end Code

def keys (objects : List (Object Rest)) : List Bytes := objects.map Object.key

@[simp] theorem keys_nil : keys ([] : List (Object Rest)) = [] := rfl

@[simp] theorem keys_cons (object : Object Rest) (objects : List (Object Rest)) :
    keys (object :: objects) = object.key :: keys objects := rfl

@[simp] theorem keys_append (first second : List (Object Rest)) :
    keys (first ++ second) = keys first ++ keys second := map_append

/-- The keys come after a position, in strictly ascending order. -/
def Ascending (after : Bytes) (keys : List Bytes) : Prop := (after :: keys).Pairwise Precedes

/-- The objects visited ascend from the start, and the position is that of the last. -/
structure Tracks (start : Bytes) (visited : List (Object Rest)) (after : Bytes) : Prop where
  ascending : Ascending start (keys visited)
  below : ∀ key ∈ start :: keys visited, key = after ∨ Precedes key after

theorem Tracks.start (start : Bytes) : Tracks start ([] : List (Object Rest)) start :=
  ⟨pairwise_singleton _ _, by simp⟩

theorem Tracks.snoc {start after : Bytes} {visited : List (Object Rest)} {object : Object Rest}
    (tracks : Tracks start visited after) (later : Precedes after object.key) :
    Tracks start (visited ++ [object]) object.key := by
  have before : ∀ key ∈ start :: keys visited, Precedes key object.key := by
    intro key found
    rcases tracks.below key found with rfl | earlier
    · exact later
    · exact earlier.trans later
  constructor
  · rw [Ascending, keys_append, ← cons_append]
    refine pairwise_append.mpr ⟨tracks.ascending, pairwise_singleton _ _, ?_⟩
    intro key found other last
    rw [keys_cons, keys_nil, mem_singleton] at last
    exact last ▸ before key found
  · intro key found
    rw [keys_append, ← cons_append, mem_append] at found
    rcases found with found | last
    · exact .inr (before key found)
    · exact .inl (by simpa using last)

variable {live : Nat → Option Failure}
  {list : Nat → ListOptions → Except Failure (List (Object Rest))}
  {fn : List (Object Rest) → Object Rest → Option Failure}

/-- What a page adds ascends, whatever the page is. -/
theorem walkPage_tracks {start after : Bytes} {visited : List (Object Rest)}
    (tracks : Tracks start visited after) (page : List (Object Rest)) :
    ∃ last, Tracks start (walkPage fn page after visited).1 last ∧
      ∀ next, (walkPage fn page after visited).2 = .ok next → next = last := by
  induction page generalizing after visited with
  | nil => exact ⟨after, tracks, fun next same => (Except.ok.inj same).symm⟩
  | cons object page ih =>
    rw [walkPage]
    by_cases later : Precedes after object.key
    · rw [if_neg (not_not.mpr later)]
      cases fn visited object with
      | some cause => exact ⟨object.key, tracks.snoc later, fun next same => by cases same⟩
      | none => exact ih (tracks.snoc later)
    · rw [if_pos later]
      exact ⟨after, tracks, fun next same => by cases same⟩

theorem ascending_cons {after key : Bytes} {rest : List Bytes} :
    Ascending after (key :: rest) ↔ Precedes after key ∧ Ascending key rest := by
  constructor
  · intro ascending
    obtain ⟨below, rest⟩ := pairwise_cons.mp ascending
    exact ⟨below key mem_cons_self, rest⟩
  · rintro ⟨below, ascending⟩
    refine pairwise_cons.mpr ⟨fun other found => ?_, ascending⟩
    rcases mem_cons.mp found with rfl | found
    · exact below
    · exact below.trans ((pairwise_cons.mp ascending).1 other found)

/-- The last key of a page that is not empty. -/
def lastKey (after : Bytes) (page : List (Object Rest)) : Bytes := (keys page).getLast?.getD after

theorem lastKey_cons (after : Bytes) (object : Object Rest) (page : List (Object Rest)) :
    lastKey after (object :: page) = lastKey object.key page := by
  rw [lastKey, lastKey, keys_cons, getLast?_cons, Option.getD_some]

variable {page : List (Object Rest)}

/-- A page in order is visited whole if the callback goes along. -/
theorem walkPage_ascending {after : Bytes} (ascending : Ascending after (keys page))
    (visited : List (Object Rest)) (calm : ∀ visited object, fn visited object = none) :
    walkPage fn page after visited = (visited ++ page, .ok (lastKey after page)) := by
  induction page generalizing after visited with
  | nil => simp [walkPage, lastKey]
  | cons object page ih =>
    obtain ⟨later, ascending⟩ := ascending_cons.mp ascending
    rw [walkPage, if_neg (not_not.mpr later), calm]
    simp only
    rw [ih ascending, lastKey_cons, append_assoc, singleton_append]

/-- A page out of order is refused, or the callback fails before. -/
theorem walkPage_disordered {after : Bytes} (disordered : ¬Ascending after (keys page))
    (visited : List (Object Rest)) :
    (∃ key last, (walkPage fn page after visited).2 = .error (.listOrder key last) ∧
      ¬Precedes last key) ∨
      ∃ key cause, (walkPage fn page after visited).2 = .error (.callback key cause) ∧
        ∃ visited object, fn visited object = some cause := by
  induction page generalizing after visited with
  | nil => exact absurd (pairwise_singleton _ _) disordered
  | cons object page ih =>
    rw [walkPage]
    by_cases later : Precedes after object.key
    · rw [if_neg (not_not.mpr later)]
      cases failed : fn visited object with
      | some cause => exact .inr ⟨object.key, cause, rfl, visited, object, failed⟩
      | none =>
        refine ih (fun ascending => disordered ?_) _
        exact ascending_cons.mpr ⟨later, ascending⟩
    · rw [if_pos later]
      exact .inl ⟨object.key, after, rfl, later⟩

/-- The pages that a walk is given from a position on, the empty one at the end left
out. -/
inductive Pages (list : Nat → ListOptions → Except Failure (List (Object Rest)))
    (options : ListOptions) : Nat → Bytes → List (List (Object Rest)) → Prop where
  | done {number : Nat} {after : Bytes}
      (listed : list number { options with startAfter := after } = .ok []) :
      Pages list options number after []
  | page {number : Nat} {after : Bytes} {page : List (Object Rest)} {pages : List (List (Object Rest))}
      (listed : list number { options with startAfter := after } = .ok page) (filled : page ≠ [])
      (rest : Pages list options (number + 1) (lastKey after page) pages) :
      Pages list options number after (page :: pages)

/-- A key that the options select in a bucket that holds some keys. -/
structure Selected (Stored : Bytes → Prop) (options : ListOptions) (key : Bytes) : Prop where
  stored : Stored key
  leads : options.pathPrefix <+: key
  later : Precedes options.startAfter key

/-- The bucket holds some keys and lists a beginning of those selected, an empty one
only if there are none, from the start and from every key it may have listed. -/
def Serves (list : Nat → ListOptions → Except Failure (List (Object Rest)))
    (Stored : Bytes → Prop) (options : ListOptions) : Prop :=
  ∀ number after, after = options.startAfter ∨ Selected Stored options after →
    ∃ page, list number { options with startAfter := after } = .ok page ∧
      Leading (Selected Stored { options with startAfter := after }) (keys page) ∧
      (page = [] → ∀ key, ¬Selected Stored { options with startAfter := after } key)

variable {options : ListOptions}

theorem ascending_of_leading {Stored : Bytes → Prop} {out : List Bytes}
    (leading : Leading (Selected Stored options) out) : Ascending options.startAfter out :=
  pairwise_cons.mpr ⟨fun key found => (leading.wanted key found).later, leading.ascending⟩

theorem lastKey_mem (filled : page ≠ []) (after : Bytes) : lastKey after page ∈ keys page := by
  have some : keys page ≠ [] := by simpa [keys] using filled
  rw [lastKey, getLast?_eq_some_getLast some, Option.getD_some]
  exact getLast_mem some

theorem lastKey_last {after key : Bytes} (ascending : Ascending after (keys page))
    (found : key ∈ keys page) : key = lastKey after page ∨ Precedes key (lastKey after page) := by
  induction page generalizing after with
  | nil => cases found
  | cons object page ih =>
    obtain ⟨later, ascending⟩ := ascending_cons.mp ascending
    rw [lastKey_cons]
    rw [keys_cons, mem_cons] at found
    rcases found with rfl | found
    · cases page with
      | nil => exact .inl rfl
      | cons other page =>
        have last := lastKey_mem (cons_ne_nil other page) object.key
        exact .inr ((pairwise_cons.mp ascending).1 _ last)
    · exact ih ascending found

/-- The pages of a bucket that serves are the selected keys, in order. -/
theorem Pages.exact {Stored : Bytes → Prop} {number : Nat} {after : Bytes}
    {pages : List (List (Object Rest))} (given : Pages list options number after pages)
    (serves : Serves list Stored options)
    (reached : after = options.startAfter ∨ Selected Stored options after) :
    Ascending after (keys pages.flatten) ∧
      ∀ key, key ∈ keys pages.flatten ↔ Selected Stored { options with startAfter := after } key := by
  induction given with
  | @done number after listed =>
    obtain ⟨page, same, -, none⟩ := serves number after reached
    obtain rfl := Except.ok.inj (listed.symm.trans same)
    exact ⟨pairwise_singleton _ _, fun key => ⟨fun found => (not_mem_nil found).elim,
      fun selected => absurd selected (none rfl key)⟩⟩
  | @page number after page pages listed filled _ ih =>
    obtain ⟨other, same, leading, -⟩ := serves number after reached
    obtain rfl := Except.ok.inj (listed.symm.trans same)
    have first : Ascending after (keys page) := ascending_of_leading leading
    have last := leading.wanted _ (lastKey_mem filled after)
    have onward : Precedes after (lastKey after page) := last.later
    have start : options.startAfter = after ∨ Precedes options.startAfter after := by
      rcases reached with rfl | selected
      · exact .inl rfl
      · exact .inr selected.later
    have next : Selected Stored options (lastKey after page) := by
      refine ⟨last.stored, last.leads, ?_⟩
      rcases start with rfl | earlier
      · exact onward
      · exact earlier.trans onward
    obtain ⟨rest, members⟩ := ih (.inr next)
    rw [flatten_cons, keys_append]
    constructor
    · rw [Ascending, ← cons_append]
      refine pairwise_append.mpr ⟨first, (pairwise_cons.mp rest).2, ?_⟩
      intro key found other later
      have beyond := (pairwise_cons.mp rest).1 other later
      rcases mem_cons.mp found with rfl | found
      · exact onward.trans beyond
      · rcases lastKey_last first found with rfl | earlier
        · exact beyond
        · exact earlier.trans beyond
    · intro key
      rw [mem_append, members key]
      constructor
      · rintro (found | selected)
        · exact leading.wanted key found
        · exact ⟨selected.stored, selected.leads, onward.trans selected.later⟩
      · intro selected
        rcases leading.rest key selected with found | above
        · exact .inl found
        · exact .inr ⟨selected.stored, selected.leads, above _ (lastKey_mem filled after)⟩

/-- A walk over pages in order that end within the bound visits them all. -/
theorem walkPages_pages {number left : Nat} {after : Bytes} {pages : List (List (Object Rest))}
    (given : Pages list options number after pages)
    (ascending : Ascending after (keys pages.flatten)) (few : pages.length < left)
    (calm : ∀ visited object, fn visited object = none) (alive : ∀ number, live number = none)
    {walked : Walked Rest Failure} (clean : walked.error = none) :
    (walkPages live list fn options left number after walked).error = none ∧
      (walkPages live list fn options left number after walked).visited =
        walked.visited ++ pages.flatten := by
  induction given generalizing left walked with
  | @done number after listed =>
    obtain ⟨left, rfl⟩ : ∃ less, left = less + 1 := ⟨left - 1, by simp at few; omega⟩
    rw [walkPages, alive, listed]
    simp [clean]
  | @page number after page pages listed filled _ ih =>
    obtain ⟨left, rfl⟩ : ∃ less, left = less + 1 := ⟨left - 1, by simp at few; omega⟩
    rw [length_cons] at few
    rw [flatten_cons, keys_append, Ascending, ← cons_append] at ascending
    obtain ⟨first, rest, across⟩ := pairwise_append.mp ascending
    have onward : Ascending (lastKey after page) (keys pages.flatten) := by
      refine pairwise_cons.mpr ⟨fun key found => ?_, rest⟩
      exact across _ (mem_cons_of_mem _ (lastKey_mem filled after)) key found
    rw [walkPages, alive, listed]
    simp only
    rw [if_neg filled, walkPage_ascending first _ calm]
    obtain ⟨fine, visited⟩ := @ih left onward (by omega)
      ⟨walked.visited ++ page, walked.pages ++ [(after, page)], none⟩ rfl
    refine ⟨fine, visited.trans ?_⟩
    rw [flatten_cons, append_assoc]

/-- What holds of every walk so far: the visited keys ascend, and every page listed was
in order unless the walk ended with an error that says so. -/
structure Careful (fn : List (Object Rest) → Object Rest → Option Failure) (start : Bytes)
    (walked : Walked Rest Failure) : Prop where
  ascending : Ascending start (keys walked.visited)
  ordered : ∀ entry ∈ walked.pages, Ascending entry.1 (keys entry.2) ∨
    (∃ key last, walked.error = some (.listOrder key last) ∧ ¬Precedes last key) ∨
      ∃ key cause, walked.error = some (.callback key cause) ∧
        ∃ visited object, fn visited object = some cause

theorem walkPages_careful {start : Bytes} (left number : Nat) {after : Bytes}
    {walked : Walked Rest Failure} (tracks : Tracks start walked.visited after)
    (inOrder : ∀ entry ∈ walked.pages, Ascending entry.1 (keys entry.2)) :
    Careful fn start (walkPages live list fn options left number after walked) ∧
      (walkPages live list fn options left number after walked).pages.length ≤
        walked.pages.length + left := by
  induction left generalizing number after walked with
  | zero => exact ⟨⟨tracks.ascending, fun entry found => .inl (inOrder entry found)⟩, Nat.le_refl _⟩
  | succ left ih =>
    have still : ∀ error : Option (WalkError Failure), Careful fn start { walked with error := error } ∧
        walked.pages.length ≤ walked.pages.length + (left + 1) := fun error =>
      ⟨⟨tracks.ascending, fun entry found => .inl (inOrder entry found)⟩, Nat.le_add_right _ _⟩
    rw [walkPages]
    cases live number with
    | some cause => exact still _
    | none =>
      cases list number { options with startAfter := after } with
      | error cause => exact still _
      | ok page =>
        obtain ⟨last, tracked, next⟩ := walkPage_tracks tracks page
        have more : ∀ entry ∈ walked.pages ++ [(after, page)],
            Ascending entry.1 (keys entry.2) ∨ entry = (after, page) := by
          intro entry found
          rcases mem_append.mp found with found | found
          · exact .inl (inOrder entry found)
          · exact .inr (mem_singleton.mp found)
        simp only
        by_cases empty : page = []
        · rw [if_pos empty]
          refine ⟨⟨tracks.ascending, fun entry found => ?_⟩, by simp⟩
          rcases more entry found with fine | rfl
          · exact .inl fine
          · subst empty
            exact .inl (pairwise_singleton _ _)
        · rw [if_neg empty]
          by_cases fine : Ascending after (keys page)
          · have inside : ∀ entry ∈ walked.pages ++ [(after, page)],
                Ascending entry.1 (keys entry.2) := by
              intro entry found
              rcases more entry found with earlier | rfl
              · exact earlier
              · exact fine
            cases outcome : walkPage fn page after walked.visited with
            | mk visited result =>
              rw [outcome] at tracked next
              cases result with
              | error failure =>
                exact ⟨⟨tracked.ascending, fun entry found => .inl (inside entry found)⟩, by simp⟩
              | ok key =>
                obtain rfl := next key rfl
                obtain ⟨careful, bounded⟩ :=
                  @ih (number + 1) key ⟨visited, walked.pages ++ [(after, page)], none⟩
                    tracked inside
                refine ⟨careful, Nat.le_trans bounded ?_⟩
                simp only [length_append, length_singleton]
                omega
          · have refused := @walkPage_disordered _ _ fn _ _ fine walked.visited
            cases outcome : walkPage fn page after walked.visited with
            | mk visited result =>
              rw [outcome] at tracked refused
              refine ⟨?_, ?_⟩
              · rcases refused with ⟨key, late, rfl, wrong⟩ | ⟨key, cause, rfl, failed⟩
                · exact ⟨tracked.ascending, fun entry _ => .inr (.inl ⟨key, late, rfl, wrong⟩)⟩
                · exact ⟨tracked.ascending, fun entry _ => .inr (.inr ⟨key, cause, rfl, failed⟩)⟩
              · rcases refused with ⟨key, late, rfl, wrong⟩ | ⟨key, cause, rfl, -⟩ <;> simp

/-- Normalizing the options keeps what they select, and says that this is nothing only
when it is nothing for every bucket. -/
def KeepsSelection (options : ListOptions) : Prop :=
  ∀ query empty, normalizeListOptions options = .ok (query, empty) →
    ∀ Stored key, Selected Stored options key ↔ empty = false ∧
      Stored key ∧ query.pathPrefix <+: key ∧ Precedes query.after key

theorem keepsSelection (options : ListOptions) : KeepsSelection options := by
  intro query empty valid Stored key
  have normalized := normalized_of_eq_ok valid
  cases empty with
  | false =>
    constructor
    · rintro ⟨stored, leads, later⟩
      rw [← normalized.pathPrefix] at leads
      exact ⟨rfl, stored, leads, (normalized.after rfl key leads).mpr later⟩
    · rintro ⟨-, stored, leads, later⟩
      exact ⟨stored, normalized.pathPrefix ▸ leads, (normalized.after rfl key leads).mp later⟩
  | true =>
    refine iff_of_false ?_ fun wanted => by cases wanted.1
    rintro ⟨-, ⟨rest, rfl⟩, later⟩
    obtain ⟨apart, beyond⟩ := normalized.beyond rfl
    rw [normalized.pathPrefix] at apart beyond
    have before := beyond.append apart rest []
    rw [append_nil] at before
    exact before.asymm later

/-- A bucket that serves is walked exactly, within the bound on pages; any bucket is
walked in ascending order, and a page that breaks it ends the walk; the options that a
bucket normalizes select the same keys. -/
theorem walk_exhaustive (list : Nat → ListOptions → Except Failure (List (Object Rest)))
    (options : ListOptions) :
    (∀ live fn, (∀ number, live number = none) → (∀ visited object, fn visited object = none) →
      ∀ Stored, Serves list Stored options →
      ∀ pages, Pages list options 0 options.startAfter pages → pages.length ≤ maxWalkPages - 1 →
        (walk live list fn options).error = none ∧
        (keys (walk live list fn options).visited).Pairwise Precedes ∧
        ∀ key, key ∈ keys (walk live list fn options).visited ↔ Selected Stored options key) ∧
    (∀ live fn, Careful fn options.startAfter (walk live list fn options) ∧
      (walk live list fn options).pages.length ≤ maxWalkPages) ∧
    KeepsSelection options := by
  refine ⟨?_, ?_, keepsSelection options⟩
  · intro live fn alive calm Stored serves pages given few
    obtain ⟨ascending, members⟩ := given.exact serves (.inl rfl)
    obtain ⟨fine, visited⟩ := @walkPages_pages _ _ live list fn options 0 maxWalkPages _ pages given
      ascending (by rw [maxWalkPages] at few ⊢; omega) calm alive ⟨[], [], none⟩ rfl
    rw [walk, visited, List.nil_append]
    exact ⟨fine, (List.pairwise_cons.mp ascending).2, members⟩
  · intro live fn
    obtain ⟨careful, bounded⟩ := @walkPages_careful _ _ live list fn options options.startAfter
      maxWalkPages 0 _ ⟨[], [], none⟩ (.start _) (by simp)
    rw [List.length_nil, Nat.zero_add] at bounded
    exact ⟨careful, bounded⟩

/-- A bucket with one key. -/
def singleList (_ : Nat) (options : ListOptions) : Except Unit (List (Object Unit)) :=
  .ok (if Precedes options.startAfter [0x61] then [⟨[0x61], ()⟩] else [])

theorem serves_singleList : Serves singleList (· = [0x61]) {} := by
  intro number after _
  refine ⟨_, rfl, ?_⟩
  by_cases earlier : Precedes after [0x61]
  · simp only [if_pos earlier]
    refine ⟨⟨pairwise_singleton _ _, ?_, ?_⟩, nofun⟩
    · intro key found
      obtain rfl := mem_singleton.mp found
      exact ⟨rfl, nil_prefix, earlier⟩
    · rintro key ⟨rfl, -, -⟩
      exact .inl mem_cons_self
  · simp only [if_neg earlier]
    have none : ∀ key, ¬Selected (· = [0x61]) { startAfter := after } key := by
      rintro key ⟨rfl, -, later⟩
      exact earlier later
    exact ⟨⟨.nil, by simp, fun key selected => absurd selected (none key)⟩, fun _ => none⟩

theorem walk_exhaustive_single :
    keys (walk (fun _ => none) singleList (fun _ _ => none) {}).visited = [[0x61]] := by
  have given : Pages singleList {} 0 [] [[⟨[0x61], ()⟩]] :=
    .page rfl (List.cons_ne_nil _ _) (.done rfl)
  obtain ⟨-, ascending, members⟩ := (walk_exhaustive singleList {}).1 (fun _ => none) (fun _ _ => none)
    (fun _ => rfl) (fun _ _ => rfl) (· = [0x61]) serves_singleList _ given (by decide)
  have only : ∀ key, key ∈ keys (walk (fun _ => none) singleList (fun _ _ => none) {}).visited ↔
      key = [0x61] := fun key =>
    (members key).trans ⟨fun selected => selected.stored, by rintro rfl; exact ⟨rfl, List.nil_prefix, trivial⟩⟩
  generalize keys (walk (fun _ => none) singleList (fun _ _ => none) {}).visited = visited at ascending only
  cases visited with
  | nil => exact absurd ((only [0x61]).mpr rfl) List.not_mem_nil
  | cons first rest =>
    obtain rfl := (only first).mp List.mem_cons_self
    cases rest with
    | nil => rfl
    | cons second rest =>
      obtain rfl := (only second).mp (by simp)
      exact absurd ((List.pairwise_cons.mp ascending).1 _ List.mem_cons_self) (Precedes.irrefl _)

end Golusoris.Storage.Walk
