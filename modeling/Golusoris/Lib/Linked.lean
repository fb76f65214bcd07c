import Golusoris.Lib.Lists
import Mathlib.Logic.Function.Basic

/-!
# Doubly linked queues

A queue whose cells point at their neighbours, with the two ends kept beside
them. Cells are named by keys, so the pointers are a function on keys and an
assignment through a pointer is an update of it. `Represents` says which list
of keys the pointers spell; `enqueue` and `remove` are correct with respect to
it.
-/

namespace Golusoris.Lib

open List

structure Node (κ : Type*) where
  previous : Option κ := none
  next : Option κ := none
  deriving DecidableEq, Repr

structure Links (κ : Type*) where
  head : Option κ := none
  tail : Option κ := none
  node : κ → Node κ := fun _ => {}

namespace Links

variable {κ : Type*} [DecidableEq κ]

def setPrevious (links : Links κ) (key : κ) (previous : Option κ) : Links κ :=
  { links with node := Function.update links.node key { links.node key with previous := previous } }

def setNext (links : Links κ) (key : κ) (next : Option κ) : Links κ :=
  { links with node := Function.update links.node key { links.node key with next := next } }

/-- Append a cell at the tail. -/
def enqueue (links : Links κ) (key : κ) : Links κ :=
  let linked := links.setPrevious key links.tail
  let joined :=
    match links.tail with
    | none => { linked with head := some key }
    | some last => linked.setNext last (some key)
  { joined with tail := some key }

/-- Take a cell out and clear its pointers. -/
def remove (links : Links κ) (key : κ) : Links κ :=
  let before :=
    match (links.node key).previous with
    | none => { links with head := (links.node key).next }
    | some previous => links.setNext previous (links.node key).next
  let after :=
    match (before.node key).next with
    | none => { before with tail := (before.node key).previous }
    | some next => before.setPrevious next (before.node key).previous
  { after with node := Function.update after.node key {} }

/-- The pointers spell a list of distinct keys, and every other cell is unlinked. -/
structure Represents (links : Links κ) (keys : List κ) : Prop where
  distinct : keys.Nodup
  head : links.head = keys.head?
  tail : links.tail = keys.getLast?
  linked : ∀ before key after, keys = before ++ key :: after →
    links.node key = ⟨before.getLast?, after.head?⟩
  outside : ∀ key, key ∉ keys → links.node key = {}

omit [DecidableEq κ] in
theorem represents_empty : Represents ({} : Links κ) [] where
  distinct := nodup_nil
  head := rfl
  tail := rfl
  linked := by simp
  outside := fun _ _ => rfl

variable {links : Links κ} {key : κ}

theorem enqueue_node (fresh : links.node key = {}) (apart : links.tail ≠ some key) (other : κ) :
    (links.enqueue key).node other =
      if other = key then ⟨links.tail, none⟩
      else ⟨(links.node other).previous,
        if links.tail = some other then some key else (links.node other).next⟩ := by
  cases last : links.tail with
  | none =>
    by_cases same : other = key
    · simp [enqueue, setPrevious, last, same, fresh]
    · simp [enqueue, setPrevious, last, same]
  | some tail =>
    have different : key ≠ tail := fun same => apart (by rw [last, same])
    by_cases same : other = key
    · simp [enqueue, setPrevious, setNext, last, same, fresh, different]
    · by_cases atTail : other = tail
      · simp [enqueue, setPrevious, setNext, last, atTail, Ne.symm different]
      · simp [enqueue, setPrevious, setNext, last, same, atTail, Ne.symm atTail]

/-- Appending a cell appends its key. -/
theorem Represents.enqueue {keys : List κ} (spelled : Represents links keys) (fresh : key ∉ keys) :
    Represents (links.enqueue key) (keys ++ [key]) := by
  have unlinked := spelled.outside key fresh
  have apart : links.tail ≠ some key := by
    rw [spelled.tail]
    exact fun last => fresh (mem_of_getLast? last)
  refine ⟨?_, ?_, by simp [Links.enqueue], ?_, ?_⟩
  · exact spelled.distinct.append (nodup_singleton key) (by simpa using fresh)
  · rcases eq_nil_or_concat' keys with rfl | ⟨init, last, rfl⟩
    · simp [Links.enqueue, spelled.tail]
    · have nonempty : links.tail = some last := by simp [spelled.tail]
      have head : (links.enqueue key).head = links.head := by
        simp [Links.enqueue, nonempty, setNext, setPrevious]
      rw [head, spelled.head]
      cases init <;> simp
  · intro before other after shape
    rw [enqueue_node unlinked apart]
    rcases snoc_eq_append_cons shape with ⟨rfl, rfl, rfl⟩ | ⟨rest, rfl, cut⟩
    · simp [spelled.tail]
    · have different : other ≠ key := by
        rintro rfl
        exact fresh (by simp [cut])
      rw [if_neg different, spelled.linked before other rest cut, spelled.tail, cut]
      have distinct := spelled.distinct
      rw [cut] at distinct
      rcases eq_nil_or_concat' rest with rfl | ⟨init, last, rfl⟩
      · simp
      · have later : last ≠ other := by
          rintro rfl
          simp [nodup_append, nodup_cons] at distinct
        have concat : before ++ other :: (init ++ [last]) = (before ++ other :: init) ++ [last] := by
          simp
        rw [concat, getLast?_concat]
        cases init <;> simp [later]
  · intro other outside
    have apart' : other ≠ key := fun same => outside (by simp [same])
    have old : other ∉ keys := fun member => outside (by simp [member])
    have notTail : links.tail ≠ some other := by
      rw [spelled.tail]
      exact fun last => old (mem_of_getLast? last)
    rw [enqueue_node unlinked apart, if_neg apart', if_neg notTail]
    exact spelled.outside other old

theorem remove_node (first : (links.node key).previous ≠ some key)
    (second : (links.node key).next ≠ some key) (other : κ) :
    (links.remove key).node other =
      if other = key then {}
      else ⟨if (links.node key).next = some other then (links.node key).previous
          else (links.node other).previous,
        if (links.node key).previous = some other then (links.node key).next
          else (links.node other).next⟩ := by
  rcases eq_or_ne other key with rfl | same
  · simp [remove]
  rw [if_neg same]
  cases before : (links.node key).previous with
  | none =>
    cases after : (links.node key).next with
    | none => simp [remove, before, after, same]
    | some next =>
      rcases eq_or_ne other next with rfl | atNext
      · simp [remove, setPrevious, before, after, same]
      · simp [remove, setPrevious, before, after, same, atNext, atNext.symm]
  | some previous =>
    have apart : key ≠ previous := fun equal => first (by rw [before, equal])
    cases after : (links.node key).next with
    | none =>
      rcases eq_or_ne other previous with rfl | atPrevious
      · simp [remove, setNext, before, after, apart, same]
      · simp [remove, setNext, before, after, apart, same, atPrevious, atPrevious.symm]
    | some next =>
      rcases eq_or_ne other previous with rfl | atPrevious
      · rcases eq_or_ne other next with rfl | atNext
        · simp [remove, setNext, setPrevious, before, after, apart, same]
        · simp [remove, setNext, setPrevious, before, after, apart, same, atNext, atNext.symm]
      · rcases eq_or_ne other next with rfl | atNext
        · simp [remove, setNext, setPrevious, before, after, apart, same, atPrevious,
            atPrevious.symm]
        · simp [remove, setNext, setPrevious, before, after, apart, same, atPrevious,
            atPrevious.symm, atNext, atNext.symm]

theorem remove_head (links : Links κ) (key : κ) :
    (links.remove key).head =
      if (links.node key).previous = none then (links.node key).next else links.head := by
  cases before : (links.node key).previous with
  | none =>
    cases after : (links.node key).next with
    | none => simp [remove, before, after]
    | some next => simp [remove, setPrevious, before, after]
  | some previous =>
    rw [if_neg (by simp)]
    simp only [remove, before]
    split <;> simp [setNext, setPrevious]

theorem remove_tail (first : (links.node key).previous ≠ some key) :
    (links.remove key).tail =
      if (links.node key).next = none then (links.node key).previous else links.tail := by
  cases before : (links.node key).previous with
  | none =>
    cases after : (links.node key).next with
    | none => simp [remove, before, after]
    | some next => simp [remove, setPrevious, before, after]
  | some previous =>
    have apart : key ≠ previous := fun equal => first (by rw [before, equal])
    cases after : (links.node key).next with
    | none => simp [remove, setNext, before, after, apart]
    | some next => simp [remove, setNext, setPrevious, before, after, apart]

/-- Taking a cell out takes out its key. -/
theorem Represents.remove {before after : List κ}
    (spelled : Represents links (before ++ key :: after)) :
    Represents (links.remove key) (before ++ after) := by
  have here := spelled.linked before key after rfl
  have distinct := spelled.distinct
  obtain ⟨left, right, apart⟩ := nodup_append.1 distinct
  obtain ⟨fresh, right⟩ := nodup_cons.1 right
  have absent : key ∉ before := fun member => apart key member key mem_cons_self rfl
  have first : (links.node key).previous ≠ some key := by
    rw [here]
    exact fun last => absent (mem_of_getLast? last)
  have second : (links.node key).next ≠ some key := by
    rw [here]
    exact fun head => fresh (mem_of_head? head)
  refine ⟨?_, ?_, ?_, ?_, ?_⟩
  · exact nodup_append.2 ⟨left, right,
      fun one member other later => apart one member other (mem_cons_of_mem _ later)⟩
  · rw [remove_head, here, spelled.head]
    cases before with
    | nil => simp
    | cons head before => simp
  · rw [remove_tail first, here, spelled.tail]
    cases after with
    | nil => simp
    | cons head after => simp [getLast?_append, getLast?_cons]
  · intro front other back shape
    rw [remove_node first second, here]
    have member : other ∈ before ++ after := by simp [shape]
    have same : other ≠ key := by
      rintro rfl
      rcases mem_append.1 member with inside | inside
      · exact absent inside
      · exact fresh inside
    rw [if_neg same]
    -- the other cell is behind the one that is taken out, or before it
    have cases : (∃ rest, front = before ++ rest ∧ after = rest ++ other :: back) ∨
        ∃ rest, before = front ++ other :: rest ∧ back = rest ++ after := by
      rcases append_eq_append_iff.1 shape with behind | ⟨rest, rfl, tail⟩
      · exact .inl behind
      · cases rest with
        | nil => exact .inl ⟨[], by simp, by simpa using tail.symm⟩
        | cons head rest =>
          obtain ⟨rfl, rfl⟩ := List.cons.inj tail
          exact .inr ⟨rest, rfl, rfl⟩
    rcases cases with ⟨rest, rfl, rfl⟩ | ⟨rest, rfl, rfl⟩
    · rw [spelled.linked (before ++ key :: rest) other back (by simp)]
      have notPrevious : before.getLast? ≠ some other := fun last =>
        apart other (mem_of_getLast? last) other (by simp) rfl
      rw [if_neg notPrevious]
      cases rest with
      | nil => simp
      | cons head rest =>
        have different : head ≠ other := by
          rintro rfl
          simp at right
        simp [different, getLast?_append, getLast?_cons]
    · rw [spelled.linked front other (rest ++ key :: after) (by simp)]
      have notNext : after.head? ≠ some other := fun head =>
        apart other (by simp) other (mem_cons_of_mem _ (mem_of_head? head)) rfl
      rw [if_neg notNext]
      rcases eq_nil_or_concat' rest with rfl | ⟨init, last, rfl⟩
      · simp
      · have different : last ≠ other := by
          rintro rfl
          simp [nodup_append] at left
        have concat : front ++ other :: (init ++ [last]) = (front ++ other :: init) ++ [last] := by
          simp
        rw [concat, getLast?_concat]
        cases init with
        | nil | cons _ _ => simp [different]
  · intro other outside
    rw [remove_node first second, here]
    by_cases same : other = key
    · rw [if_pos same]
    · have old : other ∉ before ++ key :: after := by
        simpa [same] using outside
      have notNext : after.head? ≠ some other :=
        fun head => outside (mem_append_right _ (mem_of_head? head))
      have notPrevious : before.getLast? ≠ some other :=
        fun last => outside (mem_append_left _ (mem_of_getLast? last))
      rw [if_neg same, if_neg notNext, if_neg notPrevious]
      exact spelled.outside other old

end Links

end Golusoris.Lib
