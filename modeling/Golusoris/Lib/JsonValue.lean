import Golusoris.Lib.Dict
import Golusoris.Lib.JsonString

/-!
# Strings and objects in JSON

The string that a JSON package writes for a text, the object that it writes for
names and values without white space, and how deep that nests.
-/

namespace Golusoris.Lib

-- Named, so that maps over texts are the same wherever they are made.
instance lt_bytes : LT Bytes := inferInstance
instance decidableLT_bytes : DecidableLT Bytes := inferInstance
instance irrefl_bytes : @Std.Irrefl Bytes (· < ·) := inferInstance
instance isTrans_lt_bytes : IsTrans Bytes (· < ·) := inferInstance
instance trichotomous_bytes : @Std.Trichotomous Bytes (· < ·) := inferInstance

namespace Json

theorem blank_nil : Blank [] := rfl

/-- How deep the scanner lets arrays and objects nest. -/
def maxNestingDepth : Nat := 10000

def marshalString (text : Bytes) : Bytes := quotes (quote text)

/-- The members of an object, compact. -/
def membersOf : Bytes × Phrase .value → List (Bytes × Phrase .value) → Phrase .members
  | (name, value), [] => .lastMember [] (quote name) [] [] value []
  | (name, value), next :: rest => .member [] (quote name) [] [] value [] (membersOf next rest)

def objectOf : List (Bytes × Phrase .value) → Phrase .value
  | [] => .emptyObject []
  | first :: rest => .object (membersOf first rest)

theorem wellFormed_membersOf {first : Bytes × Phrase .value} {rest : List (Bytes × Phrase .value)}
    (written : ∀ entry ∈ first :: rest, entry.2.WellFormed) : (membersOf first rest).WellFormed := by
  induction rest generalizing first with
  | nil =>
    exact ⟨⟨blank_nil, wellQuoted_of_body (body_quote _), blank_nil, blank_nil⟩,
      written first List.mem_cons_self, blank_nil⟩
  | cons next rest ih =>
    exact ⟨⟨⟨blank_nil, wellQuoted_of_body (body_quote _), blank_nil, blank_nil⟩,
      written first List.mem_cons_self, blank_nil⟩,
      ih fun entry found => written entry (List.mem_cons_of_mem _ found)⟩

theorem depth_membersOf {first : Bytes × Phrase .value} {rest : List (Bytes × Phrase .value)}
    {bound : Nat} :
    (membersOf first rest).depth ≤ bound ↔ ∀ entry ∈ first :: rest, entry.2.depth ≤ bound := by
  induction rest generalizing first with
  | nil => simp [membersOf, Phrase.depth]
  | cons next rest ih => simp [membersOf, Phrase.depth, Nat.max_le, ih]

theorem wellFormed_objectOf {values : List (Bytes × Phrase .value)}
    (written : ∀ entry ∈ values, entry.2.WellFormed) : (objectOf values).WellFormed := by
  cases values with
  | nil => exact blank_nil
  | cons first rest => exact wellFormed_membersOf written

/-- An object leaves its values one level less. -/
theorem depth_objectOf {values : List (Bytes × Phrase .value)} {bound : Nat} :
    (objectOf values).depth ≤ bound + 1 ↔ ∀ entry ∈ values, entry.2.depth ≤ bound := by
  cases values with
  | nil => simp [objectOf, Phrase.depth]
  | cons first rest =>
    rw [objectOf, Phrase.depth, Nat.add_le_add_iff_right, depth_membersOf]

end Json

end Golusoris.Lib
