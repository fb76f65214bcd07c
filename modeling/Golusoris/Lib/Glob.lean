import Mathlib.Data.List.Infix
import Mathlib.Tactic.Common

/-!
# Glob-style patterns

`GlobStyle` collects the rules of a byte matcher for patterns with `*`, `?`,
character classes and a backslash that takes the next byte verbatim. The rule
for a class leaves open which bytes it accepts, and how a class that is never
closed reads, as long as it takes one byte and reaches past its bracket.

A pattern that ends in a star has a match no longer than what stands before the
star, if it has one at all. `prefix_iff` turns that into the exact condition
under which such a pattern is a test for a leading part.
-/

namespace Golusoris.Lib

open List

abbrev Text := List UInt8

namespace Glob

def star : UInt8 := 42

def question : UInt8 := 63

def bracket : UInt8 := 91

def backslash : UInt8 := 92

def special (byte : UInt8) : Bool :=
  byte == star || byte == question || byte == bracket || byte == backslash

theorem cases (byte : UInt8) :
    byte = star ∨ byte = question ∨ byte = bracket ∨ byte = backslash ∨ special byte = false := by
  unfold special
  by_cases one : byte = star
  · exact .inl one
  · by_cases two : byte = question
    · exact .inr (.inl two)
    · by_cases three : byte = bracket
      · exact .inr (.inr (.inl three))
      · by_cases four : byte = backslash
        · exact .inr (.inr (.inr (.inl four)))
        · exact .inr (.inr (.inr (.inr (by simp [one, two, three, four]))))

end Glob

open Glob

variable {glob : Text → Text → Bool} {pattern text : Text}

/-- The rules of a glob-style matcher, by the first byte of the pattern. -/
structure GlobStyle (glob : Text → Text → Bool) : Prop where
  done : ∀ text, glob [] text = true ↔ text = []
  literal : ∀ byte pattern text, special byte = false →
    (glob (byte :: pattern) text = true ↔ ∃ rest, text = byte :: rest ∧ glob pattern rest = true)
  any : ∀ pattern text, glob (question :: pattern) text = true ↔
    ∃ byte rest, text = byte :: rest ∧ glob pattern rest = true
  star : ∀ pattern text, glob (star :: pattern) text = true ↔
    ∃ rest, rest <:+ text ∧ glob pattern rest = true
  escape : ∀ byte pattern text, glob (backslash :: byte :: pattern) text = true ↔
    ∃ rest, text = byte :: rest ∧ glob pattern rest = true
  bracket : ∀ pattern byte, ∃ (accepts : UInt8 → Bool) (after : Text),
    after <:+ pattern ∧ ∀ text, glob (bracket :: byte :: pattern) text = true ↔
      ∃ first rest, text = first :: rest ∧ accepts first = true ∧ glob after rest = true

namespace GlobStyle

/-- Bytes that are not special stand for themselves. -/
theorem literal_append (style : GlobStyle glob) {plain : Text}
    (literal : ∀ byte ∈ plain, special byte = false) (pattern text : Text) :
    glob (plain ++ pattern) text = true ↔ ∃ rest, text = plain ++ rest ∧ glob pattern rest = true := by
  induction plain generalizing text with
  | nil => simp
  | cons byte plain ih =>
    have rule := style.literal byte (plain ++ pattern) text (literal byte mem_cons_self)
    have tail : ∀ byte ∈ plain, special byte = false :=
      fun other member => literal other (mem_cons_of_mem _ member)
    rw [cons_append, rule]
    constructor
    · rintro ⟨after, rfl, found⟩
      obtain ⟨rest, same, matched⟩ := (ih tail after).mp found
      exact ⟨rest, by rw [same]; rfl, matched⟩
    · rintro ⟨rest, rfl, found⟩
      exact ⟨plain ++ rest, rfl, (ih tail _).mpr ⟨rest, rfl, found⟩⟩

/-- The part of a pattern that follows a class is empty or still ends in the
star. -/
theorem suffix_star {after front : Text} (suffix : after <:+ front ++ [Glob.star]) :
    after = [] ∨ ∃ back, after = back ++ [Glob.star] ∧ back.length ≤ front.length := by
  rcases eq_nil_or_concat after with rfl | ⟨back, last, rfl⟩
  · exact .inl rfl
  · obtain ⟨lead, same⟩ := suffix
    rw [concat_eq_append, ← append_assoc] at same
    obtain ⟨rfl, ends⟩ := append_inj' same rfl
    obtain rfl := singleton_inj.mp ends
    exact .inr ⟨back, concat_eq_append, by simp⟩

/-- A class before the star: what follows it is over, or is itself a pattern
with a star at its end and shorter than what the class started in. -/
theorem bracket_star (style : GlobStyle glob) (front : Text) :
    ∃ accepts : UInt8 → Bool,
      (∀ text, glob (Glob.bracket :: front ++ [Glob.star]) text = true ↔
        ∃ first, text = [first] ∧ accepts first = true) ∨
      ∃ back, back.length < front.length ∧
        ∀ text, glob (Glob.bracket :: front ++ [Glob.star]) text = true ↔
          ∃ first rest, text = first :: rest ∧ accepts first = true ∧
            glob (back ++ [Glob.star]) rest = true := by
  have whole : ∀ {accepts : UInt8 → Bool} {pattern : Text},
      (∀ text, glob pattern text = true ↔
        ∃ first rest, text = first :: rest ∧ accepts first = true ∧ glob [] rest = true) →
      ∀ text, glob pattern text = true ↔ ∃ first, text = [first] ∧ accepts first = true := by
    intro accepts pattern rule text
    rw [rule]
    constructor
    · rintro ⟨first, rest, rfl, accepted, ends⟩
      rw [(style.done rest).mp ends]
      exact ⟨first, rfl, accepted⟩
    · rintro ⟨first, rfl, accepted⟩
      exact ⟨first, [], rfl, accepted, (style.done []).mpr rfl⟩
  cases front with
  | nil =>
    obtain ⟨accepts, after, suffix, rule⟩ := style.bracket [] Glob.star
    obtain rfl := suffix_nil.mp suffix
    exact ⟨accepts, .inl (whole rule)⟩
  | cons byte front =>
    obtain ⟨accepts, after, suffix, rule⟩ := style.bracket (front ++ [Glob.star]) byte
    refine ⟨accepts, ?_⟩
    rcases suffix_star suffix with rfl | ⟨back, rfl, shorter⟩
    · exact .inl (whole rule)
    · exact .inr ⟨back, Nat.lt_succ_of_le shorter, rule⟩

/-- A pattern with a star at its end has no need of texts longer than the
pattern. -/
theorem short_match (style : GlobStyle glob) (front text : Text)
    (found : glob (front ++ [Glob.star]) text = true) :
    ∃ short, short.length ≤ front.length ∧ glob (front ++ [Glob.star]) short = true := by
  induction length : front.length using Nat.strong_induction_on generalizing front text with
  | _ n ih =>
    subst length
    match front with
    | [] =>
      refine ⟨[], Nat.le_refl 0, (style.star [] []).mpr ⟨[], suffix_refl _, ?_⟩⟩
      exact (style.done []).mpr rfl
    | byte :: front =>
      have tail : ∀ rest, glob (front ++ [Glob.star]) rest = true →
          ∃ short, short.length ≤ front.length ∧ glob (front ++ [Glob.star]) short = true :=
        fun rest found => ih front.length (Nat.lt_succ_self _) front rest found rfl
      rcases Glob.cases byte with rfl | rfl | rfl | rfl | plain
      · obtain ⟨rest, -, found⟩ := (style.star _ _).mp found
        obtain ⟨short, bound, found⟩ := tail rest found
        exact ⟨short, Nat.le_succ_of_le bound, (style.star _ _).mpr ⟨short, suffix_refl _, found⟩⟩
      · obtain ⟨first, rest, -, matched⟩ := (style.any _ _).mp found
        obtain ⟨short, bound, found⟩ := tail rest matched
        exact ⟨first :: short, Nat.succ_le_succ bound,
          (style.any _ _).mpr ⟨first, short, rfl, found⟩⟩
      · obtain ⟨accepts, rule | ⟨back, shorter, rule⟩⟩ := style.bracket_star front
        · obtain ⟨first, rfl, accepted⟩ := (rule text).mp found
          exact ⟨[first], Nat.succ_le_succ (Nat.zero_le _), found⟩
        · obtain ⟨first, rest, rfl, accepted, found⟩ := (rule text).mp found
          obtain ⟨short, bound, found⟩ :=
            ih back.length (Nat.lt_succ_of_lt shorter) back rest found rfl
          refine ⟨first :: short, ?_, (rule _).mpr ⟨first, short, rfl, accepted, found⟩⟩
          simp only [length_cons]
          omega
      · cases front with
        | nil =>
          obtain ⟨rest, rfl, ends⟩ := (style.escape _ _ _).mp found
          obtain rfl := (style.done rest).mp ends
          exact ⟨[Glob.star], Nat.le_refl _, found⟩
        | cons next front =>
          obtain ⟨rest, -, matched⟩ := (style.escape _ _ _).mp found
          obtain ⟨short, bound, found⟩ :=
            ih front.length (by simp only [length_cons]; omega) front rest matched rfl
          refine ⟨next :: short, ?_, (style.escape _ _ _).mpr ⟨short, rfl, found⟩⟩
          simp only [length_cons]
          omega
      · obtain ⟨rest, -, matched⟩ := (style.literal _ _ _ plain).mp found
        obtain ⟨short, bound, found⟩ := tail rest matched
        exact ⟨byte :: short, Nat.succ_le_succ bound,
          (style.literal _ _ _ plain).mpr ⟨short, rfl, found⟩⟩

/-- A pattern that begins with a special byte is no test for a leading part. -/
theorem special_not_prefix (style : GlobStyle glob) {byte : UInt8} (special : special byte = true)
    (rest : Text) :
    ¬ ∀ text, glob (byte :: rest ++ [Glob.star]) text = true ↔ byte :: rest <+: text := by
  intro agrees
  have itself : glob (byte :: rest ++ [Glob.star]) (byte :: rest) = true :=
    (agrees _).mpr (prefix_refl _)
  have long : ∀ text, glob (byte :: rest ++ [Glob.star]) text = true → rest.length < text.length := by
    intro text found
    exact ((agrees text).mp found).length_le
  rcases Glob.cases byte with rfl | rfl | rfl | rfl | plain
  · obtain ⟨after, -, found⟩ := (style.star _ _).mp itself
    obtain ⟨short, bound, found⟩ := style.short_match rest after found
    have := long short ((style.star _ _).mpr ⟨short, suffix_refl _, found⟩)
    omega
  · obtain ⟨first, after, same, found⟩ := (style.any _ _).mp itself
    -- Any byte will do in place of the question mark.
    have other := (agrees (Glob.star :: after)).mp ((style.any _ _).mpr ⟨_, after, rfl, found⟩)
    exact absurd (cons_prefix_cons.mp other).1 (by decide)
  · obtain ⟨accepts, rule | ⟨back, shorter, rule⟩⟩ := style.bracket_star rest
    · have longer := (agrees (Glob.bracket :: rest ++ [0])).mpr (prefix_append _ _)
      obtain ⟨first, same, -⟩ := (rule _).mp longer
      simp at same
    · obtain ⟨first, after, -, accepted, found⟩ := (rule _).mp itself
      obtain ⟨short, bound, found⟩ := style.short_match back after found
      have := long (first :: short) ((rule _).mpr ⟨first, short, rfl, accepted, found⟩)
      simp only [length_cons] at this
      omega
  · cases rest with
    | nil =>
      obtain ⟨after, same, -⟩ := (style.escape _ _ _).mp itself
      exact absurd (List.cons.inj same).1 (by decide)
    | cons next rest =>
      obtain ⟨after, -, found⟩ := (style.escape _ _ _).mp itself
      obtain ⟨short, bound, found⟩ := style.short_match rest after found
      have := long (next :: short) ((style.escape _ _ _).mpr ⟨short, rfl, found⟩)
      simp only [length_cons] at this
      omega
  · rw [plain] at special
    cases special

/-- A text with a star behind it is a test for that text as a leading part
exactly when none of its bytes is special. -/
theorem prefix_iff (style : GlobStyle glob) (lead : Text) :
    (∀ text, glob (lead ++ [Glob.star]) text = true ↔ lead <+: text) ↔
      ∀ byte ∈ lead, special byte = false := by
  constructor
  · intro agrees
    cases found : lead.find? special with
    | none =>
      intro byte member
      simpa using find?_eq_none.mp found byte member
    | some byte =>
      -- The pattern fails from its first special byte on.
      obtain ⟨isSpecial, plain, rest, rfl, before⟩ := find?_eq_some_iff_append.mp found
      have literal : ∀ byte ∈ plain, special byte = false := by simpa using before
      refine absurd ?_ (style.special_not_prefix isSpecial rest)
      intro text
      have whole := agrees (plain ++ text)
      rw [append_assoc, style.literal_append literal, prefix_append_right_inj] at whole
      rw [← whole]
      constructor
      · intro matched
        exact ⟨text, rfl, matched⟩
      · rintro ⟨other, same, matched⟩
        rwa [append_cancel_left same]
  · intro literal text
    rw [style.literal_append literal]
    constructor
    · rintro ⟨rest, rfl, -⟩
      exact prefix_append _ _
    · rintro ⟨rest, rfl⟩
      refine ⟨rest, rfl, (style.star [] rest).mpr ⟨[], nil_suffix, ?_⟩⟩
      exact (style.done []).mpr rfl

end GlobStyle

namespace Glob

def closing : UInt8 := 93

def caret : UInt8 := 94

def dash : UInt8 := 45

/-- Whether a class accepts a byte, and the pattern behind its bracket. A class
that is not closed reaches to the end. -/
def readClass (byte : UInt8) : Text → Bool × Text
  | [] => (false, [])
  | [first] => (first != closing && first == byte, [])
  | first :: second :: after =>
      if first = closing then (false, second :: after)
      else if first = backslash then
        (second == byte || (readClass byte after).1, (readClass byte after).2)
      else if second = dash then
        match after with
        | [] => (first == byte || second == byte, [])
        | third :: after =>
            (min first third ≤ byte && byte ≤ max first third || (readClass byte after).1,
              (readClass byte after).2)
      else
        (first == byte || (readClass byte (second :: after)).1,
          (readClass byte (second :: after)).2)

/-- A class behind its opening bracket; a caret turns it round. -/
def openClass (byte : UInt8) : Text → Bool × Text
  | [] => readClass byte []
  | first :: pattern =>
      if first = caret then (!(readClass byte pattern).1, (readClass byte pattern).2)
      else readClass byte (first :: pattern)

def matchWith : Nat → Text → Text → Bool
  | _, [], text => text.isEmpty
  | 0, _ :: _, _ => false
  | fuel + 1, byte :: pattern, text =>
      if byte = star then text.tails.any (matchWith fuel pattern)
      else
        match text with
        | [] => false
        | first :: rest =>
            if byte = question then matchWith fuel pattern rest
            else if byte = bracket then
              (openClass first pattern).1 && matchWith fuel (openClass first pattern).2 rest
            else if byte = backslash then
              match pattern with
              | [] => first == byte && rest.isEmpty
              | next :: pattern => first == next && matchWith fuel pattern rest
            else first == byte && matchWith fuel pattern rest

/-- Every step takes at least one byte off the pattern. -/
def matchGlob (pattern text : Text) : Bool := matchWith pattern.length pattern text

theorem readClass_cons (byte first second : UInt8) (after : Text) :
    readClass byte (first :: second :: after) =
      if first = closing then (false, second :: after)
      else if first = backslash then
        (second == byte || (readClass byte after).1, (readClass byte after).2)
      else if second = dash then
        match after with
        | [] => (first == byte || second == byte, [])
        | third :: after =>
          (min first third ≤ byte && byte ≤ max first third || (readClass byte after).1,
            (readClass byte after).2)
      else
        (first == byte || (readClass byte (second :: after)).1,
          (readClass byte (second :: after)).2) :=
  readClass.eq_def byte (first :: second :: after)

theorem readClass_suffix (byte : UInt8) (pattern : Text) :
    (readClass byte pattern).2 <:+ pattern := by
  fun_induction readClass byte pattern with
  | case1 => exact suffix_refl _
  | case2 _ | case5 => exact nil_suffix
  | case3 second after => exact suffix_cons ..
  | case4 second after closes ih => exact ih.trans ((suffix_cons ..).trans (suffix_cons ..))
  | case6 first closes escapes third after ih =>
    exact ih.trans ((suffix_cons ..).trans ((suffix_cons ..).trans (suffix_cons ..)))
  | case7 first second after closes escapes dashes ih => exact ih.trans (suffix_cons ..)

/-- A class takes up at least the byte behind its bracket. -/
theorem readClass_tail (byte first : UInt8) (pattern : Text) :
    (readClass byte (first :: pattern)).2 <:+ pattern := by
  cases pattern with
  | nil => exact nil_suffix
  | cons second after =>
    rw [readClass_cons]
    split_ifs with closes escapes dashes
    · exact suffix_refl _
    · exact (readClass_suffix byte after).trans (suffix_cons ..)
    · cases after with
      | nil => exact nil_suffix
      | cons third after =>
        exact (readClass_suffix byte after).trans ((suffix_cons ..).trans (suffix_cons ..))
    · exact readClass_suffix byte (second :: after)

/-- Where a class ends does not depend on the byte it is asked about. -/
theorem readClass_after (byte other : UInt8) (pattern : Text) :
    (readClass byte pattern).2 = (readClass other pattern).2 := by
  fun_induction readClass byte pattern with
  | case1 => rfl
  | case2 first => rfl
  | case3 second after =>
    rw [readClass_cons, if_pos rfl]
  | case4 second after closes ih =>
    rw [readClass_cons, if_neg closes, if_pos rfl]
    exact ih
  | case5 first closes escapes =>
    rw [readClass_cons, if_neg closes, if_neg escapes, if_pos rfl]
  | case6 first closes escapes third after ih =>
    rw [readClass_cons, if_neg closes, if_neg escapes, if_pos rfl]
    exact ih
  | case7 first second after closes escapes dashes ih =>
    rw [readClass_cons, if_neg closes, if_neg escapes, if_neg dashes]
    exact ih

theorem openClass_after (byte other : UInt8) (pattern : Text) :
    (openClass byte pattern).2 = (openClass other pattern).2 := by
  cases pattern with
  | nil => rfl
  | cons first pattern =>
    by_cases turned : first = caret
    · simpa [openClass, turned] using readClass_after byte other pattern
    · simpa [openClass, turned] using readClass_after byte other (first :: pattern)

theorem openClass_suffix (byte first : UInt8) (pattern : Text) :
    (openClass byte (first :: pattern)).2 <:+ pattern := by
  by_cases turned : first = caret
  · simpa [openClass, turned] using readClass_suffix byte pattern
  · simpa [openClass, turned] using readClass_tail byte first pattern

theorem openClass_length (byte : UInt8) (pattern : Text) :
    (openClass byte pattern).2.length ≤ pattern.length := by
  cases pattern with
  | nil => exact Nat.le_refl _
  | cons first pattern => exact Nat.le_succ_of_le (openClass_suffix byte first pattern).length_le

theorem matchWith_fuel (fuel : Nat) (pattern text : Text) (enough : pattern.length ≤ fuel) :
    matchWith fuel pattern text = matchGlob pattern text := by
  unfold matchGlob
  suffices same : ∀ fuel other pattern text, pattern.length ≤ fuel → pattern.length ≤ other →
      matchWith fuel pattern text = matchWith other pattern text from
    same fuel pattern.length pattern text enough (Nat.le_refl _)
  clear enough
  intro fuel
  induction fuel with
  | zero =>
    intro other pattern text enough _
    obtain rfl := length_eq_zero_iff.mp (Nat.le_zero.mp enough)
    simp [matchWith]
  | succ fuel ih =>
    intro other pattern text enough enough'
    match pattern, other with
    | [], _ => simp [matchWith]
    | byte :: pattern, 0 => simp at enough'
    | byte :: pattern, other + 1 =>
      have shorter := Nat.le_of_succ_le_succ enough
      have shorter' := Nat.le_of_succ_le_succ enough'
      have same : matchWith fuel pattern = matchWith other pattern :=
        funext fun text => ih other pattern text shorter shorter'
      unfold matchWith
      rw [same]
      by_cases starred : byte = star
      · rw [if_pos starred, if_pos starred]
      · rw [if_neg starred, if_neg starred]
        cases text with
        | nil => rfl
        | cons first rest =>
          have bound := openClass_length first pattern
          simp only
          rw [ih other (openClass first pattern).2 rest (bound.trans shorter)
            (bound.trans shorter')]
          cases pattern with
          | nil => rfl
          | cons next pattern =>
            simp only
            rw [ih other pattern rest (Nat.le_of_succ_le shorter) (Nat.le_of_succ_le shorter')]

theorem matchGlob_cons (byte : UInt8) (pattern text : Text) :
    matchGlob (byte :: pattern) text =
      if byte = star then text.tails.any (matchGlob pattern)
      else
        match text with
        | [] => false
        | first :: rest =>
          if byte = question then matchGlob pattern rest
          else if byte = bracket then
            (openClass first pattern).1 && matchGlob (openClass first pattern).2 rest
          else if byte = backslash then
            match pattern with
            | [] => first == byte && rest.isEmpty
            | next :: pattern => first == next && matchGlob pattern rest
          else first == byte && matchGlob pattern rest := by
  have same : matchWith pattern.length pattern = matchGlob pattern := rfl
  conv_lhs => unfold matchGlob
  rw [length_cons]
  unfold matchWith
  rw [same]
  by_cases starred : byte = star
  · rw [if_pos starred, if_pos starred]
  · rw [if_neg starred, if_neg starred]
    cases text with
    | nil => rfl
    | cons first rest =>
      simp only
      rw [matchWith_fuel _ _ _ (openClass_length first pattern)]
      cases pattern with
      | nil => rfl
      | cons next pattern =>
        simp only
        rw [matchWith_fuel (next :: pattern).length pattern rest (Nat.le_succ _)]

theorem matchGlob_style : GlobStyle matchGlob where
  done := by
    intro text
    simp [matchGlob, matchWith]
  literal := by
    intro byte pattern text plain
    simp only [special, Bool.or_eq_false_iff, beq_eq_false_iff_ne] at plain
    obtain ⟨⟨⟨one, two⟩, three⟩, four⟩ := plain
    rw [matchGlob_cons, if_neg one]
    cases text with
    | nil => simp
    | cons first rest => simp [two, three, four]
  any := by
    intro pattern text
    rw [matchGlob_cons, if_neg (by decide)]
    cases text with
    | nil => simp
    | cons first rest => simp
  star := by
    intro pattern text
    rw [matchGlob_cons, if_pos rfl]
    simp [any_eq_true]
  escape := by
    intro byte pattern text
    rw [matchGlob_cons, if_neg (by decide)]
    cases text with
    | nil => simp
    | cons first rest =>
      simp only
      rw [if_neg (by decide), if_neg (by decide), if_pos trivial]
      simp
  bracket := by
    intro pattern byte
    refine ⟨fun first => (openClass first (byte :: pattern)).1, (openClass 0 (byte :: pattern)).2,
      openClass_suffix 0 byte pattern, ?_⟩
    intro text
    rw [matchGlob_cons, if_neg (by decide)]
    cases text with
    | nil => simp
    | cons first rest =>
      simp only
      rw [if_neg (by decide), if_pos trivial, openClass_after first 0]
      simp

end Glob

end Golusoris.Lib
