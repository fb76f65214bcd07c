import Golusoris.Lib.Utf8
import Mathlib.Computability.RegularExpressions

/-!
# Regular expressions of texts

The forms that patterns are written in, over the regular expressions of Mathlib, and the
expression over the bytes of UTF-8 that matches the encodings of what a pattern matches.
-/

namespace Golusoris.Lib.Regex

open List
open Computability
open Language
open RegularExpression

variable {α : Type}

/-- One symbol of a class. -/
def anyOf (symbols : List α) : RegularExpression α :=
  symbols.foldr (fun symbol others => .char symbol + others) 0

def text (symbols : List α) : RegularExpression α :=
  symbols.foldr (fun symbol rest => .char symbol * rest) 1

/-- One text of several. -/
def oneOf (texts : List (List α)) : RegularExpression α :=
  texts.foldr (fun first others => text first + others) 0

def optional (r : RegularExpression α) : RegularExpression α := 1 + r

def many1 (r : RegularExpression α) : RegularExpression α := r * r.star

theorem mem_anyOf {symbols w : List α} :
    w ∈ (anyOf symbols).matches' ↔ ∃ symbol ∈ symbols, w = [symbol] := by
  induction symbols with
  | nil => exact ⟨fun found => absurd found (notMem_zero w), by simp⟩
  | cons symbol others ih =>
    rw [anyOf, foldr_cons, matches'_add, ← anyOf, mem_add, ih]
    simp only [mem_cons, exists_eq_or_imp]
    exact Iff.rfl

theorem matches_text (symbols : List α) : (text symbols).matches' = {symbols} := by
  induction symbols with
  | nil => rfl
  | cons symbol rest ih =>
    rw [text, foldr_cons, matches'_mul, ← text, ih]
    exact Set.image2_singleton

theorem mem_oneOf {texts : List (List α)} {w : List α} :
    w ∈ (oneOf texts).matches' ↔ w ∈ texts := by
  induction texts with
  | nil => exact ⟨fun found => absurd found (notMem_zero w), by simp⟩
  | cons first others ih =>
    rw [oneOf, foldr_cons, matches'_add, ← oneOf, mem_add,
      matches_text, ih, mem_cons]
    exact Iff.rfl

/-- Words over a class are the repetitions of its symbols. -/
theorem mem_kstar_singletons {l : Language α} {P : α → Prop}
    (symbols : ∀ w, w ∈ l ↔ ∃ symbol, P symbol ∧ w = [symbol]) {w : List α} :
    w ∈ l∗ ↔ ∀ symbol ∈ w, P symbol := by
  constructor
  · rw [mem_kstar]
    rintro ⟨words, rfl, inside⟩ symbol found
    obtain ⟨word, listed, found⟩ := mem_flatten.mp found
    obtain ⟨only, holds, rfl⟩ := (symbols word).mp (inside word listed)
    exact mem_singleton.mp found ▸ holds
  · intro all
    induction w with
    | nil => exact nil_mem_kstar l
    | cons symbol rest ih =>
      rw [← one_add_self_mul_kstar_eq_kstar, mem_add, mem_mul]
      exact .inr ⟨[symbol], (symbols _).mpr ⟨symbol, all _ mem_cons_self, rfl⟩, rest,
        ih fun other found => all other (mem_cons_of_mem symbol found), rfl⟩

theorem mem_many_singletons {l : Language α} {P : α → Prop}
    (symbols : ∀ w, w ∈ l ↔ ∃ symbol, P symbol ∧ w = [symbol]) {w : List α} :
    w ∈ l * l∗ ↔ w ≠ [] ∧ ∀ symbol ∈ w, P symbol := by
  rw [mem_mul]
  constructor
  · rintro ⟨first, one, rest, more, rfl⟩
    obtain ⟨symbol, holds, rfl⟩ := (symbols first).mp one
    exact ⟨by simp, forall_mem_cons.mpr ⟨holds, (mem_kstar_singletons symbols).mp more⟩⟩
  · rintro ⟨filled, all⟩
    obtain ⟨symbol, rest, rfl⟩ := exists_cons_of_ne_nil filled
    obtain ⟨holds, more⟩ := forall_mem_cons.mp all
    exact ⟨[symbol], (symbols _).mpr ⟨symbol, holds, rfl⟩, rest,
      (mem_kstar_singletons symbols).mpr more, rfl⟩

/-- The pattern over the bytes of what `r` matches. -/
def utf8 : RegularExpression Char → RegularExpression UInt8
  | .zero => 0
  | .epsilon => 1
  | .char rune => text (String.utf8EncodeChar rune)
  | .plus one other => utf8 one + utf8 other
  | .comp first second => utf8 first * utf8 second
  | .star r => (utf8 r).star

/-- The encodings of a language. -/
def encodings (l : Language Char) : Language UInt8 := Set.image Utf8.encode l

theorem encodings_kstar (l : Language Char) : (encodings l)∗ = encodings l∗ := by
  ext w
  constructor
  · rintro ⟨words, rfl, inside⟩
    induction words with
    | nil => exact ⟨[], nil_mem_kstar l, rfl⟩
    | cons first rest ih =>
      obtain ⟨one, matched, coded⟩ := inside first mem_cons_self
      obtain ⟨more, also, codes⟩ := ih fun word found => inside word (mem_cons_of_mem _ found)
      refine ⟨one ++ more, ?_, by rw [Utf8.encode_append, coded, codes, flatten_cons]⟩
      rw [← one_add_self_mul_kstar_eq_kstar]
      exact .inr ⟨one, matched, more, also, rfl⟩
  · rintro ⟨text, ⟨words, rfl, inside⟩, rfl⟩
    induction words with
    | nil => exact nil_mem_kstar _
    | cons first rest ih =>
      rw [flatten_cons, Utf8.encode_append, ← one_add_self_mul_kstar_eq_kstar]
      exact .inr ⟨_, ⟨first, inside first mem_cons_self, rfl⟩, _,
        ih fun word found => inside word (mem_cons_of_mem _ found), rfl⟩

theorem matches_utf8 (r : RegularExpression Char) : (utf8 r).matches' = encodings r.matches' := by
  induction r with
  | zero => exact (Set.image_empty _).symm
  | epsilon => exact (Set.image_singleton (f := Utf8.encode) (a := [])).symm
  | char rune =>
    rw [utf8, matches_text, ← append_nil (String.utf8EncodeChar rune)]
    exact (Set.image_singleton (f := Utf8.encode) (a := [rune])).symm
  | plus one other left right =>
    rw [utf8, matches'_add, left, right]
    exact (Set.image_union _ _ _).symm
  | comp first second left right =>
    rw [utf8, matches'_mul, left, right]
    exact (Set.image_image2_distrib Utf8.encode_append).symm
  | star r ih => rw [utf8, matches'_star, ih, encodings_kstar]; rfl

/-- A text matches when its bytes do. -/
theorem encode_mem_utf8 {r : RegularExpression Char} {s : List Char} :
    Utf8.encode s ∈ (utf8 r).matches' ↔ s ∈ r.matches' := by
  rw [matches_utf8]
  exact Utf8.encode_injective.mem_set_image

end Golusoris.Lib.Regex
