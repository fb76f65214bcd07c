import Golusoris.Lib.Utf8

/-! White space around texts, as the package `strings` of Go sees it. -/

namespace Golusoris.Lib.Spaces

open List

/-- What stands before the last rune, and the rune; none if the text ends with an
invalid encoding. -/
def lastRune (text : Bytes) : Option (Bytes × Char) :=
  [1, 2, 3, 4].findSome? fun size =>
    let last := text.drop (text.length - size)
    ((Utf8.decodeRune last).filter fun rune => String.utf8EncodeChar rune = last).map fun rune =>
      (text.take (text.length - size), rune)

/-- Spaces are dropped from the left, at most as many as given. -/
def trimLeft : Nat → Bytes → Bytes
  | 0, text => text
  | fuel + 1, text =>
      match Utf8.decodeRune text with
      | some rune => if isSpace rune then trimLeft fuel (text.drop rune.utf8Size) else text
      | none => text

def trimRight : Nat → Bytes → Bytes
  | 0, text => text
  | fuel + 1, text =>
      match lastRune text with
      | some (before, rune) => if isSpace rune then trimRight fuel before else text
      | none => text

/-- `strings.TrimSpace`. -/
def trimSpace (text : Bytes) : Bytes :=
  let text := trimLeft text.length text
  trimRight text.length text

/-- No space starts the text. -/
def Flush (text : Bytes) : Prop := ∀ rune, Utf8.decodeRune text = some rune → isSpace rune = false

theorem Flush.of_take {text part : Bytes} (flush : Flush text) (first : part <+: text) :
    Flush part := by
  obtain ⟨rest, rfl⟩ := first
  intro rune decoded
  obtain ⟨others, rfl⟩ := Utf8.decodeRune_eq_some decoded
  refine flush rune ?_
  rw [append_assoc, Utf8.decodeRune_encode]

theorem flush_trimLeft {fuel : Nat} {text : Bytes} (enough : text.length ≤ fuel) : Flush
    (trimLeft fuel text) := by
  induction fuel generalizing text with
  | zero =>
    obtain rfl := length_eq_zero_iff.mp (Nat.le_zero.mp enough)
    intro rune decoded
    obtain ⟨rest, shape⟩ := Utf8.decodeRune_eq_some decoded
    exact absurd (append_eq_nil_iff.mp shape.symm).1 (String.utf8EncodeChar_ne_nil)
  | succ fuel ih =>
    rw [trimLeft]
    split
    next rune decoded =>
      split_ifs with space
      · have positive := rune.utf8Size_pos
        refine ih ?_
        rw [length_drop]
        omega
      · intro other decoded'
        obtain rfl : rune = other := Option.some.inj (decoded.symm.trans decoded')
        exact Bool.eq_false_iff.mpr space
    next decoded =>
      intro rune decoded'
      rw [decoded] at decoded'
      cases decoded'

theorem trimLeft_of_flush {text : Bytes} (flush : Flush text) (fuel : Nat) :
    trimLeft fuel text = text := by
  cases fuel with
  | zero => rfl
  | succ fuel =>
    rw [trimLeft]
    split
    next rune decoded => rw [if_neg (Bool.eq_false_iff.mp (flush rune decoded))]
    next => rfl

theorem lastRune_eq_some {text before : Bytes} {rune : Char}
    (last : lastRune text = some (before, rune)) :
    text = before ++ String.utf8EncodeChar rune := by
  obtain ⟨size, -, cut⟩ := exists_of_findSome?_eq_some last
  obtain ⟨_, read, same⟩ := Option.map_eq_some_iff.mp cut
  obtain ⟨rfl, rfl⟩ := Prod.mk.inj same
  have whole := (Option.filter_eq_some_iff.mp read).2
  rw [of_decide_eq_true whole, take_append_drop]

theorem trimRight_start (fuel : Nat) (text : Bytes) : trimRight fuel text <+: text := by
  induction fuel generalizing text with
  | zero => exact prefix_refl text
  | succ fuel ih =>
    rw [trimRight]
    split
    next before rune last =>
      split_ifs
      · exact (ih before).trans ⟨_, (lastRune_eq_some last).symm⟩
      · exact prefix_refl text
    next => exact prefix_refl text

/-- No space ends the text. -/
def FlushRight (text : Bytes) : Prop :=
  ∀ before rune, lastRune text = some (before, rune) → isSpace rune = false

theorem flushRight_trimRight {fuel : Nat} {text : Bytes} (enough : text.length ≤ fuel) :
    FlushRight (trimRight fuel text) := by
  induction fuel generalizing text with
  | zero =>
    obtain rfl := length_eq_zero_iff.mp (Nat.le_zero.mp enough)
    intro before rune last
    exact absurd (append_eq_nil_iff.mp (lastRune_eq_some last).symm).2 String.utf8EncodeChar_ne_nil
  | succ fuel ih =>
    rw [trimRight]
    split
    next before rune last =>
      split_ifs with space
      · have shape := congrArg List.length (lastRune_eq_some last)
        have positive := length_pos_iff.mpr (String.utf8EncodeChar_ne_nil (c := rune))
        rw [length_append] at shape
        exact ih (by omega)
      · intro before' other last'
        obtain ⟨-, rfl⟩ := Prod.mk.inj (Option.some.inj (last.symm.trans last'))
        exact Bool.eq_false_iff.mpr space
    next last =>
      intro before rune last'
      rw [last] at last'
      cases last'

theorem trimRight_of_flushRight {text : Bytes} (flush : FlushRight text) (fuel : Nat) :
    trimRight fuel text = text := by
  cases fuel with
  | zero => rfl
  | succ fuel =>
    rw [trimRight]
    split
    next before rune last => rw [if_neg (Bool.eq_false_iff.mp (flush before rune last))]
    next => rfl

theorem trimSpace_trimSpace (text : Bytes) : trimSpace (trimSpace text) = trimSpace text := by
  have flush : Flush (trimSpace text) := (flush_trimLeft (Nat.le_refl _)).of_take (trimRight_start _ _)
  have flushRight : FlushRight (trimSpace text) := flushRight_trimRight (Nat.le_refl _)
  rw [trimSpace, trimLeft_of_flush flush, trimRight_of_flushRight flushRight]

theorem trimLeft_end (fuel : Nat) (text : Bytes) : trimLeft fuel text <:+ text := by
  induction fuel generalizing text with
  | zero => exact suffix_refl text
  | succ fuel ih =>
    rw [trimLeft]
    split
    next rune decoded =>
      split_ifs
      · exact (ih _).trans (drop_suffix _ text)
      · exact suffix_refl text
    next => exact suffix_refl text

theorem trimSpace_subset (text : Bytes) : trimSpace text ⊆ text := by
  intro byte found
  exact (trimLeft_end _ text).subset ((trimRight_start _ _).subset found)

theorem trimSpace_cons_space (text : Bytes) : trimSpace (0x20 :: text) = trimSpace text := by
  have blank : Utf8.decodeRune (0x20 :: text) = some ' ' := Utf8.decodeRune_encode ' ' text
  have skipped : trimLeft (0x20 :: text).length (0x20 :: text) = trimLeft text.length text := by
    rw [length_cons, trimLeft, blank]
    rfl
  rw [trimSpace, skipped]
  rfl

/-- A part that was read backwards, unless it is empty. -/
def closed (part : Bytes) : List Bytes := if part = [] then [] else [part.reverse]

def fieldsFrom : Nat → Bytes → Bytes → List Bytes
  | 0, part, _ => closed part
  | _ + 1, part, [] => closed part
  | fuel + 1, part, byte :: rest =>
      match Utf8.decodeRune (byte :: rest) with
      | none => fieldsFrom fuel (byte :: part) rest
      | some rune =>
          let size := rune.utf8Size
          if isSpace rune then closed part ++ fieldsFrom fuel [] ((byte :: rest).drop size)
          else fieldsFrom fuel (((byte :: rest).take size).reverse ++ part) ((byte :: rest).drop size)

/-- `strings.Fields`: the parts between runs of white space. -/
def fields (text : Bytes) : List Bytes := fieldsFrom text.length [] text

/-- `strings.Trim` with a set of ASCII bytes. -/
def trim (cutset text : Bytes) : Bytes :=
  ((text.dropWhile (cutset.contains ·)).reverse.dropWhile (cutset.contains ·)).reverse

end Golusoris.Lib.Spaces
