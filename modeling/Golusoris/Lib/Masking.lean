import Golusoris.Lib.Utf8
import Mathlib.Data.List.Infix

/-!
# Replacing one text after another by a marker

A message is spelled from plain texts and hidden values. Values are replaced by
a marker, one after another and everywhere in the message, `mask`. This gives
the message with a marker for each value, `masked`, where a value that is
replaced does not begin inside another one, `Clear`. Between plain texts it is
the only way to it.
-/

namespace Golusoris.Lib.Masking

open List

variable {α : Type}

section Parts

/-- What begins in the text ends in it, if no end of it stands behind the text. -/
theorem prefix_of_edge {old text rest : List α}
    (edge : ∀ tail, tail <:+ old → tail ≠ [] → ¬ tail <+: rest)
    (found : old <+: text ++ rest) : old <+: text := by
  rcases Nat.le_total old.length text.length with short | long
  · exact prefix_of_prefix_length_le found (prefix_append text rest) short
  · obtain ⟨tail, rfl⟩ := prefix_of_prefix_length_le (prefix_append text rest) found long
    rw [prefix_append_right_inj] at found
    by_cases none : tail = []
    · simp [none]
    · exact absurd found (edge tail (suffix_append text tail) none)

/-- Nothing of the secret lies in the text: it does not begin in it and does not
reach into it, whatever follows. -/
structure Strange (text secret : List α) : Prop where
  inside : ∀ off < text.length, ∀ rest, ¬ secret <+: text.drop off ++ rest
  across : text ≠ [] → ∀ tail, tail <:+ secret → tail ≠ [] → ∀ rest, ¬ tail <+: text ++ rest

inductive Part (α : Type) where
  | plain (text : List α)
  | hidden (value : List α)

def Part.text : Part α → List α
  | .plain text => text
  | .hidden value => value

def spell (parts : List (Part α)) : List α := parts.flatMap Part.text

/-- The part with a function applied to what is hidden. -/
def Part.change (f : List α → Part α) : Part α → Part α
  | .plain text => .plain text
  | .hidden value => f value

/-- The secret does not begin inside a value that is not the secret. -/
def Untouched (secret : List α) : List (Part α) → Prop
  | [] => True
  | .plain _ :: rest => Untouched secret rest
  | .hidden value :: rest =>
      (value = secret ∨ ∀ off < value.length, ¬ secret <+: value.drop off ++ spell rest) ∧
        Untouched secret rest

/-- Each value stands before the end or before a plain text. -/
def Apart : List (Part α) → Prop
  | [] => True
  | .plain _ :: rest => Apart rest
  | .hidden _ :: rest => (rest = [] ∨ ∃ text ≠ [], ∃ more, rest = .plain text :: more) ∧ Apart rest

variable {parts more : List (Part α)}

@[simp] theorem spell_nil : spell ([] : List (Part α)) = [] := rfl

@[simp] theorem spell_cons (part : Part α) : spell (part :: more) = part.text ++ spell more := rfl

theorem mem_change {f : List α → Part α} {part : Part α}
    (member : part ∈ parts.map (Part.change f)) :
    part ∈ parts ∨ ∃ value, .hidden value ∈ parts ∧ part = f value := by
  obtain ⟨source, found, rfl⟩ := mem_map.mp member
  cases source with
  | plain text => exact .inl found
  | hidden value => exact .inr ⟨value, found, rfl⟩

/-- The secrets are texts of their own, of which the marker has nothing. -/
structure Maskable (marker : List α) (secrets : List (List α)) : Prop where
  marked : marker ≠ []
  some : ∀ secret ∈ secrets, secret ≠ []
  strange : ∀ secret ∈ secrets, Strange marker secret

theorem Maskable.tail {marker secret : List α} {secrets : List (List α)}
    (maskable : Maskable marker (secret :: secrets)) :
    Maskable marker secrets where
  marked := maskable.marked
  some := fun secret member => maskable.some secret (.tail _ member)
  strange := fun secret member => maskable.strange secret (.tail _ member)

/-- No end of a secret stands behind a value that is apart. -/
theorem edge_of_apart {secret value : List α} (apart : Apart (.hidden value :: more))
    (strange : ∀ text, .plain text ∈ more → Strange text secret) :
    ∀ tail, tail <:+ secret → tail ≠ [] → ¬ tail <+: spell more := by
  intro tail ends some found
  rcases apart.1 with rfl | ⟨text, filled, more, rfl⟩
  · exact some (prefix_nil.mp found)
  · exact (strange text (.head _)).across filled tail ends some (spell more) found

theorem apart_change {f : List α → List α} (apart : Apart parts) :
    Apart (parts.map (Part.change fun value => .hidden (f value))) := by
  induction parts with
  | nil => trivial
  | cons part rest hyp =>
    cases part with
    | plain text => exact hyp apart
    | hidden value =>
      refine ⟨?_, hyp apart.2⟩
      rcases apart.1 with rfl | ⟨text, filled, more, rfl⟩
      · exact .inl rfl
      · exact .inr ⟨text, filled, _, rfl⟩

theorem plain_of_change {f : List α → List α}
    (member : .plain text ∈ parts.map (Part.change fun value => .hidden (f value))) :
    .plain text ∈ parts := by
  rcases mem_change member with old | ⟨value, _, turned⟩
  · exact old
  · cases turned

theorem untouched_of_apart {secret : List α} (apart : Apart parts)
    (strange : ∀ text, .plain text ∈ parts → Strange text secret)
    (absent : ∀ value, .hidden value ∈ parts → value = secret ∨ ¬ secret <:+: value) :
    Untouched secret parts := by
  induction parts with
  | nil => trivial
  | cons part rest hyp =>
    have strange' : ∀ text, .plain text ∈ rest → Strange text secret :=
      fun text member => strange text (.tail _ member)
    have absent' : ∀ value, .hidden value ∈ rest → value = secret ∨ ¬ secret <:+: value :=
      fun value member => absent value (.tail _ member)
    cases part with
    | plain text => exact hyp apart strange' absent'
    | hidden value =>
      refine ⟨(absent value (.head _)).imp_right fun none off _ here => none ?_,
        hyp apart.2 strange' absent'⟩
      have within := prefix_of_edge (edge_of_apart apart strange') here
      exact within.isInfix.trans (drop_suffix off value).isInfix

/-- Texts without a common symbol are strange. -/
theorem strange_of_disjoint {secret text : List α} (some : secret ≠ [])
    (disjoint : ∀ symbol ∈ text, symbol ∉ secret) : Strange text secret where
  inside := by
    intro off inside rest found
    cases secret with
    | nil => exact some rfl
    | cons first _ =>
      rw [drop_eq_getElem_cons inside, cons_append, cons_prefix_cons] at found
      exact disjoint text[off] (getElem_mem inside) (by rw [← found.1]; exact .head _)
  across := by
    intro filled tail ends more rest found
    cases tail with
    | nil => exact more rfl
    | cons first _ =>
      cases text with
      | nil => exact filled rfl
      | cons head _ =>
        rw [cons_append, cons_prefix_cons] at found
        exact disjoint head (.head _) (by rw [← found.1]; exact ends.subset (.head _))

end Parts

section Runes

open Utf8 (encode encodeChar_shape decodeRune_encode)

/-- A byte inside an encoded rune, not at its start. -/
def Continues (byte : UInt8) : Prop := 0x80 ≤ byte ∧ byte < 0xC0

theorem not_continues_lead {rune : Char} {lead : UInt8} {more : List UInt8}
    (shape : String.utf8EncodeChar rune = lead :: more) : ¬ Continues lead := by
  have high {value : Nat} (above : 0xC0 ≤ value) (below : value < 0x100) :
      0xC0 ≤ UInt8.ofNat value := by
    rw [UInt8.le_iff_toNat_le, UInt8.toNat_ofNat', Nat.mod_eq_of_lt below]
    exact above
  rintro ⟨least, most⟩
  rw [String.utf8EncodeChar] at shape
  split_ifs at shape with one two three
  · have low : UInt8.ofNat rune.val.toNat < 0x80 := by
      rw [UInt8.lt_iff_toNat_lt, UInt8.toNat_ofNat', Nat.mod_eq_of_lt (by omega)]
      exact Nat.lt_succ_of_le one
    rw [(List.cons.inj shape).1] at low
    exact absurd low (UInt8.not_lt.mpr least)
  all_goals
    rw [← (List.cons.inj shape).1] at most
    exact absurd most (UInt8.not_lt.mpr (high (by omega) (by omega)))

/-- An end of an encoded text is one itself, or starts inside a rune. -/
theorem suffix_encode {runes : List Char} {tail : List UInt8} (ends : tail <:+ encode runes)
    (some : tail ≠ []) :
    (∃ rune more, tail = encode (rune :: more) ∧ rune ∈ runes) ∨
      ∃ byte more, tail = byte :: more ∧ Continues byte := by
  induction runes with
  | nil => exact absurd (suffix_nil.mp ends) some
  | cons rune runes hyp =>
    have later (ends : tail <:+ encode runes) :
        (∃ first more, tail = encode (first :: more) ∧ first ∈ rune :: runes) ∨
          ∃ byte more, tail = byte :: more ∧ Continues byte := by
      rcases hyp ends with ⟨first, more, same, found⟩ | inside
      · exact .inl ⟨first, more, same, .tail _ found⟩
      · exact .inr inside
    obtain ⟨lead, more, shape, inner⟩ := encodeChar_shape rune
    obtain ⟨before, whole⟩ := ends
    rw [Utf8.encode_cons] at whole
    rcases append_eq_append_iff.mp whole with ⟨cut, front, back⟩ | ⟨cut, _, back⟩
    · rcases before with _ | ⟨first, before⟩
      · refine .inl ⟨rune, runes, ?_, .head _⟩
        rw [back, Utf8.encode_cons, front, nil_append]
      · rcases cut with _ | ⟨byte, cut⟩
        · exact later (by rw [back]; exact suffix_refl _)
        · rw [shape] at front
          have member : byte ∈ more := by rw [(List.cons.inj front).2]; simp
          exact .inr ⟨byte, _, back, inner byte member⟩
    · exact later ⟨cut, back.symm⟩

/-- Encoded texts that start with the same bytes start with the same rune. -/
theorem first_rune_eq {left right : Char} {runes : List Char} {rest : List UInt8}
    (found : encode (left :: runes) <+: String.utf8EncodeChar right ++ rest) : left = right := by
  obtain ⟨more, whole⟩ := found
  rw [Utf8.encode_cons, append_assoc] at whole
  have same := congrArg Utf8.decodeRune whole
  rw [decodeRune_encode, decodeRune_encode] at same
  exact Option.some.inj same

/-- An encoded text begins at the start of a rune, which is its first. -/
theorem not_prefix_encode {first : Char} {more runes : List Char} (absent : first ∉ runes)
    {off : ℕ} (within : off < (encode runes).length) (rest : List UInt8) :
    ¬ encode (first :: more) <+: (encode runes).drop off ++ rest := by
  induction runes generalizing off with
  | nil => simp at within
  | cons rune runes hyp =>
    intro found
    rw [Utf8.encode_cons rune, drop_append] at found
    rw [Utf8.encode_cons, length_append] at within
    obtain ⟨lead, inside, shape, inner⟩ := encodeChar_shape rune
    rcases Nat.lt_or_ge off (String.utf8EncodeChar rune).length with here | past
    · rcases off with _ | off
      · rw [drop_zero, append_assoc] at found
        exact absent (by rw [first_rune_eq found]; exact .head _)
      · obtain ⟨lead', more', shape', _⟩ := encodeChar_shape first
        rw [shape, length_cons, Nat.add_lt_add_iff_right] at here
        rw [Utf8.encode_cons, shape', shape, drop_succ_cons, drop_eq_getElem_cons here,
          cons_append, cons_append, cons_append, cons_prefix_cons] at found
        have continues := inner inside[off] (getElem_mem here)
        rw [← found.1] at continues
        exact not_continues_lead shape' continues
    · rw [drop_eq_nil_of_le past, nil_append] at found
      exact hyp (fun member => absent (.tail _ member)) (by omega) found

/-- Encoded texts without a common rune are strange. -/
theorem strange_encode {secret text : List Char} (some : secret ≠ [])
    (disjoint : ∀ rune ∈ text, rune ∉ secret) : Strange (encode text) (encode secret) := by
  constructor
  case inside =>
    intro off within rest
    cases secret with
    | nil => exact absurd rfl some
    | cons first more =>
      exact not_prefix_encode (fun member => disjoint first member (.head _)) within rest
  case across =>
    intro filled tail ends long rest found
    cases text with
    | nil => exact filled rfl
    | cons head text =>
      rw [Utf8.encode_cons, append_assoc] at found
      rcases suffix_encode ends long with ⟨rune, more, rfl, member⟩ | ⟨byte, more, rfl, inside⟩
      · rw [first_rune_eq found] at member
        exact disjoint head (.head _) member
      · obtain ⟨lead, others, shape, _⟩ := encodeChar_shape head
        rw [shape, cons_append, cons_prefix_cons] at found
        exact not_continues_lead shape (by rw [← found.1]; exact inside)

end Runes

variable [DecidableEq α]

/-- Texts are replaced from the left, where some symbols belong to the last one. -/
def replaceFrom (old new : List α) : ℕ → List α → List α
  | _, [] => []
  | passed + 1, _ :: rest => replaceFrom old new passed rest
  | 0, first :: rest =>
      if old.isPrefixOf (first :: rest) then new ++ replaceFrom old new (old.length - 1) rest
      else first :: replaceFrom old new 0 rest

/-- Every occurrence of a text that is not empty is replaced. -/
def replaceAll (text old new : List α) : List α := replaceFrom old new 0 text

section Replacing

variable {old new text rest : List α} {first : α}

theorem replaceFrom_drop (passed : ℕ) :
    replaceFrom old new passed text = replaceAll (text.drop passed) old new := by
  induction passed generalizing text with
  | zero => rfl
  | succ passed hyp =>
    cases text with
    | nil => rfl
    | cons first rest => exact hyp

@[simp] theorem replaceAll_nil : replaceAll [] old new = [] := rfl

theorem replaceAll_match (some : old ≠ []) :
    replaceAll (old ++ rest) old new = new ++ replaceAll rest old new := by
  cases old with
  | nil => exact absurd rfl some
  | cons first more =>
    have here : (first :: more).isPrefixOf (first :: (more ++ rest)) := by
      simp [ isPrefixOf_iff_prefix]
    rw [replaceAll, cons_append, replaceFrom, if_pos here, replaceFrom_drop]
    simp

theorem replaceAll_cons (none : ¬ old <+: first :: rest) :
    replaceAll (first :: rest) old new = first :: replaceAll rest old new := by
  rw [← isPrefixOf_iff_prefix] at none
  rw [replaceAll, replaceFrom, if_neg none]
  rfl

/-- A text in which no occurrence begins stays. -/
theorem replaceAll_pass (none : ∀ off < text.length, ¬ old <+: text.drop off ++ rest) :
    replaceAll (text ++ rest) old new = text ++ replaceAll rest old new := by
  induction text with
  | nil => rfl
  | cons first more hyp =>
    have here : ¬ old <+: first :: (more ++ rest) := none 0 (by simp)
    rw [cons_append, replaceAll_cons here,
      hyp fun off inside => none (off + 1) (by simpa using inside), cons_append]

theorem replaceAll_edge (some : old ≠ [])
    (edge : ∀ tail, tail <:+ old → tail ≠ [] → ¬ tail <+: rest) :
    replaceAll (text ++ rest) old new = replaceAll text old new ++ replaceAll rest old new := by
  generalize size : text.length = length
  induction length using Nat.strong_induction_on generalizing text with
  | _ length hyp =>
    by_cases found : old <+: text
    · obtain ⟨more, rfl⟩ := found
      have shorter : more.length < length := by
        have := length_pos_iff.mpr some
        rw [← size, length_append]
        omega
      rw [append_assoc, replaceAll_match some, replaceAll_match some,
        hyp _ shorter rfl, append_assoc]
    · cases text with
      | nil => rfl
      | cons first more =>
        have whole : ¬ old <+: first :: (more ++ rest) := by
          intro here
          rw [← cons_append] at here
          exact found (prefix_of_edge edge here)
        rw [cons_append, replaceAll_cons whole, replaceAll_cons found,
          hyp more.length (by simp [← size]) rfl, cons_append]

theorem replaceAll_ne_nil (marked : new ≠ []) (some : text ≠ []) :
    replaceAll text old new ≠ [] := by
  cases text with
  | nil => exact absurd rfl some
  | cons first rest =>
    rw [replaceAll, replaceFrom]
    split_ifs <;> simp [marked]

/-- The first occurrence becomes the marker, and nothing before it changes. -/
theorem replaceAll_infix (some : old ≠ []) (found : old <:+: text) :
    ∃ before after, text = before ++ old ++ after ∧
      replaceAll text old new = before ++ new ++ replaceAll after old new := by
  induction text with
  | nil => exact absurd (infix_nil.mp found) some
  | cons first rest hyp =>
    by_cases here : old <+: first :: rest
    · obtain ⟨after, same⟩ := here
      exact ⟨[], after, same.symm, by rw [← same, replaceAll_match some, nil_append]⟩
    · obtain ⟨before, after, cut, replaced⟩ := hyp ((infix_cons_iff.mp found).resolve_left here)
      refine ⟨first :: before, after, by rw [cut]; rfl, ?_⟩
      rw [replaceAll_cons here, replaced]
      rfl

end Replacing

/-- The secrets are replaced in turn. -/
def mask (marker : List α) (secrets : List (List α)) (text : List α) : List α :=
  secrets.foldl (fun text secret => replaceAll text secret marker) text

/-- The parts with the marker in place of one value. -/
def blank (marker secret : List α) (parts : List (Part α)) : List (Part α) :=
  parts.map (Part.change fun value => if value = secret then .plain marker else .hidden value)

/-- The message with the marker in place of every value. -/
def masked (marker : List α) (parts : List (Part α)) : List α :=
  spell (parts.map (Part.change fun _ => .plain marker))

/-- No secret begins inside another value, those before it blanked. -/
def Clear (marker : List α) : List (List α) → List (Part α) → Prop
  | [], _ => True
  | secret :: secrets, parts =>
      Untouched secret parts ∧ Clear marker secrets (blank marker secret parts)

section Masks

variable {marker secret value text : List α} {secrets : List (List α)}
variable {parts rest : List (Part α)}

theorem plain_of_blank (member : .plain text ∈ blank marker secret parts) :
    .plain text ∈ parts ∨ text = marker := by
  rcases mem_change member with old | ⟨value, _, turned⟩
  · exact .inl old
  · split_ifs at turned
    exact .inr (Part.plain.inj turned)

theorem hidden_of_blank (member : .hidden value ∈ blank marker secret parts) :
    .hidden value ∈ parts ∧ value ≠ secret := by
  obtain ⟨source, found, same⟩ := mem_map.mp member
  cases source with
  | plain text => cases same
  | hidden old =>
    rw [Part.change] at same
    split_ifs at same with kept
    cases same
    exact ⟨found, kept⟩

theorem masked_blank : masked marker (blank marker secret parts) = masked marker parts := by
  rw [masked, blank, map_map, masked]
  congr 2
  funext part
  cases part with
  | plain text => rfl
  | hidden value =>
    rw [Function.comp, Part.change]
    split_ifs <;> rfl

/-- Untouched values stay, and the value itself becomes the marker. -/
theorem replaceAll_spell (some : secret ≠ [])
    (strange : ∀ text, .plain text ∈ parts → Strange text secret)
    (untouched : Untouched secret parts) :
    replaceAll (spell parts) secret marker = spell (blank marker secret parts) := by
  induction parts with
  | nil => rfl
  | cons part rest hyp =>
    have strange' : ∀ text, .plain text ∈ rest → Strange text secret :=
      fun text member => strange text (.tail _ member)
    cases part with
    | plain text =>
      have pass : replaceAll (text ++ spell rest) secret marker =
          text ++ replaceAll (spell rest) secret marker :=
        replaceAll_pass fun off inside =>
          (strange text (.head _)).inside off inside (spell rest)
      rw [spell_cons, Part.text, pass, hyp strange' untouched]
      rfl
    | hidden value =>
      obtain ⟨here, after⟩ := untouched
      by_cases same : value = secret
      · rw [spell_cons, Part.text, same, replaceAll_match some, hyp strange' after]
        simp [blank, Part.change, Part.text]
      · rw [spell_cons, Part.text, replaceAll_pass (here.resolve_left same), hyp strange' after]
        simp [blank, Part.change, Part.text, same]

/-- What a message asks of the secrets that are masked in it. -/
structure Listed (marker : List α) (secrets : List (List α)) (parts : List (Part α)) : Prop where
  values : ∀ value, .hidden value ∈ parts → value ∈ secrets
  strange : ∀ secret ∈ secrets, ∀ text, .plain text ∈ parts → Strange text secret

theorem Listed.blank (listed : Listed marker (secret :: secrets) parts)
    (maskable : Maskable marker (secret :: secrets)) :
    Listed marker secrets (blank marker secret parts) where
  values := by
    intro value member
    obtain ⟨found, other⟩ := hidden_of_blank member
    exact (mem_cons.mp (listed.values value found)).resolve_left other
  strange := by
    intro later member text plain
    rcases plain_of_blank plain with old | rfl
    · exact listed.strange later (.tail _ member) text old
    · exact maskable.strange later (.tail _ member)

variable (maskable : Maskable marker secrets) (listed : Listed marker secrets parts)

include maskable listed in
/-- A clear message is masked as a whole. -/
theorem mask_of_clear (clear : Clear marker secrets parts) :
    mask marker secrets (spell parts) = masked marker parts := by
  induction secrets generalizing parts with
  | nil =>
    have bare : ∀ part ∈ parts, Part.change (fun _ => .plain marker) part = part := by
      intro part member
      cases part with
      | plain text => rfl
      | hidden value => cases listed.values value member
    rw [masked, map_congr_left bare, map_id']
    rfl
  | cons secret secrets hyp =>
    obtain ⟨untouched, clear⟩ := clear
    have first : replaceAll (spell parts) secret marker = spell (blank marker secret parts) :=
      replaceAll_spell (maskable.some secret (.head _)) (listed.strange secret (.head _)) untouched
    rw [mask, foldl_cons, first, ← masked_blank]
    exact hyp maskable.tail (listed.blank maskable) clear

theorem apart_blank (apart : Apart parts) : Apart (blank marker secret parts) := by
  induction parts with
  | nil => trivial
  | cons part rest hyp =>
    cases part with
    | plain text => exact hyp apart
    | hidden value =>
      rw [blank, map_cons, Part.change]
      split_ifs with same
      · exact hyp apart.2
      refine ⟨?_, hyp apart.2⟩
      rcases apart.1 with rfl | ⟨text, filled, more, rfl⟩
      · exact .inl rfl
      · exact .inr ⟨text, filled, _, rfl⟩

/-- Values that are apart are searched one by one. -/
theorem replaceAll_apart (some : secret ≠ []) (apart : Apart parts)
    (strange : ∀ text, .plain text ∈ parts → Strange text secret) :
    replaceAll (spell parts) secret marker =
      spell (parts.map (Part.change fun value => .hidden (replaceAll value secret marker))) := by
  induction parts with
  | nil => rfl
  | cons part rest hyp =>
    have strange' : ∀ text, .plain text ∈ rest → Strange text secret :=
      fun text member => strange text (.tail _ member)
    cases part with
    | plain text =>
      have pass : replaceAll (text ++ spell rest) secret marker =
          text ++ replaceAll (spell rest) secret marker :=
        replaceAll_pass fun off inside =>
          (strange text (.head _)).inside off inside (spell rest)
      rw [spell_cons, Part.text, pass, hyp apart strange']
      rfl
    | hidden value =>
      rw [spell_cons, Part.text, replaceAll_edge some (edge_of_apart apart strange'),
        hyp apart.2 strange']
      rfl

theorem mask_apart (some : ∀ secret ∈ secrets, secret ≠ []) (apart : Apart parts)
    (strange : ∀ secret ∈ secrets, ∀ text, .plain text ∈ parts → Strange text secret) :
    mask marker secrets (spell parts) =
      spell (parts.map (Part.change fun value => .hidden (mask marker secrets value))) := by
  induction secrets generalizing parts with
  | nil =>
    have same : ∀ part ∈ parts, Part.change (fun value => .hidden value) part = part := by
      intro part _
      cases part <;> rfl
    simp only [mask, foldl_nil]
    rw [map_congr_left same, map_id']
  | cons secret secrets hyp =>
    have first : replaceAll (spell parts) secret marker = _ :=
      replaceAll_apart (some secret (.head _)) apart (strange secret (.head _))
    have later := hyp (fun s member => some s (.tail _ member))
      (apart_change (f := fun value => replaceAll value secret marker) apart)
      fun s member text plain => strange s (.tail _ member) text (plain_of_change plain)
    rw [mask, foldl_cons, first]
    refine later.trans ?_
    rw [map_map]
    congr 2
    funext part
    cases part <;> rfl

theorem mask_ne_nil (marked : marker ≠ []) (some : value ≠ []) : mask marker secrets value ≠ [] := by
  induction secrets generalizing value with
  | nil => exact some
  | cons secret secrets hyp => exact hyp (replaceAll_ne_nil marked some)

theorem mask_marker (strange : ∀ secret ∈ secrets, Strange marker secret) :
    mask marker secrets marker = marker := by
  induction secrets with
  | nil => rfl
  | cons secret secrets hyp =>
    have stays : replaceAll (marker ++ []) secret marker = marker ++ [] :=
      replaceAll_pass fun off inside => (strange secret (.head _)).inside off inside []
    rw [append_nil] at stays
    rw [mask, foldl_cons, stays]
    exact hyp fun s member => strange s (.tail _ member)

include maskable in
theorem mask_around (before after : List α) :
    mask marker secrets (before ++ marker ++ after) =
      mask marker secrets before ++ marker ++ mask marker secrets after := by
  have apart : Apart [.hidden before, .plain marker, .hidden after] :=
    ⟨.inr ⟨marker, maskable.marked, _, rfl⟩, .inl rfl, trivial⟩
  have strange : ∀ secret ∈ secrets, ∀ text,
      .plain text ∈ [Part.hidden before, .plain marker, .hidden after] → Strange text secret := by
    intro secret member text plain
    simp only [mem_cons, reduceCtorEq, Part.plain.injEq, not_mem_nil, or_false,
      false_or] at plain
    rw [plain]
    exact maskable.strange secret member
  have whole : mask marker secrets (spell [.hidden before, .plain marker, .hidden after]) = _ :=
    mask_apart maskable.some apart strange
  simpa [Part.text, Part.change, append_assoc] using whole

/-- A value in which a secret was replaced gives more than a marker. -/
theorem length_lt_mask (maskable : Maskable marker (secret :: secrets)) (found : secret <:+: value)
    (other : value ≠ secret) :
    marker.length < (mask marker (secret :: secrets) value).length := by
  obtain ⟨before, after, cut, replaced⟩ := replaceAll_infix (maskable.some secret (.head _)) found
  rw [mask, foldl_cons, replaced]
  have around := mask_around maskable.tail before (replaceAll after secret marker)
  rw [mask] at around
  rw [around, length_append, length_append]
  rcases before with _ | ⟨first, more⟩
  · rcases after with _ | ⟨first, more⟩
    · exact absurd (by simpa using cut) other
    · have some : mask marker secrets (replaceAll (first :: more) secret marker) ≠ [] :=
        mask_ne_nil maskable.marked (replaceAll_ne_nil maskable.marked (cons_ne_nil _ _))
      have positive := length_pos_iff.mpr some
      omega
  · have some : mask marker secrets (first :: more) ≠ [] :=
      mask_ne_nil maskable.marked (cons_ne_nil _ _)
    have positive := length_pos_iff.mpr some
    omega

/-- No secret before the value itself occurs in it. -/
def Clean (value : List α) : List (List α) → Prop
  | [] => True
  | secret :: secrets => value = secret ∨ ¬ secret <:+: value ∧ Clean value secrets

include maskable in
/-- A value gives at least a marker, and no more only if nothing in it was replaced. -/
theorem length_mask (listed : value ∈ secrets) :
    marker.length ≤ (mask marker secrets value).length ∧
      ((mask marker secrets value).length = marker.length → Clean value secrets) := by
  induction secrets with
  | nil => cases listed
  | cons secret secrets hyp =>
    have some := maskable.some secret (.head _)
    have strange := maskable.tail.strange
    by_cases same : value = secret
    · have whole : replaceAll (secret ++ []) secret marker = marker ++ replaceAll [] secret marker :=
        replaceAll_match some
      rw [append_nil, replaceAll_nil, append_nil] at whole
      rw [mask, foldl_cons, same, whole]
      have stays : List.foldl _ marker secrets = marker := mask_marker strange
      rw [stays]
      exact ⟨le_rfl, fun _ => .inl rfl⟩
    · have later := (mem_cons.mp listed).resolve_left same
      by_cases found : secret <:+: value
      · have longer := length_lt_mask maskable found same
        exact ⟨longer.le, fun tight => absurd tight longer.ne'⟩
      · have stays : replaceAll (value ++ []) secret marker = value ++ [] := by
          refine replaceAll_pass fun off _ here => found ?_
          rw [append_nil] at here
          exact here.isInfix.trans (drop_suffix off value).isInfix
        rw [append_nil] at stays
        rw [mask, foldl_cons, stays]
        obtain ⟨least, clean⟩ := hyp maskable.tail later
        exact ⟨least, fun tight => .inr ⟨found, clean tight⟩⟩

include maskable in
/-- Values that give no more than their markers are clean. -/
theorem clean_of_length (values : ∀ value, .hidden value ∈ parts → value ∈ secrets) :
    (masked marker parts).length ≤
        (spell (parts.map (Part.change fun value => .hidden (mask marker secrets value)))).length ∧
      ((spell (parts.map (Part.change fun value => .hidden (mask marker secrets value)))).length =
          (masked marker parts).length →
        ∀ value, .hidden value ∈ parts → Clean value secrets) := by
  induction parts with
  | nil => exact ⟨le_rfl, fun _ value member => by cases member⟩
  | cons part rest hyp =>
    obtain ⟨least, clean⟩ := hyp fun value member => values value (.tail _ member)
    cases part with
    | plain text =>
      simp only [masked, map_cons, spell_cons, Part.change, Part.text, length_append]
        at least clean ⊢
      refine ⟨by omega, fun tight value member => ?_⟩
      rcases mem_cons.mp member with same | later
      · cases same
      · exact clean (by omega) value later
    | hidden here =>
      obtain ⟨most, whole⟩ := length_mask maskable (values here (.head _))
      simp only [masked, map_cons, spell_cons, Part.change, Part.text, length_append]
        at least clean ⊢
      refine ⟨by omega, fun tight value member => ?_⟩
      rcases mem_cons.mp member with same | later
      · rw [Part.hidden.inj same]
        exact whole (by omega)
      · exact clean (by omega) value later

include maskable listed in
/-- Values without a secret of their own order are clear where they are apart. -/
theorem clear_of_clean (apart : Apart parts)
    (clean : ∀ value, .hidden value ∈ parts → Clean value secrets) :
    Clear marker secrets parts := by
  induction secrets generalizing parts with
  | nil => trivial
  | cons secret secrets hyp =>
    refine ⟨untouched_of_apart apart (listed.strange secret (.head _)) fun value member => ?_,
      hyp maskable.tail (listed.blank maskable) (apart_blank apart) fun value member => ?_⟩
    · exact (clean value member).imp_right And.left
    · obtain ⟨found, other⟩ := hidden_of_blank member
      exact ((clean value found).resolve_left other).2

include maskable listed in
/-- Between plain texts a message is masked as a whole only where it is clear. -/
theorem clear_of_mask (apart : Apart parts)
    (whole : mask marker secrets (spell parts) = masked marker parts) :
    Clear marker secrets parts := by
  rw [mask_apart maskable.some apart listed.strange] at whole
  refine clear_of_clean maskable listed apart ?_
  exact (clean_of_length maskable listed.values).2 (congrArg List.length whole)

end Masks

end Golusoris.Lib.Masking
