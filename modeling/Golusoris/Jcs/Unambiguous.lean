import Golusoris.Jcs.Acceptance

/-!
# The grammar is unambiguous

The first byte of a value tells its form, and what follows a value cannot
continue it. So two derivations over the same bytes read the same text and give
the same value.
-/

namespace Golusoris.Jcs

open List
open Lib

/-- The form that a first byte announces. -/
def byteForm (byte : UInt8) : Nat :=
  if byte = 0x6E then 0
  else if byte = 0x74 then 1
  else if byte = 0x66 then 2
  else if byte = 0x22 then 3
  else if byte = 0x5B then 4
  else if byte = 0x7B then 5
  else 6

def Json.form : Json → Nat
  | .null => 0
  | .bool true => 1
  | .bool false => 2
  | .string _ => 3
  | .array _ => 4
  | .object _ => 5
  | .number _ => 6

theorem byteForm_number {byte : UInt8} (start : byte = 0x2D ∨ isDigit byte) : byteForm byte = 6 := by
  have other {letter : UInt8} (unmarked : letter ≠ 0x2D) (undigit : isDigit letter = false) :
      byte ≠ letter := by
    rintro rfl
    exact start.elim unmarked fun digit => by simp [undigit] at digit
  rw [byteForm, if_neg (other (by decide) rfl), if_neg (other (by decide) rfl),
    if_neg (other (by decide) rfl), if_neg (other (by decide) rfl), if_neg (other (by decide) rfl),
    if_neg (other (by decide) rfl)]

theorem Derives.form_eq {text : Bytes} {json : Json} (derives : Derives text (.value json))
    (tail : Bytes) : byteForm (peek (text ++ tail)) = json.form := by
  cases derives with
  | null | yes | no | emptyArray _ | array _ | emptyObject _ | object _ => rfl
  | number written _ => exact byteForm_number (written.peek tail)
  | string written => rw [written.peek tail, Json.form]; rfl

theorem Derives.same_form {text text' tail tail' : Bytes} {json json' : Json}
    (derives : Derives text (.value json)) (derives' : Derives text' (.value json'))
    (same : text ++ tail = text' ++ tail') : json.form = json'.form := by
  rw [← derives.form_eq tail, ← derives'.form_eq tail', same]

/-- The elements of an array do not start with its closer. -/
theorem Derives.elements_open {text : Bytes} {elements : List Json}
    (derives : Derives text (.elements elements)) (rest : Bytes) :
    peek (skipSpace (text ++ rest)) ≠ 0x5D := by
  cases derives with
  | @lastElement before text after json left inside right =>
    have solid := inside.solid (after ++ rest)
    rw [append_assoc, append_assoc, skipSpace_append left solid.1]
    exact solid.2.1
  | @element before text after more json elements left inside right _ =>
    have solid := inside.solid ((after ++ 0x2C :: more) ++ rest)
    rw [append_assoc, append_assoc, skipSpace_append left solid.1]
    exact solid.2.1

theorem Derives.members_open {text : Bytes} {members : List (List Char × Json)}
    (derives : Derives text (.members members)) (rest : Bytes) :
    peek (skipSpace (text ++ rest)) ≠ 0x7D := by
  cases derives with
  | lastMember left named _ _ _ _ | member left named _ _ _ _ _ =>
    rw [append_assoc, append_assoc, skipSpace_append left (by rw [named.peek]; rfl),
      named.peek]
    decide

/-- White space before a solid byte is read in one way. -/
theorem space_cancel {left right rest other : Bytes} (blank : Space left) (blank' : Space right)
    (solid : isSpace (peek rest) = false) (solid' : isSpace (peek other) = false)
    (same : left ++ rest = right ++ other) : rest = other := by
  rw [← skipSpace_append blank solid, same, skipSpace_append blank' solid']

/-- No other derivation reads the same bytes. -/
def Phrase.Sole (text : Bytes) : Phrase → Prop
  | .value json => ∀ (text' : Bytes) (json' : Json) (tail tail' : Bytes),
      Derives text' (.value json') → text ++ tail = text' ++ tail' → Stop tail → Stop tail' →
      tail = tail' ∧ json = json'
  | .elements items => ∀ (text' : Bytes) (items' : List Json) (tail tail' : Bytes),
      Derives text' (.elements items') → text ++ 0x5D :: tail = text' ++ 0x5D :: tail' →
      tail = tail' ∧ items = items'
  | .members fields => ∀ (text' : Bytes) (fields' : List (List Char × Json)) (tail tail' : Bytes),
      Derives text' (.members fields') → text ++ 0x7D :: tail = text' ++ 0x7D :: tail' →
      tail = tail' ∧ fields = fields'

/-- Two readings of a name and its colon agree. -/
theorem name_sole {before before' name name' middle middle' rest rest' : Bytes}
    {runes runes' : List Char} (left : Space before) (left' : Space before')
    (named : StringText name runes) (named' : StringText name' runes') (inner : Space middle)
    (inner' : Space middle')
    (same : before ++ (name ++ (middle ++ 0x3A :: rest)) =
      before' ++ (name' ++ (middle' ++ 0x3A :: rest'))) :
    runes = runes' ∧ rest = rest' := by
  have names := space_cancel left left' (by rw [named.peek]; rfl) (by rw [named'.peek]; rfl) same
  have read := str_text named (middle ++ 0x3A :: rest)
  rw [names, str_text named'] at read
  obtain ⟨encoded, after⟩ := Prod.mk.inj (Except.ok.inj read)
  refine ⟨(Utf8.encode_injective encoded).symm, ?_⟩
  exact (List.cons.inj (space_cancel inner inner' rfl rfl after.symm)).2

/-- Two readings of a value with white space around it, before a byte that ends it, agree. -/
theorem Phrase.Sole.item {before before' text text' after after' rest rest' : Bytes}
    {byte byte' : UInt8}
    {json json' : Json} (sole : Phrase.Sole text (.value json)) (inside : Derives text (.value json))
    (inside' : Derives text' (.value json')) (left : Space before) (left' : Space before')
    (right : Space after) (right' : Space after') (ends : byte = 0x2C ∨ byte = 0x5D ∨ byte = 0x7D)
    (ends' : byte' = 0x2C ∨ byte' = 0x5D ∨ byte' = 0x7D)
    (same : before ++ (text ++ (after ++ byte :: rest)) =
      before' ++ (text' ++ (after' ++ byte' :: rest'))) :
    json = json' ∧ byte = byte' ∧ rest = rest' := by
  have solid {closer : UInt8} (ends : closer = 0x2C ∨ closer = 0x5D ∨ closer = 0x7D) :
      isSpace closer = false := by
    rcases ends with rfl | rfl | rfl <;> rfl
  have values := space_cancel left left' (inside.solid _).1 (inside'.solid _).1 same
  obtain ⟨stop, rfl⟩ := sole _ _ _ _ inside' values (.space_append right (stop_cons ends _))
    (.space_append right' (stop_cons ends' _))
  obtain ⟨rfl, rfl⟩ := List.cons.inj (space_cancel right right' (solid ends) (solid ends') stop)
  exact ⟨rfl, rfl, rfl⟩

theorem Derives.sole {text : Bytes} {phrase : Phrase} (derives : Derives text phrase) :
    Phrase.Sole text phrase := by
  induction derives with
  | null =>
    intro text' json' tail tail' derives' same stops stops'
    have form := Derives.same_form .null derives' same
    cases derives' <;> try cases form
    exact ⟨append_cancel_left same, rfl⟩
  | yes =>
    intro text' json' tail tail' derives' same stops stops'
    have form := Derives.same_form .yes derives' same
    cases derives' <;> try cases form
    exact ⟨append_cancel_left same, rfl⟩
  | no =>
    intro text' json' tail tail' derives' same stops stops'
    have form := Derives.same_form .no derives' same
    cases derives' <;> try cases form
    exact ⟨append_cancel_left same, rfl⟩
  | number written finite =>
    intro text' json' tail tail' derives' same stops stops'
    have form := Derives.same_form (.number written finite) derives' same
    cases derives' <;> try cases form
    rename_i written' finite'
    have read := number_append written finite stops
    rw [same, number_append written' finite' stops'] at read
    cases read
    exact ⟨rfl, rfl⟩
  | string written =>
    intro text' json' tail tail' derives' same stops stops'
    have form := Derives.same_form (.string written) derives' same
    cases derives' <;> try cases form
    rename_i written'
    have read := str_text written tail
    rw [same, str_text written'] at read
    obtain ⟨encoded, rfl⟩ := Prod.mk.inj (Except.ok.inj read)
    rw [Utf8.encode_injective encoded]
    exact ⟨rfl, rfl⟩
  | @emptyArray space blank =>
    intro text' json' tail tail' derives' same stops stops'
    have form := Derives.same_form (.emptyArray blank) derives' same
    cases derives' <;> try cases form
    · rename_i space' blank'
      simp only [cons_append, append_assoc, nil_append] at same
      have rest := space_cancel blank blank' rfl rfl (List.cons.inj same).2
      exact ⟨(List.cons.inj rest).2, rfl⟩
    · rename_i inside'
      simp only [cons_append, append_assoc, nil_append] at same
      have opened := inside'.elements_open (0x5D :: tail')
      rw [← (List.cons.inj same).2, skipSpace_append blank rfl] at opened
      exact absurd rfl opened
  | @array text elements inside ih =>
    intro text' json' tail tail' derives' same stops stops'
    have form := Derives.same_form (.array inside) derives' same
    cases derives' <;> try cases form
    · rename_i space' blank'
      simp only [cons_append, append_assoc, nil_append] at same
      have opened := inside.elements_open (0x5D :: tail)
      rw [(List.cons.inj same).2, skipSpace_append blank' rfl] at opened
      exact absurd rfl opened
    · rename_i text' elements' inside'
      simp only [cons_append, append_assoc, nil_append] at same
      obtain ⟨rfl, rfl⟩ := ih _ _ _ _ inside' (List.cons.inj same).2
      exact ⟨rfl, rfl⟩
  | @emptyObject space blank =>
    intro text' json' tail tail' derives' same stops stops'
    have form := Derives.same_form (.emptyObject blank) derives' same
    cases derives' <;> try cases form
    · rename_i space' blank'
      simp only [cons_append, append_assoc, nil_append] at same
      have rest := space_cancel blank blank' rfl rfl (List.cons.inj same).2
      exact ⟨(List.cons.inj rest).2, rfl⟩
    · rename_i inside'
      simp only [cons_append, append_assoc, nil_append] at same
      have opened := inside'.members_open (0x7D :: tail')
      rw [← (List.cons.inj same).2, skipSpace_append blank rfl] at opened
      exact absurd rfl opened
  | @object text members inside ih =>
    intro text' json' tail tail' derives' same stops stops'
    have form := Derives.same_form (.object inside) derives' same
    cases derives' <;> try cases form
    · rename_i space' blank'
      simp only [cons_append, append_assoc, nil_append] at same
      have opened := inside.members_open (0x7D :: tail)
      rw [(List.cons.inj same).2, skipSpace_append blank' rfl] at opened
      exact absurd rfl opened
    · rename_i text' members' inside'
      simp only [cons_append, append_assoc, nil_append] at same
      obtain ⟨rfl, rfl⟩ := ih _ _ _ _ inside' (List.cons.inj same).2
      exact ⟨rfl, rfl⟩
  | @lastElement before text after json left inside right ih =>
    intro text' items' tail tail' derives' same
    cases derives' with
    | lastElement left' inside' right' =>
      simp only [append_assoc] at same
      obtain ⟨rfl, -, rfl⟩ :=
        ih.item inside inside' left left' right right' (by simp) (by simp) same
      exact ⟨rfl, rfl⟩
    | element left' inside' right' _ =>
      simp only [append_assoc, cons_append] at same
      cases (ih.item inside inside' left left' right right' (by simp) (by simp) same).2.1
  | @element before text after more json elements left inside right _ ih ihRest =>
    intro text' items' tail tail' derives' same
    simp only [append_assoc, cons_append] at same
    cases derives' with
    | lastElement left' inside' right' =>
      simp only [append_assoc] at same
      cases (ih.item inside inside' left left' right right' (by simp) (by simp) same).2.1
    | element left' inside' right' others' =>
      simp only [append_assoc, cons_append] at same
      obtain ⟨rfl, -, rest⟩ :=
        ih.item inside inside' left left' right right' (by simp) (by simp) same
      obtain ⟨rfl, rfl⟩ := ihRest _ _ _ _ others' rest
      exact ⟨rfl, rfl⟩
  | @lastMember before name middle space text after runes json left named inner blank inside right
      ih =>
      intro text' fields' tail tail' derives' same
      simp only [append_assoc, cons_append] at same
      cases derives' with
      | lastMember left' named' inner' blank' inside' right' =>
        simp only [append_assoc, cons_append] at same
        obtain ⟨rfl, after⟩ := name_sole left left' named named' inner inner' same
        obtain ⟨rfl, -, rfl⟩ :=
          ih.item inside inside' blank blank' right right' (by simp) (by simp) after
        exact ⟨rfl, rfl⟩
      | member left' named' inner' blank' inside' right' _ =>
        simp only [append_assoc, cons_append] at same
        obtain ⟨rfl, after⟩ := name_sole left left' named named' inner inner' same
        cases (ih.item inside inside' blank blank' right right' (by simp) (by simp) after).2.1
  | @member before name middle space text after more runes json members left named inner blank
      inside right _ ih ihRest =>
      intro text' fields' tail tail' derives' same
      simp only [append_assoc, cons_append] at same
      cases derives' with
      | lastMember left' named' inner' blank' inside' right' =>
        simp only [append_assoc, cons_append] at same
        obtain ⟨rfl, after⟩ := name_sole left left' named named' inner inner' same
        cases (ih.item inside inside' blank blank' right right' (by simp) (by simp) after).2.1
      | member left' named' inner' blank' inside' right' others' =>
        simp only [append_assoc, cons_append] at same
        obtain ⟨rfl, after⟩ := name_sole left left' named named' inner inner' same
        obtain ⟨rfl, -, rest⟩ :=
          ih.item inside inside' blank blank' right right' (by simp) (by simp) after
        obtain ⟨rfl, rfl⟩ := ihRest _ _ _ _ others' rest
        exact ⟨rfl, rfl⟩

/-- A text denotes at most one value. -/
theorem Denotes.unique {data : Bytes} {json json' : Json} (denotes : Denotes data json)
    (denotes' : Denotes data json') : json = json' := by
  obtain ⟨before, text, after, rfl, left, right, derives⟩ := denotes
  obtain ⟨before', text', after', same, left', right', derives'⟩ := denotes'
  have values := space_cancel left left' (derives.solid _).1 (derives'.solid _).1 same
  have stops : ∀ {space : Bytes}, Space space → Stop space := fun {space} blank =>
    append_nil space ▸ .space_append blank stop_nil
  exact (derives.sole _ _ _ _ derives' values (stops right) (stops right')).2

end Golusoris.Jcs
