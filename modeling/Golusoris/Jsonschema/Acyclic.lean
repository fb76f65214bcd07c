import Golusoris.Jsonschema.Config
import Mathlib.Data.Fintype.Basic

/-!
# What a successful check promises of reflection

`Part` is one step of the reflector with references disabled: into the element
of a container, or into a field that has a property. A type ends when no such
descent goes on forever. The check walks structs only, and sees the struct that
`structOf` finds behind a field; behind `maxConfigWalk` containers it sees none.
-/

namespace Golusoris.Jsonschema

open Lib (Bytes)
open Lib.DepthFirst

variable {T : Type}

/-- The element type of a pointer, slice, array or map. -/
def elem (g : TypeGraph T) (t : T) : Option T :=
  match g.kind t with
  | .pointer e | .slice e | .array e | .map e => some e
  | .struct _ => none
  | .leaf => none

/-- The type starts with a number of containers, each the element of the last. -/
def Nested (g : TypeGraph T) : ℕ → T → Prop
  | 0, _ => True
  | depth + 1, t => ∃ e, elem g t = some e ∧ Nested g depth e

/-- Containers as deep as `structOf` goes; it gives up on such a type. -/
def Buried (g : TypeGraph T) (t : T) : Prop :=
  Nested g maxConfigWalk t

section Unfolding

variable [DecidableEq T]

/-- The types that the reflector goes on to from a type. -/
inductive Part (g : TypeGraph T) : T → T → Prop where
  | elem {t e : T} (container : elem g t = some e) : Part g e t
  | field {t : T} {f : Field T} (member : f ∈ fieldsOf g t) (keeps : kept g f) : Part g f.type t

/-- Unfolding the type reaches its leaves after finitely many steps. -/
def Ends (g : TypeGraph T) (t : T) : Prop :=
  Acc (Part g) t

/-- What reflection relies on, and which types it must not lose by it. -/
structure Guaranteed [Fintype T] (g : TypeGraph T) (root : T) : Prop where
  ends : checkAcyclic g root = .ok () → Ends g root
  accepts : Ends g root → cost (slots g) root < maxConfigWalk → checkAcyclic g root = .ok ()

/-- No struct that the walk gets to keeps a field whose unfolding is both buried
and infinite. A walk that fails anyway makes no demand. -/
def NoBuriedRecursion [Fintype T] (g : TypeGraph T) (root : T) : Prop :=
  Acc (Below (slots g)) root → cost (slots g) root ≤ maxConfigWalk →
    ∀ t, Reached (slots g) root t → ∀ f ∈ fieldsOf g t, kept g f → Buried g f.type →
      Ends g f.type

variable {g : TypeGraph T} {t child root : T}

theorem structOfWithin_elem {rounds : ℕ} {e : T} (container : elem g t = some e) :
    structOfWithin g (rounds + 1) t = structOfWithin g rounds e := by
  rw [structOfWithin]
  unfold elem at container
  split at container <;> cases container <;> simp [*]

omit [DecidableEq T] in
theorem fieldsOf_elem {e : T} (container : elem g t = some e) : fieldsOf g t = [] := by
  unfold elem at container
  unfold fieldsOf
  split at container <;> cases container <;> simp [*]

/-- A container leads to its element and nowhere else. -/
theorem ends_elem {e : T} (container : elem g t = some e) : Ends g t ↔ Ends g e := by
  constructor
  · exact fun ends => ends.inv (.elem container)
  · intro ends
    refine ⟨_, fun part step => ?_⟩
    cases step with
    | elem again =>
      rw [container] at again
      rwa [← Option.some.inj again]
    | field member _ =>
      rw [fieldsOf_elem container] at member
      cases member

theorem not_kept_time {f : Field T} (member : f ∈ fieldsOf g g.time) : ¬ kept g f := by
  rw [fieldsOf, g.time_kind] at member
  obtain ⟨hidden, named⟩ := g.time_hidden f member
  simp [kept, configField, hidden, named]

theorem ends_time : Ends g g.time := by
  refine ⟨_, fun part step => ?_⟩
  cases step with
  | elem container => simp [elem, g.time_kind] at container
  | field member keeps => exact absurd keeps (not_kept_time member)

/-- `structOf` finds a struct, which is a part of the type. -/
theorem part_of_structOfWithin {rounds : ℕ} (found : structOfWithin g rounds t = some child) :
    elem g child = none ∧ Relation.ReflTransGen (Part g) child t := by
  induction rounds generalizing t with
  | zero => cases found
  | succ rounds hyp =>
    rcases container : elem g t with _ | e
    · have same : t = child := by
        rw [structOfWithin] at found
        unfold elem at container
        split at found <;> simp_all
      rw [← same]
      exact ⟨container, .refl⟩
    · rw [structOfWithin_elem container] at found
      exact ⟨(hyp found).1, (hyp found).2.tail (.elem container)⟩

/-- Whatever is not buried ends when the struct behind it does, if there is one. -/
theorem ends_of_structOfWithin {rounds : ℕ} (shallow : ¬ Nested g rounds t)
    (found : ∀ child, structOfWithin g rounds t = some child → Ends g child) : Ends g t := by
  induction rounds generalizing t with
  | zero => exact absurd trivial shallow
  | succ rounds hyp =>
    rcases container : elem g t with _ | e
    · rw [structOfWithin] at found
      rcases kind : g.kind t with _ | _ | _ | _ | fields | _
      case struct =>
        by_cases time : t = g.time
        · rw [time]
          exact ends_time
        · exact found t (by simp [kind, time])
      case leaf =>
        refine ⟨_, fun part step => ?_⟩
        cases step with
        | elem some => simp [container] at some
        | field member _ => simp [fieldsOf, kind] at member
      all_goals simp [elem, kind] at container
    · rw [ends_elem container]
      refine hyp (fun deep => shallow ⟨e, container, deep⟩) fun child behind => ?_
      exact found child (by rwa [structOfWithin_elem container])

theorem below_slots :
    Below (slots g) child t ↔ ∃ f ∈ fieldsOf g t, kept g f ∧ structOf g f.type = some child := by
  simp only [Below, slots, List.mem_map]
  constructor
  · rintro ⟨f, member, slot⟩
    split at slot
    case isTrue keeps => exact ⟨f, member, keeps, slot⟩
    case isFalse => cases slot
  · rintro ⟨f, member, keeps, found⟩
    exact ⟨f, member, by rw [if_pos keeps, found]⟩

/-- What the walk descends to, the reflector descends to as well. -/
theorem part_of_below (edge : Below (slots g) child t) : Relation.TransGen (Part g) child t := by
  obtain ⟨f, member, keeps, found⟩ := below_slots.mp edge
  exact Relation.TransGen.tail' (part_of_structOfWithin found).2 (.field member keeps)

theorem part_of_reached (reached : Reached (slots g) root t) :
    Relation.ReflTransGen (Part g) t root := by
  induction reached using Relation.ReflTransGen.head_induction_on with
  | refl => exact .refl
  | head edge _ above => exact (part_of_below edge).to_reflTransGen.trans above

theorem Ends.acc_below (ends : Ends g root) : Acc (Below (slots g)) root :=
  Subrelation.accessible part_of_below ends.transGen

/-- Where the walk ends, so does the unfolding, but for buried types. -/
theorem ends_of_acc_below (acc : Acc (Below (slots g)) root)
    (isStruct : elem g root = none)
    (buried : ∀ t, Reached (slots g) root t → ∀ f ∈ fieldsOf g t, kept g f → Buried g f.type →
      Ends g f.type) : Ends g root := by
  induction acc with
  | intro t _ hyp =>
    refine ⟨_, fun part step => ?_⟩
    cases step with
    | elem container => simp [isStruct] at container
    | @field _ f member keeps =>
      by_cases deep : Buried g f.type
      · exact buried t .refl f member keeps deep
      refine ends_of_structOfWithin deep fun child found => ?_
      have edge : Below (slots g) child t := below_slots.mpr ⟨f, member, keeps, found⟩
      refine hyp child edge (part_of_structOfWithin found).1 fun s reached => ?_
      exact buried s (reached.tail edge)

variable [Fintype T]

theorem checkAcyclic_ok :
    checkAcyclic g root = .ok () ↔
      Acc (Below (slots g)) root ∧ cost (slots g) root ≤ maxConfigWalk := by
  rw [← walk_finished, checkAcyclic]
  split <;> simp [*]

/-- The check keeps its promise for exactly the roots without buried recursion. -/
theorem guaranteed_iff {fields : List (Field T)} (isStruct : g.kind root = .struct fields) :
    Guaranteed g root ↔ NoBuriedRecursion g root := by
  constructor
  · intro guaranteed acc paid t reached f member keeps _
    have ends := guaranteed.ends (checkAcyclic_ok.mpr ⟨acc, paid⟩)
    have endsHere : Ends g t := acc_of_reflTransGen (part_of_reached reached) ends
    exact endsHere.inv (.field member keeps)
  · intro shallow
    have bare : elem g root = none := by simp [elem, isStruct]
    constructor
    case ends =>
      intro accepted
      obtain ⟨acc, paid⟩ := checkAcyclic_ok.mp accepted
      exact ends_of_acc_below acc bare (shallow acc paid)
    case accepts =>
      exact fun ends short => checkAcyclic_ok.mpr ⟨ends.acc_below, short.le⟩

end Unfolding

/-- Four types: `Tree` is `[]Tree`, `Config` holds a tree, `Server` a start time. -/
inductive Sample where
  | config
  | tree
  | server
  | time
  deriving DecidableEq

instance : Fintype Sample where
  elems := {.config, .tree, .server, .time}
  complete := by
    intro t
    cases t <;> simp

/-- An exported field with a `koanf` tag and no other. -/
def tagged (name koanf : Bytes) (type : Sample) : Field Sample :=
  ⟨name, koanf, [], false, true, type⟩

def sampleTypes : TypeGraph Sample where
  kind
    | .config => .struct [tagged [0x54] [0x74] .tree]
    | .tree => .slice .tree
    | .server => .struct [tagged [0x53] [0x73] .time]
    | .time => .struct []
  text _ := []
  time := .time
  timeFields := []
  time_kind := rfl
  time_hidden := by simp

theorem structOf_tree : structOf sampleTypes .tree = none := by
  have all : ∀ rounds, structOfWithin sampleTypes rounds .tree = none := by
    intro rounds
    induction rounds with
    | zero => rfl
    | succ rounds hyp => exact hyp
  exact all maxConfigWalk

theorem structOf_time : structOf sampleTypes .time = none := by
  have first : structOfWithin sampleTypes (65535 + 1) .time = none := by
    rw [structOfWithin]
    rfl
  exact first

theorem slots_server : slots sampleTypes .server = [none] := by
  have behind : slots sampleTypes .server =
      [if kept sampleTypes (tagged [0x53] [0x73] .time) then structOf sampleTypes .time else none] :=
    rfl
  rw [behind, structOf_time, ite_self]

theorem slots_config : slots sampleTypes .config = [none] := by
  have behind : slots sampleTypes .config =
      [if kept sampleTypes (tagged [0x54] [0x74] .tree) then structOf sampleTypes .tree else none] :=
    rfl
  rw [behind, structOf_tree, ite_self]

/-- A field that holds a time is settled at once. -/
theorem guaranteed_server : Guaranteed sampleTypes .server := by
  refine (guaranteed_iff rfl).mpr fun _ _ t reached f member _ buried => ?_
  have alone : t = .server := by
    clear member
    induction reached using Relation.ReflTransGen.head_induction_on with
    | refl => rfl
    | head edge _ above =>
      rw [above, Below, slots_server, List.mem_singleton] at edge
      cases edge
  obtain ⟨e, container, _⟩ : Nested sampleTypes (65535 + 1) f.type := buried
  subst alone
  simp [fieldsOf, sampleTypes, tagged] at member
  simp [member, elem, sampleTypes] at container

/-- A root with one slot that holds no struct is walked in two turns. -/
theorem walk_leaf {T : Type} [DecidableEq T] {below : T → List (Option T)} {root : T}
    (only : below root = [none]) : walk below 2 (rootMark root) [⟨root, 0⟩] = .finished := by
  simp [walk, turn, only]

/-- `Config` passes the check, and is unfolded forever. -/
theorem config_of_trees : ¬ Guaranteed sampleTypes .config := by
  intro guaranteed
  have short : walk (slots sampleTypes) 2 (rootMark .config) [⟨.config, 0⟩] = .finished :=
    walk_leaf slots_config
  obtain ⟨acc, paid⟩ := (walk_finished _ _ _).mp short
  have accepted := checkAcyclic_ok.mpr ⟨acc, paid.trans (by decide)⟩
  have keeps : kept sampleTypes (tagged [0x54] [0x74] .tree) :=
    by simp [kept, configField, tagged, tagName]
  have ends : Ends sampleTypes .tree := (guaranteed.ends accepted).inv (.field (.head _) keeps)
  exact not_acc_of_loop (.single (.elem rfl)) ends

end Golusoris.Jsonschema
