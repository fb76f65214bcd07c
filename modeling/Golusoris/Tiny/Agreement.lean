import Golusoris.Lib.Machine
import Golusoris.Tiny.Registry
import Mathlib.Data.List.Induction
import Mathlib.Data.List.Perm.Subperm

/-!
# The two registries side by side

Both registries take the same calls. A read visits the map and the table in any order.
The registries agree as long as every saved model is new, fits the table and does not
meet a model of the same microsecond that the map sorts the other way round.
-/

namespace Golusoris.Tiny

open List
open Lib

variable {Number : Type}

/-- The map's models and the table's rows. -/
structure Pair (Number : Type) where
  models : List (Model Number)
  rows : List (Model Number)

inductive Call (Number : Type) where
  | save (m : Model Number) (generated : Option Bytes) (now : Int)
  | get (ref : Ref)
  | latest (tenantId name : Bytes)
  | list (filter : ListFilter)

/-- What a registry answers: for a save its result and the caller's model after it. -/
inductive Answer (Number : Type) where
  | saved (result : Except SaveError Unit) (model : Model Number)
  | found (model : Option (Model Number))
  | listed (models : List (Model Number))

structure Event (Number : Type) where
  call : Call Number
  memory : Answer Number
  table : Answer Number

inductive Step (checks : Checks Number) : Pair Number → Event Number → Pair Number → Prop where
  | save {pair : Pair Number} (m : Model Number) (generated : Option Bytes) (now : Int) :
      Step checks pair
        ⟨.save m generated now,
          .saved (memorySave checks pair.models m generated now).result
            (memorySave checks pair.models m generated now).model,
          .saved (tableSave checks pair.rows m generated now).result
            (tableSave checks pair.rows m generated now).model⟩
        ⟨(memorySave checks pair.models m generated now).models,
          (tableSave checks pair.rows m generated now).models⟩
  | get {pair : Pair Number} (ref : Ref) {visit scan : List (Model Number)}
      (visited : visit.Perm pair.models) (scanned : scan.Perm pair.rows) :
      Step checks pair ⟨.get ref, .found (memoryGet visit ref), .found (tableGet scan ref)⟩ pair
  | latest {pair : Pair Number} (tenantId name : Bytes) {visit scan : List (Model Number)}
      (visited : visit.Perm pair.models) (scanned : scan.Perm pair.rows) :
      Step checks pair
        ⟨.latest tenantId name, .found (memoryLatest visit tenantId name),
          .found (tableLatest scan tenantId name)⟩ pair
  | list {pair : Pair Number} (filter : ListFilter) {memory table : List (Model Number)}
      (visited : Lists pair.models filter memory) (scanned : Lists pair.rows filter table) :
      Step checks pair ⟨.list filter, .listed memory, .listed table⟩ pair

def machine (checks : Checks Number) : Machine (Pair Number) (Event Number) where
  Initial pair := pair = ⟨[], []⟩
  Step := Step checks

/-- At most one model has a tenant, a name and a version. -/
def Distinct (models : List (Model Number)) : Prop :=
  models.Pairwise fun first second => ¬(first.tenantId = second.tenantId ∧
    first.name = second.name ∧ first.version = second.version)

/-- The answers agree: models as the table keeps them, and a list as one that the table
could have given. -/
def Agree (rows : List (Model Number)) : Event Number → Prop
  | ⟨.save m _ _, .saved first model, .saved second other⟩ =>
      ((first = .ok ()) ↔ (second = .ok ())) ∧ model = other ∧ (first ≠ .ok () → model = m)
  | ⟨_, .found first, .found second⟩ => first.map stored = second
  | ⟨.list filter, .listed first, .listed _⟩ => Lists rows filter (first.map stored)
  | _ => False

/-- A save that succeeded kept every model; any other call changed nothing. -/
def KeepsModels (before : Pair Number) (event : Event Number) (after : Pair Number) : Prop :=
  (∀ m ∈ before.models, m ∈ after.models) ∧ (∀ m ∈ before.rows, m ∈ after.rows) ∧
    ((∀ model, event.memory ≠ .saved (.ok ()) model) → after.models = before.models) ∧
    ((∀ model, event.table ≠ .saved (.ok ()) model) → after.rows = before.rows)

/-- A model that the map lists before another of the same microsecond, and the table
behind it. -/
def Disordered (first second : Model Number) : Prop :=
  first.createdAt / 1000 = second.createdAt / 1000 ∧ second.createdAt < first.createdAt ∧
    first.version < second.version

/-- The model is new to the registries and fits the table. -/
structure Compatible (checks : Checks Number) (models : List (Model Number)) (m : Model Number) :
    Prop where
  newId : ∀ other ∈ models, other.id ≠ (versioned models m).id
  newVersion : ∀ other ∈ models, ¬(other.tenantId = m.tenantId ∧ other.name = m.name ∧
    other.version = (versioned models m).version)
  fits : insertable checks (versioned models m)
  counted : m.version = 0 → (∃ other ∈ models, named m.tenantId m.name other) →
    ∃ other ∈ models, named m.tenantId m.name other ∧ 0 < other.version
  ordered : ∀ other ∈ models, ¬Disordered other (versioned models m) ∧
    ¬Disordered (versioned models m) other

/-- The condition on a call: a model that passes the checks and gets its defaults is
compatible with those in the store. -/
def Admissible (checks : Checks Number) (models : List (Model Number)) : Call Number → Prop
  | .save m generated now => ∀ ready, validateModelForSave checks m = .ok () →
      ensureModelDefaults generated now m = .ok ready → Compatible checks models ready
  | _ => True

/-- The runs all of whose calls are admissible. -/
def carefulMachine (checks : Checks Number) : Machine (Pair Number) (Event Number) where
  Initial pair := pair = ⟨[], []⟩
  Step before event after := Step checks before event after ∧
    Admissible checks before.models event.call

/-- The rows are those of the models. -/
structure Mirrors (pair : Pair Number) : Prop where
  rows : pair.rows = pair.models.map stored
  distinct : Distinct pair.models
  inRange : ∀ m ∈ pair.models, -2147483648 ≤ m.version ∧ m.version ≤ 2147483647
  ordered : ∀ first ∈ pair.models, ∀ second ∈ pair.models, ¬Disordered first second

variable {models visit scan : List (Model Number)} {first second m : Model Number}

theorem Distinct.eq (distinct : Distinct models) (left : first ∈ models) (right : second ∈ models)
    (tenantId : first.tenantId = second.tenantId) (name : first.name = second.name)
    (version : first.version = second.version) : first = second := by
  by_contra apart
  have symmetric : Std.Symm fun first second : Model Number => ¬(first.tenantId = second.tenantId ∧
      first.name = second.name ∧ first.version = second.version) :=
    ⟨fun _ _ differ same => differ ⟨same.1.symm, same.2.1.symm, same.2.2.symm⟩⟩
  exact distinct.forall left right apart ⟨tenantId, name, version⟩

theorem named_iff {tenantId name : Bytes} :
    named tenantId name m ↔ m.tenantId = tenantId ∧ m.name = name := by
  rw [named, decide_eq_true_eq]

theorem distinct_stored (distinct : Distinct models) : Distinct (models.map stored) :=
  pairwise_map.mpr (distinct.imp fun apart => apart)

/-- With at most one match, every order of the models finds it. -/
theorem find?_eq_some_of_sole {wanted : Model Number → Bool} (found : m ∈ models)
    (right : wanted m) (sole : ∀ other ∈ models, wanted other → other = m) :
    models.find? wanted = some m := by
  cases search : models.find? wanted with
  | none => exact absurd right (find?_eq_none.mp search m found)
  | some other => rw [sole other (mem_of_find?_eq_some search) (find?_some search)]

theorem find?_stored {wanted : Model Number → Bool} (visited : visit.Perm models)
    (scanned : scan.Perm (models.map stored))
    (blind : ∀ m : Model Number, wanted (stored m) = wanted m)
    (sole : ∀ first ∈ models, ∀ second ∈ models, wanted first → wanted second → first = second) :
    (visit.find? wanted).map stored = scan.find? wanted := by
  cases search : visit.find? wanted with
  | none =>
    symm
    refine find?_eq_none.mpr fun row found => ?_
    obtain ⟨m, present, rfl⟩ := mem_map.mp (scanned.mem_iff.mp found)
    rw [blind]
    exact find?_eq_none.mp search m (visited.mem_iff.mpr present)
  | some m =>
    have present := visited.mem_iff.mp (mem_of_find?_eq_some search)
    have right := find?_some search
    symm
    refine find?_eq_some_of_sole (scanned.mem_iff.mpr (mem_map_of_mem present))
      ((blind m).trans right) fun row found fits => ?_
    obtain ⟨other, known, rfl⟩ := mem_map.mp (scanned.mem_iff.mp found)
    rw [sole other known m present ((blind other).symm.trans fits) right]

/-- The model that `Latest` finds. -/
structure Highest (models : List (Model Number)) (tenantId name : Bytes) (m : Model Number) : Prop where
  present : m ∈ models
  named : named tenantId name m
  above : ∀ other ∈ models, Tiny.named tenantId name other → other.version ≤ m.version

theorem memoryLatest_cases (models : List (Model Number)) (tenantId name : Bytes) :
    (memoryLatest models tenantId name = none ∧ ∀ m ∈ models, ¬named tenantId name m) ∨
      ∃ m, memoryLatest models tenantId name = some m ∧ Highest models tenantId name m := by
  induction models using reverseRecOn with
  | nil => exact .inl ⟨rfl, by simp⟩
  | append_singleton models last ih =>
    rw [memoryLatest, foldl_append, foldl_cons, foldl_nil, ← memoryLatest]
    by_cases right : named tenantId name last
    · rw [right]
      simp only [Bool.not_true, Bool.false_eq_true, if_false]
      rcases ih with ⟨none, others⟩ | ⟨best, found, highest⟩
      · rw [none]
        refine .inr ⟨last, rfl, by simp, right, ?_⟩
        intro other member fits
        rcases mem_append.mp member with member | member
        · exact absurd fits (others other member)
        · obtain rfl := mem_singleton.mp member
          exact Int.le_refl _
      · rw [found]
        simp only
        split_ifs with less
        · refine .inr ⟨last, rfl, by simp, right, ?_⟩
          intro other member fits
          rcases mem_append.mp member with member | member
          · exact Int.le_trans (highest.above other member fits) (Int.le_of_lt less)
          · obtain rfl := mem_singleton.mp member
            exact Int.le_refl _
        · refine .inr ⟨best, rfl, mem_append_left _ highest.present, highest.named, ?_⟩
          intro other member fits
          rcases mem_append.mp member with member | member
          · exact highest.above other member fits
          · rw [mem_singleton.mp member]
            exact Int.not_lt.mp less
    · rw [Bool.eq_false_iff.mpr right]
      simp only [Bool.not_false, if_true]
      rcases ih with ⟨none, others⟩ | ⟨best, found, highest⟩
      · refine .inl ⟨none, fun m member => ?_⟩
        rcases mem_append.mp member with member | member
        · exact others m member
        · rwa [mem_singleton.mp member]
      · refine .inr ⟨best, found, mem_append_left _ highest.present, highest.named, ?_⟩
        intro other member fits
        rcases mem_append.mp member with member | member
        · exact highest.above other member fits
        · exact absurd (mem_singleton.mp member ▸ fits) right

variable {pair : Pair Number}

theorem latest_agree (mirrors : Mirrors pair) (visited : visit.Perm pair.models)
    (scanned : scan.Perm pair.rows) (tenantId name : Bytes) :
    (memoryLatest visit tenantId name).map stored = tableLatest scan tenantId name := by
  rw [mirrors.rows] at scanned
  have rows : ∀ row ∈ scan, ∃ m ∈ pair.models, stored m = row := fun row found =>
    mem_map.mp (scanned.mem_iff.mp found)
  rcases memoryLatest_cases visit tenantId name with ⟨none, others⟩ | ⟨m, found, highest⟩
  · have empty : scan.filter (named tenantId name) = [] := by
      refine filter_eq_nil_iff.mpr fun row found => ?_
      obtain ⟨m, present, rfl⟩ := rows row found
      exact others m (visited.mem_iff.mpr present)
    rw [none, tableLatest, empty]
    rfl
  · have present := visited.mem_iff.mp highest.present
    rw [found, tableLatest]
    symm
    refine find?_eq_some_of_sole ?_ ?_ ?_
    · exact mem_filter.mpr ⟨scanned.mem_iff.mpr (mem_map_of_mem present), highest.named⟩
    · refine all_eq_true.mpr fun row member => decide_eq_true ?_
      obtain ⟨member, fits⟩ := mem_filter.mp member
      obtain ⟨other, known, rfl⟩ := rows row member
      exact highest.above other (visited.mem_iff.mpr known) fits
    · intro row member top
      obtain ⟨member, fits⟩ := mem_filter.mp member
      obtain ⟨other, known, rfl⟩ := rows row member
      have least := of_decide_eq_true (all_eq_true.mp top (stored m)
        (mem_filter.mpr ⟨scanned.mem_iff.mpr (mem_map_of_mem present), highest.named⟩))
      have most := highest.above other (visited.mem_iff.mpr known) fits
      obtain ⟨tenant, title⟩ := named_iff.mp highest.named
      obtain ⟨otherTenant, otherTitle⟩ := named_iff.mp fits
      rw [mirrors.distinct.eq known present (otherTenant.trans tenant.symm)
        (otherTitle.trans title.symm) (Int.le_antisymm most least)]

theorem get_agree (mirrors : Mirrors pair) (visited : visit.Perm pair.models)
    (scanned : scan.Perm pair.rows) (ref : Ref) :
    (memoryGet visit ref).map stored = tableGet scan ref := by
  rw [memoryGet, tableGet]
  split_ifs with latest
  · exact latest_agree mirrors visited scanned ref.tenantId ref.name
  · rw [mirrors.rows] at scanned
    refine find?_stored visited scanned (fun _ => rfl) ?_
    intro first left second right firstFits secondFits
    obtain ⟨firstNamed, firstVersion⟩ := of_decide_eq_true firstFits
    obtain ⟨secondNamed, secondVersion⟩ := of_decide_eq_true secondFits
    obtain ⟨firstTenant, firstName⟩ := named_iff.mp firstNamed
    obtain ⟨secondTenant, secondName⟩ := named_iff.mp secondNamed
    exact mirrors.distinct.eq left right (firstTenant.trans secondTenant.symm)
      (firstName.trans secondName.symm) (firstVersion.trans secondVersion.symm)

theorem modelSortsBefore_iff : modelSortsBefore first second ↔
    second.createdAt < first.createdAt ∨
      first.createdAt = second.createdAt ∧ second.version < first.version := by
  rw [modelSortsBefore]
  split_ifs with apart
  · constructor
    · exact .inl
    · rintro (later | ⟨same, -⟩)
      · exact later
      · exact absurd same apart
  · rw [not_not.mp apart]
    simp

/-- Models in the map's order are in the table's order too. -/
theorem not_sortsBefore_stored (ordered : ¬Disordered first second)
    (kept : ¬modelSortsBefore second first) : ¬modelSortsBefore (stored second) (stored first) := by
  rw [modelSortsBefore_iff] at kept ⊢
  rw [Disordered] at ordered
  simp only [stored]
  omega

theorem list_agree (mirrors : Mirrors pair) {filter : ListFilter} {out : List (Model Number)}
    (listed : Lists pair.models filter out) : Lists pair.rows filter (out.map stored) := by
  obtain ⟨sorted, perm, inOrder, rfl⟩ := listed
  refine ⟨sorted.map stored, ?_, ?_, ?_⟩
  · rw [mirrors.rows, filter_map]
    exact perm.map stored
  · refine pairwise_map.mpr (inOrder.imp_of_mem fun left right kept => ?_)
    have first := (mem_filter.mp (perm.mem_iff.mp left)).1
    have second := (mem_filter.mp (perm.mem_iff.mp right)).1
    exact not_sortsBefore_stored (mirrors.ordered _ first _ second) kept
  · split_ifs
    · rw [map_take]
    · rfl

/-- The highest version of a name in memory, 0 at least. -/
theorem highestVersion_spec (models : List (Model Number)) (tenantId name : Bytes) :
    0 ≤ highestVersion models tenantId name ∧
      (∀ m ∈ models, named tenantId name m → m.version ≤ highestVersion models tenantId name) ∧
      (highestVersion models tenantId name = 0 ∨
        ∃ m ∈ models, named tenantId name m ∧ m.version = highestVersion models tenantId name) := by
  induction models using reverseRecOn with
  | nil => simp [highestVersion]
  | append_singleton models last ih =>
    obtain ⟨least, above, source⟩ := ih
    rw [highestVersion, foldl_append, foldl_cons, foldl_nil, ← highestVersion]
    generalize highestVersion models tenantId name = top at least above source ⊢
    split_ifs with higher
    · refine ⟨by omega, ?_, .inr ⟨last, by simp, higher.1, rfl⟩⟩
      intro m found fits
      rcases mem_append.mp found with found | found
      · exact Int.le_trans (above m found fits) (Int.le_of_lt higher.2)
      · obtain rfl := mem_singleton.mp found
        exact Int.le_refl _
    · refine ⟨least, ?_, source.imp_right fun ⟨m, found, rest⟩ => ⟨m, mem_append_left _ found, rest⟩⟩
      intro m found fits
      rcases mem_append.mp found with found | found
      · exact above m found fits
      · obtain rfl := mem_singleton.mp found
        exact Int.not_lt.mp fun less => higher ⟨fits, less⟩

theorem wrapInt_eq {value : Int} (small : 0 ≤ value) (bounded : value ≤ 2147483648) :
    wrapInt value = value := by
  rw [wrapInt, Int64.toInt_ofInt, Int.bmod_eq_of_le] <;> simp only [Int64.size] <;> omega

/-- Both registries allot the same version. -/
theorem nextVersion_agree (mirrors : Mirrors pair) {tenantId name : Bytes}
    (counted : (∃ m ∈ pair.models, named tenantId name m) →
      ∃ m ∈ pair.models, named tenantId name m ∧ 0 < m.version) :
    nextVersion pair.rows tenantId name = nextVersionLocked pair.models tenantId name := by
  obtain ⟨least, above, source⟩ := highestVersion_spec pair.models tenantId name
  rw [nextVersionLocked]
  generalize highestVersion pair.models tenantId name = top at least above source ⊢
  have bounded : top ≤ 2147483647 := by
    rcases source with rfl | ⟨m, found, -, rfl⟩
    · decide
    · exact (mirrors.inRange m found).2
  rw [wrapInt_eq (by omega) (by omega), nextVersion, mirrors.rows, filter_map, map_map]
  congr 1
  have versions : ∀ v, v ∈ (pair.models.filter (named tenantId name ∘ stored)).map
      (Model.version ∘ stored) ↔ ∃ m ∈ pair.models, named tenantId name m ∧ m.version = v := by
    intro v
    rw [mem_map]
    constructor
    · rintro ⟨m, found, rfl⟩
      obtain ⟨present, fits⟩ := mem_filter.mp found
      exact ⟨m, present, fits, rfl⟩
    · rintro ⟨m, present, fits, rfl⟩
      exact ⟨m, mem_filter.mpr ⟨present, fits⟩, rfl⟩
  cases highest : ((pair.models.filter (named tenantId name ∘ stored)).map
      (Model.version ∘ stored)).max? with
  | none =>
    rw [max?_eq_none_iff] at highest
    rw [highest] at versions
    rcases source with rfl | ⟨m, found, fits, rfl⟩
    · rfl
    · exact absurd ((versions m.version).mpr ⟨m, found, fits, rfl⟩) not_mem_nil
  | some v =>
    obtain ⟨found, top⟩ := max?_eq_some_iff.mp highest
    obtain ⟨m, present, fits, rfl⟩ := (versions v).mp found
    obtain ⟨other, known, otherFits, positive⟩ := counted ⟨m, present, fits⟩
    have larger := top _ ((versions other.version).mpr ⟨other, known, otherFits, rfl⟩)
    have below := above m present fits
    rcases source with rfl | ⟨best, bestKnown, bestFits, rfl⟩
    · omega
    · have most := top _ ((versions best.version).mpr ⟨best, bestKnown, bestFits, rfl⟩)
      exact Int.le_antisymm below most

theorem versioned_names (models : List (Model Number)) (m : Model Number) :
    (versioned models m).tenantId = m.tenantId ∧ (versioned models m).name = m.name := by
  rw [versioned]
  split_ifs <;> exact ⟨rfl, rfl⟩

variable {checks : Checks Number}

/-- A compatible model goes in at the first attempt. -/
theorem tableSave_compatible (mirrors : Mirrors pair)
    (compatible : Compatible checks pair.models m) :
    saveModelWithRetry checks pair.rows (m.version ≠ 0) maxVersionRetries m =
      ⟨pair.rows ++ [stored (versioned pair.models m)], versioned pair.models m, .ok ()⟩ := by
  have allotted : (if decide (m.version ≠ 0) = true then m
      else { m with version := nextVersion pair.rows m.tenantId m.name }) =
        versioned pair.models m := by
    rw [versioned]
    by_cases auto : m.version = 0
    · rw [if_pos auto, if_neg (by simpa using auto),
        nextVersion_agree mirrors (compatible.counted auto)]
    · rw [if_neg auto, if_pos (by simpa using auto)]
  have clear : pair.rows.any (conflicts · (versioned pair.models m)) = false := by
    rw [mirrors.rows, any_map, any_eq_false]
    intro other found
    obtain ⟨tenantId, name⟩ := versioned_names pair.models m
    have apart := compatible.newVersion other found
    rw [← tenantId, ← name] at apart
    rw [Function.comp_apply, conflicts, decide_eq_true_eq]
    rintro (same | same)
    · exact compatible.newId other found same
    · exact apart same
  rw [maxVersionRetries, saveModelWithRetry]
  simp only [allotted, insertModel, compatible.fits, clear, Bool.not_true, Bool.false_eq_true, if_false]

theorem memorySave_compatible (compatible : Compatible checks models m) :
    models.filter (fun other => other.id ≠ (versioned models m).id) = models :=
  filter_eq_self.mpr fun other found => decide_eq_true (compatible.newId other found)

theorem Mirrors.save (mirrors : Mirrors pair) (compatible : Compatible checks pair.models m) :
    Mirrors ⟨pair.models ++ [versioned pair.models m],
      pair.rows ++ [stored (versioned pair.models m)]⟩ := by
  obtain ⟨tenantId, name⟩ := versioned_names pair.models m
  have fits := compatible.fits
  rw [insertable, decide_eq_true_eq] at fits
  constructor
  · rw [map_append, mirrors.rows]
    rfl
  · refine pairwise_append.mpr ⟨mirrors.distinct, pairwise_singleton _ _, ?_⟩
    intro other found last same
    obtain rfl := mem_singleton.mp same
    rw [tenantId, name]
    exact compatible.newVersion other found
  · intro other found
    rcases mem_append.mp found with found | same
    · exact mirrors.inRange other found
    · rw [mem_singleton.mp same]
      exact fits.2
  · intro first left second right
    rcases mem_append.mp left with left | left
    · rcases mem_append.mp right with right | right
      · exact mirrors.ordered first left second right
      · rw [mem_singleton.mp right]
        exact (compatible.ordered first left).1
    · rw [mem_singleton.mp left]
      rcases mem_append.mp right with right | right
      · exact (compatible.ordered second right).2
      · rw [mem_singleton.mp right]
        rintro ⟨-, -, less⟩
        omega

/-- What a save does in both registries. -/
theorem save_cases (mirrors : Mirrors pair) {generated : Option Bytes} {now : Int}
    (admissible : Admissible checks pair.models (.save m generated now)) :
    (∃ failure, memorySave checks pair.models m generated now = ⟨pair.models, m, .error failure⟩ ∧
      tableSave checks pair.rows m generated now = ⟨pair.rows, m, .error failure⟩) ∨
    ∃ ready, Compatible checks pair.models ready ∧
      memorySave checks pair.models m generated now =
        ⟨pair.models ++ [versioned pair.models ready], versioned pair.models ready, .ok ()⟩ ∧
      tableSave checks pair.rows m generated now =
        ⟨pair.rows ++ [stored (versioned pair.models ready)], versioned pair.models ready, .ok ()⟩ := by
  rw [memorySave, tableSave]
  cases valid : validateModelForSave checks m with
  | error failure => exact .inl ⟨failure, rfl, rfl⟩
  | ok =>
    cases defaults : ensureModelDefaults generated now m with
    | error failure => exact .inl ⟨failure, rfl, rfl⟩
    | ok ready =>
      have compatible := admissible ready valid defaults
      refine .inr ⟨ready, compatible, ?_, tableSave_compatible mirrors compatible⟩
      simp only [memorySave_compatible compatible]

theorem Mirrors.step {before after : Pair Number} {event : Event Number}
    (mirrors : Mirrors before) (step : (carefulMachine checks).Step before event after) :
    Mirrors after ∧ Agree before.rows event ∧ KeepsModels before event after := by
  obtain ⟨step, admissible⟩ := step
  have unchanged : ∀ {event : Event Number}, KeepsModels before event before := fun {event} =>
    ⟨fun _ found => found, fun _ found => found, fun _ => rfl, fun _ => rfl⟩
  cases step with
  | save m generated now =>
    rcases save_cases mirrors admissible with ⟨failure, memory, table⟩ | ⟨ready, compatible, memory, table⟩
    · rw [memory, table]
      refine ⟨mirrors, ⟨Iff.rfl, rfl, fun _ => rfl⟩, unchanged⟩
    · rw [memory, table]
      refine ⟨mirrors.save compatible, ⟨Iff.rfl, rfl, fun failed => absurd rfl failed⟩, ?_⟩
      refine ⟨fun _ found => mem_append_left _ found, fun _ found => mem_append_left _ found, ?_, ?_⟩
      · exact fun failed => absurd rfl (failed _)
      · exact fun failed => absurd rfl (failed _)
  | get ref visited scanned => exact ⟨mirrors, get_agree mirrors visited scanned ref, unchanged⟩
  | latest tenantId name visited scanned =>
    exact ⟨mirrors, latest_agree mirrors visited scanned tenantId name, unchanged⟩
  | list filter visited scanned => exact ⟨mirrors, list_agree mirrors visited, unchanged⟩

def lenient : Checks Unit := ⟨fun _ => true, fun _ => true, fun _ => true⟩

/-- A model with an ID and version 1. -/
def chosen (id : Bytes) : Model Unit :=
  ⟨id, [], [0x6E], [], 1, [], [], [], [], [], none, none, none, 1⟩

end Golusoris.Tiny
