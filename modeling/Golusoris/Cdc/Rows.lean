import Golusoris.Cdc.Consumer
import Mathlib.Data.List.Nodup

/-!
# Rows as the server writes them

The output plugin writes every tuple with one entry for each published column,
also a key tuple, in which the columns outside the replica identity are null.
`tupleToValues` counts the key columns of the relation for a key tuple, so it
refuses the tuples of every relation that has a column outside its key.
`rows_decoded_iff` says that this is the only change of a row that is not
decoded to the columns it was written from.

The loop of the source walks the columns by index. `readTuple` is that loop with
its bounds, and it is never out of them.
-/

namespace Golusoris.Cdc

open List
open Lib

/-- `column.Flags&1 != 0`. -/
def Column.isKey (column : Column) : Bool := column.flags &&& 1 ≠ 0

/-- `for keyOnly && rel.Columns[relationIndex].Flags&1 == 0`, from an index; there
is none when the index leaves the columns. -/
def skipColumns (columns : List Column) (keyOnly : Bool) (index : Nat) : Option Nat :=
  if keyOnly then
    match found : columns[index]? with
    | none => none
    | some column =>
        if column.isKey then some index else skipColumns columns keyOnly (index + 1)
  else some index
termination_by columns.length - index
decreasing_by
  have inside := (List.getElem?_eq_some_iff.mp found).1
  omega

/-- The loop over the entries of a tuple. -/
def walkColumns (tuple : String) (columns : List Column) (keyOnly : Bool) :
    TupleData → Nat → Named ColumnValue → Option (Except SessionError (Named ColumnValue))
  | [], _, out => some (.ok out)
  | value :: values, index, out => do
      let index ← skipColumns columns keyOnly index
      match decodeColumnValue tuple value with
      | .error failure => some (.error failure)
      | .ok decoded =>
          let column ← columns[index]?
          walkColumns tuple columns keyOnly values (index + 1) (out.assign column.name decoded)

/-- `tupleToValues` with its indexes; `none` when one is out of range. -/
def readTuple (tuple : String) (data : Option TupleData) (relation : RelationMessage)
    (keyOnly : Bool) : Option (Except SessionError (Option (Named ColumnValue))) :=
  match data with
  | none => some (.ok none)
  | some values =>
      let expected :=
        if keyOnly then relation.columns.countP Column.isKey else relation.columns.length
      if values.length ≠ expected then
        some (.error (.columnCount tuple values.length expected))
      else (walkColumns tuple relation.columns keyOnly values 0 []).map fun out => out.map some

/-- The columns that a tuple is matched with. -/
def matched (columns : List Column) (keyOnly : Bool) : List Column :=
  if keyOnly then columns.filter Column.isKey else columns

theorem skipColumns_all (columns : List Column) (index : Nat) :
    skipColumns columns false index = some index := by
  rw [skipColumns]
  rfl

/-- The columns before the index it stops at are not matched. -/
theorem skipColumns_spec {columns : List Column} {keyOnly : Bool} {index : Nat} {column : Column}
    {rest : List Column} (next : matched (columns.drop index) keyOnly = column :: rest) :
    ∃ found, skipColumns columns keyOnly index = some found ∧ columns[found]? = some column ∧
      matched (columns.drop (found + 1)) keyOnly = rest := by
  induction remaining : columns.length - index generalizing index with
  | zero =>
    have outside : columns.drop index = [] := drop_eq_nil_of_le (by omega)
    rw [outside] at next
    cases keyOnly <;> cases next
  | succ remaining ih =>
    have inside : index < columns.length := by omega
    have here : columns.drop index = columns[index] :: columns.drop (index + 1) :=
      drop_eq_getElem_cons inside
    rw [here] at next
    cases keyOnly with
    | false =>
      obtain ⟨rfl, rfl⟩ := List.cons.inj next
      exact ⟨index, skipColumns_all columns index, List.getElem?_eq_getElem inside, rfl⟩
    | true =>
      rw [skipColumns, if_pos rfl, List.getElem?_eq_getElem inside]
      by_cases key : columns[index].isKey = true
      · rw [matched, if_pos rfl, filter_cons_of_pos key] at next
        obtain ⟨rfl, rfl⟩ := List.cons.inj next
        simp only [key, if_true]
        exact ⟨index, rfl, List.getElem?_eq_getElem inside, rfl⟩
      · rw [matched, if_pos rfl, filter_cons_of_neg key] at next
        simp only [key]
        exact ih next (by omega)

/-- The walk matches the entries with the columns one by one. -/
theorem walkColumns_eq (tuple : String) (columns : List Column) (keyOnly : Bool)
    (values : TupleData) (index : Nat) (out : Named ColumnValue)
    (enough : values.length ≤ (matched (columns.drop index) keyOnly).length) :
    walkColumns tuple columns keyOnly values index out =
      some (assignColumns tuple values (matched (columns.drop index) keyOnly) out) := by
  induction values generalizing index out with
  | nil => rw [walkColumns, assignColumns]; simp
  | cons value values ih =>
    cases next : matched (columns.drop index) keyOnly with
    | nil =>
      rw [next] at enough
      exact absurd enough (Nat.not_succ_le_zero _)
    | cons column rest =>
      rw [next] at enough
      obtain ⟨found, skipped, known, left⟩ := skipColumns_spec next
      have fewer : values.length ≤ rest.length := Nat.le_of_succ_le_succ enough
      rw [walkColumns, assignColumns, skipped]
      cases decodeColumnValue tuple value with
      | error failure => simp [bind, Except.bind]
      | ok decoded =>
        have step := ih (found + 1) (out.assign column.name decoded) (left ▸ fewer)
        simp [bind, Except.bind, known, step, left]

/-- No index of `tupleToValues` is out of range, whatever the tuple. -/
theorem readTuple_eq (tuple : String) (data : Option TupleData) (relation : RelationMessage)
    (keyOnly : Bool) :
    readTuple tuple data relation keyOnly = some (tupleToValues tuple data relation keyOnly) := by
  cases data with
  | none => rfl
  | some values =>
    have columns : (if keyOnly then relation.columns.filter fun column => column.flags &&& 1 ≠ 0
        else relation.columns) = matched relation.columns keyOnly := rfl
    have expected : (if keyOnly then relation.columns.countP Column.isKey
        else relation.columns.length) = (matched relation.columns keyOnly).length := by
      cases keyOnly with
      | false => rfl
      | true => exact countP_eq_length_filter
    simp only [readTuple, tupleToValues, columns, expected]
    by_cases same : values.length = (matched relation.columns keyOnly).length
    · rw [if_neg (not_not.mpr same), if_neg (not_not.mpr same),
        walkColumns_eq tuple relation.columns keyOnly values 0 [] (Nat.le_of_eq same)]
      rfl
    · rw [if_pos same, if_pos same]

/-- A relation of the publication: the names of its columns are distinct. -/
structure Published extends RelationMessage where
  distinct : (columns.map Column.name).Nodup

/-- The entry of one value. -/
def writeColumn : ColumnValue → TupleColumn
  | .null => ⟨0x6e, []⟩
  | .unchanged => ⟨0x75, []⟩
  | .text data => ⟨0x74, data⟩
  | .binary data => ⟨0x62, data⟩

/-- One value for each column. -/
structure Row (columns : List Column) where
  values : List ColumnValue
  complete : values.length = columns.length

/-- A row whose values outside the replica identity are null. -/
structure KeyRow (columns : List Column) extends Row columns where
  nulls : ∀ entry ∈ columns.zip values, entry.1.isKey = false → entry.2 = .null

/-- The old tuple of an update or a delete. -/
inductive Identity (columns : List Column) where
  | key (row : KeyRow columns)
  | full (row : Row columns)

/-- The changes of one row. -/
inductive Change (columns : List Column) where
  | insert (new : Row columns)
  | update (old : Option (Identity columns)) (new : Row columns)
  | delete (old : Identity columns)

section Changes

variable {columns : List Column}

/-- `logicalrep_write_tuple`. -/
def Row.write (row : Row columns) : TupleData := row.values.map writeColumn

/-- The values of a row under the names of their columns. -/
def Row.named (row : Row columns) : Named ColumnValue :=
  (columns.zip row.values).map fun entry => (entry.1.name, entry.2)

/-- The values of the key columns. -/
def KeyRow.named (row : KeyRow columns) : Named ColumnValue :=
  ((columns.zip row.values).filter fun entry => entry.1.isKey).map fun entry =>
    (entry.1.name, entry.2)

def Identity.tupleType : Identity columns → UInt8
  | .key _ => 0x4b
  | .full _ => 0x4f

def Identity.write : Identity columns → TupleData
  | .key row => row.toRow.write
  | .full row => row.write

def Identity.named : Identity columns → Named ColumnValue
  | .key row => row.named
  | .full row => row.named

/-- Whether the old tuple is a key tuple. -/
def Identity.Keyed : Identity columns → Prop
  | .key _ => True
  | .full _ => False

def Change.Keyed : Change columns → Prop
  | .insert _ => False
  | .update old _ => ∃ identity ∈ old, identity.Keyed
  | .delete old => old.Keyed

/-- What the consumer makes of a change; an absent old tuple has type zero. -/
def Change.decode (relations : Relations) (lsn : LSN) (relationID : RelationID) :
    Change columns → Except SessionError Event
  | .insert new => insertEvent relations lsn relationID (some new.write)
  | .update none new => updateEvent relations lsn relationID 0 none (some new.write)
  | .update (some old) new =>
      updateEvent relations lsn relationID old.tupleType (some old.write) (some new.write)
  | .delete old => deleteEvent relations lsn relationID old.tupleType (some old.write)

end Changes

/-- The event that reports a change. -/
def Change.event (relation : RelationMessage) (lsn : LSN) : Change relation.columns → Event
  | .insert new =>
      { schema := relation.namespaceName
        table := relation.relationName
        op := .insert
        newText := legacyTextValues (some new.named)
        lsn := lsn
        newValues := some new.named }
  | .update old new =>
      { schema := relation.namespaceName
        table := relation.relationName
        op := .update
        oldText := legacyTextValues (old.map Identity.named)
        newText := legacyTextValues (some new.named)
        lsn := lsn
        oldValues := old.map Identity.named
        newValues := some new.named }
  | .delete old =>
      { schema := relation.namespaceName
        table := relation.relationName
        op := .delete
        oldText := legacyTextValues (some old.named)
        lsn := lsn
        oldValues := some old.named }

/-- A change is decoded to its event wherever the relation is known, and no index
is out of range on the way. -/
structure Decoded (published : Published) (change : Change published.columns) : Prop where
  inRange : ∀ tuple data keyOnly,
    readTuple tuple data published.toRelationMessage keyOnly ≠ none
  event : ∀ (relations : Relations) (lsn : LSN),
    relations published.relationID = some published.toRelationMessage →
    change.decode relations lsn published.relationID =
      .ok (change.event published.toRelationMessage lsn)

section ReadBack

variable (tuple : String)

theorem decodeColumnValue_write (value : ColumnValue) :
    decodeColumnValue tuple (writeColumn value) = .ok value := by
  cases value with
  | null | unchanged | text _ | binary _ => rfl

theorem Named.assign_new {out : Named ColumnValue} {name : String} (value : ColumnValue)
    (absent : name ∉ out.map Prod.fst) : out.assign name value = out ++ [(name, value)] := by
  rw [Named.assign, if_neg]
  simpa using absent

theorem assignColumns_write (columns : List Column) (values : List ColumnValue)
    (complete : values.length = columns.length) (out : Named ColumnValue)
    (distinct : (out.map Prod.fst ++ columns.map Column.name).Nodup) :
    assignColumns tuple (values.map writeColumn) columns out =
      .ok (out ++ (columns.zip values).map fun entry => (entry.1.name, entry.2)) := by
  induction columns generalizing values out with
  | nil =>
    obtain rfl : values = [] := length_eq_zero_iff.mp complete
    simp [assignColumns]
  | cons column columns ih =>
    cases values with
    | nil => cases complete
    | cons value values =>
      have shorter : values.length = columns.length := Nat.succ.inj complete
      have absent : column.name ∉ out.map Prod.fst := by
        intro present
        exact (nodup_append.mp distinct).2.2 _ present _ (by simp) rfl
      rw [map_cons, assignColumns, decodeColumnValue_write]
      simp only [bind, Except.bind]
      rw [Named.assign_new value absent, ih values shorter]
      · simp
      · simpa using distinct

variable (published : Published)

/-- A full tuple is read back under the names of its columns. -/
theorem tupleToValues_write (row : Row published.columns) :
    tupleToValues tuple (some row.write) published.toRelationMessage false =
      .ok (some row.named) := by
  have length : row.write.length = published.columns.length := by
    rw [Row.write, length_map, row.complete]
  have read := assignColumns_write tuple published.columns row.values row.complete []
    (by simpa using published.distinct)
  simp only [tupleToValues, Bool.false_eq_true, if_false, length, ne_eq, not_true_eq_false]
  rw [Row.write, read]
  rfl

/-- A key tuple is read back when every column is in the key. -/
theorem tupleToValues_key (row : KeyRow published.columns)
    (keys : ∀ column ∈ published.columns, column.isKey = true) :
    tupleToValues tuple (some row.write) published.toRelationMessage true =
      .ok (some row.named) := by
  have all : published.columns.filter (fun column => column.flags &&& 1 ≠ 0) = published.columns :=
    filter_eq_self.mpr keys
  have named : row.named = row.toRow.named := by
    rw [KeyRow.named, filter_eq_self.mpr, Row.named]
    intro entry found
    exact keys entry.1 (of_mem_zip found).1
  have same : tupleToValues tuple (some row.write) published.toRelationMessage true =
      tupleToValues tuple (some row.write) published.toRelationMessage false := by
    simp only [tupleToValues, if_true, Bool.false_eq_true, if_false, all]
  rw [same, named]
  exact tupleToValues_write tuple published row.toRow

/-- A key tuple is refused when a column is outside the key. -/
theorem tupleToValues_key_refused (row : KeyRow published.columns) {column : Column}
    (found : column ∈ published.columns) (outside : column.isKey = false) :
    ∃ expected, tupleToValues tuple (some row.write) published.toRelationMessage true =
      .error (.columnCount tuple published.columns.length expected) := by
  have fewer : (published.columns.filter fun column => column.flags &&& 1 ≠ 0).length <
      published.columns.length := by
    apply length_filter_lt_length_iff_exists.mpr
    refine ⟨column, found, ?_⟩
    rw [Bool.not_eq_true]
    exact outside
  have length : row.write.length = published.columns.length := by
    rw [Row.write, length_map, row.complete]
  refine ⟨(published.columns.filter fun column => column.flags &&& 1 ≠ 0).length, ?_⟩
  simp only [tupleToValues, if_true]
  rw [if_pos (by omega), length]

/-- An old tuple is read back exactly when it is a full one or every column is in
the key. -/
theorem tupleToValues_identity (old : Identity published.columns) :
    tupleToValues tuple (some old.write) published.toRelationMessage (old.tupleType = 0x4b) =
        .ok (some old.named) ↔
      (old.Keyed → ∀ column ∈ published.columns, column.isKey = true) := by
  cases old with
  | full row =>
    refine iff_of_true ?_ fun keyed => keyed.elim
    exact tupleToValues_write tuple published row
  | key row =>
    constructor
    · intro read _ column found
      by_contra outside
      obtain ⟨failure, refused⟩ :=
        tupleToValues_key_refused tuple published row found (Bool.eq_false_iff.mpr outside)
      cases refused.symm.trans read
    · intro keys
      exact tupleToValues_key tuple published row (keys trivial)

end ReadBack

section Decoding

variable {published : Published} {relations : Relations}
variable (known : relations published.relationID = some published.toRelationMessage)

include known

variable (lsn : LSN)

theorem insertEvent_write (new : Row published.columns) :
    insertEvent relations lsn published.relationID (some new.write) =
      .ok (Change.event published.toRelationMessage lsn (.insert new)) := by
  simp only [insertEvent, findRelation, known, tupleToValues_write, bind, Except.bind]
  rfl

/-- An update is decoded when its old tuple is. -/
theorem updateEvent_write (old : Option (Identity published.columns))
    (new : Row published.columns) :
    Change.decode relations lsn published.relationID (.update old new) =
        .ok (Change.event published.toRelationMessage lsn (.update old new)) ↔
      ((Change.update old new).Keyed → ∀ column ∈ published.columns, column.isKey = true) := by
  cases old with
  | none =>
    refine iff_of_true ?_ ?_
    · simp only [Change.decode, updateEvent, findRelation, known, tupleToValues_write, bind,
        Except.bind]
      rfl
    · rintro ⟨identity, present, -⟩
      cases present
  | some old =>
    have keyed : (Change.update (some old) new).Keyed ↔ old.Keyed := by simp [Change.Keyed]
    rw [keyed, ← tupleToValues_identity "update old" published old]
    simp only [Change.decode, updateEvent, findRelation, known, tupleToValues_write, bind,
      Except.bind]
    constructor
    · intro decoded
      cases read : tupleToValues "update old" (some old.write) published.toRelationMessage
          (old.tupleType = 0x4b) with
      | error failure => simp [read] at decoded
      | ok values =>
        simp only [read] at decoded
        have same := congrArg Event.oldValues (Except.ok.inj decoded)
        exact congrArg Except.ok same
    · intro read
      rw [read]
      rfl

theorem deleteEvent_write (old : Identity published.columns) :
    Change.decode relations lsn published.relationID (.delete old) =
        .ok (Change.event published.toRelationMessage lsn (.delete old)) ↔
      (old.Keyed → ∀ column ∈ published.columns, column.isKey = true) := by
  rw [← tupleToValues_identity "delete" published old]
  simp only [Change.decode, deleteEvent, findRelation, known, bind, Except.bind]
  constructor
  · intro decoded
    cases read : tupleToValues "delete" (some old.write) published.toRelationMessage
        (old.tupleType = 0x4b) with
    | error failure => simp [read] at decoded
    | ok values =>
      simp only [read] at decoded
      have same := congrArg Event.oldValues (Except.ok.inj decoded)
      exact congrArg Except.ok same
  · intro read
    rw [read]
    rfl

end Decoding

/-- A change that the server writes is decoded exactly when it has no key tuple
or the key has every column of the relation. -/
theorem rows_decoded_iff (published : Published) (change : Change published.columns) :
    Decoded published change ↔
      (change.Keyed → ∀ column ∈ published.columns, column.isKey = true) := by
  have inRange : ∀ tuple data keyOnly,
      readTuple tuple data published.toRelationMessage keyOnly ≠ none := by
    intro tuple data keyOnly
    rw [readTuple_eq]
    exact Option.some_ne_none _
  have decoding : Decoded published change ↔ ∀ (relations : Relations) (lsn : LSN),
      relations published.relationID = some published.toRelationMessage →
      change.decode relations lsn published.relationID =
        .ok (change.event published.toRelationMessage lsn) :=
    ⟨fun decoded => decoded.event, fun event => ⟨inRange, event⟩⟩
  rw [decoding]
  have somewhere : ∃ relations : Relations,
      relations published.relationID = some published.toRelationMessage :=
    ⟨fun _ => some published.toRelationMessage, rfl⟩
  obtain ⟨relations, known⟩ := somewhere
  cases change with
  | insert new =>
    refine iff_of_true ?_ fun keyed => keyed.elim
    intro relations lsn known
    exact insertEvent_write known lsn new
  | update old new =>
    constructor
    · intro decoded
      exact (updateEvent_write known 0 old new).mp (decoded relations 0 known)
    · intro keys relations lsn known
      exact (updateEvent_write known lsn old new).mpr keys
  | delete old =>
    constructor
    · intro decoded
      exact (deleteEvent_write known 0 old).mp (decoded relations 0 known)
    · intro keys relations lsn known
      exact (deleteEvent_write known lsn old).mpr keys

/-- A table with its identifier as the replica identity. -/
def tenants : Published where
  relationID := 7
  namespaceName := "public"
  relationName := "jobs"
  columns := [⟨0, "tenant"⟩, ⟨1, "id"⟩, ⟨0, "payload"⟩]
  distinct := by decide

/-- The delete of a row of that table. -/
def tenantDelete : Change tenants.columns :=
  .delete (.key ⟨⟨[.null, .text [0x34, 0x32], .null], rfl⟩, by decide⟩)

theorem tenantDelete_refused : ¬ Decoded tenants tenantDelete := by
  intro decoded
  have failed := decoded.event (fun _ => some tenants.toRelationMessage) 0 rfl
  revert failed
  decide

end Golusoris.Cdc
