import Golusoris.Idempotency.Store
import Mathlib.Data.Finset.Sort
import Mathlib.Data.List.Lex

/-!
# The PostgreSQL statement set

One function for each statement of `idempotency/postgres`, over a table with
the columns of its migration. A `TEXT` or `JSONB` value cannot hold U+0000, an
`INTEGER` holds 32 bits and a `TIMESTAMPTZ` whole microseconds; a parameter that
does not fit is refused and changes nothing. `encodeHeader` is `json.Marshal` of
a header: names in byte order, texts coerced to valid UTF-8.
-/

namespace Golusoris.Idempotency

open Lib

/-- `json.Marshal` of an `http.Header`: its members in the order written. -/
abbrev HeaderJson := List (String × List String)

/-- A Go string as JSON text. -/
def jsonText (bytes : Bytes) : String := String.ofList (Utf8.decodeLossy bytes.length bytes)

def encodeHeader (header : Header) : HeaderJson :=
  (header.keys.sort (· ≤ ·)).map fun name =>
    (jsonText name, ((header.lookup name).getD []).map jsonText)

/-- `json.Unmarshal` into an `http.Header`; a repeated name keeps its last value. -/
def decodeHeader (members : HeaderJson) : Header :=
  members.foldl (fun header member =>
    header.insert (textBytes member.1) (member.2.map textBytes)) ∅

/-- The persisted record states. -/
def rowInFlight : Int := 1
def rowCompleted : Int := 2

/-- A row without its primary key. -/
structure Row where
  state : Int
  token : String
  fingerprint : String
  statusCode : Int := 0
  header : HeaderJson := []
  body : Bytes := []
  expiresAt : Int

abbrev Table := Finmap (fun _ : String => Row)

/-- An instant as a `TIMESTAMPTZ`, in microseconds. -/
def timestamptz (time : Time) : Int := time / 1000

def Textual (text : String) : Prop := '\x00' ∉ text.toList

instance (text : String) : Decidable (Textual text) :=
  inferInstanceAs (Decidable (¬ _))

def HeaderJson.Storable (members : HeaderJson) : Prop :=
  ∀ member ∈ members, Textual member.1 ∧ ∀ value ∈ member.2, Textual value

instance (members : HeaderJson) : Decidable members.Storable :=
  inferInstanceAs (Decidable (∀ member ∈ members, _))

/-- A parameter does not fit its column. -/
inductive DatabaseError where
  | unrepresentable
  deriving DecidableEq, Repr

/-- The columns a lookup returns. -/
structure Record where
  state : Int
  fingerprint : String
  status : Int
  header : HeaderJson
  body : Bytes

/-- The arguments of one commit statement. -/
structure Completion where
  key : String
  token : String
  fingerprint : String
  status : Int
  header : HeaderJson
  body : Bytes
  now : Time
  expires : Time

namespace Table

/-- `pgReserveSQL`. -/
def reserve (table : Table) (key token fingerprint : String) (now expires : Time) :
    Except DatabaseError (Bool × Table) :=
  if ¬ (Textual key ∧ Textual token ∧ Textual fingerprint) then .error .unrepresentable
  else
    let row : Row :=
      { state := rowInFlight, token, fingerprint, expiresAt := timestamptz expires }
    match table.lookup key with
    | none => .ok (true, table.insert key row)
    | some old =>
        if old.expiresAt ≤ timestamptz now then .ok (true, table.insert key row)
        else .ok (false, table)

/-- `pgLookupSQL`. -/
def lookupRecord (table : Table) (key : String) (now : Time) :
    Except DatabaseError (Option Record) :=
  if ¬ Textual key then .error .unrepresentable
  else
    match table.lookup key with
    | some row =>
        if timestamptz now < row.expiresAt then
          .ok (some { state := row.state, fingerprint := row.fingerprint,
                      status := row.statusCode, header := row.header, body := row.body })
        else .ok none
    | none => .ok none

/-- `pgCompleteSQL`. -/
def complete (table : Table) (done : Completion) : Except DatabaseError (Bool × Table) :=
  if ¬ (Textual done.key ∧ Textual done.token ∧ Textual done.fingerprint ∧
      done.header.Storable ∧ -2147483648 ≤ done.status ∧ done.status ≤ 2147483647) then
    .error .unrepresentable
  else
    match table.lookup done.key with
    | some row =>
        if row.token = done.token ∧ row.fingerprint = done.fingerprint ∧
            row.state = rowInFlight ∧ timestamptz done.now < row.expiresAt then
          .ok (true, table.insert done.key
            { row with
              state := rowCompleted
              statusCode := done.status
              header := done.header
              body := done.body
              expiresAt := timestamptz done.expires })
        else .ok (false, table)
    | none => .ok (false, table)

/-- `pgOwnerSQL`. -/
def owner (table : Table) (key token : String) (now : Time) :
    Except DatabaseError (Option String) :=
  if ¬ (Textual key ∧ Textual token) then .error .unrepresentable
  else
    match table.lookup key with
    | some row =>
        if row.token = token ∧ row.state = rowInFlight ∧ timestamptz now < row.expiresAt then
          .ok (some row.fingerprint)
        else .ok none
    | none => .ok none

/-- `pgReleaseSQL`. -/
def release (table : Table) (key token : String) : Except DatabaseError (Bool × Table) :=
  if ¬ (Textual key ∧ Textual token) then .error .unrepresentable
  else
    match table.lookup key with
    | some row =>
        if row.token = token ∧ row.state = rowInFlight then .ok (true, table.erase key)
        else .ok (false, table)
    | none => .ok (false, table)

/-- The expired keys in the order of a scan. -/
def expiredKeys (table : Table) (now : Time) (order : List String) : List String :=
  order.filter fun key =>
    match table.lookup key with
    | some row => row.expiresAt ≤ timestamptz now
    | none => false

/-- `order` lists every row once, by its expiry. -/
def Scans (table : Table) (order : List String) : Prop :=
  order.Nodup ∧ (∀ key, key ∈ order ↔ key ∈ table) ∧
    order.Pairwise fun first second => ∀ left right, table.lookup first = some left →
      table.lookup second = some right → left.expiresAt ≤ right.expiresAt

/-- `pgSweepSQL`, for one order in which the rows may be scanned. -/
def sweep (table : Table) (now : Time) (limit : Int) (order : List String) : Int × Table :=
  let swept := (table.expiredKeys now order).take limit.toNat
  (swept.length, swept.foldl (fun table key => table.erase key) table)

end Table

/-- A byte string that is the UTF-8 encoding of a text without U+0000. -/
def Storable (bytes : Bytes) : Prop := ∃ text : String, Textual text ∧ textBytes text = bytes

theorem jsonText_textBytes (text : String) : jsonText (textBytes text) = text := by
  rw [jsonText, textBytes, Utf8.decodeLossy_encode _ _ le_rfl, String.ofList_toList]

/-- A byte string that is valid UTF-8. -/
def Encoded (bytes : Bytes) : Prop := ∃ text : String, textBytes text = bytes

variable {bytes : Bytes}

theorem Storable.encoded (storable : Storable bytes) : Encoded bytes := by
  obtain ⟨text, -, same⟩ := storable
  exact ⟨text, same⟩

theorem textBytes_jsonText (encoded : Encoded bytes) : textBytes (jsonText bytes) = bytes := by
  obtain ⟨text, rfl⟩ := encoded
  rw [jsonText_textBytes]

theorem Storable.textual (storable : Storable bytes) : Textual (jsonText bytes) := by
  obtain ⟨text, textual, rfl⟩ := storable
  rwa [jsonText_textBytes]

/-- The names and values of a header fit the column. -/
def Header.Storable (header : Header) : Prop :=
  ∀ name values, header.lookup name = some values →
    Idempotency.Storable name ∧ ∀ value ∈ values, Idempotency.Storable value

/-- The names and values of a header are valid UTF-8. -/
def Header.Encoded (header : Header) : Prop :=
  ∀ name values, header.lookup name = some values →
    Idempotency.Encoded name ∧ ∀ value ∈ values, Idempotency.Encoded value

variable {header : Header}

theorem Header.Storable.encoded (storable : Header.Storable header) : Header.Encoded header := by
  intro name values stored
  obtain ⟨nameStorable, valuesStorable⟩ := storable name values stored
  exact ⟨nameStorable.encoded, fun value member => (valuesStorable value member).encoded⟩

theorem encodeHeader_storable (storable : Header.Storable header) :
    (encodeHeader header).Storable := by
  intro member found
  simp only [encodeHeader, List.mem_map, Finset.mem_sort] at found
  obtain ⟨name, known, rfl⟩ := found
  obtain ⟨values, stored⟩ := Finmap.mem_iff.mp (Finmap.mem_keys.mp known)
  obtain ⟨nameStorable, valuesStorable⟩ := storable name values stored
  refine ⟨nameStorable.textual, ?_⟩
  intro value member
  simp only [stored, Option.getD_some, List.mem_map] at member
  obtain ⟨bytes, member, rfl⟩ := member
  exact (valuesStorable bytes member).textual

/-- A lookup after inserting values for distinct names. -/
theorem lookup_foldl_insert (values : Bytes → List Bytes) (names : List Bytes) (start : Header)
    (name : Bytes) :
    (names.foldl (fun header name => header.insert name (values name)) start).lookup name =
      if name ∈ names then some (values name) else start.lookup name := by
  induction names generalizing start with
  | nil => simp
  | cons head names ih =>
    rw [List.foldl_cons, ih]
    by_cases later : name ∈ names
    · simp [later]
    · by_cases here : name = head
      · subst here
        simp
      · simp [later, here, Finmap.lookup_insert_of_ne]

/-- A header of valid UTF-8 survives its JSON form. -/
theorem decodeHeader_encodeHeader_of_encoded (encoded : Header.Encoded header) :
    decodeHeader (encodeHeader header) = header := by
  have known : ∀ name ∈ header.keys.sort (· ≤ ·), ∃ values, header.lookup name = some values := by
    intro name member
    rw [Finset.mem_sort] at member
    exact Finmap.mem_iff.mp (Finmap.mem_keys.mp member)
  have exact : decodeHeader (encodeHeader header) = (header.keys.sort (· ≤ ·)).foldl
      (fun result name => result.insert name ((header.lookup name).getD [])) ∅ := by
    rw [decodeHeader, encodeHeader, List.foldl_map]
    refine List.foldl_ext _ _ _ fun result name member => ?_
    obtain ⟨values, stored⟩ := known name member
    obtain ⟨nameEncoded, valuesEncoded⟩ := encoded name values stored
    have same : values.map (textBytes ∘ jsonText) = values := by
      have each : ∀ value ∈ values, (textBytes ∘ jsonText) value = id value :=
        fun value found => textBytes_jsonText (valuesEncoded value found)
      rw [List.map_congr_left each, List.map_id]
    simp [stored, textBytes_jsonText nameEncoded, same]
  rw [exact]
  refine Finmap.ext_lookup fun name => ?_
  rw [lookup_foldl_insert (fun name => (header.lookup name).getD [])]
  cases stored : header.lookup name with
  | none =>
    have missing : name ∉ header.keys := by
      rw [Finmap.mem_keys, ← Finmap.lookup_eq_none]
      exact stored
    simp [missing]
  | some values =>
    have present : name ∈ header.keys :=
      Finmap.mem_keys.mpr (Finmap.mem_iff.mpr ⟨values, stored⟩)
    simp [present]

theorem decodeHeader_encodeHeader (storable : Header.Storable header) :
    decodeHeader (encodeHeader header) = header :=
  decodeHeader_encodeHeader_of_encoded storable.encoded

end Golusoris.Idempotency
