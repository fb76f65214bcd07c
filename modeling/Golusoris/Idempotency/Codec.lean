import Golusoris.Lib.Base64
import Golusoris.Lib.JsonItems

/-!
# The texts of a stored response

Source: `encodeHeader`, `decodeHeader` and `nonNilBytes` of
`idempotency/internal/sqlstore/store.go`; `redisResponse`, `decodeRedisResponse`
and `Commit` of `idempotency/redis/store.go`. The stores in a database keep the
header as JSON, whose strings are text: a header with other bytes comes back with
the replacement character in their place. The memory store keeps a deep copy, so
it gives back the response itself.
-/

namespace Golusoris.Idempotency.Codec

open List
open Lib (Base64.decode Base64.encode Bytes Dict)
open Lib.Json

/-- `http.Header`, nil or a map of names to slices that may be nil. -/
abbrev Header := Option (Dict Bytes (Option (List Bytes)))

structure CachedResponse where
  statusCode : Int64
  header : Header
  body : Option Bytes

/-- The same status, the same multimap and the same bytes. -/
structure CachedResponse.Same (first second : CachedResponse) : Prop where
  statusCode : first.statusCode = second.statusCode
  header : first.header = second.header
  body : first.body.getD [] = second.body.getD []

def valuesPhrase : Option (List Bytes) → Phrase .value
  | none => .word .null
  | some values => arrayOf (values.map stringPhrase)

def headerPhrase : Header → Phrase .value
  | none => .word .null
  | some fields => objectOf (fields.entries.map fun entry => (entry.1, valuesPhrase entry.2))

def encodeHeader (header : Header) : Bytes := (headerPhrase header).source

/-- An element of a slice of strings; `null` leaves it empty. -/
def readString : Phrase .value → Option Bytes
  | .string body => some (unquote body)
  | .word .null => some []
  | _ => none

def readValues : Phrase .value → Option (Option (List Bytes))
  | .word .null => some none
  | .emptyArray _ => some (some [])
  | .array items => (items.items.mapM readString).map some
  | _ => none

/-- The members of an object go into the map that is there. -/
def readHeader (header : Header) : Phrase .value → Option Header
  | .word .null => some none
  | .emptyObject _ => some (some (header.getD .empty))
  | .object items =>
      (items.pairs.foldlM (fun fields entry =>
        (readValues entry.2).map fun values => Dict.insert entry.1 values fields)
          (header.getD .empty)).map some
  | _ => none

def decodeHeader (raw : Bytes) : Option Header :=
  (document maxNestingDepth raw).bind (readHeader none)

structure Record where
  status : Int64
  header : Bytes
  body : Bytes

def nonNilBytes (body : Option Bytes) : Bytes := body.getD []

/-- `claimResult` of a completed record. -/
def Record.response (record : Record) : Option CachedResponse :=
  (decodeHeader record.header).map fun header => ⟨record.status, header, some record.body⟩

/-- How the JSON package matches names that differ in case, and reads an array into a
slice of bytes. Neither happens to what `Commit` writes. -/
structure Rules where
  foldName : Bytes → Bytes
  bytesOf : Option Bytes → Phrase .elements → Option Bytes

inductive Field where
  | status
  | header
  | body
  deriving DecidableEq

def Field.name : Field → Bytes
  | .status => [0x73, 0x74, 0x61, 0x74, 0x75, 0x73]
  | .header => [0x68, 0x65, 0x61, 0x64, 0x65, 0x72]
  | .body => [0x62, 0x6F, 0x64, 0x79]

def fields : List Field := [.status, .header, .body]

def bodyPhrase : Option Bytes → Phrase .value
  | none => .word .null
  | some body => stringPhrase (Base64.encode body)

def redisPhrase (response : CachedResponse) : Phrase .value :=
  objectOf [(Field.status.name, intPhrase response.statusCode.toInt),
    (Field.header.name, headerPhrase response.header), (Field.body.name, bodyPhrase response.body)]

/-- What `Commit` stores. -/
def encodeRedisResponse (response : CachedResponse) : Bytes := (redisPhrase response).source

/-- The field a member is for: that of the name, or of one that differs in case. -/
def fieldOf (rules : Rules) (name : Bytes) : Option Field :=
  match fields.find? fun field => field.name = name with
  | some field => some field
  | none => fields.find? fun field => rules.foldName field.name = rules.foldName name

def readStatus (status : Int64) : Phrase .value → Option Int64
  | .word .null => some status
  | .number text =>
      (Lib.Digits.readInt text).bind fun value =>
        if -0x8000000000000000 ≤ value ∧ value < 0x8000000000000000 then some (Int64.ofInt value)
        else none
  | _ => none

def readBody (rules : Rules) (body : Option Bytes) : Phrase .value → Option (Option Bytes)
  | .word .null => some none
  | .string text => (Base64.decode (unquote text)).map some
  | .emptyArray _ => some (some [])
  | .array items => (rules.bytesOf body items).map some
  | _ => none

def readField (rules : Rules) (response : CachedResponse) (entry : Bytes × Phrase .value) :
    Option CachedResponse :=
  match fieldOf rules entry.1 with
  | none => some response
  | some .status =>
      (readStatus response.statusCode entry.2).map fun status => { response with statusCode := status }
  | some .header =>
      (readHeader response.header entry.2).map fun header => { response with header := header }
  | some .body => (readBody rules response.body entry.2).map fun body => { response with body := body }

def decodeRedisResponse (rules : Rules) (raw : Bytes) : Option CachedResponse :=
  (document maxNestingDepth raw).bind fun phrase =>
    match phrase with
    | .word .null => some ⟨0, none, none⟩
    | .emptyObject _ => some ⟨0, none, none⟩
    | .object items => items.pairs.foldlM (readField rules) ⟨0, none, none⟩
    | _ => none

/-- The text is valid UTF-8. -/
def Textual (text : Bytes) : Prop := Lib.Utf8.coerce text = text

/-- Every name and every value is valid UTF-8. -/
def Header.Textual : Header → Prop
  | none => True
  | some fields => ∀ entry ∈ fields.entries, Codec.Textual entry.1 ∧
      ∀ values, entry.2 = some values → ∀ value ∈ values, Codec.Textual value

def coerceValues (values : Option (List Bytes)) : Option (List Bytes) :=
  values.map fun values => values.map Lib.Utf8.coerce

/-- The header with everything in it made valid. -/
def coerceHeader : Header → Header
  | none => none
  | some fields => some (Dict.ofList
      (fields.entries.map fun entry => (Lib.Utf8.coerce entry.1, coerceValues entry.2)))

theorem textual_coerce (text : Bytes) : Textual (Lib.Utf8.coerce text) := by
  rw [Textual]
  nth_rewrite 2 [Lib.Utf8.coerce]
  rw [Lib.Utf8.coerce_encode, Lib.Utf8.coerce]

theorem mapM_readString (values : List Bytes) :
    (values.map stringPhrase).mapM readString = some (values.map Lib.Utf8.coerce) := by
  induction values with
  | nil => rfl
  | cons value values ih =>
    rw [map_cons, mapM_cons, ih, stringPhrase, readString, unquote_quote]
    rfl

variable (values : Option (List Bytes))

theorem readValues_valuesPhrase :
    readValues (valuesPhrase values) = some (coerceValues values) := by
  cases values with
  | none => rfl
  | some values =>
    have read := mapM_readString values
    cases values with
    | nil => rfl
    | cons first rest =>
      rw [valuesPhrase, map_cons, arrayOf, readValues, items_elementsOf, ← map_cons, read]
      rfl

/-- The members of a written header go into a map one after the other. -/
theorem foldlM_readValues (entries : List (Bytes × Option (List Bytes)))
    (fields : Dict Bytes (Option (List Bytes))) :
    (entries.map fun entry => (Lib.Utf8.coerce entry.1, valuesPhrase entry.2)).foldlM
        (fun fields entry => (readValues entry.2).map fun values => Dict.insert entry.1 values fields)
        fields =
      some ((entries.map fun entry => (Lib.Utf8.coerce entry.1, coerceValues entry.2)).foldl
        (fun fields entry => fields.insert entry.1 entry.2) fields) := by
  induction entries generalizing fields with
  | nil => rfl
  | cons entry entries ih =>
    simp only [map_cons, foldlM_cons, readValues_valuesPhrase, Option.map_some,
      Option.bind_eq_bind, Option.bind_some, foldl_cons]
    exact ih _

variable (header : Header)

theorem readHeader_headerPhrase :
    readHeader none (headerPhrase header) = some (coerceHeader header) := by
  cases header with
  | none => rfl
  | some fields =>
    rw [headerPhrase, coerceHeader]
    cases listed : fields.entries with
    | nil => rfl
    | cons first rest =>
      rw [map_cons, objectOf, readHeader, pairs_membersOf, map_cons, map_map,
        Option.getD_none]
      exact congrArg (Option.map some) (foldlM_readValues (first :: rest) .empty)

theorem valuesPhrase_wellFormed : (valuesPhrase values).WellFormed := by
  cases values with
  | none => trivial
  | some values =>
    apply wellFormed_arrayOf
    intro value found
    obtain ⟨text, -, rfl⟩ := mem_map.mp found
    exact stringPhrase_wellFormed text

theorem headerPhrase_wellFormed : (headerPhrase header).WellFormed := by
  cases header with
  | none => trivial
  | some fields =>
    apply wellFormed_objectOf
    intro entry found
    obtain ⟨field, -, rfl⟩ := mem_map.mp found
    exact valuesPhrase_wellFormed field.2

theorem depth_valuesPhrase : (valuesPhrase values).depth ≤ 1 := by
  cases values with
  | none => exact Nat.zero_le 1
  | some values =>
    apply depth_arrayOf.mpr
    intro value found
    obtain ⟨text, -, rfl⟩ := mem_map.mp found
    exact Nat.le_refl 0

theorem depth_headerPhrase : (headerPhrase header).depth ≤ 2 := by
  cases header with
  | none => exact Nat.zero_le 2
  | some fields =>
    apply depth_objectOf.mpr
    intro entry found
    obtain ⟨field, -, rfl⟩ := mem_map.mp found
    exact depth_valuesPhrase field.2

/-- A header comes back with everything in it made valid. -/
theorem decodeHeader_encodeHeader :
    decodeHeader (encodeHeader header) = some (coerceHeader header) := by
  have shallow : (headerPhrase header).depth ≤ maxNestingDepth :=
    Nat.le_trans (depth_headerPhrase header) (by decide)
  rw [decodeHeader, encodeHeader, document_source (headerPhrase_wellFormed header) shallow,
    Option.bind_some, readHeader_headerPhrase]

/-- It comes back as it was exactly when everything in it is valid. -/
theorem coerceHeader_eq_iff : coerceHeader header = header ↔ header.Textual := by
  cases header with
  | none => exact ⟨fun _ => trivial, fun _ => rfl⟩
  | some fields =>
    constructor
    · intro same entry found
      have held : fields.get? entry.1 = some entry.2 := Dict.get?_eq_some.mpr found
      rw [← Option.some.inj same] at held
      obtain ⟨original, -, made⟩ := mem_map.mp (Dict.mem_of_get?_ofList held)
      obtain ⟨name, values⟩ := Prod.mk.inj made
      constructor
      · rw [← name]
        exact textual_coerce original.1
      · intro texts given value listed
        rw [given, coerceValues] at values
        obtain ⟨before, -, rfl⟩ := Option.map_eq_some_iff.mp values
        obtain ⟨text, -, rfl⟩ := mem_map.mp listed
        exact textual_coerce text
    · intro textual
      have kept : (fields.entries.map fun entry => (Lib.Utf8.coerce entry.1, coerceValues entry.2)) =
          fields.entries := by
        apply (map_congr_left _).trans (map_id _)
        rintro ⟨name, values⟩ found
        obtain ⟨named, valued⟩ := textual _ found
        cases values with
        | none => exact Prod.ext named rfl
        | some values =>
          refine Prod.ext named (congrArg some ?_)
          exact (map_congr_left (valued values rfl)).trans (map_id _)
      rw [coerceHeader, kept, Dict.ofList_entries]

theorem decode_body (body : Option Bytes) (rules : Rules) :
    readBody rules none (bodyPhrase body) = some body := by
  cases body with
  | none => rfl
  | some body =>
    rw [bodyPhrase, stringPhrase, readBody, unquote_quote, Lib.Base64.coerce_encode,
      Lib.Base64.decode_encode]
    rfl

theorem readStatus_intPhrase (status before : Int64) :
    readStatus before (intPhrase status.toInt) = some status := by
  have low := status.le_toInt
  have high := status.toInt_lt
  rw [intPhrase, readStatus, Lib.Digits.readInt_intText, Option.bind_some, if_pos ⟨low, high⟩,
    Int64.ofInt_toInt]

theorem coerce_name (field : Field) : Lib.Utf8.coerce field.name = field.name := by
  apply Lib.Utf8.coerce_ascii
  apply Lib.Utf8.ascii_of_all
  cases field <;> decide

theorem fieldOf_name (rules : Rules) (field : Field) : fieldOf rules field.name = some field := by
  cases field <;> rfl

variable (response : CachedResponse)

theorem redisPhrase_wellFormed : (redisPhrase response).WellFormed := by
  apply wellFormed_objectOf
  intro entry found
  simp only [mem_cons, not_mem_nil, or_false] at found
  rcases found with rfl | rfl | rfl
  · exact intPhrase_wellFormed _
  · exact headerPhrase_wellFormed _
  · cases response.body with
    | none => trivial
    | some body => exact stringPhrase_wellFormed _

theorem depth_redisPhrase : (redisPhrase response).depth ≤ 3 := by
  apply depth_objectOf.mpr
  intro entry found
  simp only [mem_cons, not_mem_nil, or_false] at found
  rcases found with rfl | rfl | rfl
  · exact Nat.zero_le 2
  · exact depth_headerPhrase _
  · cases response.body with
    | none | some _ => exact Nat.zero_le 2

/-- The status and the body come back as they were, the header made valid. -/
theorem decodeRedisResponse_encode (rules : Rules) (response : CachedResponse) :
    decodeRedisResponse rules (encodeRedisResponse response) =
      some { response with header := coerceHeader response.header } := by
  have shallow : (redisPhrase response).depth ≤ maxNestingDepth :=
    Nat.le_trans (depth_redisPhrase response) (by decide)
  rw [decodeRedisResponse, encodeRedisResponse,
    document_source (redisPhrase_wellFormed response) shallow, Option.bind_some]
  simp only [redisPhrase, objectOf, pairs_membersOf, map_cons, map_nil, coerce_name,
    foldlM_cons, foldlM_nil, readField, fieldOf_name, readStatus_intPhrase,
    readHeader_headerPhrase, decode_body, Option.map_some, Option.bind_eq_bind, Option.bind_some]
  rfl

/-- A response comes back the same from either kind of store exactly when every name and
every value of its header is valid UTF-8. -/
theorem replayed_same_iff (rules : Rules) (column : Bytes → Option Bytes)
    (faithful : ∀ header back, column (encodeHeader header) = some back →
      decodeHeader back = decodeHeader (encodeHeader header))
    (response : CachedResponse) (back : Bytes)
    (committed : column (encodeHeader response.header) = some back) :
    ((∃ out, Record.response ⟨response.statusCode, back, nonNilBytes response.body⟩ = some out ∧
        out.Same response) ↔ response.header.Textual) ∧
    ((∃ out, decodeRedisResponse rules (encodeRedisResponse response) = some out ∧
        out.Same response) ↔ response.header.Textual) := by
  have sql : Record.response ⟨response.statusCode, back, nonNilBytes response.body⟩ =
      some ⟨response.statusCode, coerceHeader response.header, some (nonNilBytes response.body)⟩ := by
    rw [Record.response, faithful _ _ committed, decodeHeader_encodeHeader]
    rfl
  rw [sql, decodeRedisResponse_encode, ← coerceHeader_eq_iff]
  constructor
  · constructor
    · rintro ⟨out, decoded, same⟩
      cases decoded
      exact same.header
    · exact fun same => ⟨_, rfl, rfl, same, rfl⟩
  · constructor
    · rintro ⟨out, decoded, same⟩
      cases decoded
      exact same.header
    · exact fun same => ⟨_, rfl, rfl, same, rfl⟩

def noRules : Rules := ⟨id, fun _ _ => none⟩

/-- A response with one header field, `X`. -/
def sample (value : Bytes) : CachedResponse :=
  ⟨200, some ⟨[([0x58], some [value])], List.pairwise_singleton _ _⟩, none⟩

theorem replayed_same_text : ∃ out, decodeRedisResponse noRules (encodeRedisResponse (sample [0x61])) =
    some out ∧ out.Same (sample [0x61]) := by
  have textual : (sample [0x61]).header.Textual := by
    intro entry found
    obtain rfl := List.mem_singleton.mp found
    refine ⟨Lib.Utf8.coerce_ascii (Lib.Utf8.ascii_of_all (by decide)), fun values given value listed => ?_⟩
    cases given
    obtain rfl := List.mem_singleton.mp listed
    exact Lib.Utf8.coerce_ascii (Lib.Utf8.ascii_of_all (by decide))
  exact (replayed_same_iff noRules some (fun header back same => by cases same; rfl) (sample [0x61])
    _ rfl).2.mpr textual

/-- A value of one byte that is not text, which an HTTP field may have. -/
theorem latin_value_lost : ¬∀ rules (column : Bytes → Option Bytes),
    (∀ header back, column (encodeHeader header) = some back →
      decodeHeader back = decodeHeader (encodeHeader header)) →
    ∀ response back, column (encodeHeader response.header) = some back →
      (∃ out, Record.response ⟨response.statusCode, back, nonNilBytes response.body⟩ = some out ∧
        out.Same response) ∧
      ∃ out, decodeRedisResponse rules (encodeRedisResponse response) = some out ∧
        out.Same response := by
  intro claim
  obtain ⟨-, out, decoded, same⟩ :=
    claim noRules some (fun header back same => by cases same; rfl) (sample [0xE9]) _ rfl
  rw [decodeRedisResponse_encode] at decoded
  cases decoded
  have header : coerceHeader (sample [0xE9]).header = (sample [0xE9]).header := same.header
  have textual := (coerceHeader_eq_iff (sample [0xE9]).header).mp header ([0x58], some [[0xE9]])
    List.mem_cons_self
  exact absurd (textual.2 _ rfl _ List.mem_cons_self) (by unfold Textual; decide)

end Golusoris.Idempotency.Codec
