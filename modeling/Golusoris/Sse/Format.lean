import Golusoris.Lib.EventStream
import Golusoris.Lib.Lists
import Golusoris.Lib.Results

/-!
# Frames of server-sent events

`Event.format` writes an event as the fields of a frame. A browser reads the frames of
the accepted events back: every one is one message, with the text of its data up to the
line ends, and no value starts a field of its own.
-/

namespace Golusoris.Sse

open List
open Golusoris.Lib Golusoris.Lib.EventStream
open Utf8

/-- The dynamic types of the data that `format` tells apart. -/
inductive Payload (Value : Type) where
  | text (value : Bytes)
  | bytes (value : Bytes)
  | other (value : Value)

structure Event (Value : Type) where
  id : Bytes
  event : Bytes
  data : Payload Value
  retry : Int

/-- `strings.ContainsAny` with CR, LF and NUL. -/
def validField (value : Bytes) : Bool := !value.any fun byte => byte ∈ [0x0D, 0x0A, 0x00]

/-- Texts are replaced from the left, where some bytes belong to the last one. -/
def replaceAllFrom (old new : Bytes) : Nat → Bytes → Bytes
  | _, [] => []
  | passed + 1, _ :: rest => replaceAllFrom old new passed rest
  | 0, byte :: rest =>
      if old.isPrefixOf (byte :: rest) then new ++ replaceAllFrom old new (old.length - 1) rest
      else byte :: replaceAllFrom old new 0 rest

/-- `strings.ReplaceAll`, of a text that is not empty. -/
def replaceAll (text old new : Bytes) : Bytes := replaceAllFrom old new 0 text

/-- `fmt.Sprintf("%s: %s\n", name, value)`. -/
def fieldLine (name : String) (value : Bytes) : Bytes :=
  textBytes name ++ colon :: space :: value ++ [feed]

/-- An empty name stands for the default type. -/
def Event.name {Value : Type} (event : Event Value) : Bytes :=
  if event.event = [] then textBytes "message" else event.event

section

variable {Value : Type} (marshal : Value → Except String Bytes)

def Payload.content : Payload Value → Except String Bytes
  | .text value => .ok value
  | .bytes value => .ok value
  | .other value =>
      match marshal value with
      | .ok encoded => .ok encoded
      | .error cause => .error ("sse: marshal data: " ++ cause)

/-- The data with every line end replaced by LF. -/
def normalised (data : Bytes) : Bytes :=
  replaceAll (replaceAll data [0x0D, 0x0A] [0x0A]) [0x0D] [0x0A]

/-- The field of the id, if there is one. -/
def Event.idField (event : Event Value) : Except String Bytes :=
  if event.id = [] then .ok []
  else if validField event.id then .ok (fieldLine "id" event.id)
  else .error "sse: invalid event id"

def Event.nameField (event : Event Value) : Except String Bytes :=
  if validField event.name then .ok (fieldLine "event" event.name)
  else .error "sse: invalid event name"

def Event.retryField (event : Event Value) : Bytes :=
  if 0 < event.retry then fieldLine "retry" (Digits.natText event.retry.toNat) else []

def Event.format (event : Event Value) : Except String Bytes := do
  let id ← event.idField
  let name ← event.nameField
  let data ← event.data.content marshal
  .ok (id ++ name ++ event.retryField ++
    ((normalised data).splitOn feed).flatMap (fieldLine "data") ++ [feed])

/-- The events that are written to a client; the others are logged and skipped. -/
def accepted (events : List (Event Value)) : List (Event Value) :=
  events.filter fun event => (event.format marshal).toOption.isSome

/-- What is written to a client. -/
def frames (events : List (Event Value)) : Bytes :=
  events.flatMap fun event => (event.format marshal).toOption.getD []

end

/-- A text with CRLF and CR read as LF. -/
def normalise : List Char → List Char
  | [] => []
  | '\r' :: '\n' :: rest => '\n' :: normalise rest
  | '\r' :: rest => '\n' :: normalise rest
  | rune :: rest => rune :: normalise rest

/-- The last of the ids that are not empty. -/
def latestId {Value : Type} (events : List (Event Value)) : Bytes :=
  ((events.map Event.id).filter (· ≠ [])).getLast?.getD []

/-- The last of the reconnection times that are given. -/
def latestRetry {Value : Type} (events : List (Event Value)) : Option Nat :=
  ((events.map Event.retry).filter (0 < ·)).getLast?.map Int.toNat

section LineEnds

theorem replaceAllFrom_passed (old new before after : Bytes) :
    replaceAllFrom old new before.length (before ++ after) = replaceAllFrom old new 0 after := by
  induction before with
  | nil => rfl
  | cons byte before ih => exact ih

/-- Bytes that do not start the replaced text stay. -/
theorem replaceAllFrom_free {first : UInt8} {old new before : Bytes} (free : first ∉ before)
    (after : Bytes) : replaceAllFrom (first :: old) new 0 (before ++ after) =
      before ++ replaceAllFrom (first :: old) new 0 after := by
  induction before with
  | nil => rfl
  | cons byte before ih =>
    simp only [mem_cons, not_or] at free
    rw [cons_append, replaceAllFrom, if_neg (by simp [free.1]), ih free.2]
    rfl

theorem replaceAllFrom_found (old new after : Bytes) (first : UInt8) :
    replaceAllFrom (first :: old) new 0 (first :: old ++ after) =
      new ++ replaceAllFrom (first :: old) new 0 after := by
  rw [cons_append, replaceAllFrom, if_pos (by simp), length_cons,
    Nat.add_sub_cancel, replaceAllFrom_passed]

theorem normalised_append {before : Bytes} (free : 0x0D ∉ before) (after : Bytes) :
    normalised (before ++ after) = before ++ normalised after := by
  simp only [normalised, replaceAll, replaceAllFrom_free free]

theorem normalised_pair (rest : Bytes) :
    normalised (0x0D :: 0x0A :: rest) = 0x0A :: normalised rest := by
  have found := replaceAllFrom_found [0x0A] [0x0A] rest 0x0D
  have kept : (0x0D : UInt8) ∉ [0x0A] := by decide
  simp only [normalised, replaceAll]
  rw [show (0x0D :: 0x0A :: rest : Bytes) = 0x0D :: [0x0A] ++ rest from rfl, found,
    replaceAllFrom_free kept]
  rfl

/-- A CR that no LF follows. -/
theorem normalised_return {rest : Bytes} (alone : rest.head? ≠ some 0x0A) :
    normalised (0x0D :: rest) = 0x0A :: normalised rest := by
  have single : ¬([0x0D, 0x0A] : Bytes).isPrefixOf (0x0D :: rest) := by
    cases rest with
    | nil => decide
    | cons byte rest =>
      intro starts
      simp only [isPrefixOf, Bool.and_eq_true, beq_iff_eq] at starts
      exact alone (congrArg some starts.2.1.symm)
  have found := replaceAllFrom_found [] [0x0A] (replaceAllFrom [0x0D, 0x0A] [0x0A] 0 rest) 0x0D
  simp only [normalised, replaceAll]
  rw [replaceAllFrom, if_neg single]
  exact found

theorem mem_replaceAllFrom {byte : UInt8} {new : Bytes} (fresh : byte ∉ new) (text : Bytes) :
    byte ∉ replaceAllFrom [byte] new 0 text := by
  induction text with
  | nil => exact not_mem_nil
  | cons first text ih =>
    rw [replaceAllFrom]
    split_ifs with found
    · simpa [fresh] using ih
    · have other : byte ≠ first := fun same => found (by simp [same])
      simpa [other] using ih

theorem return_not_mem (data : Bytes) : 0x0D ∉ normalised data := mem_replaceAllFrom (by decide) _

/-- An encoding that starts with LF is that of a text that does. -/
theorem head_encode {text : List Char} (starts : (encode text).head? = some 0x0A) :
    text.head? = some '\n' := by
  cases text with
  | nil => cases starts
  | cons rune text =>
    have decoded := decodeRune_encode rune (encode text)
    rw [← encode_cons] at decoded
    cases bytes : encode (rune :: text) with
    | nil =>
      rw [bytes] at starts
      cases starts
    | cons byte rest =>
      rw [bytes] at starts decoded
      obtain rfl : byte = 0x0A := Option.some.inj starts
      rw [decodeRune_ascii (by decide)] at decoded
      rw [← Option.some.inj decoded]
      rfl

theorem return_not_mem_encodeChar {rune : Char} (other : rune ≠ '\r') :
    0x0D ∉ String.utf8EncodeChar rune := by
  intro found
  by_cases ascii : rune.toNat < 0x80
  · rw [encodeChar_ascii ascii, mem_singleton] at found
    have same := congrArg UInt8.toNat found
    rw [UInt8.toNat_ofNat', Nat.mod_eq_of_lt (by omega)] at same
    exact other (Char.toNat_inj.mp same.symm)
  · exact absurd (le_of_mem_encodeChar (Nat.le_of_not_lt ascii) found) (by decide)

/-- The replacements in bytes are those of the text. -/
theorem normalised_encode (text : List Char) :
    normalised (encode text) = encode (normalise text) := by
  have pair (rest : List Char) : encode ('\r' :: rest) = 0x0D :: encode rest := rfl
  have line (rest : List Char) : encode ('\n' :: rest) = 0x0A :: encode rest := rfl
  induction text using normalise.induct with
  | case1 => rfl
  | case2 rest ih => rw [pair, line, normalised_pair, ih, normalise, line]
  | case3 rest alone ih =>
    have single : (encode rest).head? ≠ some 0x0A := by
      intro starts
      obtain ⟨after, rfl⟩ : ∃ after, rest = '\n' :: after := by
        have first := head_encode starts
        cases rest with
        | nil => cases first
        | cons rune after => exact ⟨after, congrArg (· :: after) (Option.some.inj first)⟩
      exact alone after rfl
    rw [pair, normalised_return single, ih, normalise, line]
    exact alone
  | case4 rune rest notPair notReturn ih =>
    have other : rune ≠ '\r' := fun same => notReturn same
    rw [encode_cons, normalised_append (return_not_mem_encodeChar other), ih, normalise,
      encode_cons]
    · exact notPair
    · exact notReturn

end LineEnds

variable (source : Source)

section Frame

theorem decode_textBytes (text : String) : decode (textBytes text) = text.toList :=
  decode_encode text.toList

theorem validField_spec {value : Bytes} (valid : validField value) :
    feed ∉ value ∧ 0x0D ∉ value ∧ 0x00 ∉ value := by
  simp only [validField, Bool.not_eq_true', any_eq_false, decide_eq_true_eq] at valid
  exact ⟨fun found => valid _ found (by decide), fun found => valid _ found (by decide),
    fun found => valid _ found (by decide)⟩

/-- A name that can stand before a colon. -/
structure Named (name : String) : Prop where
  named : name.toList ≠ []
  plain : colon ∉ textBytes name
  noFeed : feed ∉ textBytes name
  noReturn : 0x0D ∉ textBytes name

theorem read_fieldLine {name : String} (named : Named name) {value : Bytes}
    (noFeed : feed ∉ value) (noReturn : 0x0D ∉ value) (rest : Bytes) :
    source.read (decode (fieldLine name value ++ rest)) =
      (source.field name.toList (decode value)).read (decode rest) := by
  have some : decode (textBytes name) ≠ [] := decode_textBytes name ▸ named.named
  have line : fieldLine name value ++ rest =
      textBytes name ++ colon :: space :: value ++ feed :: rest := by
    simp [fieldLine]
  rw [line, source.read_field some named.plain ⟨named.noFeed, named.noReturn⟩ noFeed noReturn,
    decode_textBytes]

theorem read_id {id : Bytes} (valid : validField id) (rest : Bytes) :
    source.read (decode (fieldLine "id" id ++ rest)) =
      { source with lastEventIdBuffer := decode id }.read (decode rest) := by
  obtain ⟨noFeed, noReturn, noNul⟩ := validField_spec valid
  have named : Named "id" := ⟨by decide, by decide, by decide, by decide⟩
  have kept : '\x00' ∉ decode id := fun found => noNul (mem_of_decodeFrom found (by decide))
  rw [read_fieldLine source named noFeed noReturn]
  simp [Source.field, kept]

theorem read_event {name : Bytes} (valid : validField name) (rest : Bytes) :
    source.read (decode (fieldLine "event" name ++ rest)) =
      { source with eventType := decode name }.read (decode rest) := by
  obtain ⟨noFeed, noReturn, -⟩ := validField_spec valid
  have named : Named "event" := ⟨by decide, by decide, by decide, by decide⟩
  rw [read_fieldLine source named noFeed noReturn]
  rfl

theorem read_retry (retry : Nat) (rest : Bytes) :
    source.read (decode (fieldLine "retry" (Digits.natText retry) ++ rest)) =
      { source with reconnectionTime := some retry }.read (decode rest) := by
  have digits := all_eq_true.mp (Digits.all_natText retry)
  have named : Named "retry" := ⟨by decide, by decide, by decide, by decide⟩
  have some : decode (Digits.natText retry) ≠ [] := by
    obtain ⟨first, others, text, -⟩ := Digits.natText_cons retry
    rw [text]
    exact decode_ne_nil first others
  rw [read_fieldLine source named (fun found => absurd (digits _ found) (by decide))
    (fun found => absurd (digits _ found) (by decide))]
  simp [Source.field, some, number_natText retry]

theorem read_data {written : List Bytes} (free : ∀ line ∈ written, feed ∉ line ∧ 0x0D ∉ line)
    (rest : Bytes) :
    source.read (decode (written.flatMap (fieldLine "data") ++ rest)) =
      { source with data := source.data ++ written.flatMap (decode · ++ ['\n']) }.read
        (decode rest) := by
  have named : Named "data" := ⟨by decide, by decide, by decide, by decide⟩
  induction written generalizing source with
  | nil => simp
  | cons line written ih =>
    have own := free line mem_cons_self
    have field : source.field "data".toList (decode line) =
        { source with data := source.data ++ decode line ++ ['\n'] } := rfl
    rw [flatMap_cons, append_assoc, read_fieldLine source named own.1 own.2, field,
      ih _ fun other inside => free other (mem_cons_of_mem _ inside)]
    simp [append_assoc]

/-- The data fields of a text gather the text and one line end. -/
theorem flatMap_lines (data : Bytes) :
    (data.splitOn feed).flatMap (decode · ++ ['\n']) = decode data ++ ['\n'] := by
  have joined : [feed].intercalate (data.splitOn feed) = data := intercalate_splitOn feed
  cases parts : data.splitOn feed with
  | nil => exact absurd parts (splitOn_ne_nil feed data)
  | cons first others =>
    rw [parts] at joined
    rw [← joined, decode_intercalate]
    have shifted (first : List Char) : first ++ '\n' :: others.flatMap (decode · ++ ['\n']) =
        first ++ others.flatMap (fun line => '\n' :: decode line) ++ ['\n'] := by
      clear parts joined
      induction others generalizing first with
      | nil => simp
      | cons second others ih =>
        have next := ih (first ++ '\n' :: decode second)
        simp only [flatMap_cons, append_assoc, cons_append] at next ⊢
        exact next
    simpa using shifted (decode first)

end Frame

section Published

variable {Value : Type} {marshal : Value → Except String Bytes}

/-- What a source holds after the message of an event. -/
def publish (source : Source) (event : Event Value) (data : Bytes) : Source :=
  let id := if event.id = [] then source.lastEventIdBuffer else decode event.id
  let retry := if 0 < event.retry then some event.retry.toNat else source.reconnectionTime
  { source with
    lastEventIdBuffer := id
    lastEventId := id
    reconnectionTime := retry
    messages := source.messages ++ [⟨decode event.name, decode (normalised data), id, retry⟩] }

variable (event : Event Value)

theorem Event.name_ne_nil : event.name ≠ [] := by
  rw [name]
  split_ifs with unnamed
  · decide
  · exact unnamed

variable {event : Event Value}

theorem format_eq_ok {frame : Bytes} (written : event.format marshal = .ok frame) : ∃ id data,
      event.idField = .ok id ∧ event.data.content marshal = .ok data ∧ validField event.name ∧
      frame = id ++ fieldLine "event" event.name ++ event.retryField ++
        ((normalised data).splitOn feed).flatMap (fieldLine "data") ++ [feed] := by
  rw [Event.format] at written
  obtain ⟨id, identified, written⟩ := exists_of_bind_eq_ok written
  obtain ⟨name, named, written⟩ := exists_of_bind_eq_ok written
  obtain ⟨data, encoded, written⟩ := exists_of_bind_eq_ok written
  rw [Event.nameField] at named
  split_ifs at named with valid
  cases named
  exact ⟨id, data, identified, encoded, valid, (Except.ok.inj written).symm⟩

theorem read_idField {id : Bytes} (written : event.idField = .ok id) (rest : Bytes) :
    source.read (decode (id ++ rest)) =
      { source with
        lastEventIdBuffer := if event.id = [] then source.lastEventIdBuffer else decode event.id
      }.read (decode rest) := by
  rw [Event.idField] at written
  split_ifs at written ⊢ with none valid
  · cases written
    rfl
  · cases written
    exact read_id source valid rest

theorem read_retryField (rest : Bytes) :
    source.read (decode (event.retryField ++ rest)) =
      { source with
        reconnectionTime :=
          if 0 < event.retry then some event.retry.toNat else source.reconnectionTime
      }.read (decode rest) := by
  rw [Event.retryField]
  split_ifs with given
  · exact read_retry source _ rest
  · rfl

variable {source : Source}

/-- A frame is one message, and nothing of it is left for the next. -/
theorem read_frame (noData : source.data = []) (noType : source.eventType = []) {frame : Bytes}
    (written : event.format marshal = .ok frame) (rest : Bytes) :
    ∃ data, event.data.content marshal = .ok data ∧
      source.read (decode (frame ++ rest)) = (publish source event data).read (decode rest) := by
  obtain ⟨id, data, identified, encoded, valid, rfl⟩ := format_eq_ok written
  refine ⟨data, encoded, ?_⟩
  have free : ∀ line ∈ (normalised data).splitOn feed, feed ∉ line ∧ 0x0D ∉ line := by
    intro line listed
    obtain ⟨noFeed, inside⟩ := of_mem_splitOn feed listed
    exact ⟨noFeed, fun found => return_not_mem data (inside found)⟩
  have typed : decode event.name ≠ [] := by
    obtain ⟨lead, others, same⟩ := exists_cons_of_ne_nil event.name_ne_nil
    exact same ▸ decode_ne_nil lead others
  simp only [append_assoc]
  rw [read_idField source identified, read_event _ valid, read_retryField, read_data _ free,
    singleton_append, Source.read_empty, flatMap_lines, noData]
  simp [Source.dispatch, publish, typed, noType, noData]

theorem publish_idle (noData : source.data = []) (noType : source.eventType = [])
    (event : Event Value) (data : Bytes) :
    (publish source event data).data = [] ∧ (publish source event data).eventType = [] :=
  ⟨noData, noType⟩

variable (marshal) in
/-- The data of an accepted event. -/
def contentOf (event : Event Value) : Bytes := (event.data.content marshal).toOption.getD []

variable (marshal) in
/-- The source after the messages of events. -/
def publishAll (source : Source) (sent : List (Event Value)) : Source :=
  sent.foldl (fun source event => publish source event (contentOf marshal event)) source

theorem read_frames (noData : source.data = []) (noType : source.eventType = [])
    (events : List (Event Value)) : source.read (decode (frames marshal events)) =
      publishAll marshal source (accepted marshal events) := by
  induction events generalizing source with
  | nil => rfl
  | cons event events ih =>
    cases written : event.format marshal with
    | error failure =>
      have skipped : frames marshal (event :: events) = frames marshal events := by
        simp [frames, written, Except.toOption]
      have refused : accepted marshal (event :: events) = accepted marshal events := by
        simp [accepted, written, Except.toOption]
      rw [skipped, refused, ih noData noType]
    | ok frame =>
      have first : frames marshal (event :: events) = frame ++ frames marshal events := by
        simp [frames, written, Except.toOption]
      have taken : accepted marshal (event :: events) = event :: accepted marshal events := by
        simp [accepted, written, Except.toOption]
      obtain ⟨data, encoded, read⟩ := read_frame noData noType written (frames marshal events)
      obtain ⟨idle, untyped⟩ := publish_idle noData noType event data
      have content : contentOf marshal event = data := by
        rw [contentOf, encoded]
        rfl
      rw [first, taken, read, ih idle untyped, ← content]
      rfl

/-- No byte order mark starts a stream. -/
theorem decodeStream_frames (events : List (Event Value)) :
    decodeStream (frames marshal events) = decode (frames marshal events) := by
  refine if_neg ?_
  induction events with
  | nil =>
    have empty : frames marshal [] = [] := rfl
    rw [empty]
    decide
  | cons event events ih =>
    cases written : event.format marshal with
    | error failure => simpa [frames, written, Except.toOption] using ih
    | ok frame =>
      obtain ⟨id, data, identified, -, -, rfl⟩ := format_eq_ok written
      have first : frames marshal (event :: events) =
          id ++ (fieldLine "event" event.name ++ (event.retryField ++
            (((normalised data).splitOn feed).flatMap (fieldLine "data") ++
              (feed :: frames marshal events)))) := by
        simp [frames, written, Except.toOption]
      rw [Event.idField] at identified
      rw [first]
      split_ifs at identified
      · cases identified
        simp [fieldLine, textBytes, encode, String.utf8EncodeChar]
      · cases identified
        simp [fieldLine, textBytes, encode, String.utf8EncodeChar]

/-- A message tells the last of the events that were sent. -/
structure Tells (marshal : Value → Except String Bytes) (sent : List (Event Value))
    (event : Event Value) (message : Message) : Prop where
  type : message.type = decode event.name
  data : ∀ text, event.data.content marshal = .ok (Utf8.encode text) →
    message.data = normalise text
  lastEventId : message.lastEventId = decode (latestId sent)
  reconnectionTime : message.reconnectionTime = latestRetry sent

variable (sent : List (Event Value))

theorem latestId_append (event : Event Value) :
    latestId (sent ++ [event]) = if event.id = [] then latestId sent else event.id := by
  by_cases none : event.id = [] <;> simp [latestId, none]

theorem latestRetry_append (event : Event Value) :
    latestRetry (sent ++ [event]) =
      if 0 < event.retry then some event.retry.toNat else latestRetry sent := by
  by_cases given : 0 < event.retry <;> simp [latestRetry, given]

theorem publish_tells {sent : List (Event Value)}
    (identified : source.lastEventIdBuffer = decode (latestId sent))
    (timed : source.reconnectionTime = latestRetry sent) (event : Event Value) : ∃ message,
      (publish source event (contentOf marshal event)).messages = source.messages ++ [message] ∧
      Tells marshal (sent ++ [event]) event message := by
  refine ⟨_, rfl, rfl, ?_, ?_, ?_⟩
  · intro text encoded
    have content : contentOf marshal event = encode text := by
      rw [contentOf, encoded]
      rfl
    show decode (normalised (contentOf marshal event)) = normalise text
    rw [content, normalised_encode, decode_encode]
  · rw [latestId_append]
    simp only [identified]
    split_ifs <;> rfl
  · rw [latestRetry_append]
    simp only [timed]

/-- What a source holds after the messages of events. -/
structure Told (marshal : Value → Except String Bytes) (sent : List (Event Value))
    (source : Source) : Prop where
  identified : source.lastEventIdBuffer = decode (latestId sent)
  timed : source.reconnectionTime = latestRetry sent
  number : source.messages.length = sent.length
  tells : ∀ index event, sent[index]? = some event → ∃ message,
    source.messages[index]? = some message ∧ Tells marshal (sent.take (index + 1)) event message

theorem publishAll_told : Told marshal sent (publishAll marshal {} sent) := by
  induction sent using reverseRecOn with
  | nil => exact ⟨rfl, rfl, rfl, fun index event found => by simp at found⟩
  | append_singleton sent event ih =>
    have last : publishAll marshal {} (sent ++ [event]) =
        publish (publishAll marshal {} sent) event (contentOf marshal event) := by
      simp [publishAll]
    obtain ⟨message, messages, tells⟩ := publish_tells ih.identified ih.timed event
    rw [last]
    refine ⟨?_, ?_, ?_, ?_⟩
    · rw [latestId_append]
      simp only [publish, ih.identified]
      split_ifs <;> rfl
    · rw [latestRetry_append]
      simp only [publish, ih.timed]
    · rw [messages, length_append, length_append, ih.number]
      rfl
    · intro index other found
      rw [messages]
      by_cases before : index < sent.length
      · rw [List.getElem?_append_left before] at found
        rw [List.getElem?_append_left (ih.number ▸ before), take_append_of_le_length before]
        exact ih.tells index other found
      · rw [List.getElem?_append_right (Nat.le_of_not_lt before)] at found
        rw [List.getElem?_singleton] at found
        split_ifs at found with here
        cases found
        obtain rfl : index = sent.length := by omega
        refine ⟨message, ?_, ?_⟩
        · rw [← ih.number, List.getElem?_concat_length]
        · rw [take_of_length_le (by simp)]
          exact tells

variable (marshal) in
/-- The messages that a client reads are the accepted events, one by one and in order. -/
theorem parse_frames (events : List (Event Value)) :
    (parse (frames marshal events)).messages.length = (accepted marshal events).length ∧
      ∀ index event, (accepted marshal events)[index]? = some event → ∃ message,
        (parse (frames marshal events)).messages[index]? = some message ∧
        Tells marshal ((accepted marshal events).take (index + 1)) event message := by
  have source : parse (frames marshal events) =
      publishAll marshal {} (accepted marshal events) := by
    rw [parse, decodeStream_frames]
    exact read_frames rfl rfl events
  have told := @publishAll_told Value marshal (accepted marshal events)
  rw [source]
  exact ⟨told.number, told.tells⟩

end Published

end Golusoris.Sse
