import Golusoris.Lib.EventLines
import Golusoris.Llm.Stream
import Mathlib.Tactic.SplitIfs

/-!
# What a stream delivers

`consume` reads the lines of an event stream in order and takes each data line for
an event, which it is where no event has two of them. The code is `consume` with
`spacedValue`, which knows data lines with a space after the colon only. A line without the
space is passed over, so the code is faithful where such lines say nothing.
-/

namespace Golusoris.Llm

open Lib (Bytes textBytes textLines dropReturn TextLine)
open Lib.EventLines (dataValue lines Plain)

/-- What the data of an event comes to. -/
inductive Verdict where
  | done
  | broken
  | delta (content : Bytes)
  deriving DecidableEq

section Consuming

variable (unmarshal : Bytes → Except Bytes StreamEvent)

/-- The end of the stream, a provider's error or malformed data, or the first
choice's delta. Empty data carries nothing. -/
def verdict (payload : Bytes) : Verdict :=
  if payload = doneMarker then .done
  else if payload = [] then .delta []
  else
    match unmarshal payload with
    | .error _ => .broken
    | .ok ev => if ev.error.isSome then .broken else .delta (ev.choices.headD [])

/-- A content in front of what follows, if it is not empty. -/
def putContent (content : Bytes) (later : List Bytes × Bool) : List Bytes × Bool :=
  (if content = [] then later.1 else content :: later.1, later.2)

/-- The contents that lines deliver, and whether the stream ends as it should. -/
def consume (payloadOf : Bytes → Option Bytes) (maxFrameBytes : Int) :
    List Bytes → List Bytes × Bool
  | [] => ([], false)
  | line :: rest =>
      if maxFrameBytes < line.length then ([], false)
      else
        match (payloadOf line).map (verdict unmarshal) with
        | none => consume payloadOf maxFrameBytes rest
        | some .done => ([], true)
        | some .broken => ([], false)
        | some (.delta content) => putContent content (consume payloadOf maxFrameBytes rest)

/-- The contents that the data of events deliver, and whether it ends as it should. -/
def deliver : List Bytes → List Bytes × Bool
  | [] => ([], false)
  | payload :: rest =>
      match verdict unmarshal payload with
      | .done => ([], true)
      | .broken => ([], false)
      | .delta content => putContent content (deliver rest)

/-- The data of a line with a space after the colon. -/
def spacedValue (line : Bytes) : Option Bytes :=
  if dataPrefix <+: line then some (line.drop dataPrefix.length) else none

/-- The chunks sent are those of the events, and there is no error exactly when
the stream gets to its end marker. -/
def Faithful (body : Body) (maxFrameBytes : Int) : Prop :=
  let sent := emitSSEChunks unmarshal (fun _ => none) body maxFrameBytes
  (sent.1, sent.2.isNone) = consume unmarshal dataValue maxFrameBytes (lines body.bytes)

/-- Up to the end of the stream, a data line without the space says nothing: it
has no data, or an event with no error and no content. -/
def Heard (maxFrameBytes : Int) : List Bytes → Prop
  | [] => True
  | line :: rest =>
      line.length ≤ maxFrameBytes →
        match spacedValue line with
        | some payload => (∃ content, verdict unmarshal payload = .delta content) →
            Heard maxFrameBytes rest
        | none => (∀ payload, dataValue line = some payload →
            verdict unmarshal payload = .delta []) ∧ Heard maxFrameBytes rest

/-- Up to the end of the stream, a data line without the space is a delta. -/
def OnlyDeltas (maxFrameBytes : Int) : List Bytes → Prop
  | [] => True
  | line :: rest =>
      line.length ≤ maxFrameBytes →
        match spacedValue line with
        | some payload => (∃ content, verdict unmarshal payload = .delta content) →
            OnlyDeltas maxFrameBytes rest
        | none => (∀ payload, dataValue line = some payload →
            ∃ content, verdict unmarshal payload = .delta content) ∧ OnlyDeltas maxFrameBytes rest

variable {unmarshal} {maxFrameBytes : Int} {line payload : Bytes} {tokens : List Bytes}

/-- Without a line that is too long, and with one data line in each event, what
the lines deliver is what the events do. -/
theorem consume_eq_deliver (short : ∀ line ∈ tokens, (line.length : Int) ≤ maxFrameBytes)
    (single : ∀ values ∈ Lib.EventLines.eventsFrom [] tokens, values.length ≤ 1) :
    consume unmarshal dataValue maxFrameBytes tokens =
      deliver unmarshal (Lib.EventLines.payloads tokens) := by
  rw [Lib.EventLines.payloads_of_single single]
  clear single
  induction tokens with
  | nil => rfl
  | cons line rest hyp =>
    have later := hyp fun other member => short other (.tail _ member)
    rw [consume, if_neg (Int.not_lt.mpr (short line (.head _))), List.filterMap_cons, later]
    rcases dataValue line with _ | payload
    · rfl
    · rw [deliver, Option.map_some]
      cases verdict unmarshal payload <;> rfl

theorem putContent_length (content : Bytes) (later : List Bytes × Bool) :
    (putContent content later).1.length = later.1.length + if content = [] then 0 else 1 := by
  rw [putContent]
  split_ifs <;> rfl

theorem dataPrefix_eq : dataPrefix = [0x64, 0x61, 0x74, 0x61, 0x3A, 0x20] := by
  decide +kernel

/-- A line with the space is a data line with the same data. -/
theorem dataValue_of_spaced (spaced : spacedValue line = some payload) :
    dataValue line = some payload := by
  rw [spacedValue] at spaced
  split_ifs at spaced with start
  obtain ⟨rest, rfl⟩ := start
  rw [List.drop_left, Option.some.injEq] at spaced
  rw [← spaced, dataPrefix_eq]
  simp [dataValue, Lib.EventLines.data, Lib.EventLines.colon, Lib.EventLines.afterColon,
    Lib.EventLines.space]

theorem consume_of_heard (heard : Heard unmarshal maxFrameBytes tokens) :
    consume unmarshal spacedValue maxFrameBytes tokens =
      consume unmarshal dataValue maxFrameBytes tokens := by
  induction tokens with
  | nil => rfl
  | cons line rest hyp =>
    rw [consume, consume]
    split_ifs with long
    · rfl
    have here := heard (Int.not_lt.mp long)
    rcases spaced : spacedValue line with _ | payload
    · rw [spaced] at here
      obtain ⟨mute, after⟩ := here
      rcases unspaced : dataValue line with _ | payload
      · exact hyp after
      · simp [mute payload unspaced, hyp after, putContent]
    · rw [spaced] at here
      rw [dataValue_of_spaced spaced]
      rcases said : verdict unmarshal payload with _ | _ | content
      · simp [said]
      · simp [said]
      · simp [said, hyp (here ⟨content, said⟩)]

/-- Deltas that are passed over are missing at the end. -/
theorem heard_of_consume (deltas : OnlyDeltas unmarshal maxFrameBytes tokens) :
    (consume unmarshal spacedValue maxFrameBytes tokens).1.length ≤
        (consume unmarshal dataValue maxFrameBytes tokens).1.length ∧
      ((consume unmarshal dataValue maxFrameBytes tokens).1.length ≤
          (consume unmarshal spacedValue maxFrameBytes tokens).1.length →
        Heard unmarshal maxFrameBytes tokens) := by
  induction tokens with
  | nil => exact ⟨Nat.le_refl _, fun _ => trivial⟩
  | cons line rest hyp =>
    rw [consume, consume]
    split_ifs with long
    · exact ⟨Nat.le_refl _, fun _ short => absurd long (Int.not_lt.mpr short)⟩
    have here := deltas (Int.not_lt.mp long)
    rcases spaced : spacedValue line with _ | payload
    · rw [spaced] at here
      obtain ⟨least, heard⟩ := hyp here.2
      rcases unspaced : dataValue line with _ | payload
      · refine ⟨least, fun enough short => ?_⟩
        rw [spaced]
        exact ⟨by simp [unspaced], heard enough⟩
      · obtain ⟨content, said⟩ := here.1 payload unspaced
        by_cases mute : content = []
        · simp only [Option.map_some, Option.map_none, said, putContent_length, if_pos mute]
          refine ⟨least, fun enough short => ?_⟩
          rw [spaced]
          refine ⟨fun other same => ?_, heard enough⟩
          rw [unspaced] at same
          rw [← Option.some.inj same, said, mute]
        · simp only [Option.map_some, Option.map_none, said, putContent_length, if_neg mute]
          exact ⟨Nat.le_succ_of_le least, fun enough => absurd enough (by omega)⟩
    · rw [dataValue_of_spaced spaced]
      rw [spaced] at here
      rcases said : verdict unmarshal payload with _ | _ | content
      · refine ⟨by simp [said], fun _ short => ?_⟩
        rw [spaced]
        simp [said]
      · refine ⟨by simp [said], fun _ short => ?_⟩
        rw [spaced]
        simp [said]
      · obtain ⟨least, heard⟩ := hyp (here ⟨content, said⟩)
        simp only [Option.map_some, said, putContent_length, Nat.add_le_add_iff_right]
        refine ⟨least, fun enough short => ?_⟩
        rw [spaced]
        exact fun _ => heard enough

theorem length_le_dropReturn (text : Bytes) : text.length ≤ (dropReturn text).length + 1 := by
  rw [dropReturn]
  split_ifs
  · rw [List.length_dropLast]
    omega
  · exact Nat.le_succ _

/-- A context that is never done delivers every chunk. -/
abbrev visitAll (unmarshal : Bytes → Except Bytes StreamEvent) :
    List Bytes → Bytes → Except FrameErr (List Bytes × Bool) :=
  visit unmarshal fun _ => none

theorem visit_unspaced (sent : List Bytes) (none : spacedValue line = none) :
    visitAll unmarshal sent line = .ok (sent, false) := by
  rw [spacedValue] at none
  split_ifs at none with start
  have skipped : parseSSELine unmarshal line = .ok ⟨[], false, false⟩ := by
    rw [parseSSELine, if_pos start]
  simp [visit, skipped]

variable (unmarshal)

/-- A line with the space is parsed as its data is judged. -/
theorem parse_spaced (spaced : spacedValue line = some payload) :
    match verdict unmarshal payload with
    | .done => parseSSELine unmarshal line = .ok ⟨[], true, false⟩
    | .broken => ∃ err, parseSSELine unmarshal line = .error err
    | .delta content => ∃ ok, parseSSELine unmarshal line = .ok ⟨content, false, ok⟩ ∧
        (content ≠ [] → ok) := by
  rw [spacedValue] at spaced
  split_ifs at spaced with start
  rw [Option.some.injEq] at spaced
  simp only [parseSSELine, start, not_true, if_false, spaced, verdict]
  by_cases ends : payload = doneMarker
  · simp only [ends, if_true]
  rw [if_neg ends, if_neg ends]
  by_cases bare : payload = []
  · rw [if_pos bare, if_pos bare]
    exact ⟨false, rfl, fun some => absurd rfl some⟩
  rw [if_neg bare, if_neg bare]
  rcases unmarshal payload with inner | ⟨choices, _ | message⟩
  · exact ⟨_, rfl⟩
  · cases choices with
    | nil | cons _ _ => exact ⟨true, rfl, fun _ => rfl⟩
  · exact ⟨_, rfl⟩

/-- What the callback makes of an event. -/
theorem visit_spaced (sent : List Bytes) (spaced : spacedValue line = some payload) :
    match verdict unmarshal payload with
    | .done => visitAll unmarshal sent line = .ok (sent, true)
    | .broken => ∃ err, visitAll unmarshal sent line = .error err
    | .delta content => visitAll unmarshal sent line =
        .ok (if content = [] then sent else sent ++ [content], false) := by
  have parsed := parse_spaced unmarshal spaced
  rcases said : verdict unmarshal payload with _ | _ | content <;> rw [said] at parsed
  · have same : parseSSELine unmarshal line = .ok ⟨[], true, false⟩ := parsed
    simp [visit, same]
  · obtain ⟨err, same⟩ := parsed
    exact ⟨err, by simp [visit, same]⟩
  · obtain ⟨ok, same, filled⟩ := parsed
    by_cases bare : content = []
    · simp [visit, same, bare]
    · simp [visit, same, bare, filled bare, sendChunk]

/-- The scanner goes through the lines as `consume` does. -/
theorem scanLines_eq (failure : Option Bytes) (sent : List Bytes) (texts : List TextLine) :
    let out := scanLines (visitAll unmarshal) maxFrameBytes failure sent texts
    let delivered :=
      consume unmarshal spacedValue maxFrameBytes (texts.map fun line => dropReturn line.text)
    (out.1, out.2.isNone) = (sent ++ delivered.1, delivered.2) := by
  induction texts generalizing sent with
  | nil => cases failure <;> simp [scanLines, consume]
  | cons text rest hyp =>
    have fits := length_le_dropReturn text.text
    rw [List.map_cons, consume]
    by_cases long : maxFrameBytes < (dropReturn text.text).length
    · simp only [scanLines, long, if_true, ite_self]
      simp
    · have short : ¬ maxFrameBytes + 2 < text.text.length + 1 := by omega
      simp only [scanLines, long, short, if_false]
      rcases spaced : spacedValue (dropReturn text.text) with _ | payload
      · rw [visit_unspaced sent spaced]
        exact hyp sent
      · have seen := visit_spaced unmarshal sent spaced
        rcases said : verdict unmarshal payload with _ | _ | content
        · rw [said] at seen
          simp [seen, said]
        · rw [said] at seen
          obtain ⟨err, same⟩ := seen
          simp [same, said]
        · rw [said] at seen
          have same : visitAll unmarshal sent (dropReturn text.text) = _ := seen
          rw [same]
          have later := hyp (if content = [] then sent else sent ++ [content])
          simp only [Option.map_some, said, putContent] at later ⊢
          rw [later]
          split_ifs <;> simp

theorem emitSSEChunks_eq (body : Body) (positive : 0 < maxFrameBytes)
    (bounded : maxFrameBytes ≤ maxInt - 2) :
    let sent := emitSSEChunks unmarshal (fun _ => none) body maxFrameBytes
    (sent.1, sent.2.isNone) = consume unmarshal spacedValue maxFrameBytes
      ((textLines body.bytes).map fun line => dropReturn line.text) := by
  have inside : ¬ (maxFrameBytes ≤ 0 ∨ maxFrameBytes > maxInt - 2) := by omega
  have run : ((scanLines (visitAll unmarshal) maxFrameBytes body.failure []
      (textLines body.bytes)).1, _) = ([] ++ _, _) :=
    scanLines_eq unmarshal body.failure [] (textLines body.bytes)
  rw [List.nil_append] at run
  rw [emitSSEChunks, scanStreamLines, if_neg inside]
  exact run

/-- A stream with line feeds and no byte order mark is delivered as its events say
where data lines without the space say nothing; where these hold deltas only, it
is in no other case. -/
theorem emitSSEChunks_faithful {body : Body}
    (positive : 0 < maxFrameBytes) (bounded : maxFrameBytes ≤ maxInt - 2)
    (plain : Plain body.bytes) :
    (Heard unmarshal maxFrameBytes (lines body.bytes) → Faithful unmarshal body maxFrameBytes) ∧
    (OnlyDeltas unmarshal maxFrameBytes (lines body.bytes) →
      Faithful unmarshal body maxFrameBytes →
      Heard unmarshal maxFrameBytes (lines body.bytes)) := by
  have run := emitSSEChunks_eq unmarshal body positive bounded
  rw [← plain.lines_eq] at run
  simp only [Faithful]
  rw [run]
  constructor
  · exact consume_of_heard
  · intro deltas same
    exact (heard_of_consume deltas).2 (Nat.le_of_eq (by rw [same]))

/-- Such a stream delivers its events where each has one data line and no line is too long. -/
theorem emitSSEChunks_delivers {body : Body} (positive : 0 < maxFrameBytes)
    (bounded : maxFrameBytes ≤ maxInt - 2) (plain : Plain body.bytes)
    (heard : Heard unmarshal maxFrameBytes (lines body.bytes))
    (short : ∀ line ∈ lines body.bytes, (line.length : Int) ≤ maxFrameBytes)
    (single : ∀ values ∈ Lib.EventLines.eventsFrom [] (lines body.bytes), values.length ≤ 1) :
    let sent := emitSSEChunks unmarshal (fun _ => none) body maxFrameBytes
    (sent.1, sent.2.isNone) =
      deliver unmarshal (Lib.EventLines.payloads (lines body.bytes)) := by
  have run := emitSSEChunks_eq unmarshal body positive bounded
  rw [← plain.lines_eq] at run
  exact run.trans ((consume_of_heard heard).trans (consume_eq_deliver short single))

end Consuming

/-- An event with the delta `x`. -/
def eventX : Bytes :=
  textBytes "\x7b\"choices\":[\x7b\"delta\":\x7b\"content\":\"x\"\x7d\x7d]\x7d"

/-- `json.Unmarshal`, as far as the event goes. -/
def readX (payload : Bytes) : Except Bytes StreamEvent :=
  if payload = eventX then .ok ⟨[[0x78]], none⟩ else .error (textBytes "invalid character")

/-- The event and the end marker, where the first field is written as given. -/
def streamX (field : String) : Body where
  bytes := textBytes field ++ eventX ++ textBytes "\n\ndata: [DONE]\n\n"
  failure := none

theorem heard_streamX : Heard readX 64 (lines (streamX "data: ").bytes) := by
  have cut : lines (streamX "data: ").bytes =
      [dataPrefix ++ eventX, [], dataPrefix ++ doneMarker, []] := by
    decide +kernel
  have first : spacedValue (dataPrefix ++ eventX) = some eventX := by decide +kernel
  have second : spacedValue [] = none := by decide +kernel
  have third : spacedValue (dataPrefix ++ doneMarker) = some doneMarker := by decide +kernel
  have ends : verdict readX doneMarker = .done := by decide +kernel
  have bare : dataValue [] = none := by decide +kernel
  rw [cut]
  simp [Heard, first, second, third, ends, bare]

/-- With the space both lines are read. -/
theorem streamX_faithful : Faithful readX (streamX "data: ") 64 := by
  have plain : Plain (streamX "data: ").bytes := ⟨by decide +kernel, by decide +kernel⟩
  exact (emitSSEChunks_faithful readX (by decide) (by decide) plain).1 heard_streamX

theorem streamX_delivers : let sent := emitSSEChunks readX (fun _ => none) (streamX "data: ") 64
    (sent.1, sent.2.isNone) =
      deliver readX (Lib.EventLines.payloads (lines (streamX "data: ").bytes)) :=
  emitSSEChunks_delivers readX (by decide) (by decide) ⟨by decide +kernel, by decide +kernel⟩
    heard_streamX (by decide +kernel) (by decide +kernel)

/-- Without it the delta is lost, and no error tells. -/
theorem streamX_unspaced :
    (∀ values ∈ Lib.EventLines.eventsFrom [] (lines (streamX "data:").bytes), values.length ≤ 1) ∧
      ¬ Faithful readX (streamX "data:") 64 := by
  refine ⟨by decide +kernel, fun faithful => ?_⟩
  have lost : (emitSSEChunks readX (fun _ => none) (streamX "data:") 64).1 = [] := by
    decide +kernel
  have meant : (consume readX dataValue 64 (lines (streamX "data:").bytes)).1 = [[0x78]] := by
    decide +kernel
  have same := congrArg Prod.fst faithful
  rw [meant] at same
  exact absurd (lost.symm.trans same) (by decide)

end Golusoris.Llm
