import Golusoris.Lib.TextLines

/-!
# Streamed completions

Source: `ScanStreamLines`, `SendChunk`, `emitSSEChunks` and `parseSSELine` of
`ai/llm/llm.go`. A scanner splits the body at line feeds, with a buffer that holds a
line of the largest size and its end. `json.Unmarshal` into the event is a
parameter; so is the context, as the error it has when a chunk is to be sent.
-/

namespace Golusoris.Llm

open Lib (Bytes textBytes TextLine textLines dropReturn)

/-- The part of an event that is decoded: the contents of the choices' deltas, and
the message of an error. -/
structure StreamEvent where
  choices : List Bytes
  error : Option Bytes

/-- A response body: what it holds, and the error of the read after it. -/
structure Body where
  bytes : Bytes
  failure : Option Bytes

/-- Errors of one frame. -/
inductive FrameErr where
  | invalidEvent (inner : Bytes)
  | provider (message : Bytes)
  | send (inner : Bytes)
  deriving DecidableEq

def FrameErr.error : FrameErr → Bytes
  | .invalidEvent inner => textBytes "invalid OpenAI stream event: " ++ inner
  | .provider message =>
      if message = [] then textBytes "OpenAI stream provider error"
      else textBytes "OpenAI stream provider error: " ++ message
  | .send inner => textBytes "llm: send stream chunk: " ++ inner

inductive StreamErr where
  | frameSize
  | frameTooLarge (limit : Int)
  | frame (inner : FrameErr)
  | scan (inner : Bytes)
  | truncated
  deriving DecidableEq

def StreamErr.error : StreamErr → Bytes
  | .frameSize => textBytes "llm: positive bounded stream frame size is required"
  | .frameTooLarge limit =>
      textBytes "llm: stream frame exceeds byte cap: limit " ++ textBytes (toString limit)
  | .frame inner => textBytes "llm: handle stream frame: " ++ inner.error
  | .scan inner => textBytes "llm: scan stream: " ++ inner
  | .truncated => textBytes "llm: stream ended before protocol terminator"

def maxInt : Int := 9223372036854775807

/-- What one line says: a content, whether it ends the stream, and whether it is
an event at all. -/
structure Parsed where
  content : Bytes
  done : Bool
  ok : Bool
  deriving DecidableEq

def dataPrefix : Bytes := textBytes "data: "

def doneMarker : Bytes := textBytes "[DONE]"

section Streaming

variable (unmarshal : Bytes → Except Bytes StreamEvent)

/-- Parses one line of an OpenAI-format stream. -/
def parseSSELine (line : Bytes) : Except FrameErr Parsed :=
  if ¬ dataPrefix <+: line then .ok ⟨[], false, false⟩
  else
    let data := line.drop dataPrefix.length
    if data = doneMarker then .ok ⟨[], true, false⟩
    else if data = [] then .ok ⟨[], false, false⟩
    else
      match unmarshal data with
      | .error inner => .error (.invalidEvent inner)
      | .ok ev =>
          match ev.error with
          | some message => .error (.provider message)
          | none =>
              match ev.choices with
              | [] => .ok ⟨[], false, true⟩
              | content :: _ => .ok ⟨content, false, true⟩

/-- The channel with one more chunk, unless the context is done. -/
def sendChunk (ctxErr : Nat → Option Bytes) (sent : List Bytes) (content : Bytes) :
    Except FrameErr (List Bytes) :=
  match ctxErr sent.length with
  | some inner => .error (.send inner)
  | none => .ok (sent ++ [content])

/-- The callback of `emitSSEChunks`: the channel after a line, and whether that
ends the stream. -/
def visit (ctxErr : Nat → Option Bytes) (sent : List Bytes) (line : Bytes) :
    Except FrameErr (List Bytes × Bool) :=
  match parseSSELine unmarshal line with
  | .error err => .error err
  | .ok parsed =>
      if parsed.done then .ok (sent, true)
      else if ¬ parsed.ok then .ok (sent, false)
      else if parsed.content ≠ [] then
        match sendChunk ctxErr sent parsed.content with
        | .error err => .error err
        | .ok sent => .ok (sent, false)
      else .ok (sent, false)

end Streaming

/-- The loop of `ScanStreamLines`. A line that does not fit into the scanner's
buffer with its feed stops the scanner; so does the end of the body. -/
def scanLines {Sent : Type} (visit : Sent → Bytes → Except FrameErr (Sent × Bool))
    (maxFrameBytes : Int) (failure : Option Bytes) (sent : Sent) :
    List TextLine → Sent × Option StreamErr
  | [] =>
      match failure with
      | some inner => (sent, some (.scan inner))
      | none => (sent, some .truncated)
  | line :: rest =>
      if maxFrameBytes + 2 < line.text.length + 1 then (sent, some (.frameTooLarge maxFrameBytes))
      else
        let token := dropReturn line.text
        if maxFrameBytes < token.length then (sent, some (.frameTooLarge maxFrameBytes))
        else
          match visit sent token with
          | .error err => (sent, some (.frame err))
          | .ok (sent, true) => (sent, none)
          | .ok (sent, false) => scanLines visit maxFrameBytes failure sent rest

/-- Scans bounded newline-delimited frames. -/
def scanStreamLines {Sent : Type} (body : Body) (maxFrameBytes : Int)
    (visit : Sent → Bytes → Except FrameErr (Sent × Bool)) (sent : Sent) :
    Sent × Option StreamErr :=
  if maxFrameBytes ≤ 0 ∨ maxFrameBytes > maxInt - 2 then (sent, some .frameSize)
  else scanLines visit maxFrameBytes body.failure sent (textLines body.bytes)

/-- The chunks that are sent, and the error or nil. -/
def emitSSEChunks (unmarshal : Bytes → Except Bytes StreamEvent) (ctxErr : Nat → Option Bytes)
    (body : Body) (maxFrameBytes : Int) : List Bytes × Option StreamErr :=
  scanStreamLines body maxFrameBytes (visit unmarshal ctxErr) []

end Golusoris.Llm
