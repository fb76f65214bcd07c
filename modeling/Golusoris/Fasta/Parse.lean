import Golusoris.Lib.Buffered
import Mathlib.Data.List.DropRight

/-!
# The FASTA parser

Source: `science/bio/fasta.go`. Lines are put together from the pieces that a buffered
reader hands over. The reader's source is limited to one byte more than the input may
have, and counts what it has handed over.
-/

namespace Golusoris.Fasta

open Lib (Bytes BufferedReader TextLine)

def fastaReadBufferSize : ℕ := 65536

def defaultFASTAMaxBytes : ℤ := 67108864

def defaultFASTAMaxRecords : ℤ := 100000

def defaultFASTAMaxLineBytes : ℤ := 1048576

def maxInt64 : ℤ := 9223372036854775807

structure Sequence where
  name : Bytes
  seq : Bytes
  deriving DecidableEq

structure FASTAOptions where
  maxBytes : ℤ
  maxRecords : ℤ
  maxLineBytes : ℤ
  deriving DecidableEq

def FASTAOptions.normalized (o : FASTAOptions) : Except String FASTAOptions :=
  if o.maxBytes < 0 ∨ o.maxRecords < 0 ∨ o.maxLineBytes < 0 then
    .error "bio: invalid FASTA options: limits must not be negative"
  else if o.maxBytes = maxInt64 then
    .error s!"bio: invalid FASTA options: MaxBytes must be less than {maxInt64}"
  else .ok {
    maxBytes := if o.maxBytes = 0 then defaultFASTAMaxBytes else o.maxBytes
    maxRecords := if o.maxRecords = 0 then defaultFASTAMaxRecords else o.maxRecords
    maxLineBytes := if o.maxLineBytes = 0 then defaultFASTAMaxLineBytes else o.maxLineBytes }

/-- Why a line could not be read: the end of the input, or its length. -/
inductive LineFailure where
  | eof
  | lineTooLong (text : String)
  deriving DecidableEq

def trimReturns (line : Bytes) : Bytes := line.rdropWhile (· = Lib.carriageReturn)

/-- The loop of `readFASTALine`, with some calls left and the pieces so far. -/
def readFragments (maxBytes : ℕ) : ℕ → Bytes → BufferedReader → Except LineFailure Bytes × BufferedReader
  | 0, _, reader => (.error (.lineTooLong s!"bio: FASTA line exceeds byte limit: more than {maxBytes} bytes"), reader)
  | left + 1, line, reader =>
      match reader.readLine fastaReadBufferSize with
      | (none, reader) => (.error .eof, reader)
      | (some (fragment, continued), reader) =>
          if fragment.length > maxBytes - line.length then
            (.error (.lineTooLong s!"bio: FASTA line exceeds byte limit: more than {maxBytes} bytes"), reader)
          else if continued then readFragments maxBytes left (line ++ fragment) reader
          else (.ok (trimReturns (line ++ fragment)), reader)

def maxFragments (maxBytes : ℕ) : ℕ := maxBytes / fastaReadBufferSize + 2

def readFASTALine (reader : BufferedReader) (maxBytes : ℕ) :
    Except LineFailure Bytes × BufferedReader :=
  readFragments maxBytes (maxFragments maxBytes) [] reader

structure FastaState where
  name : Bytes
  sequence : Bytes
  active : Bool
  records : ℕ

def isHeader (line : Bytes) : Bool := line.head? = some 0x3E

def FastaState.finish (s : FastaState) (sequences : List Sequence) : List Sequence :=
  if !s.active then sequences else sequences ++ [⟨s.name, s.sequence⟩]

section Parser

-- `strings.ToUpper`.
variable (toUpper : Bytes → Bytes)

def FastaState.consume (s : FastaState) (line : Bytes) (sequences : List Sequence) (maxRecords : ℕ) :
    Except String (FastaState × List Sequence) :=
  if !isHeader line then
    .ok (if s.active then { s with sequence := s.sequence ++ toUpper line } else s, sequences)
  else if s.records ≥ maxRecords then
    .error s!"bio: FASTA record count exceeds limit: more than {maxRecords}"
  else
    .ok (⟨line.drop 1, [], true, s.records + 1⟩, s.finish sequences)

/-- The loop of `parseFASTALines`, with some lines left. -/
def parseLines (maxBytes maxRecords maxLineBytes : ℕ) : ℕ → ℕ → FastaState → List Sequence →
    BufferedReader → Except String (List Sequence)
  | 0, _, _, _, _ => .error s!"bio: FASTA input exceeds byte limit: more than {maxBytes} bytes"
  | left + 1, lineNumber, state, sequences, reader =>
      let (line, reader) := readFASTALine reader maxLineBytes
      if reader.fetched > maxBytes then
        .error s!"bio: FASTA input exceeds byte limit: more than {maxBytes} bytes"
      else
        match line with
        | .error .eof => .ok (state.finish sequences)
        | .error (.lineTooLong text) => .error s!"bio: read FASTA line {lineNumber}: {text}"
        | .ok line =>
            match state.consume toUpper line sequences maxRecords with
            | .error text => .error s!"bio: FASTA line {lineNumber}: {text}"
            | .ok (state, sequences) =>
                parseLines maxBytes maxRecords maxLineBytes left
                (lineNumber + 1) state sequences reader

def parseFASTALines (reader : BufferedReader) (opts : FASTAOptions) : Except String (List Sequence) :=
  parseLines toUpper opts.maxBytes.toNat opts.maxRecords.toNat opts.maxLineBytes.toNat
    (opts.maxBytes.toNat + 1) 1 ⟨[], [], false, 0⟩ [] reader

/-- The blocks of an `io.LimitedReader`. -/
def limited : ℕ → List Bytes → List Bytes
  | _, [] => []
  | left, block :: rest => block.take left :: limited (left - block.length) rest

/-- The input comes in the blocks that the reader hands over. -/
def parseFASTAContext (blocks : List Bytes) (opts : FASTAOptions) : Except String (List Sequence) :=
  match opts.normalized with
  | .error text => .error text
  | .ok normalized =>
      parseFASTALines toUpper ⟨[], limited (normalized.maxBytes.toNat + 1) blocks, 0⟩ normalized

end Parser

end Golusoris.Fasta
