import Golusoris.Lib.Utf8

/-!
# The frames of a GIF

`gateGIFFrames` walks the blocks of an upload and adds up its frames before the
upload is decoded. `readGIF` is the walk of the decoder of the standard library
over the same bytes, with the images that it allocates. Both read from an
offset. The gate's indexes are checked here as the runtime checks them; the
decoder reads from a stream, so it only ever meets the end of its input.

What the decoder makes of the compressed data of a frame is left open: it is
accepted or refused, and consumed to the end of its sub-blocks when accepted.
-/

namespace Golusoris.Safety

open Lib

inductive GateError where
  | unexpectedEOF (part : String)
  | imageTooLarge (maxPixels : Int)
  | noFrames
  | unsupportedBlock (blockType : UInt8)
  | subBlockCount
  /-- An index out of range, at which the program would stop. -/
  | outOfRange
  deriving DecidableEq

/-- A frame, by the offset of its descriptor. -/
structure Frame where
  offset : Nat
  width : Nat
  height : Nat
  deriving DecidableEq, Repr

def Frame.pixels (frame : Frame) : Nat := frame.width * frame.height

/-- `totalPixels` after some frames. -/
def totalPixels (frames : List Frame) : Nat :=
  frames.foldl (fun total frame => total + frame.pixels) 0

/-- Two bytes, the lower one first. -/
def uint16 (low high : UInt8) : Nat := low.toNat ||| high.toNat <<< 8

/-- The bytes of a color table: `3 * (1 << (uint(packed&0x07) + 1))`. -/
def colorTableBytes (packed : UInt8) : Nat := 3 * 1 <<< ((packed &&& 0x07).toNat + 1)

def hasColorTable (packed : UInt8) : Bool := packed &&& 0x80 ≠ 0

/-- `raw[offset]`. -/
def index (raw : Bytes) (offset : Nat) : Except GateError UInt8 :=
  match raw[offset]? with
  | none => .error .outOfRange
  | some byte => .ok byte

def dimensionsExceed (width height maxPixels : Int) : Bool :=
  if maxPixels ≤ 0 then true
  else if width ≤ 0 ∨ height ≤ 0 then true
  else width > maxPixels / height

/-- The loop of `skipGIFSubBlocks`, which runs once for each byte at most. -/
def skipSubBlocks (raw : Bytes) : Nat → Nat → Except GateError Nat
  | 0, _ => .error .subBlockCount
  | steps + 1, offset =>
      if raw.length ≤ offset then .error (.unexpectedEOF "sub-block")
      else do
        let size ← index raw offset
        let offset := offset + 1
        if size = 0 then return offset
        else if raw.length - offset < size.toNat then .error (.unexpectedEOF "sub-block")
        else skipSubBlocks raw steps (offset + size.toNat)

def skipGIFSubBlocks (raw : Bytes) (offset : Nat) : Except GateError Nat :=
  skipSubBlocks raw raw.length offset

/-- The offset is the one of the label. -/
def skipGIFExtension (raw : Bytes) (offset : Nat) : Except GateError Nat :=
  if raw.length ≤ offset then .error (.unexpectedEOF "extension")
  else skipGIFSubBlocks raw (offset + 1)

def gifDataOffset (raw : Bytes) : Except GateError Nat :=
  if raw.length < 13 ∨ raw.take 3 ≠ textBytes "GIF" then .error (.unexpectedEOF "header")
  else do
    let packed ← index raw 10
    let offset := if hasColorTable packed then 13 + colorTableBytes packed else 13
    if raw.length < offset then .error (.unexpectedEOF "color table")
    else return offset

/-- The offset is the one of the descriptor; the frame comes with the offset
after its data. -/
def scanGIFFrame (raw : Bytes) (offset : Nat) (totalPixels maxPixels : Int) :
    Except GateError (Nat × Frame) :=
  if raw.length < offset + 9 then .error (.unexpectedEOF "descriptor")
  else do
    let width := uint16 (← index raw (offset + 4)) (← index raw (offset + 5))
    let height := uint16 (← index raw (offset + 6)) (← index raw (offset + 7))
    if dimensionsExceed width height (maxPixels - totalPixels) then
      .error (.imageTooLarge maxPixels)
    else
      let packed ← index raw (offset + 8)
      let data := offset + 9 + if hasColorTable packed then colorTableBytes packed else 0
      if raw.length ≤ data then .error (.unexpectedEOF "image data")
      else
        let next ← skipGIFSubBlocks raw (data + 1)
        return (next, ⟨offset, width, height⟩)

/-- The loop of `gateGIFFrames`; it keeps the frames where the source keeps their
number and their pixels. -/
def gateBlocks (raw : Bytes) (maxPixels : Int) :
    Nat → Nat → List Frame → Except GateError (List Frame)
  | 0, _, _ => .error (.unexpectedEOF "frames")
  | steps + 1, offset, frames =>
      if raw.length ≤ offset then .error (.unexpectedEOF "frames")
      else do
        let blockType ← index raw offset
        if blockType = 0x21 then
          gateBlocks raw maxPixels steps (← skipGIFExtension raw (offset + 1)) frames
        else if blockType = 0x2c then
          let (next, frame) ←
            scanGIFFrame raw (offset + 1) (totalPixels frames) maxPixels
          gateBlocks raw maxPixels steps next (frames ++ [frame])
        else if blockType = 0x3b then
          if frames = [] then .error .noFrames else return frames
        else .error (.unsupportedBlock blockType)

/-- `gateGIFFrames`; the frames that it counted stand for its nil error. -/
def gateGIFFrames (raw : Bytes) (maxPixels : Int) : Except GateError (List Frame) := do
  gateBlocks raw maxPixels raw.length (← gifDataOffset raw) []

/-- `readFull`: the offset after `count` bytes. -/
def readFull (raw : Bytes) (offset count : Nat) : Option Nat :=
  if raw.length < offset + count then none else some (offset + count)

/-- Sub-blocks up to one of length zero. -/
def readSubBlocks (raw : Bytes) : Nat → Nat → Option Nat
  | 0, _ => none
  | steps + 1, offset => do
      let size ← raw[offset]?
      if size = 0 then return offset + 1
      else readSubBlocks raw steps (← readFull raw (offset + 1) size.toNat)

def readBlocksEnd (raw : Bytes) (offset : Nat) : Option Nat := readSubBlocks raw raw.length offset

/-- A block of four bytes and its terminator. -/
def readGraphicControl (raw : Bytes) (offset : Nat) : Option Nat := do
  let next ← readFull raw offset 6
  let size ← raw[offset]?
  let terminator ← raw[offset + 5]?
  if size ≠ 4 ∨ terminator ≠ 0 then none else return next

/-- The offset is the one of the label. A loop count is in the first of the
sub-blocks of its extension, so it changes nothing here. -/
def readExtension (raw : Bytes) (offset : Nat) : Option Nat := do
  let label ← raw[offset]?
  if label = 0x01 then readBlocksEnd raw (← readFull raw (offset + 1) 13)
  else if label = 0xf9 then readGraphicControl raw (offset + 1)
  else if label = 0xfe then readBlocksEnd raw (offset + 1)
  else if label = 0xff then
    let size ← raw[offset + 1]?
    readBlocksEnd raw (← readFull raw (offset + 2) size.toNat)
  else none

/-- The logical screen: its width and height, and whether it has a color table. -/
structure Screen where
  width : Nat
  height : Nat
  colorTable : Bool

def readHeader (raw : Bytes) : Option (Screen × Nat) := do
  let offset ← readFull raw 0 13
  let version := raw.take 6
  if version ≠ textBytes "GIF87a" ∧ version ≠ textBytes "GIF89a" then none
  else
    let width := uint16 (← raw[6]?) (← raw[7]?)
    let height := uint16 (← raw[8]?) (← raw[9]?)
    let packed ← raw[10]?
    let colorTable := hasColorTable packed
    let next ← if colorTable then readFull raw offset (colorTableBytes packed) else some offset
    return (⟨width, height, colorTable⟩, next)

/-- `newImageFromDescriptor`: the image that is allocated for a frame. -/
def readDescriptor (raw : Bytes) (screen : Screen) (offset : Nat) : Option Frame := do
  let _ ← readFull raw offset 9
  let left := uint16 (← raw[offset]?) (← raw[offset + 1]?)
  let top := uint16 (← raw[offset + 2]?) (← raw[offset + 3]?)
  let width := uint16 (← raw[offset + 4]?) (← raw[offset + 5]?)
  let height := uint16 (← raw[offset + 6]?) (← raw[offset + 7]?)
  if screen.width < left + width ∨ screen.height < top + height then none
  else return ⟨offset, width, height⟩

/-- The color table of a frame, or the one of the screen: the offset after it. -/
def readColorTable (raw : Bytes) (screen : Screen) (packed : UInt8) (offset : Nat) : Option Nat :=
  if hasColorTable packed then readFull raw offset (colorTableBytes packed)
  else if screen.colorTable then some offset
  else none

/-- The rest of `readImageDescriptor`. `accepts` says whether the data of the
frame, which is in the bytes from one offset to another, fills the image. -/
def readPixels (accepts : Bytes → Frame → Nat → Nat → Bool) (raw : Bytes) (screen : Screen)
    (frame : Frame) : Option Nat := do
  let packed ← raw[frame.offset + 8]?
  let data ← readColorTable raw screen packed (frame.offset + 9)
  let litWidth ← raw[data]?
  if litWidth < 2 ∨ 8 < litWidth then none
  else
    let next ← readBlocksEnd raw (data + 1)
    if accepts raw frame data next then return next else none

/-- What the decoder did: the images that it allocated, and whether it came to
the trailer. -/
structure Decoding where
  frames : List Frame
  complete : Bool

def readBlocks (accepts : Bytes → Frame → Nat → Nat → Bool) (raw : Bytes) (screen : Screen) :
    Nat → Nat → List Frame → Decoding
  | 0, _, frames => ⟨frames, false⟩
  | steps + 1, offset, frames =>
      match raw[offset]? with
      | none => ⟨frames, false⟩
      | some blockType =>
          if blockType = 0x21 then
            match readExtension raw (offset + 1) with
            | none => ⟨frames, false⟩
            | some next => readBlocks accepts raw screen steps next frames
          else if blockType = 0x2c then
            match readDescriptor raw screen (offset + 1) with
            | none => ⟨frames, false⟩
            | some frame =>
                match readPixels accepts raw screen frame with
                | none => ⟨frames ++ [frame], false⟩
                | some next => readBlocks accepts raw screen steps next (frames ++ [frame])
          else if blockType = 0x3b then ⟨frames, frames ≠ []⟩
          else ⟨frames, false⟩

/-- `gif.DecodeAll`; a block has a byte at least, so the bytes bound the blocks. -/
def readGIF (accepts : Bytes → Frame → Nat → Nat → Bool) (raw : Bytes) : Decoding :=
  match readHeader raw with
  | none => ⟨[], false⟩
  | some (screen, offset) => readBlocks accepts raw screen (raw.length + 1) offset []

end Golusoris.Safety
