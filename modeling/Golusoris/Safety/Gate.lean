import Golusoris.Safety.Gif

/-!
# When the gate has seen every frame

The gate and the decoder measure frames, comments and graphic controls alike.
They differ on two extensions: the decoder takes thirteen bytes for a plain text
whatever length it declares, and reads on after an application block of length
zero. As long as the decoder leaves every extension where the gate does, its
frames are the first of those that the gate counted.
-/

namespace Golusoris.Safety

open Option (bind_eq_bind bind_eq_some_iff bind_some)
open Lib

variable {raw : Bytes}

variable {offset steps next : Nat}

theorem index_eq_ok {byte : UInt8} : index raw offset = .ok byte ↔ raw[offset]? = some byte := by
  rw [index]
  cases raw[offset]? with
  | none => simp
  | some found => simp

theorem index_inside (inside : offset < raw.length) : index raw offset = .ok raw[offset] :=
  index_eq_ok.mpr (List.getElem?_eq_getElem inside)

/-- The two walks over sub-blocks are one. -/
theorem skipSubBlocks_eq_ok :
    skipSubBlocks raw steps offset = .ok next ↔ readSubBlocks raw steps offset = some next := by
  induction steps generalizing offset with
  | zero => simp [skipSubBlocks, readSubBlocks]
  | succ steps ih =>
    rw [skipSubBlocks, readSubBlocks]
    by_cases inside : offset < raw.length
    · rw [if_neg (Nat.not_le.mpr inside), index_inside inside, List.getElem?_eq_getElem inside]
      simp only [bind, Except.bind, Option.bind]
      by_cases last : raw[offset] = 0
      · simp [last, pure, Except.pure]
      · by_cases short : raw.length - (offset + 1) < raw[offset].toNat
        · simp [last, readFull, short, show raw.length < offset + 1 + raw[offset].toNat by omega]
        · simp [last, readFull, short, show ¬ raw.length < offset + 1 + raw[offset].toNat by omega,
            ih]
    · rw [if_pos (Nat.not_lt.mp inside), List.getElem?_eq_none (Nat.not_lt.mp inside)]
      simp

theorem skipSubBlocks_inRange (steps offset : Nat) :
    skipSubBlocks raw steps offset ≠ .error .outOfRange := by
  induction steps generalizing offset with
  | zero => simp [skipSubBlocks]
  | succ steps ih =>
    rw [skipSubBlocks]
    by_cases inside : offset < raw.length
    · rw [if_neg (Nat.not_le.mpr inside), index_inside inside]
      simp only [bind, Except.bind]
      split_ifs
      · simp [pure, Except.pure]
      · simp
      · exact ih _
    · rw [if_pos (Nat.not_lt.mp inside)]
      simp

theorem skipGIFExtension_inRange (offset : Nat) :
    skipGIFExtension raw offset ≠ .error .outOfRange := by
  rw [skipGIFExtension]
  split_ifs
  · simp
  · exact skipSubBlocks_inRange _ _

theorem gifDataOffset_inRange : gifDataOffset raw ≠ .error .outOfRange := by
  rw [gifDataOffset]
  by_cases headed : raw.length < 13 ∨ raw.take 3 ≠ textBytes "GIF"
  · rw [if_pos headed]
    simp
  · rw [if_neg headed, index_inside (by omega)]
    simp only [bind, Except.bind, pure, Except.pure]
    split_ifs <;> simp

variable {maxPixels : Int}

theorem pixels_of_dimensions {width height : Int}
    (fits : dimensionsExceed width height maxPixels = false) : width * height ≤ maxPixels := by
  rw [dimensionsExceed] at fits
  split_ifs at fits with negative empty
  have positive : 0 < height := by omega
  have most : width ≤ maxPixels / height := by simpa using fits
  exact Int.mul_le_of_le_ediv positive most

/-- Where the data of a frame starts. -/
def dataOffset (packed : UInt8) (offset : Nat) : Nat :=
  offset + 9 + if hasColorTable packed then colorTableBytes packed else 0

/-- The frame of a descriptor and its packed byte. -/
def frameAt (raw : Bytes) (offset : Nat) : Option (Frame × UInt8) := do
  let width := uint16 (← raw[offset + 4]?) (← raw[offset + 5]?)
  let height := uint16 (← raw[offset + 6]?) (← raw[offset + 7]?)
  return (⟨offset, width, height⟩, ← raw[offset + 8]?)

/-- What the gate found in a frame. -/
structure Scanned (raw : Bytes) (offset : Nat) (room : Int) (next : Nat) (frame : Frame) : Prop where
  data : ∃ packed, frameAt raw offset = some (frame, packed) ∧
    readBlocksEnd raw (dataOffset packed offset + 1) = some next
  fits : (frame.pixels : Int) ≤ room

theorem scanGIFFrame_spec (raw : Bytes) (offset : Nat) (total maxPixels : Int) :
    scanGIFFrame raw offset total maxPixels ≠ .error .outOfRange ∧
      ∀ next frame, scanGIFFrame raw offset total maxPixels = .ok (next, frame) →
        Scanned raw offset (maxPixels - total) next frame := by
  rw [scanGIFFrame]
  by_cases short : raw.length < offset + 9
  · rw [if_pos short]
    simp
  · have found : frameAt raw offset = some (⟨offset, uint16 raw[offset + 4] raw[offset + 5],
        uint16 raw[offset + 6] raw[offset + 7]⟩, raw[offset + 8]) := by
      simp only [frameAt, List.getElem?_eq_getElem (by omega : offset + 4 < raw.length),
        List.getElem?_eq_getElem (by omega : offset + 5 < raw.length),
        List.getElem?_eq_getElem (by omega : offset + 6 < raw.length),
        List.getElem?_eq_getElem (by omega : offset + 7 < raw.length),
        List.getElem?_eq_getElem (by omega : offset + 8 < raw.length)]
      rfl
    rw [if_neg short, index_inside (by omega : offset + 4 < raw.length),
      index_inside (by omega : offset + 5 < raw.length),
      index_inside (by omega : offset + 6 < raw.length),
      index_inside (by omega : offset + 7 < raw.length),
      index_inside (by omega : offset + 8 < raw.length)]
    have start : (offset + 9 + if hasColorTable raw[offset + 8] then
        colorTableBytes raw[offset + 8] else 0) = dataOffset raw[offset + 8] offset := rfl
    simp only [bind, Except.bind, start, skipGIFSubBlocks]
    split_ifs with exceeds ends
    · simp
    · simp
    · cases skipped : skipSubBlocks raw raw.length (dataOffset raw[offset + 8] offset + 1) with
      | error failure =>
        have inRange : failure ≠ .outOfRange := by
          rintro rfl
          exact skipSubBlocks_inRange _ _ skipped
        simp [inRange]
      | ok after =>
        constructor
        · simp [pure, Except.pure]
        · intro next frame same
          cases same
          refine ⟨⟨_, found, skipSubBlocks_eq_ok.mp skipped⟩, ?_⟩
          have fits := pixels_of_dimensions (Bool.not_eq_true _ ▸ exceeds)
          rw [Frame.pixels, Int.natCast_mul]
          exact fits

variable {screen : Screen}

/-- The decoder allocates the frame that the gate counted. -/
theorem Scanned.descriptor {room : Int} {frame other : Frame}
    (scanned : Scanned raw offset room next frame)
    (read : readDescriptor raw screen offset = some other) : other = frame := by
  obtain ⟨packed, found, -⟩ := scanned.data
  simp only [readDescriptor, bind_eq_bind, bind_eq_some_iff] at read
  obtain ⟨_, -, left, -, left', -, top, -, top', -, low, atLow, high, atHigh, lower, atLower, higher,
    atHigher, read⟩ := read
  simp only [frameAt, atLow, atHigh, atLower, atHigher, bind_eq_bind, bind_some,
    bind_eq_some_iff] at found
  obtain ⟨_, -, found⟩ := found
  split_ifs at read
  obtain ⟨rfl, -⟩ := Prod.mk.inj (Option.some.inj found)
  exact (Option.some.inj read).symm

/-- The decoder leaves a frame where the gate does. -/
theorem Scanned.pixels {accepts : Bytes → Frame → Nat → Nat → Bool} {after : Nat} {room : Int}
    {frame : Frame} (scanned : Scanned raw offset room next frame)
    (read : readPixels accepts raw screen frame = some after) : after = next := by
  obtain ⟨packed, found, ended⟩ := scanned.data
  have place : frame.offset = offset ∧ raw[offset + 8]? = some packed := by
    simp only [frameAt, bind_eq_bind, bind_eq_some_iff] at found
    obtain ⟨_, -, _, -, _, -, _, -, other, atOther, same⟩ := found
    cases same
    exact ⟨rfl, atOther⟩
  obtain ⟨rfl, atPacked⟩ := place
  simp only [readPixels, atPacked, bind_eq_bind, bind_some, bind_eq_some_iff] at read
  obtain ⟨data, started, litWidth, -, read⟩ := read
  have start : data = dataOffset packed frame.offset := by
    rw [readColorTable] at started
    rw [dataOffset]
    by_cases own : hasColorTable packed = true
    · rw [if_pos own, readFull] at started
      rw [if_pos own]
      split_ifs at started
      exact (Option.some.inj started).symm
    · rw [if_neg own] at started
      rw [if_neg own]
      split_ifs at started
      exact (Option.some.inj started).symm
  split_ifs at read
  rw [start, ended, bind_eq_some_iff] at read
  obtain ⟨_, same, read⟩ := read
  split_ifs at read
  rw [← Option.some.inj same] at read
  exact (Option.some.inj read).symm

/-- The offsets of the blocks that the gate comes to while the decoder has left
every extension where the gate did. -/
inductive InStep (raw : Bytes) (maxPixels : Int) : Nat → Prop where
  | start {offset : Nat} (headed : gifDataOffset raw = .ok offset) : InStep raw maxPixels offset
  | extension {offset next : Nat} (before : InStep raw maxPixels offset)
      (block : raw[offset]? = some 0x21) (skipped : skipGIFExtension raw (offset + 1) = .ok next)
      (read : readExtension raw (offset + 1) = some next) : InStep raw maxPixels next
  | frame {offset next : Nat} {total : Int} {frame : Frame} (before : InStep raw maxPixels offset)
      (block : raw[offset]? = some 0x2c)
      (scanned : scanGIFFrame raw (offset + 1) total maxPixels = .ok (next, frame)) :
      InStep raw maxPixels next

/-- The decoder refuses every extension or leaves it where the gate does. -/
def Aligned (raw : Bytes) (maxPixels : Int) : Prop :=
  ∀ offset, InStep raw maxPixels offset → raw[offset]? = some 0x21 → ∀ skipped read,
    skipGIFExtension raw (offset + 1) = .ok skipped →
    readExtension raw (offset + 1) = some read → read = skipped

/-- The gate stays within the bytes, and where it passes, the decoder allocates
only frames that were counted, with no more pixels than allowed. -/
structure Sound (raw : Bytes) (maxPixels : Int) : Prop where
  inRange : gateGIFFrames raw maxPixels ≠ .error .outOfRange
  counted : ∀ frames, gateGIFFrames raw maxPixels = .ok frames → ∀ accepts,
    (readGIF accepts raw).frames <+: frames ∧
      (totalPixels (readGIF accepts raw).frames : Int) ≤ maxPixels

theorem totalPixels_append (frames more : List Frame) :
    totalPixels (frames ++ more) = totalPixels frames + totalPixels more := by
  have shifted : ∀ (list : List Frame) (start : Nat),
      list.foldl (fun total frame => total + frame.pixels) start =
        start + list.foldl (fun total frame => total + frame.pixels) 0 := by
    intro list
    induction list with
    | nil => intro start; rfl
    | cons frame list ih =>
      intro start
      rw [List.foldl_cons, List.foldl_cons, ih (start + frame.pixels), ih (0 + frame.pixels)]
      omega
  rw [totalPixels, List.foldl_append, shifted]
  rfl

theorem totalPixels_singleton (frame : Frame) : totalPixels [frame] = frame.pixels := Nat.zero_add _

variable {frames all : List Frame}

theorem totalPixels_mono {more : List Frame} (first : frames <+: more) :
    totalPixels frames ≤ totalPixels more := by
  obtain ⟨rest, rfl⟩ := first
  rw [totalPixels_append]
  omega

theorem gateBlocks_inRange (maxPixels : Int) (steps offset : Nat) (frames : List Frame) :
    gateBlocks raw maxPixels steps offset frames ≠ .error .outOfRange := by
  induction steps generalizing offset frames with
  | zero => simp [gateBlocks]
  | succ steps ih =>
    rw [gateBlocks]
    by_cases inside : offset < raw.length
    · rw [if_neg (Nat.not_le.mpr inside), index_inside inside]
      simp only [bind, Except.bind]
      split_ifs
      · cases skipped : skipGIFExtension raw (offset + 1) with
        | error failure =>
          rintro same
          rw [Except.error.inj same] at skipped
          exact skipGIFExtension_inRange _ skipped
        | ok next => exact ih next frames
      · cases scanned : scanGIFFrame raw (offset + 1) (totalPixels frames) maxPixels with
        | error failure =>
          rintro same
          rw [Except.error.inj same] at scanned
          exact (scanGIFFrame_spec raw (offset + 1) _ maxPixels).1 scanned
        | ok found => exact ih found.1 (frames ++ [found.2])
      · simp
      · simp [pure, Except.pure]
      · simp
    · rw [if_pos (Nat.not_lt.mp inside)]
      simp

/-- What one step of a gate that passes saw. -/
theorem gateBlocks_cases (passed : gateBlocks raw maxPixels steps offset frames = .ok all) :
    ∃ rest, steps = rest + 1 ∧
      ((∃ next, raw[offset]? = some 0x21 ∧ skipGIFExtension raw (offset + 1) = .ok next ∧
          gateBlocks raw maxPixels rest next frames = .ok all) ∨
        (∃ next frame, raw[offset]? = some 0x2c ∧
          scanGIFFrame raw (offset + 1) (totalPixels frames) maxPixels = .ok (next, frame) ∧
          gateBlocks raw maxPixels rest next (frames ++ [frame]) = .ok all) ∨
        (raw[offset]? = some 0x3b ∧ frames ≠ [] ∧ all = frames)) := by
  cases steps with
  | zero => cases passed
  | succ rest =>
    refine ⟨rest, rfl, ?_⟩
    rw [gateBlocks] at passed
    by_cases inside : offset < raw.length
    · rw [if_neg (Nat.not_le.mpr inside), index_inside inside] at passed
      rw [List.getElem?_eq_getElem inside]
      simp only [bind, Except.bind] at passed
      split_ifs at passed with extension image trailer empty
      · rw [extension]
        cases skipped : skipGIFExtension raw (offset + 1) with
        | error failure => simp [skipped] at passed
        | ok next =>
          rw [skipped] at passed
          exact .inl ⟨next, rfl, rfl, passed⟩
      · rw [image]
        cases scanned : scanGIFFrame raw (offset + 1) (totalPixels frames) maxPixels with
        | error failure => simp [scanned] at passed
        | ok found =>
          rw [scanned] at passed
          exact .inr (.inl ⟨found.1, found.2, rfl, rfl, passed⟩)
      · rw [trailer]
        exact .inr (.inr ⟨rfl, empty, (Except.ok.inj passed).symm⟩)
    · rw [if_pos (Nat.not_lt.mp inside)] at passed
      cases passed

/-- The frames seen so far come first, and all of them fit. -/
theorem gateBlocks_counted (passed : gateBlocks raw maxPixels steps offset frames = .ok all)
    (fits : (totalPixels frames : Int) ≤ maxPixels) :
    frames <+: all ∧ (totalPixels all : Int) ≤ maxPixels := by
  induction steps generalizing offset frames with
  | zero => cases passed
  | succ steps ih =>
    obtain ⟨rest, same, found⟩ := gateBlocks_cases passed
    obtain rfl : steps = rest := Nat.succ.inj same
    rcases found with ⟨next, -, -, passed⟩ | ⟨next, frame, -, scanned, passed⟩ | ⟨-, -, rfl⟩
    · exact ih passed fits
    · have room := ((scanGIFFrame_spec raw _ _ _).2 next frame scanned).fits
      have still : (totalPixels (frames ++ [frame]) : Int) ≤ maxPixels := by
        rw [totalPixels_append, totalPixels_singleton, Int.natCast_add]
        omega
      obtain ⟨more, total⟩ := ih passed still
      exact ⟨(List.prefix_append frames [frame]).trans more, total⟩
    · exact ⟨List.prefix_rfl, fits⟩

/-- In step, the decoder allocates the first of the frames that the gate counts. -/
theorem readBlocks_counted {accepts : Bytes → Frame → Nat → Nat → Bool}
    (aligned : Aligned raw maxPixels) (screen : Screen)
    (passed : gateBlocks raw maxPixels steps offset frames = .ok all)
    (fits : (totalPixels frames : Int) ≤ maxPixels) (inStep : InStep raw maxPixels offset)
    (readSteps : Nat) : (readBlocks accepts raw screen readSteps offset frames).frames <+: all := by
  induction readSteps generalizing steps offset frames with
  | zero => exact (gateBlocks_counted passed fits).1
  | succ readSteps ih =>
    have first := (gateBlocks_counted passed fits).1
    obtain ⟨rest, -, found⟩ := gateBlocks_cases passed
    rw [readBlocks]
    rcases found with ⟨next, block, skipped, passed⟩ | ⟨next, frame, block, scanned, passed⟩ |
      ⟨block, -, rfl⟩
    · rw [block]
      simp only [if_true]
      cases read : readExtension raw (offset + 1) with
      | none => exact first
      | some after =>
        obtain rfl := aligned offset inStep block next after skipped read
        exact ih passed fits (.extension inStep block skipped read)
    · have spec := (scanGIFFrame_spec raw _ _ _).2 next frame scanned
      have still : (totalPixels (frames ++ [frame]) : Int) ≤ maxPixels := by
        have room := spec.fits
        rw [totalPixels_append, totalPixels_singleton, Int.natCast_add]
        omega
      rw [block]
      simp only [(by decide : ¬ (0x2c : UInt8) = 0x21), if_false, if_true]
      cases allocated : readDescriptor raw screen (offset + 1) with
      | none => exact first
      | some other =>
        obtain rfl := spec.descriptor allocated
        dsimp only
        cases read : readPixels accepts raw screen other with
        | none => exact (gateBlocks_counted passed still).1
        | some after =>
          obtain rfl := spec.pixels read
          exact ih passed still (.frame inStep block scanned)
    · rw [block]
      exact first

/-- A gate that passes has counted a frame, so it allows some pixels. -/
theorem gateBlocks_nonneg (passed : gateBlocks raw maxPixels steps offset [] = .ok all) :
    0 ≤ maxPixels := by
  induction steps generalizing offset with
  | zero => cases passed
  | succ steps ih =>
    obtain ⟨rest, same, found⟩ := gateBlocks_cases passed
    obtain rfl : steps = rest := Nat.succ.inj same
    rcases found with ⟨next, -, -, passed⟩ | ⟨next, frame, -, scanned, -⟩ | ⟨-, some, -⟩
    · exact ih passed
    · have room := ((scanGIFFrame_spec raw _ _ _).2 next frame scanned).fits
      have none : totalPixels [] = 0 := rfl
      omega
    · exact absurd rfl some

/-- Both walks start after the header. -/
theorem readHeader_offset {start : Nat} (read : readHeader raw = some (screen, offset))
    (headed : gifDataOffset raw = .ok start) : offset = start := by
  rw [gifDataOffset] at headed
  by_cases short : raw.length < 13 ∨ raw.take 3 ≠ textBytes "GIF"
  · rw [if_pos short] at headed
    cases headed
  · have inside : 10 < raw.length := by omega
    rw [if_neg short, index_inside inside] at headed
    simp only [readHeader, bind_eq_bind, bind_eq_some_iff] at read
    obtain ⟨first, header, read⟩ := read
    rw [readFull, if_neg (by omega)] at header
    cases header
    split_ifs at read with version
    simp only [bind_eq_some_iff] at read
    obtain ⟨_, -, _, -, _, -, _, -, packed, atPacked, read⟩ := read
    rw [List.getElem?_eq_getElem inside] at atPacked
    cases atPacked
    simp only [bind, Except.bind] at headed
    by_cases table : hasColorTable raw[10] = true
    · simp only [table, if_true, readFull] at headed read
      split_ifs at headed with cut
      rw [if_neg cut] at read
      simp only [bind_some] at read
      have ended : 13 + colorTableBytes raw[10] = start := Except.ok.inj headed
      rw [← (Prod.mk.inj (Option.some.inj read)).2]
      omega
    · rw [Bool.not_eq_true] at table
      simp only [table, Bool.false_eq_true, if_false] at headed read
      split_ifs at headed with cut
      have ended : 13 = start := Except.ok.inj headed
      rw [← (Prod.mk.inj (Option.some.inj read)).2]
      omega

theorem readFull_eq_some {count : Nat} (read : readFull raw offset count = some next) :
    next = offset + count ∧ offset + count ≤ raw.length := by
  rw [readFull] at read
  split_ifs at read with short
  exact ⟨(Option.some.inj read).symm, Nat.not_lt.mp short⟩

/-- The steps that a walk is given do not change where it ends. -/
theorem readSubBlocks_unique {more first second : Nat}
    (one : readSubBlocks raw steps offset = some first)
    (other : readSubBlocks raw more offset = some second) : first = second := by
  induction steps generalizing more offset with
  | zero => cases one
  | succ steps ih =>
    cases more with
    | zero => cases other
    | succ more =>
      rw [readSubBlocks] at one other
      cases found : raw[offset]? with
      | none =>
        rw [found] at one
        cases one
      | some size =>
        simp only [found, bind_eq_bind, bind_some] at one other
        by_cases last : size = 0
        · rw [if_pos last] at one other
          exact (Option.some.inj one).symm.trans (Option.some.inj other)
        · rw [if_neg last, bind_eq_some_iff] at one other
          obtain ⟨_, read, one⟩ := one
          obtain ⟨_, again, other⟩ := other
          obtain rfl := Option.some.inj (read.symm.trans again)
          exact ih one other

/-- A walk over sub-blocks is a walk over those after the first. -/
theorem readSubBlocks_after {more first second : Nat} {size : UInt8}
    (found : raw[offset]? = some size) (longer : size ≠ 0)
    (all : readSubBlocks raw steps offset = some first)
    (rest : readSubBlocks raw more (offset + 1 + size.toNat) = some second) : second = first := by
  cases steps with
  | zero => cases all
  | succ steps =>
    rw [readSubBlocks, found] at all
    simp only [bind_eq_bind, bind_some, if_neg longer, bind_eq_some_iff] at all
    obtain ⟨next, read, all⟩ := all
    rw [(readFull_eq_some read).1] at all
    exact readSubBlocks_unique rest all

/-- A plain text that declares twelve bytes and an application block that declares
some are left at one place, and so are all other extensions. -/
theorem readExtension_eq {skipped read : Nat}
    (plainText : raw[offset]? = some 0x01 → raw[offset + 1]? = some 12)
    (application : raw[offset]? = some 0xff → raw[offset + 1]? ≠ some 0)
    (gate : skipGIFExtension raw offset = .ok skipped)
    (decoder : readExtension raw offset = some read) : read = skipped := by
  rw [skipGIFExtension] at gate
  split_ifs at gate with short
  have blocks := skipSubBlocks_eq_ok.mp gate
  cases found : raw[offset]? with
  | none =>
    rw [readExtension, found] at decoder
    cases decoder
  | some label =>
    simp only [readExtension, found, bind_eq_bind, bind_some] at decoder
    split_ifs at decoder with text control comment named
    · subst text
      obtain ⟨next, full, decoder⟩ := Option.bind_eq_some_iff.mp decoder
      rw [(readFull_eq_some full).1] at decoder
      exact readSubBlocks_after (plainText found) (by decide) blocks decoder
    · rw [readGraphicControl] at decoder
      simp only [bind_eq_bind, bind_eq_some_iff] at decoder
      obtain ⟨next, full, size, atSize, terminator, atTerminator, decoder⟩ := decoder
      split_ifs at decoder with malformed
      obtain ⟨rfl, rfl⟩ : size = 4 ∧ terminator = 0 := by simpa using malformed
      have last : readSubBlocks raw 1 (offset + 1 + 1 + (4 : UInt8).toNat) =
          some (offset + 1 + 6) := by
        rw [readSubBlocks, show offset + 1 + 1 + (4 : UInt8).toNat = offset + 1 + 5 from rfl,
          atTerminator]
        rfl
      rw [← Option.some.inj decoder, (readFull_eq_some full).1]
      exact readSubBlocks_after atSize (by decide) blocks last
    · exact readSubBlocks_unique decoder blocks
    · subst named
      obtain ⟨size, atSize, decoder⟩ := Option.bind_eq_some_iff.mp decoder
      obtain ⟨next, full, decoder⟩ := Option.bind_eq_some_iff.mp decoder
      rw [(readFull_eq_some full).1] at decoder
      have longer : size ≠ 0 := by
        rintro rfl
        exact application found atSize
      exact readSubBlocks_after atSize longer blocks decoder

/-- A file is aligned when its plain texts declare twelve bytes and its
application blocks some. -/
theorem aligned_of_declared {raw : Bytes}
    (declared : ∀ offset : Nat, raw[offset]? = some 0x21 →
      (raw[offset + 1]? = some 0x01 → raw[offset + 2]? = some 12) ∧
        (raw[offset + 1]? = some 0xff → raw[offset + 2]? ≠ some 0)) :
    Aligned raw maxPixels := by
  intro offset _ block skipped read gate decoder
  obtain ⟨plainText, application⟩ := declared offset block
  exact readExtension_eq plainText application gate decoder

/-- A file of one pixel, with a loop count, a graphic control and a comment. -/
def plainFile : Bytes :=
  textBytes "GIF89a" ++ [1, 0, 1, 0, 0x80, 0, 0, 0, 0, 0, 255, 255, 255] ++
    [0x21, 0xff, 11] ++ textBytes "NETSCAPE2.0" ++ [3, 1, 0, 0, 0] ++
    [0x21, 0xf9, 4, 0, 10, 0, 0, 0] ++ [0x21, 0xfe, 1, 0x2a, 0] ++
    [0x2c, 0, 0, 0, 0, 1, 0, 1, 0, 0, 2, 2, 0x44, 1, 0] ++ [0x3b]

/-- A screen of four pixels. The gate sees an empty plain text, a comment and a
frame of one pixel; the decoder takes the start of the comment for the plain text
and reads two frames of four pixels from the rest of it. -/
def hiddenFrames : Bytes :=
  textBytes "GIF89a" ++ [2, 0, 2, 0, 0x80, 0, 0, 0, 0, 0, 255, 255, 255] ++
    [0x21, 0x01, 0] ++ [0x21, 0xfe, 43] ++ .replicate 9 0x2a ++ [0] ++
    [0x2c, 0, 0, 0, 0, 2, 0, 2, 0, 0, 2, 3, 4, 0, 5, 0] ++
    [0x2c, 0, 0, 0, 0, 2, 0, 2, 0, 0, 2, 3, 4, 0, 5, 0] ++ [0x3b] ++ [0] ++
    [0x2c, 0, 0, 0, 0, 1, 0, 1, 0, 0, 2, 2, 0x44, 1, 0] ++ [0x3b]

end Golusoris.Safety
