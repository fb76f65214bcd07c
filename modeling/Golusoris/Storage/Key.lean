import Golusoris.Lib.Results
import Golusoris.Lib.Utf8
import Mathlib.Tactic.Common

/-!
# Object keys

`cleanKey` embeds `core/storage.CleanKey`: the lexical checks, `path.Clean` and
`filepath.IsLocal` as they are on a slash-separated system. A key is a byte
string, valid UTF-8 or not; a path is the list of its segments.
-/

namespace Golusoris.Storage

open Lib

/-- Why a key is refused. -/
inductive UnsafeKey where
  | empty
  | tooLong (length maximum : Nat)
  | nullByte
  | backslash
  | windowsCharacter
  | absolute
  | controlCharacter
  | emptySegment
  | dotSegment (segment : Bytes)
  | trailing (segment : Bytes)
  | stagingNamespace (segment : Bytes)
  | metadataNamespace (segment : Bytes)
  | controlNamespace (segment : Bytes)
  | notCanonical (key : Bytes)
  | dots (clean : Bytes)
  | traversal
  | reservedSegment (segment : Bytes)
  | escapesRoot (key : Bytes)
  deriving DecidableEq, Repr

def maxKeyBytes : Nat := 1024

def slash : UInt8 := 0x2F

def dot : UInt8 := 0x2E

/-- `strings.Split(key, "/")`. -/
def segments : Bytes → List Bytes
  | [] => [[]]
  | byte :: rest =>
      if byte = slash then [] :: segments rest
      else
        match segments rest with
        | [] => [[byte]]
        | segment :: later => (byte :: segment) :: later

/-- `strings.HasPrefix` and `strings.HasSuffix`. -/
def starts (bytes : Bytes) (start : String) : Bool := (textBytes start).isPrefixOf bytes

def ends (bytes : Bytes) (ending : String) : Bool := (textBytes ending).isSuffixOf bytes

def isReservedTempName (name : Bytes) : Bool :=
  starts name ".golusoris-put-" && ends name ".tmp"

def isReservedMetadataName (name : Bytes) : Bool :=
  name.length == 16 + 64 + 5 && starts name ".golusoris-meta-" && ends name ".json"

def isReservedControlName (name : Bytes) : Bool :=
  name == textBytes ".golusoris-lock" || name == textBytes ".golusoris-transaction.json" ||
    name == textBytes ".golusoris-staging"

def windowsReservedNames : List String :=
  ["CON", "PRN", "AUX", "NUL", "CONIN$", "CONOUT$",
    "COM1", "COM2", "COM3", "COM4", "COM5", "COM6", "COM7", "COM8", "COM9",
    "COM¹", "COM²", "COM³",
    "LPT1", "LPT2", "LPT3", "LPT4", "LPT5", "LPT6", "LPT7", "LPT8", "LPT9",
    "LPT¹", "LPT²", "LPT³"]

/-- `strings.ToUpper` as far as the reserved names can tell: the dotless i is the
only character outside ASCII whose upper case occurs in one. -/
def toUpper (bytes : Bytes) : List Char :=
  (Utf8.decodeLossy bytes.length bytes).map fun char =>
    if char = 'ı' then 'I' else char.toUpper

def rejectKeyLength (key : Bytes) (maximum : Nat) : Except UnsafeKey Unit :=
  if 0 < maximum ∧ maximum < key.length then .error (.tooLong key.length maximum) else .ok ()

def rejectKeyCharacters (key : Bytes) : Except UnsafeKey Unit :=
  if key.contains 0 then .error .nullByte
  else if key.contains 0x5C then .error .backslash
  else if key.any ((textBytes "<>:\"|?*").contains ·) then .error .windowsCharacter
  else if starts key "/" then .error .absolute
  -- Every other rune of the loop, U+FFFD for a bad byte included, is above both bounds.
  else if key.any (fun byte => byte < 0x20 || byte == 0x7F) then .error .controlCharacter
  else .ok ()

def rejectKeySegment (segment : Bytes) : Except UnsafeKey Unit :=
  if segment = [] then .error .emptySegment
  else if segment = [dot] ∨ segment = [dot, dot] then .error (.dotSegment segment)
  else if ends segment " " ∨ ends segment "." then .error (.trailing segment)
  else if isReservedTempName segment then .error (.stagingNamespace segment)
  else if isReservedMetadataName segment then .error (.metadataNamespace segment)
  else if isReservedControlName segment then .error (.controlNamespace segment)
  else .ok ()

/-- The first refusal of a segment, from left to right. -/
def rejectEach (reject : Bytes → Except UnsafeKey Unit) : List Bytes → Except UnsafeKey Unit
  | [] => .ok ()
  | segment :: rest => do
      reject segment
      rejectEach reject rest

def rejectKeyLexically (key : Bytes) (maximum : Nat) : Except UnsafeKey Unit :=
  if key = [] then .error .empty
  else do
    rejectKeyLength key maximum
    rejectKeyCharacters key
    rejectEach rejectKeySegment (segments key)

/-- The segments that `path.Clean` keeps, the last one first. -/
def cleanSegments (rooted : Bool) : List Bytes → List Bytes → List Bytes
  | kept, [] => kept
  | kept, segment :: rest =>
      if segment = [] ∨ segment = [dot] then cleanSegments rooted kept rest
      else if segment = [dot, dot] then
        match kept with
        | last :: earlier =>
            if last = [dot, dot] then cleanSegments rooted (segment :: kept) rest
            else cleanSegments rooted earlier rest
        | [] => cleanSegments rooted (if rooted then [] else [segment]) rest
      else cleanSegments rooted (segment :: kept) rest

/-- `path.Clean`. -/
def pathClean (path : Bytes) : Bytes :=
  let rooted := starts path "/"
  let kept := (cleanSegments rooted [] (segments path)).reverse
  let text := [slash].intercalate kept
  if rooted then slash :: text else if text = [] then [dot] else text

def rejectReservedSegment (segment : Bytes) : Except UnsafeKey Unit :=
  if windowsReservedNames.contains (String.ofList (toUpper (segment.takeWhile (· ≠ dot)))) then
    .error (.reservedSegment segment)
  else .ok ()

def rejectCleanKey (clean : Bytes) : Except UnsafeKey Unit :=
  if clean = [dot] ∨ clean = [dot, dot] then .error (.dots clean)
  else if clean = [] ∨ starts clean "../" then .error .traversal
  else rejectEach rejectReservedSegment (segments clean)

/-- `filepath.IsLocal`. -/
def isLocal (path : Bytes) : Bool :=
  if starts path "/" || path.isEmpty then false
  else
    let path :=
      if (segments path).any (fun segment => segment == [dot] || segment == [dot, dot]) then
        pathClean path
      else path
    !(path == [dot, dot] || starts path "../")

/-- `CleanKey`. -/
def cleanKey (key : Bytes) (maximum : Nat) : Except UnsafeKey Bytes := do
  rejectKeyLexically key maximum
  if pathClean key ≠ key then .error (.notCanonical key)
  else do
    rejectCleanKey (pathClean key)
    if isLocal (pathClean key) then .ok (pathClean key) else .error (.escapesRoot key)

theorem cleanKey_eq_ok {key clean : Bytes} {maximum : Nat}
    (accepted : cleanKey key maximum = .ok clean) :
    clean = key ∧ rejectKeyLexically key maximum = .ok () := by
  obtain ⟨⟨⟩, lexical, accepted⟩ := exists_of_bind_eq_ok accepted
  refine ⟨?_, lexical⟩
  split at accepted
  · cases accepted
  · rename_i canonical
    obtain ⟨⟨⟩, -, accepted⟩ := exists_of_bind_eq_ok accepted
    split at accepted
    · obtain rfl : pathClean key = clean := Except.ok.inj accepted
      exact not_not.mp canonical
    · cases accepted

theorem ok_of_rejectEach {reject : Bytes → Except UnsafeKey Unit} :
    ∀ {names : List Bytes}, rejectEach reject names = .ok () → ∀ name ∈ names, reject name = .ok ()
  | [], _, _, found => absurd found List.not_mem_nil
  | first :: rest, accepted, name, found => by
    obtain ⟨⟨⟩, head, accepted⟩ := exists_of_bind_eq_ok accepted
    rcases List.mem_cons.mp found with rfl | found
    · exact head
    · exact ok_of_rejectEach accepted name found

/-- A name that the bucket keeps for its own files. -/
def Reserved (name : Bytes) : Prop :=
  isReservedTempName name ∨ isReservedMetadataName name ∨ isReservedControlName name

theorem not_reserved_of_ok {segment : Bytes} (accepted : rejectKeySegment segment = .ok ()) :
    ¬Reserved segment := by
  rintro (reserved | reserved | reserved)
  all_goals
    simp only [rejectKeySegment, reserved] at accepted
    split_ifs at accepted

/-- No segment of an accepted key is a name of the bucket's own. -/
theorem not_reserved_of_cleanKey {key clean : Bytes} {maximum : Nat}
    (accepted : cleanKey key maximum = .ok clean) :
    ∀ segment ∈ segments key, ¬Reserved segment := by
  obtain ⟨-, lexical⟩ := cleanKey_eq_ok accepted
  rw [rejectKeyLexically] at lexical
  split at lexical
  · cases lexical
  · obtain ⟨⟨⟩, -, lexical⟩ := exists_of_bind_eq_ok lexical
    obtain ⟨⟨⟩, -, lexical⟩ := exists_of_bind_eq_ok lexical
    exact fun segment found => not_reserved_of_ok (ok_of_rejectEach lexical segment found)

theorem segments_ne_nil (bytes : Bytes) : segments bytes ≠ [] := by
  cases bytes with
  | nil => simp [segments]
  | cons byte rest =>
    rw [segments]
    split
    · simp
    · split <;> simp

/-- Joining the segments with slashes gives the key back. -/
theorem intercalate_segments (bytes : Bytes) : [slash].intercalate (segments bytes) = bytes := by
  induction bytes with
  | nil => rfl
  | cons byte rest ih =>
    rw [segments]
    cases split : segments rest with
    | nil => exact absurd split (segments_ne_nil rest)
    | cons segment later =>
      rw [split] at ih
      by_cases separator : byte = slash
      · rw [if_pos separator, List.intercalate_cons_cons, ih, separator]
        rfl
      · rw [if_neg separator]
        cases later with
        | nil => simpa using ih
        | cons other later =>
          rw [List.intercalate_cons_cons] at ih ⊢
          rw [← ih]
          rfl

theorem segments_injective : Function.Injective segments := by
  intro left right same
  rw [← intercalate_segments left, same, intercalate_segments]

example : cleanKey (textBytes "a/b.txt") maxKeyBytes = .ok (textBytes "a/b.txt") := by decide
example : cleanKey (textBytes "a/../b") maxKeyBytes = .error (.dotSegment [dot, dot]) := by decide

end Golusoris.Storage
