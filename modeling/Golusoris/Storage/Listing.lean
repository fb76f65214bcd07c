import Golusoris.Lib.Lexical
import Golusoris.Storage.Local

/-!
# Listing the local bucket

This module embeds `LocalBucket.List` with `storage/local_list.go` below it and
`core/storage.NormalizeListOptions`. The walk runs under the operation lock, on
the directory tree that the recovery before it leaves; its context stays live.
A name is a slash-separated byte string as in the source, the root is `"."`.
-/

namespace Golusoris.Storage

open Lib

/-- What the walk reads of an object's `fs.FileInfo`. -/
structure FileInfo where
  size : Int
  modTime : Int
  deriving DecidableEq, Repr

inductive Kind where
  | regular (info : FileInfo)
  | directory
  | symlink
  deriving DecidableEq, Repr

/-- A name that stands for itself in a path. -/
structure PlainName (name : Bytes) : Prop where
  nonempty : name ≠ []
  noSlash : slash ∉ name
  notDot : name ≠ [dot]
  notDots : name ≠ [dot, dot]

/-- A directory tree as puts leave it: every file is the object of an accepted
key or lies under a name of the bucket's own, and there are no symbolic links.
The entries of a directory come in any order, and a directory may be empty. -/
structure Tree where
  entries : List (Path × Kind)
  nodup : (entries.map Prod.fst).Nodup
  plain : ∀ entry ∈ entries, entry.1 ≠ [] ∧ ∀ name ∈ entry.1, PlainName name
  parents : ∀ entry ∈ entries, ∀ parent, parent ≠ [] → parent <+: entry.1 → parent ≠ entry.1 →
    (parent, .directory) ∈ entries
  objects : ∀ path info, (path, .regular info) ∈ entries →
    (∃ key, cleanKey key maxKeyBytes = .ok key ∧ segments key = path) ∨
      ∃ name ∈ path, Reserved name
  linkless : ∀ entry ∈ entries, entry.2 ≠ .symlink

def Tree.kind (tree : Tree) (path : Path) : Option Kind :=
  (tree.entries.find? fun entry => entry.1 = path).map Prod.snd

/-- The entries of a directory. -/
def Tree.children (tree : Tree) (directory : Path) : List (Bytes × Kind) :=
  tree.entries.filterMap fun (path, kind) =>
    match path.getLast? with
    | some name => if path.dropLast = directory then some (name, kind) else none
    | none => none

/-- A path as the segments of its name. -/
def namePath (name : Bytes) : Path := if name = [dot] then [] else segments name

inductive Lstat where
  | notExist
  | notDirectory
  | found (kind : Kind)
  deriving DecidableEq, Repr

/-- `fs.Lstat`. A path below something that is no directory is `ENOTDIR`. -/
def Tree.lstat (tree : Tree) (name : Bytes) : Lstat :=
  let path := namePath name
  if path = [] then .found .directory
  else if path.dropLast.inits.any (fun above =>
      (tree.kind above).any (fun kind => kind ≠ .directory)) then .notDirectory
  else
    match tree.kind path with
    | none => .notExist
    | some kind => .found kind

structure ListOptions where
  pathPrefix : Bytes := []
  startAfter : Bytes := []
  limit : Int := 0
  deriving DecidableEq, Repr

def defaultListLimit : Nat := 1000

def maxListLimit : Nat := 1000

inductive ListError where
  | limitOutside (limit : Int)
  | unsafePrefix (cause : UnsafeKey)
  | unsafeStartAfter (cause : UnsafeKey)
  | inspectRoot (start : Bytes)
  | workLimit
  deriving DecidableEq, Repr

def normalizeListLimit (limit : Int) : Except ListError Nat :=
  if limit = 0 then .ok defaultListLimit
  else if limit < 0 ∨ maxListLimit < limit then .error (.limitOutside limit)
  else .ok limit.toNat

/-- `strings.CutSuffix(name, "/")`. -/
def cutSlash (name : Bytes) : Option Bytes :=
  if name.getLast? = some slash then some name.dropLast else none

/-- `strings.TrimSuffix(name, "/")`. -/
def trimSlash (name : Bytes) : Bytes := (cutSlash name).getD name

def cleanListPrefix (name : Bytes) : Except UnsafeKey Bytes :=
  if name = [] then .ok []
  else do
    rejectKeyLength name maxKeyBytes
    let clean ← cleanKey (trimSlash name) maxKeyBytes
    if (cutSlash name).isSome then .ok (clean ++ [slash]) else .ok clean

/-- `localListQuery`. -/
structure LocalListQuery where
  pathPrefix : Bytes
  after : Bytes
  limit : Nat
  budget : Nat
  deriving DecidableEq, Repr

def localListWorkBudget : Nat := 2 ^ 16

/-- `NormalizeListOptions`; the query, and whether the page is empty. -/
def normalizeListOptions (options : ListOptions) : Except ListError (LocalListQuery × Bool) := do
  let limit ← normalizeListLimit options.limit
  let pathPrefix ← (cleanListPrefix options.pathPrefix).mapError .unsafePrefix
  let after ← (cleanListPrefix options.startAfter).mapError .unsafeStartAfter
  if pathPrefix <+: after then .ok (⟨pathPrefix, after, limit, localListWorkBudget⟩, false)
  else .ok (⟨pathPrefix, [], limit, localListWorkBudget⟩, decide (Precedes pathPrefix after))

def isLocalMetadataName (name : Bytes) : Bool :=
  name.length == 16 + 64 + 5 && starts name ".golusoris-meta-" && ends name ".json"

def isLocalControlName (name : Bytes) : Bool :=
  name == textBytes ".golusoris-lock" || name == textBytes ".golusoris-transaction.json" ||
    name == localStagingDirectoryName

def isLocalInternalName (name : Bytes) : Bool :=
  isLocalTempName name || isLocalMetadataName name || isLocalControlName name

/-- `path.Join` of a directory and a name that are not empty. -/
def pathJoin (directory name : Bytes) : Bytes := pathClean (directory ++ slash :: name)

/-- `path.Base` of a name that does not end in a slash. -/
def pathBase (name : Bytes) : Bytes := ((segments name).getLast?).getD [dot]

/-- `prefix[:strings.LastIndexByte(prefix, '/')]`, if there is a slash. -/
def beforeLastSlash (name : Bytes) : Option Bytes :=
  if slash ∈ name then some ((name.reverse.dropWhile (· ≠ slash)).drop 1).reverse else none

def localListStart (pathPrefix : Bytes) : Bytes :=
  match cutSlash pathPrefix with
  | some before => before
  | none =>
      match beforeLastSlash pathPrefix with
      | some before => before
      | none => [dot]

def localDirectoryCanMatch (directory pathPrefix : Bytes) : Bool :=
  if directory = [dot] ∨ pathPrefix = [] then true
  else (directory ++ [slash]).isPrefixOf pathPrefix || pathPrefix.isPrefixOf (directory ++ [slash])

def localSubtreeAfter (dirKey after : Bytes) : Bool :=
  decide (Precedes after dirKey) || dirKey.isPrefixOf after

/-- `localListEntry`. -/
structure LocalListEntry where
  key : Bytes
  kind : Kind
  deriving DecidableEq, Repr

/-- An `Object` as `List` fills it. -/
structure ListedObject where
  key : Bytes
  size : Int
  lastModified : Int
  deriving DecidableEq, Repr

def keep (query : LocalListQuery) (directory : Bytes) (entry : Bytes × Kind) :
    Option LocalListEntry :=
  let name := pathJoin directory entry.1
  if isLocalInternalName entry.1 then none
  else
    match entry.2 with
    | .symlink => none
    | .directory =>
        if localDirectoryCanMatch name query.pathPrefix &&
            localSubtreeAfter (name ++ [slash]) query.after then
          some ⟨name ++ [slash], .directory⟩
        else none
    | .regular info =>
        if query.pathPrefix.isPrefixOf name && decide (Precedes query.after name) then
          some ⟨name, .regular info⟩
        else none

/-- How a walk ends: the directories are read, the page is full, the entry
budget ran out, the bound on the steps ran out, or the start is no path. -/
inductive WalkEnd where
  | finished
  | limitReached
  | workLimit
  | stepLimit
  | inspectRoot (start : Bytes)
  deriving DecidableEq, Repr

def localListReadBatch : Nat := 32

/-- `readDirectory` on the entries that the directory still holds. Every turn of
the loop takes an entry from the budget or ends, so it turns at most as often
as there is budget. The result is what was kept and what is left of the budget. -/
def readBatches (query : LocalListQuery) (directory : Bytes) :
    Nat → Nat → List LocalListEntry → List (Bytes × Kind) → Option (List LocalListEntry × Nat)
  | 0, _, _, _ => none
  | _ + 1, 0, _, _ => none
  | _ + 1, remaining, kept, [] => some (kept, remaining)
  | turns + 1, remaining, kept, entries =>
      let batch := entries.take (min localListReadBatch remaining)
      readBatches query directory turns (remaining - batch.length)
        (kept ++ batch.filterMap (keep query directory)) (entries.drop batch.length)

def readDirectory (query : LocalListQuery) (directory : Bytes) (remaining : Nat)
    (entries : List (Bytes × Kind)) : Option (List LocalListEntry × Nat) :=
  readBatches query directory remaining remaining [] entries

/-- `readSorted`; nothing when the budget runs out. -/
def readSorted (tree : Tree) (query : LocalListQuery) (remaining : Nat) (name : Bytes) :
    Option (List LocalListEntry × Nat) :=
  match readDirectory query name remaining (tree.children (namePath name)) with
  | none => none
  | some (kept, remaining) => some (sortBy LocalListEntry.key kept, remaining)

/-- `appendInfo`; the objects, and whether the page is full. -/
def appendInfo (query : LocalListQuery) (out : List ListedObject) (name : Bytes)
    (info : FileInfo) : List ListedObject × Bool :=
  if isLocalInternalName (pathBase name) || !query.pathPrefix.isPrefixOf name ||
      !decide (Precedes query.after name) then (out, false)
  else
    let out := out ++ [⟨name, info.size, info.modTime⟩]
    (out, decide (query.limit ≤ out.length))

/-- The loop of `walkTree`. The top of the stack comes first. -/
def walkSteps (tree : Tree) (query : LocalListQuery) :
    Nat → Nat → List ListedObject → List (List LocalListEntry) → WalkEnd × List ListedObject
  | 0, _, out, _ => (.stepLimit, out)
  | _ + 1, _, out, [] => (.finished, out)
  | steps + 1, remaining, out, [] :: stack => walkSteps tree query steps remaining out stack
  | steps + 1, remaining, out, (next :: rest) :: stack =>
      match next.kind with
      | .regular info =>
          match appendInfo query out next.key info with
          | (out, true) => (.limitReached, out)
          | (out, false) => walkSteps tree query steps remaining out (rest :: stack)
      | .symlink => walkSteps tree query steps remaining out (rest :: stack)
      | .directory =>
          match readSorted tree query remaining (trimSlash next.key) with
          | none => (.workLimit, out)
          | some (children, remaining) =>
              walkSteps tree query steps remaining out (children :: rest :: stack)

def walkTree (tree : Tree) (query : LocalListQuery) (start : Bytes) :
    WalkEnd × List ListedObject :=
  match readSorted tree query query.budget start with
  | none => (.workLimit, [])
  | some (first, remaining) => walkSteps tree query (2 * query.budget + 2) remaining [] [first]

def walk (tree : Tree) (query : LocalListQuery) (start : Bytes) : WalkEnd × List ListedObject :=
  match tree.lstat start with
  | .notExist => (.finished, [])
  | .notDirectory => (.inspectRoot start, [])
  | .found .symlink => (.finished, [])
  | .found (.regular info) =>
      match appendInfo query [] start info with
      | (out, true) => (.limitReached, out)
      | (out, false) => (.finished, out)
  | .found .directory => walkTree tree query start

/-- `walkLocalObjects`; both bounds are the same error. -/
def walkLocalObjects (tree : Tree) (query : LocalListQuery) : Except ListError (List ListedObject) :=
  match walk tree query (localListStart query.pathPrefix) with
  | (.finished, out) | (.limitReached, out) => .ok out
  | (.workLimit, out) | (.stepLimit, out) => if out = [] then .error .workLimit else .ok out
  | (.inspectRoot start, _) => .error (.inspectRoot start)

/-- `LocalBucket.List`. -/
def list (tree : Tree) (options : ListOptions) : Except ListError (List ListedObject) := do
  let (query, empty) ← normalizeListOptions options
  if empty then .ok [] else walkLocalObjects tree query

end Golusoris.Storage
