import Golusoris.Lib.Lexical
import Golusoris.Lib.Utf8
import Mathlib.Algebra.GroupWithZero.Nat
import Mathlib.Logic.Function.Basic

/-!
# Collecting the garbage of an image layout

This module embeds `Layout.GC` of `container/registry/gc.go` with what it uses of
`layout.go`, `content.go` and `graph.go`. A layout is its `index.json` and the
entries of `blobs/sha256`. The collector holds the layout's lock, so nothing
changes under it; its context stays live and files can be removed.

SHA-256 and the JSON of the manifests are parameters.
-/

namespace Golusoris.Registry

open Lib

structure Hash where
  algorithm : Bytes
  hex : Bytes
  deriving DecidableEq, Repr

/-- A descriptor, as far as the collector reads it. -/
structure Descriptor where
  mediaType : Bytes
  digest : Hash
  deriving DecidableEq, Repr

structure Manifest where
  config : Descriptor
  layers : List Descriptor

/-- What is used of other packages: the digest of a content in hexadecimal, the
declared media type of a manifest, and the two manifest parsers. A result is
missing where the text does not decode. -/
structure Codec where
  sha256 : Bytes → Bytes
  mediaType : Bytes → Option Bytes
  parseIndexManifest : Bytes → Option (List Descriptor)
  parseManifest : Bytes → Option Manifest

/-- An entry of `blobs/sha256`. -/
inductive Entry where
  | regular (content : Bytes)
  | other
  deriving DecidableEq, Repr

/-- The entries of `blobs/sha256`, by name. -/
structure BlobDir where
  entries : List (Bytes × Entry)
  nodup : (entries.map Prod.fst).Nodup

structure Layout where
  index : Option Bytes
  blobs : Option BlobDir

structure Limits where
  manifestBytes : Nat
  blobs : Nat

inductive GcError where
  | notRegular (name : Bytes)
  | missingIndex
  | indexTooLarge
  | decodeIndex
  | unsupportedDigest (hash : Hash)
  | missingManifest (hash : Hash)
  | manifestTooLarge (hash : Hash)
  | digestMismatch (hash : Hash)
  | decodeManifest (hash : Hash)
  | wantManifest (hash : Hash) (mediaType : Bytes)
  | tooManyEntries (hash : Hash) (count : Nat)
  | tooManyManifests (budget : Nat)
  | tooManySteps (bound : Nat)
  deriving DecidableEq, Repr

def algorithm : Bytes := textBytes "sha256"

/-- The digest that names a file. -/
def hashOf (name : Bytes) : Hash := ⟨algorithm, name⟩

def isLowerHex (byte : UInt8) : Bool :=
  (0x30 ≤ byte && byte ≤ 0x39) || (0x61 ≤ byte && byte ≤ 0x66)

/-- `checkDigest`: a SHA-256 digest in lower case. -/
def checkDigest (hash : Hash) : Bool :=
  hash.algorithm == algorithm && hash.hex.length == 64 && hash.hex.all isLowerHex

def isIndex (mediaType : Bytes) : Bool :=
  mediaType == textBytes "application/vnd.oci.image.index.v1+json" ||
    mediaType == textBytes "application/vnd.docker.distribution.manifest.list.v2+json"

def isImage (mediaType : Bytes) : Bool :=
  mediaType == textBytes "application/vnd.oci.image.manifest.v1+json" ||
    mediaType == textBytes "application/vnd.docker.distribution.manifest.v2+json"

def isManifest (mediaType : Bytes) : Bool := isImage mediaType || isIndex mediaType

section Reading

variable (codec : Codec) (limits : Limits)

/-- `blobFiles`: the names and sizes of the blobs, in ascending order. -/
def blobFiles (dir : BlobDir) : Except GcError (List (Bytes × Nat)) :=
  let named := dir.entries.filter fun entry => checkDigest (hashOf entry.1)
  match named.find? fun entry => entry.2 = .other with
  | some entry => .error (.notRegular entry.1)
  | none =>
      .ok (sortBy Prod.fst (named.map fun entry =>
        match entry.2 with
        | .regular content => (entry.1, content.length)
        | .other => (entry.1, 0)))

def readIndex (layout : Layout) : Except GcError (List Descriptor) :=
  match layout.index with
  | none => .error .missingIndex
  | some text =>
      if limits.manifestBytes < text.length then .error .indexTooLarge
      else
        match codec.parseIndexManifest text with
        | none => .error .decodeIndex
        | some entries => .ok entries

/-- The content of a blob. -/
def Layout.blob (layout : Layout) (hash : Hash) : Option Bytes :=
  match layout.blobs with
  | none => none
  | some dir =>
      match dir.entries.lookup hash.hex with
      | some (.regular content) => some content
      | _ => none

/-- `readManifest` with `checkManifest`. -/
def readManifest (layout : Layout) (hash : Hash) : Except GcError Bytes :=
  if !checkDigest hash then .error (.unsupportedDigest hash)
  else
    match layout.blob hash with
    | none => .error (.missingManifest hash)
    | some raw =>
        if limits.manifestBytes < raw.length then .error (.manifestTooLarge hash)
        else if codec.sha256 raw ≠ hash.hex then .error (.digestMismatch hash)
        else .ok raw

def indexContent (hash : Hash) (raw : Bytes) :
    Except GcError (List Descriptor × List Descriptor) :=
  match codec.parseIndexManifest raw with
  | none => .error (.decodeManifest hash)
  | some entries =>
      if limits.blobs < entries.length then .error (.tooManyEntries hash entries.length)
      else
        .ok (entries.filter fun entry => isManifest entry.mediaType,
          entries.filter fun entry => !isManifest entry.mediaType)

/-- `contentOf`: the child manifests and the blobs of a manifest. -/
def contentOf (hash : Hash) (mediaType raw : Bytes) :
    Except GcError (List Descriptor × List Descriptor) :=
  if isIndex mediaType then indexContent codec limits hash raw
  else if !isImage mediaType then .error (.wantManifest hash mediaType)
  else
    match codec.parseManifest raw with
    | none => .error (.decodeManifest hash)
    | some manifest =>
        if limits.blobs < manifest.layers.length then
          .error (.tooManyEntries hash manifest.layers.length)
        else .ok ([], manifest.config :: manifest.layers)

/-- `Layout.content`. A manifest that declares no media type has that of the
descriptor. -/
def content (layout : Layout) (descriptor : Descriptor) :
    Except GcError (List Descriptor × List Descriptor) := do
  let raw ← readManifest codec limits layout descriptor.digest
  match codec.mediaType raw with
  | none => .error (.decodeManifest descriptor.digest)
  | some declared =>
      contentOf codec limits descriptor.digest
        (if declared = [] then descriptor.mediaType else declared) raw

end Reading

/-- `walkFrames`: each step pops a frame and pushes what its visit returns. The top of
the stack comes first here. -/
def walkFrames {State Frame Failure : Type} (tooMany : Failure)
    (visit : State → Frame → Except Failure (List Frame × State)) :
    Nat → State → List Frame → Except Failure State
  | _, state, [] => .ok state
  | 0, _, _ :: _ => .error tooMany
  | steps + 1, state, top :: stack =>
      match visit state top with
      | .error failure => .error failure
      | .ok (next, state) => walkFrames tooMany visit steps state (next.reverse ++ stack)

/-- The digests met, each with whether it was read as a manifest, and the number of
manifests read. -/
structure Seen where
  digests : Hash → Option Bool := fun _ => none
  read : Nat := 0

/-- Meet a blob. -/
def Seen.blob (seen : Seen) (hash : Hash) : Seen :=
  match seen.digests hash with
  | some _ => seen
  | none => { seen with digests := Function.update seen.digests hash (some false) }

/-- A manifest was read, with these blobs. -/
def Seen.manifest (seen : Seen) (hash : Hash) (blobs : List Descriptor) : Seen :=
  blobs.foldl (fun seen blob => seen.blob blob.digest)
    { digests := Function.update seen.digests hash (some true), read := seen.read + 1 }

section Collecting

variable (codec : Codec) (limits : Limits)

def visit (layout : Layout) (budget : Nat) (seen : Seen) (descriptor : Descriptor) :
    Except GcError (List Descriptor × Seen) :=
  if seen.digests descriptor.digest = some true then .ok ([], seen)
  else if budget ≤ seen.read then .error (.tooManyManifests budget)
  else
    match content codec limits layout descriptor with
    | .error failure => .error failure
    | .ok (kids, blobs) => .ok (kids, seen.manifest descriptor.digest blobs)

/-- The bound on the steps of `reachable`. -/
def stepBound (roots : List Descriptor) (budget : Nat) : Nat :=
  roots.length + budget * (limits.blobs + 1)

def reachable (layout : Layout) (roots : List Descriptor) (budget : Nat) : Except GcError Seen :=
  walkFrames (.tooManySteps (stepBound limits roots budget)) (visit codec limits layout budget)
    (stepBound limits roots budget) {} roots.reverse

structure GcReport where
  removed : List Hash := []
  bytes : Nat := 0
  deriving DecidableEq, Repr

/-- Remove files by name. -/
def BlobDir.remove (dir : BlobDir) (names : List Bytes) : BlobDir where
  entries := dir.entries.filter fun entry => entry.1 ∉ names
  nodup := dir.nodup.sublist (List.filter_sublist.map Prod.fst)

def sweep (layout : Layout) (dir : BlobDir) (files : List (Bytes × Nat)) (keep : Seen)
    (dryRun : Bool) : GcReport × Layout :=
  let garbage := files.filter fun file => (keep.digests (hashOf file.1)).isNone
  let report : GcReport :=
    ⟨garbage.map fun file => hashOf file.1, (garbage.map Prod.snd).sum⟩
  (report, if dryRun then layout else { layout with blobs := some (dir.remove (garbage.map Prod.fst)) })

/-- `Layout.GC`; the outcome and the layout it leaves. -/
def gc (layout : Layout) (dryRun : Bool) : Except GcError GcReport × Layout :=
  match layout.blobs with
  | none => (.ok {}, layout)
  | some dir =>
      match blobFiles dir with
      | .error failure => (.error failure, layout)
      | .ok files =>
          match readIndex codec limits layout with
          | .error failure => (.error failure, layout)
          | .ok roots =>
              match reachable codec limits layout roots (files.length + 1) with
              | .error failure => (.error failure, layout)
              | .ok keep =>
                  let (report, layout) := sweep layout dir files keep dryRun
                  (.ok report, layout)

end Collecting

end Golusoris.Registry
