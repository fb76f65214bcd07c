import Golusoris.Registry.Graph

/-!
# Copying into a layout and finding referrers there

This module embeds `layoutSink`, `Layout.list` and `Layout.Referrers` of
`container/registry/layout.go`. A shelf is a layout as a copy writes it and a
listing reads it: `index.json`, and what opening a file of `blobs/sha256` gives.
Nothing else writes the layout meanwhile. A write that fails fails the copy, so
writes succeed here.

SHA-256, the JSON of manifests and of `index.json` and the blobs of the registry
are parameters. The annotations that a listing repeats are left out.
-/

namespace Golusoris.Registry.Referrers

open Lib Graph

structure Shelf where
  index : Option Bytes
  blobs : Bytes → Option Bytes

/-- The decoders with the digest of a content in hexadecimal and the text of an
`index.json` in which the entries are replaced. -/
structure LayoutCodec extends Graph.Codec where
  sha256 : Bytes → Bytes
  marshalIndex : Bytes → List Described → Bytes

/-- Why a layout, or the registry, refuses. -/
inductive LayoutFailure where
  | registry
  | unsupportedDigest (hash : Hash)
  | missingManifest (hash : Hash)
  | manifestTooLarge (hash : Hash)
  | digestMismatch (hash : Hash)
  | missingIndex
  | indexTooLarge
  | decodeIndex
  | decodeManifest (hash : Hash)
  | tooManyReferrers (subject : Hash) (count : Nat)
  deriving DecidableEq, Repr

section Layout

variable (codec : LayoutCodec) (limits : Graph.Limits)

def readIndex (shelf : Shelf) : Except LayoutFailure (List Described) :=
  match shelf.index with
  | none => .error .missingIndex
  | some text =>
      if limits.manifestBytes < text.length then .error .indexTooLarge
      else
        match codec.parseIndexManifest text with
        | none => .error .decodeIndex
        | some entries => .ok entries

/-- `readManifest` with `checkManifest`. -/
def readManifest (shelf : Shelf) (hash : Hash) : Except LayoutFailure Bytes :=
  if !checkDigest hash then .error (.unsupportedDigest hash)
  else
    match shelf.blobs hash.hex with
    | none => .error (.missingManifest hash)
    | some raw =>
        if limits.manifestBytes < raw.length then .error (.manifestTooLarge hash)
        else if codec.sha256 raw ≠ hash.hex then .error (.digestMismatch hash)
        else .ok raw

/-- What a stream of a blob has to be. -/
def verifies (d : Described) (content : Bytes) : Bool :=
  (content.length : Int) = d.size && codec.sha256 content = d.digest.hex

def hasBlob (shelf : Shelf) (d : Described) : Bool :=
  checkDigest d.digest && (shelf.blobs d.digest.hex).any (verifies codec d)

def writeBlob (shelf : Shelf) (d : Described) (content : Bytes) :
    Except LayoutFailure Unit × Shelf :=
  if !checkDigest d.digest then (.error (.unsupportedDigest d.digest), shelf)
  else if !verifies codec d content then (.error (.digestMismatch d.digest), shelf)
  else (.ok (), { shelf with blobs := Function.update shelf.blobs d.digest.hex (some content) })

/-- `list`: add an entry unless one already names the digest. -/
def list (shelf : Shelf) (d : Described) : Except LayoutFailure Unit × Shelf :=
  match readIndex codec limits shelf with
  | .error failure => (.error failure, shelf)
  | .ok entries =>
      if entries.any fun entry => entry.digest = d.digest then (.ok (), shelf)
      else
        (.ok (), { shelf with
          index := shelf.index.map fun text => codec.marshalIndex text (entries ++ [d]) })

/-- Put a content that is opened only if it is not there. -/
def putContent (shelf : Shelf) (d : Described) (content : Except LayoutFailure Bytes) :
    Except LayoutFailure Unit × Shelf :=
  if hasBlob codec shelf d then (.ok (), shelf)
  else
    match content with
    | .error failure => (.error failure, shelf)
    | .ok content => writeBlob codec shelf d content

/-- `layoutSink`, where the registry serves the blobs. -/
def layoutSink (fetch : Described → Except LayoutFailure Bytes) : Sink LayoutFailure Shelf where
  putBlob d shelf := putContent codec shelf d (fetch d)
  putManifest d raw role shelf :=
    match putContent codec shelf d (.ok raw) with
    | (.error failure, shelf) => (.error failure, shelf)
    | (.ok _, shelf) =>
        match role with
        | .child => (.ok (), shelf)
        | .root | .referrer => list codec limits shelf d

/-- `referrer`: what a listing reports of a manifest, with its subject. -/
def referrer (shelf : Shelf) (d : Described) :
    Except LayoutFailure (Option (Hash × Described)) := do
  let raw ← readManifest codec limits shelf d.digest
  match codec.referrerFields raw with
  | none => .error (.decodeManifest d.digest)
  | some fields =>
      return fields.subject.map fun subject =>
        (subject, { d with size := raw.length, artifactType := fields.effectiveType })

/-- `referrersIn`: the entries that name a subject, each with it. -/
def referrersIn (shelf : Shelf) :
    List Hash → List Described → Except LayoutFailure (List (Hash × Described))
  | _, [] => .ok []
  | seen, entry :: entries =>
      if entry.digest ∈ seen || !isManifest entry.mediaType then referrersIn shelf seen entries
      else do
        let found ← referrer codec limits shelf entry
        let others ← referrersIn shelf (entry.digest :: seen) entries
        return found.toList ++ others

/-- `Layout.Referrers`. -/
def referrers (shelf : Shelf) (digest : Hash) (artifactType : Bytes) :
    Except LayoutFailure (List Described) :=
  if !checkDigest digest then .error (.unsupportedDigest digest)
  else do
    let entries ← readIndex codec limits shelf
    let pairs ← referrersIn codec limits shelf [] entries
    let found := (pairs.filter fun pair => pair.1 = digest).map Prod.snd
    let wanted := found.filter fun d => artifactType = [] ∨ d.artifactType = artifactType
    if limits.referrers < wanted.length then .error (.tooManyReferrers digest wanted.length)
    else return wanted

end Layout

end Golusoris.Registry.Referrers
