import Golusoris.Registry.Graph

/-!
# Unlisting a manifest

This module embeds `Layout.Delete` of `container/registry/gc.go` with
`referrerTree` of `delete.go` and `referrersIn` of `layout.go`. The layout's lock
is held, so nothing changes under the call. An entry of `index.json` is a
descriptor with further fields; what they are does not matter here, only that a
rewritten `index.json` keeps them.

The JSON of manifests and of `index.json` is a parameter. Replacing `index.json`
may fail, and then the old one stays.
-/

namespace Golusoris.Registry.Delete

open Lib

/-- An entry of `index.json` with the fields that no walk reads. -/
structure Listing (Rest : Type) extends Descriptor where
  rest : Rest
  deriving DecidableEq

/-- The decoders, with the subject that a manifest names and the text of an
`index.json` in which the entries are replaced. -/
structure IndexCodec (Rest : Type) extends Codec where
  entries : Bytes → Option (List (Listing Rest))
  parseIndexManifest_eq : ∀ raw,
    parseIndexManifest raw = (entries raw).map (List.map Listing.toDescriptor)
  subject : Bytes → Option (Option Hash)
  marshalIndex : Bytes → List (Listing Rest) → Bytes

inductive DeleteError where
  | unsupportedDigest (hash : Hash)
  | read (failure : GcError)
  | decodeManifest (hash : Hash)
  | tooManyReferrers (subject : Hash) (count : Nat)
  | tooManyToDelete (limit : Nat)
  | tooManySteps (bound : Int)
  | commit
  deriving DecidableEq, Repr

structure DeleteReport where
  removed : List Hash := []
  absent : List Hash := []
  deriving DecidableEq, Repr

/-- The outcome of a read that other walks share. -/
def reading {α : Type} : Except GcError α → Except DeleteError α
  | .ok value => .ok value
  | .error failure => .error (.read failure)

section Referrers

variable {Rest : Type} (codec : IndexCodec Rest) (limits : Graph.Limits)

/-- `referrer`: the subject of a manifest. -/
def referrer (layout : Layout) (hash : Hash) : Except DeleteError (Option Hash) := do
  let raw ← reading (readManifest codec.toCodec limits.toLimits layout hash)
  match codec.subject raw with
  | none => .error (.decodeManifest hash)
  | some subject => .ok subject

/-- `referrersIn`: the entries that name a subject, as pairs of subject and entry. -/
def referrersIn (layout : Layout) :
    List Hash → List (Listing Rest) → Except DeleteError (List (Hash × Hash))
  | _, [] => .ok []
  | seen, entry :: entries =>
      if entry.digest ∈ seen || !isManifest entry.mediaType then referrersIn layout seen entries
      else do
        let subject ← referrer codec limits layout entry.digest
        let others ← referrersIn layout (entry.digest :: seen) entries
        match subject with
        | none => return others
        | some subject => return (subject, entry.digest) :: others

/-- The referrers of a manifest, no more than the cap. -/
def listReferrers (referrers : List (Hash × Hash)) (hash : Hash) :
    Except DeleteError (List Hash) :=
  let found := (referrers.filter fun pair => pair.1 = hash).map Prod.snd
  if limits.referrers < found.length then .error (.tooManyReferrers hash found.length)
  else .ok found

structure TreeWalk where
  seen : List Hash := []
  order : List Hash := []

def treeVisit (list : Hash → Except DeleteError (List Hash)) (maxNodes : Int) (walk : TreeWalk)
    (frame : Hash × Bool) : Except DeleteError (List (Hash × Bool) × TreeWalk) :=
  if frame.2 then .ok ([], { walk with order := walk.order ++ [frame.1] })
  else if frame.1 ∈ walk.seen then .ok ([], walk)
  else if maxNodes ≤ walk.seen.length then .error (.tooManyToDelete limits.referrers)
  else do
    let referrers ← list frame.1
    return ((frame.1, true) :: referrers.map fun hash => (hash, false),
      { walk with seen := frame.1 :: walk.seen })

/-- `referrerTree`: the roots and their referrers at every level, each referrer before
its subject. -/
def referrerTree (list : Hash → Except DeleteError (List Hash)) (roots : List Hash) :
    Except DeleteError (List Hash) := do
  let maxNodes := Graph.int64 (roots.length + limits.referrers)
  let maxSteps := Graph.int64 (2 * maxNodes * (limits.referrers + 1))
  let walk ← walkFrames (.tooManySteps maxSteps) (treeVisit limits list maxNodes) maxSteps.toNat {}
    (roots.map fun root => (root, false))
  return walk.order

end Referrers

section Unlisting

variable {Rest : Type} (codec : IndexCodec Rest) (limits : Graph.Limits)

/-- `readIndex`, with whole entries. -/
def readEntries (layout : Layout) : Except DeleteError (List (Listing Rest)) :=
  match layout.index with
  | none => .error (.read .missingIndex)
  | some text =>
      if limits.manifestBytes < text.length then .error (.read .indexTooLarge)
      else
        match codec.entries text with
        | none => .error (.read .decodeIndex)
        | some entries => .ok entries

def blobBudget (layout : Layout) : Except DeleteError Nat :=
  match layout.blobs with
  | none => .ok 1
  | some dir => do
      let files ← reading (blobFiles dir)
      return files.length + 1

/-- The digests that blobs are named by. A manifest that was read is one of them. -/
def blobDigests (layout : Layout) : List Hash :=
  match layout.blobs with
  | none => []
  | some dir => dir.entries.map fun entry => hashOf entry.1

/-- `orphans`: the manifests below the listed members of the tree that no other entry
reaches. -/
def orphans (layout : Layout) (entries : List (Listing Rest)) (tree : List Hash) :
    Except DeleteError (List Hash) := do
  let starts := entries.filter fun entry => entry.digest ∈ tree
  let rest := entries.filter fun entry => entry.digest ∉ tree
  let budget ← blobBudget layout
  let below ← reading (reachable codec.toCodec limits.toLimits layout
    (starts.map Listing.toDescriptor) budget)
  let kids := (blobDigests layout).filter fun hash =>
    below.digests hash = some true ∧ hash ∉ tree
  if kids = [] then return []
  else
    let live ← reading (reachable codec.toCodec limits.toLimits layout
      (rest.map Listing.toDescriptor) budget)
    return sortBy Hash.hex (kids.filter fun hash => (live.digests hash).isNone)

/-- `unlistOrder`: the digest after its referrers, then the referrers of the manifests
below them that nothing else keeps. -/
def unlistOrder (layout : Layout) (entries : List (Listing Rest)) (digest : Hash) :
    Except DeleteError (List Hash) := do
  let referrers ← referrersIn codec limits layout [] entries
  let tree ← referrerTree limits (listReferrers limits referrers) [digest]
  let orphaned ← orphans codec limits layout entries tree
  if orphaned = [] then return tree
  else
    let more ← referrerTree limits (listReferrers limits referrers) orphaned
    return tree ++ more

def splitEntries (entries : List (Listing Rest)) (order : List Hash) (subject : Hash) :
    DeleteReport × List (Listing Rest) :=
  let listed := entries.map fun entry => entry.digest
  (⟨order.filter fun hash => hash ∈ listed,
      order.filter fun hash => hash ∉ listed ∧ hash = subject⟩,
    entries.filter fun entry => entry.digest ∉ order)

/-- `writeIndex`, where a new `index.json` can or cannot take the place of the old. -/
def writeIndex (layout : Layout) (entries : List (Listing Rest)) (committed : Bool) :
    Except DeleteError Unit × Layout :=
  if committed then
    (.ok (), { layout with index := layout.index.map fun text => codec.marshalIndex text entries })
  else (.error .commit, layout)

/-- `Layout.Delete`; the outcome and the layout it leaves. -/
def delete (layout : Layout) (digest : Hash) (dryRun committed : Bool) :
    Except DeleteError DeleteReport × Layout :=
  if !checkDigest digest then (.error (.unsupportedDigest digest), layout)
  else
    match readEntries codec limits layout with
    | .error failure => (.error failure, layout)
    | .ok entries =>
        match unlistOrder codec limits layout entries digest with
        | .error failure => (.error failure, layout)
        | .ok order =>
            let (report, keep) := splitEntries entries order digest
            if dryRun || report.removed = [] then (.ok report, layout)
            else
              match writeIndex codec layout keep committed with
              | (.error failure, layout) => (.error failure, layout)
              | (.ok _, layout) => (.ok report, layout)

end Unlisting

end Golusoris.Registry.Delete
