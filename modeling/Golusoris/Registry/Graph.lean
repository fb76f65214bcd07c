import Golusoris.Registry.Layout

/-!
# Copying a graph of manifests

This module embeds `copyGraph` of `container/registry/graph.go`. A plan is made
first: it reads the manifests below the root and those below the referrers that
the source reports for them. The run then stores blobs and manifests in the
order of the plan.

A source answers for a digest at most once in a copy, so its answers are a
function, failures included. The context is one reason for them to fail. A sink
is any store that takes or refuses what it is given. The decoders and the test
for layers that stay behind are parameters.
-/

namespace Golusoris.Registry.Graph

open Lib

/-- A descriptor, as far as a copy reads it. -/
structure Described extends Descriptor where
  size : Int
  artifactType : Bytes := []
  deriving DecidableEq, Repr

/-- The fields of a manifest that a listing of referrers reports. -/
structure ReferrerFields where
  artifactType : Bytes := []
  configMediaType : Bytes := []
  subject : Option Hash := none
  deriving DecidableEq, Repr

def ReferrerFields.effectiveType (fields : ReferrerFields) : Bytes :=
  if fields.artifactType ≠ [] then fields.artifactType else fields.configMediaType

/-- The parsers of other packages, with a manifest as its config and its layers. -/
structure Codec where
  parseIndexManifest : Bytes → Option (List Described)
  parseManifest : Bytes → Option (Described × List Described)
  referrerFields : Bytes → Option ReferrerFields
  isDistributable : Bytes → Bool

structure Limits extends Registry.Limits where
  blobBytes : Nat
  totalBytes : Nat
  referrers : Nat

inductive Role where
  | child
  | root
  | referrer
  deriving DecidableEq, Repr

inductive CopyError (Failure : Type) where
  | tooManyManifests (limit : Int)
  | wantManifest (hash : Hash) (mediaType : Bytes)
  | manifestTooLarge (hash : Hash) (size : Int)
  | sizeMismatch (hash : Hash) (length : Nat) (size : Int)
  | totalTooLarge
  | decodeManifest (hash : Hash)
  | tooManyEntries (hash : Hash) (count : Nat)
  | unsupportedDigest (hash : Hash)
  | blobTooLarge (hash : Hash) (size : Int)
  | tooManySteps (bound : Int)
  | decodeReferrer (hash : Hash)
  | store (failure : Failure)
  deriving DecidableEq, Repr

/-- What serves the content, by digest. -/
structure Source (Failure : Type) where
  manifest : Hash → Except Failure Bytes
  referrers : Hash → Except Failure (List Described)

/-- What stores the content. A call may change the store and fail all the same. -/
structure Sink (Failure Store : Type) where
  putBlob : Described → Store → Except Failure Unit × Store
  putManifest : Described → Bytes → Role → Store → Except Failure Unit × Store

structure Node where
  desc : Described
  raw : Bytes
  blobs : List Described := []
  kids : List Described := []
  role : Role := .child
  deriving DecidableEq, Repr

structure Frame where
  d : Described
  done : Bool := false
  deriving DecidableEq, Repr

/-- The plan of a copy: its nodes and how many they are, the order as digests of
nodes, and the digests of the blobs with the bytes counted so far. -/
structure Plan where
  nodes : Hash → Option Node := fun _ => none
  loaded : Nat := 0
  order : List Hash := []
  blobs : List Hash := []
  total : Int := 0

/-- The value that 64 bits hold of an integer. -/
def int64 (value : Int) : Int := (Int64.ofInt value).toInt

theorem int64_of_lt {value : Nat} (small : value < UInt64.size / 2) : int64 value = value := by
  have size : UInt64.size / 2 = 9223372036854775808 := rfl
  rw [int64]
  apply Int64.toInt_ofInt_of_le
  · omega
  · omega

theorem int64_le (value : Nat) : int64 value ≤ value := by
  have size : Int64.size = 18446744073709551616 := rfl
  rw [int64, Int64.toInt_ofInt, size, Int.bmod_def]
  split <;> omega

/-- The most manifests of one copy. -/
def Limits.maxManifests (limits : Limits) : Int := int64 (1 + limits.blobs + limits.referrers)

def Limits.maxSteps (limits : Limits) : Int :=
  int64 (2 * limits.maxManifests * (limits.blobs + 1))

section Content

variable {Failure : Type} (codec : Codec) (limits : Limits)

def indexContent (hash : Hash) (raw : Bytes) :
    Except (CopyError Failure) (List Described × List Described) :=
  match codec.parseIndexManifest raw with
  | none => .error (.decodeManifest hash)
  | some entries =>
      if limits.blobs < entries.length then .error (.tooManyEntries hash entries.length)
      else
        .ok (entries.filter fun entry => isManifest entry.mediaType,
          entries.filter fun entry => !isManifest entry.mediaType)

/-- `contentOf`, with the sizes that a copy reads. -/
def contentOf (hash : Hash) (mediaType raw : Bytes) :
    Except (CopyError Failure) (List Described × List Described) :=
  if isIndex mediaType then indexContent codec limits hash raw
  else if !isImage mediaType then .error (.wantManifest hash mediaType)
  else
    match codec.parseManifest raw with
    | none => .error (.decodeManifest hash)
    | some (config, layers) =>
        if limits.blobs < layers.length then .error (.tooManyEntries hash layers.length)
        else .ok ([], config :: layers)

def Plan.count (plan : Plan) (size : Int) : Except (CopyError Failure) Plan :=
  let total := int64 (plan.total + size)
  if (limits.totalBytes : Int) < total then .error .totalTooLarge
  else .ok { plan with total := total }

/-- `addBlob`: layers that are not distributable stay where they are. -/
def addBlob (state : Plan × Node) (blob : Described) :
    Except (CopyError Failure) (Plan × Node) :=
  let (plan, node) := state
  if !codec.isDistributable blob.mediaType then .ok (plan, node)
  else if !checkDigest blob.digest then .error (.unsupportedDigest blob.digest)
  else if blob.size < 0 || (limits.blobBytes : Int) < blob.size then
    .error (.blobTooLarge blob.digest blob.size)
  else
    let node := { node with blobs := node.blobs ++ [blob] }
    if blob.digest ∈ plan.blobs then .ok (plan, node)
    else do
      let plan ← Plan.count limits { plan with blobs := blob.digest :: plan.blobs } blob.size
      return (plan, node)

def addContent (plan : Plan) (node : Node) : Except (CopyError Failure) (Plan × Node) := do
  let (kids, blobs) ← contentOf codec limits node.desc.digest node.desc.mediaType node.raw
  blobs.foldlM (addBlob codec limits) (plan, { node with kids := kids })

end Content

section Planning

variable {Failure : Type} (codec : Codec) (limits : Limits) (source : Source Failure)

/-- An answer of the source. -/
def answer {α : Type} : Except Failure α → Except (CopyError Failure) α
  | .ok value => .ok value
  | .error failure => .error (.store failure)

def load (plan : Plan) (d : Described) : Except (CopyError Failure) (Plan × Node) := do
  if limits.maxManifests ≤ plan.loaded then .error (.tooManyManifests limits.maxManifests)
  else if !isManifest d.mediaType then .error (.wantManifest d.digest d.mediaType)
  else if d.size < 0 || (limits.manifestBytes : Int) < d.size then
    .error (.manifestTooLarge d.digest d.size)
  else
    let raw ← answer (source.manifest d.digest)
    if (raw.length : Int) ≠ d.size then .error (.sizeMismatch d.digest raw.length d.size)
    else
      let plan ← Plan.count limits plan d.size
      addContent codec limits plan { desc := d, raw := raw }

/-- `visit`: emit a manifest whose children are planned, or load a new one and plan
its children before it. -/
def planVisit (plan : Plan) (frame : Frame) : Except (CopyError Failure) (List Frame × Plan) :=
  if frame.done then .ok ([], { plan with order := plan.order ++ [frame.d.digest] })
  else
    match plan.nodes frame.d.digest with
    | some _ => .ok ([], plan)
    | none => do
        let (plan, node) ← load codec limits source plan frame.d
        return ({ d := frame.d, done := true } :: node.kids.map fun kid => { d := kid },
          { plan with
            nodes := Function.update plan.nodes frame.d.digest (some node)
            loaded := plan.loaded + 1 })

def walk (plan : Plan) (root : Described) : Except (CopyError Failure) Plan :=
  walkFrames (.tooManySteps limits.maxSteps) (planVisit codec limits source)
    limits.maxSteps.toNat plan [{ d := root }]

/-- Change a node that is planned. -/
def Plan.modify (plan : Plan) (hash : Hash) (change : Node → Node) : Plan :=
  { plan with nodes := Function.update plan.nodes hash ((plan.nodes hash).map change) }

/-- The manifest itself names the type of the artifact. -/
def addReferrer (plan : Plan) (referrer : Described) : Except (CopyError Failure) Plan :=
  match plan.nodes referrer.digest with
  | some _ => .ok plan
  | none => do
      let plan ← walk codec limits source plan referrer
      let plan := plan.modify referrer.digest fun node => { node with role := .referrer }
      match (plan.nodes referrer.digest).bind fun node => codec.referrerFields node.raw with
      | none => .error (.decodeReferrer referrer.digest)
      | some fields =>
          return plan.modify referrer.digest fun node =>
            { node with desc := { node.desc with artifactType := fields.effectiveType } }

def addReferrersOf (plan : Plan) (subject : Hash) : Except (CopyError Failure) Plan := do
  let referrers ← answer (source.referrers subject)
  referrers.foldlM (addReferrer codec limits source) plan

/-- `addReferrers`: the referrers of every manifest planned so far. -/
def addReferrers (plan : Plan) : Except (CopyError Failure) Plan :=
  plan.order.foldlM (addReferrersOf codec limits source) plan

/-- The plan of `copyGraph`. -/
def makePlan (root : Described) : Except (CopyError Failure) Plan := do
  let plan ← walk codec limits source {} root
  addReferrers codec limits source
    (plan.modify root.digest fun node => { node with role := .root })

end Planning

section Running

variable {Failure Store : Type} (sink : Sink Failure Store)

/-- Store the blobs that were not sent before. -/
def putBlobs (sent : List Hash) : List Described → Store →
    Except (CopyError Failure) (List Hash) × Store
  | [], store => (.ok sent, store)
  | blob :: blobs, store =>
      if blob.digest ∈ sent then putBlobs sent blobs store
      else
        match sink.putBlob blob store with
        | (.error failure, store) => (.error (.store failure), store)
        | (.ok _, store) => putBlobs (blob.digest :: sent) blobs store

/-- `run` from some node on. -/
def runNodes (sent : List Hash) : List Node → Store → Except (CopyError Failure) Unit × Store
  | [], store => (.ok (), store)
  | node :: nodes, store =>
      match putBlobs sink sent node.blobs store with
      | (.error failure, store) => (.error failure, store)
      | (.ok sent, store) =>
          match sink.putManifest node.desc node.raw node.role store with
          | (.error failure, store) => (.error (.store failure), store)
          | (.ok _, store) => runNodes sent nodes store

def Plan.run (plan : Plan) (store : Store) : Except (CopyError Failure) Unit × Store :=
  runNodes sink [] (plan.order.filterMap plan.nodes) store

/-- `copyGraph`; the outcome and the store it leaves. -/
def copyGraph (codec : Codec) (limits : Limits) (source : Source Failure) (root : Described)
    (store : Store) : Except (CopyError Failure) Unit × Store :=
  match makePlan codec limits source root with
  | .error failure => (.error failure, store)
  | .ok plan => plan.run sink store

end Running

end Golusoris.Registry.Graph
