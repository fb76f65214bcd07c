import Golusoris.Lib.JsonValue
import Golusoris.Lib.Lists
import Mathlib

/-!
# Search over several backends

`MultiSearcher` hands a query to all its backends, merges the hits of those that
answer, and cuts the page out of the merged hits. The backends answer in any order;
their answers are kept by index. Scores are those of any linear order.
-/

namespace Golusoris.Search

open Golusoris.Lib

/-- The values of a document. -/
inductive Field (Other : Type) where
  | text (value : Bytes)
  | other (value : Other)
  deriving DecidableEq

structure Hit (Score Other : Type) where
  document : List (Bytes × Field Other)
  score : Score
  highlight : List (Bytes × Bytes)
  deriving DecidableEq

structure Results (Score Other : Type) where
  hits : List (Hit Score Other) := []
  total : Nat := 0
  page : Int := 0
  took : Int := 0
  deriving DecidableEq

/-- The part of a query that is read here. -/
structure Query where
  limit : Int
  offset : Int

/-- A backend, for one collection and one text to look for. -/
abbrev Searcher (Score Other Failure : Type) := Query → Results Score Other × Option Failure

structure MultiSearcher (Score Other Failure : Type) where
  backends : List (Searcher Score Other Failure)
  failFast : Bool

structure BackendResult (Score Other Failure : Type) where
  idx : Int
  results : Results Score Other
  err : Option Failure

/-- The error when no backend answers, with the indexes and the errors of the backends. -/
structure AllBackendsFailed (Failure : Type) where
  causes : List (Int × Failure)
  deriving DecidableEq

section

variable {Score Other Failure : Type}

/-- The text under the key `id`, or nothing. -/
def hitID (hit : Hit Score Other) : Bytes :=
  match hit.document.lookup (textBytes "id") with
  | some (.text id) => id
  | _ => []

structure HitMerger (Score Other : Type) where
  byID : Bytes → Option (Hit Score Other)
  order : List Bytes
  noID : List (Hit Score Other)

def newHitMerger : HitMerger Score Other := ⟨fun _ => none, [], []⟩

def HitMerger.put (merger : HitMerger Score Other) (id : Bytes) (hit : Hit Score Other) :
    Bytes → Option (Hit Score Other) :=
  fun other => if other = id then some hit else merger.byID other

variable [LinearOrder Score]

/-- One round of the loop of `add`. -/
def HitMerger.addHit (merger : HitMerger Score Other) (hit : Hit Score Other) :
    HitMerger Score Other :=
  if hitID hit = [] then { merger with noID := merger.noID ++ [hit] }
  else
    match merger.byID (hitID hit) with
    | none =>
        { merger with byID := merger.put (hitID hit) hit, order := merger.order ++ [hitID hit] }
    | some prev =>
        if prev.score < hit.score then { merger with byID := merger.put (hitID hit) hit }
        else merger

def HitMerger.add (merger : HitMerger Score Other) (hits : List (Hit Score Other)) :
    HitMerger Score Other :=
  hits.foldl HitMerger.addHit merger

def HitMerger.len (merger : HitMerger Score Other) : Nat :=
  merger.order.length + merger.noID.length

/-- The order of the merged hits. -/
def less (first second : Hit Score Other) : Bool :=
  if first.score ≠ second.score then second.score < first.score
  else decide (hitID first < hitID second)

/-- The hits with an ID, in their order. -/
def HitMerger.ranked (merger : HitMerger Score Other) : List (Hit Score Other) :=
  (merger.order.filterMap merger.byID).mergeSort fun first second => !less second first

def HitMerger.sorted (merger : HitMerger Score Other) : List (Hit Score Other) :=
  merger.ranked ++ merger.noID

omit [LinearOrder Score] in
def paginate (hits : List (Hit Score Other)) (offset limit : Int) : List (Hit Score Other) :=
  let rest := if 0 < offset then hits.drop offset.toNat else hits
  if 0 < limit ∧ limit < rest.length then rest.take limit.toNat else rest

/-- What a search waits for: the answer of a backend, or the end of its context. -/
inductive Arrival (Failure : Type) where
  | answer (idx : Nat)
  | cancelled (cause : Failure)

omit [LinearOrder Score] in
/-- Every backend writes its own place; the search waits for all of them. -/
def fanOutAll (backends : List (Searcher Score Other Failure)) (query : Query) :
    List (Arrival Failure) → List (BackendResult Score Other Failure) →
    List (BackendResult Score Other Failure)
  | [], out => out
  | .cancelled _ :: arrivals, out => fanOutAll backends query arrivals out
  | .answer idx :: arrivals, out =>
      match backends[idx]? with
      | none => fanOutAll backends query arrivals out
      | some backend =>
          let (results, err) := backend query
          fanOutAll backends query arrivals (out.set idx ⟨idx, results, err⟩)

omit [LinearOrder Score] in
/-- The first error ends the search, and so does the end of the context. -/
def fanOutFailFast (backends : List (Searcher Score Other Failure)) (query : Query) :
    List (Arrival Failure) → List (BackendResult Score Other Failure) →
    List (BackendResult Score Other Failure)
  | [], out => out
  | .cancelled cause :: _, _ => [⟨-1, {}, some cause⟩]
  | .answer idx :: arrivals, out =>
      match backends[idx]? with
      | none => fanOutFailFast backends query arrivals out
      | some backend =>
          match backend query with
          | (results, some err) => [⟨idx, results, some err⟩]
          | (results, none) =>
              fanOutFailFast backends query arrivals (out.set idx ⟨idx, results, none⟩)

omit [LinearOrder Score] in
def MultiSearcher.fanOut (searcher : MultiSearcher Score Other Failure) (query : Query)
    (arrivals : List (Arrival Failure)) : List (BackendResult Score Other Failure) :=
  let out := List.replicate searcher.backends.length ⟨0, {}, none⟩
  if searcher.failFast then fanOutFailFast searcher.backends query arrivals out
  else fanOutAll searcher.backends query arrivals out

def MultiSearcher.search (searcher : MultiSearcher Score Other Failure) (query : Query)
    (arrivals : List (Arrival Failure)) : Except (AllBackendsFailed Failure) (Results Score Other) :=
  if searcher.backends.isEmpty then .ok {}
  else
    let out := searcher.fanOut query arrivals
    let answers := out.filter fun result => result.err.isNone
    let merged := answers.foldl (fun merger result => merger.add result.results.hits) newHitMerger
    let took := answers.foldl (fun took result => max took result.results.took) 0
    if answers.isEmpty then
      .error ⟨out.filterMap fun result => result.err.map fun cause => (result.idx, cause)⟩
    else
      .ok { hits := paginate merged.sorted query.offset query.limit, total := merged.len, took }

end

end Golusoris.Search
