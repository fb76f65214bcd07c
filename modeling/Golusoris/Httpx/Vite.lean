import Golusoris.Lib.Lists
import Golusoris.Lib.Preorder
import Golusoris.Lib.Utf8

/-!
# Stylesheets of a Vite entry

`collectCSS` of `httpx/vite` walks the imports of an entry with a stack of its own and
marks an entry when it is popped. It returns the stylesheets in the order of the
recursive walk, and its bound on rounds is never met early.
-/

namespace Golusoris.Httpx.Vite

open Lib
open Lib.Preorder (Walk edgesLeft)

/-- What the walk reads of a manifest entry. -/
structure Entry where
  css : List Bytes
  imports : List Bytes

/-- `map[string]Entry`: the entries by source path, in the order of some iteration. -/
structure Manifest where
  entries : List (Bytes × Entry)
  distinct : (entries.map Prod.fst).Nodup

namespace Manifest

variable (manifest : Manifest)

def entry (src : Bytes) : Option Entry := manifest.entries.lookup src

/-- `out` and the set of what it holds. -/
structure Sheets where
  out : List Bytes := []
  seenCSS : List Bytes := []

def Sheets.add (sheets : Sheets) (css : Bytes) : Sheets :=
  if css ∈ sheets.seenCSS then sheets else ⟨sheets.out ++ [css], css :: sheets.seenCSS⟩

/-- `slices.Backward`, so that the first import is on top. -/
def push (imports stack : List Bytes) : List Bytes :=
  imports.reverse.foldl (fun stack v => v :: stack) stack

/-- The loop: what was collected, and the stack that is left. The head of `stack` is the
end of the slice. -/
def rounds : Nat → List Bytes → Sheets → List Bytes → Sheets × List Bytes
  | _, _, sheets, [] => (sheets, [])
  | 0, _, sheets, stack => (sheets, stack)
  | limit + 1, seen, sheets, cur :: stack =>
      if cur ∈ seen then rounds limit seen sheets stack
      else
        match manifest.entry cur with
        | none => rounds limit (cur :: seen) sheets stack
        | some e => rounds limit (cur :: seen) (e.css.foldl Sheets.add sheets) (push e.imports stack)

def limit : Nat := 1 + (manifest.entries.map fun pair => pair.2.imports.length).sum

def collect (src : Bytes) (seen : List Bytes) : Sheets × List Bytes :=
  manifest.rounds manifest.limit seen {} [src]

def collectCSS (src : Bytes) (seen : List Bytes) : List Bytes := (manifest.collect src seen).1.out

def css (src : Bytes) : List Bytes := manifest.collectCSS src []

/-- A missing entry has no imports and no stylesheets. -/
def imports (src : Bytes) : List Bytes := (manifest.entry src).elim [] Entry.imports

def stylesheets (src : Bytes) : List Bytes := (manifest.entry src).elim [] Entry.css

theorem push_eq (imports stack : List Bytes) : push imports stack = imports ++ stack := by
  rw [push, List.foldl_reverse]
  exact List.foldr_cons_eq_append'

/-- The rounds are the loop of the walk, and add the stylesheets of what it emits. -/
theorem rounds_eq (limit : Nat) (seen : List Bytes) (sheets : Sheets) (stack : List Bytes) :
    manifest.rounds limit seen sheets stack =
      let (order, left) := Preorder.loop manifest.imports limit seen stack
      ((order.flatMap manifest.stylesheets).foldl Sheets.add sheets, left) := by
  induction limit generalizing seen sheets stack with
  | zero => cases stack <;> rfl
  | succ limit ih =>
    cases stack with
    | nil => rfl
    | cons cur stack =>
      rw [rounds, Preorder.loop]
      by_cases visited : cur ∈ seen
      · rw [if_pos visited, if_pos visited, ih]
      · rw [if_neg visited, if_neg visited]
        cases found : manifest.entry cur with
        | none =>
          simp only [imports, stylesheets, found, ih, Option.elim_none, List.flatMap_cons, List.nil_append]
        | some e =>
          simp only [imports, stylesheets, found, ih, push_eq, Option.elim_some, List.flatMap_cons,
            List.foldl_append]

theorem Sheets.foldl_add (files : List Bytes) {sheets : Sheets}
    (kept : ∀ file, file ∈ sheets.seenCSS ↔ file ∈ sheets.out) :
    (files.foldl Sheets.add sheets).out =
      sheets.out ++ (files.filter fun file => file ∉ sheets.out).eraseDups := by
  induction files generalizing sheets with
  | nil => simp
  | cons css files ih =>
    rw [List.foldl_cons]
    by_cases known : css ∈ sheets.out
    · have same : sheets.add css = sheets := if_pos ((kept css).mpr known)
      rw [same, ih kept, List.filter_cons_of_neg (by simpa using known)]
    · have added : sheets.add css = ⟨sheets.out ++ [css], css :: sheets.seenCSS⟩ :=
        if_neg fun found => known ((kept css).mp found)
      have later : ∀ file, file ∈ css :: sheets.seenCSS ↔ file ∈ sheets.out ++ [css] := by
        intro file
        rw [List.mem_cons, List.mem_append, List.mem_singleton, kept, or_comm]
      rw [added, ih later, List.filter_cons_of_pos (by simpa using known), List.eraseDups_cons,
        List.filter_filter, List.append_assoc, List.singleton_append]
      congr 3
      refine List.filter_congr fun file _ => ?_
      simp [not_or, Bool.and_comm, beq_eq_decide]

theorem entry_of_mem {pair : Bytes × Entry} (member : pair ∈ manifest.entries) :
    manifest.entry pair.1 = some pair.2 := by
  obtain ⟨before, after, shape⟩ := List.append_of_mem member
  refine List.lookup_eq_some_iff.mpr ⟨before, after, shape, fun other earlier => ?_⟩
  have distinct := manifest.distinct
  rw [shape, List.map_append, List.map_cons] at distinct
  have apart := (List.nodup_append.mp distinct).2.2 other.1 (List.mem_map_of_mem earlier) pair.1 List.mem_cons_self
  exact bne_iff_ne.mpr apart.symm

/-- The bound is the root and every edge. -/
theorem limit_eq : manifest.limit = 1 + edgesLeft manifest.imports (manifest.entries.map Prod.fst)
    [] := by
  rw [limit, Preorder.edgesLeft_nil, List.map_map]
  congr 2
  refine List.map_congr_left fun pair member => ?_
  rw [Function.comp_apply, imports, manifest.entry_of_mem member, Option.elim_some]

theorem imports_missing {name : Bytes} (missing : name ∉ manifest.entries.map Prod.fst) :
    manifest.imports name = [] := by
  have none : manifest.entry name = none := by
    refine List.lookup_eq_none_iff.mpr fun pair member => bne_iff_ne.mpr ?_
    rintro rfl
    exact missing (List.mem_map_of_mem member)
  rw [imports, none, Option.elim_none]

theorem mem_stylesheets {name file : Bytes} :
    file ∈ manifest.stylesheets name ↔ ∃ e, manifest.entry name = some e ∧ file ∈ e.css := by
  rw [stylesheets]
  cases manifest.entry name <;> simp

/-- The loop ends with an empty stack, and returns the stylesheets of the recursive walk
in its order, each once: those of all that the entry imports in any number of steps. -/
theorem collectCSS_walk (src : Bytes) :
    ∃ order, (∀ names, Walk manifest.imports [] [src] names ↔ names = order) ∧
      (manifest.collect src []).2 = [] ∧
      manifest.css src = (order.flatMap manifest.stylesheets).eraseDups ∧
      (manifest.css src).Nodup ∧
      ∀ file, file ∈ manifest.css src ↔
        ∃ name e, Relation.ReflTransGen (fun importer name => name ∈ manifest.imports importer) src name ∧
          manifest.entry name = some e ∧ file ∈ e.css := by
  have enough : edgesLeft manifest.imports (manifest.entries.map Prod.fst) [] + [src].length ≤
      manifest.limit := by
    rw [limit_eq, List.length_singleton]
    exact Nat.le_of_eq (Nat.add_comm _ _)
  obtain ⟨order, walk, looped⟩ :=
    Preorder.loop_walk manifest.distinct (fun _ => manifest.imports_missing) enough
  have collected : manifest.collect src [] =
      ((order.flatMap manifest.stylesheets).foldl Sheets.add {}, []) := by
    rw [collect, rounds_eq, looped]
  have returned : manifest.css src = (order.flatMap manifest.stylesheets).eraseDups := by
    rw [css, collectCSS, collected, Sheets.foldl_add _ (by simp)]
    simp
  refine ⟨order, fun names => ⟨fun again => again.unique walk, ?_⟩, ?_, returned, ?_, fun file => ?_⟩
  · rintro rfl
    exact walk
  · rw [collected]
  · rw [returned]
    exact nodup_eraseDups _
  · rw [returned, List.mem_eraseDups, List.mem_flatMap]
    simp only [walk.mem_iff, mem_stylesheets, exists_and_left]

end Manifest

end Golusoris.Httpx.Vite
