import Mathlib.Tactic.Common

/-!
# Keyed trees in layers

A tree holds a value or, by key, further trees. Laying one tree over another
keeps what the upper one has and shows the lower one where the upper is silent.
What a whole stack of layers shows at a path is what the last layer says that
has anything to say of the path: `find_loads`.
-/

namespace Golusoris.Lib

inductive Tree (Key Value : Type) where
  | absent
  | leaf (value : Value)
  | node (child : Key → Tree Key Value)

/-- What stands at a path, without what is below it. -/
inductive Content (Value : Type) where
  | leaf (value : Value)
  | node
  deriving DecidableEq

namespace Tree

variable {Key Value : Type}

def empty : Tree Key Value := .node fun _ => .absent

/-- Lay `upper` over `lower`: two nodes are joined, anything else of `upper` replaces. -/
def merge : Tree Key Value → Tree Key Value → Tree Key Value
  | .absent, lower => lower
  | .leaf value, _ => .leaf value
  | .node child, .node below => .node fun key => (child key).merge (below key)
  | .node child, .leaf _ => .node child
  | .node child, .absent => .node child

/-- What a tree says of a path: nothing, or what stands there, or (below a leaf)
that nothing does. -/
def mention : Tree Key Value → List Key → Option (Option (Content Value))
  | .absent, _ => none
  | .leaf value, [] => some (some (.leaf value))
  | .leaf _, _ :: _ => some none
  | .node _, [] => some (some .node)
  | .node child, key :: path => (child key).mention path

def find (tree : Tree Key Value) (path : List Key) : Option (Content Value) := (tree.mention path).join

section Chains

variable [DecidableEq Key]

/-- The tree with one value, at a path. -/
def single (value : Value) : List Key → Tree Key Value
  | [] => .leaf value
  | key :: path => .node fun other => if other = key then single value path else .absent

end Chains

@[simp] theorem find_absent (path : List Key) : (absent : Tree Key Value).find path = none := by
  cases path <;> rfl

theorem find_node_cons (child : Key → Tree Key Value) (key : Key) (path : List Key) :
    (node child).find (key :: path) = (child key).find path := rfl

theorem find_empty (key : Key) (path : List Key) :
    (empty : Tree Key Value).find (key :: path) = none := by
  rw [empty, find_node_cons, find_absent]

/-- Trees that show the same at every path are equal. -/
theorem ext_find {left right : Tree Key Value} (same : ∀ path, left.find path = right.find path) :
    left = right := by
  induction left generalizing right with
  | absent =>
    cases right with
    | absent => rfl
    | leaf _ | node _ => cases same []
  | leaf value =>
    cases right with
    | absent | node _ => cases same []
    | leaf other =>
      cases same []
      rfl
  | node child ih =>
    cases right with
    | absent | leaf _ => cases same []
    | node other =>
      congr 1
      ext key
      apply ih
      intro path
      exact same (key :: path)

/-- A merged tree shows what the upper tree says, and the lower tree elsewhere. -/
theorem find_merge (upper lower : Tree Key Value) (path : List Key) :
    (upper.merge lower).find path = (upper.mention path).elim (lower.find path) id := by
  induction path generalizing upper lower with
  | nil =>
    cases upper with
    | absent => rfl
    | leaf value => rfl
    | node child => cases lower <;> rfl
  | cons key path ih =>
    cases upper with
    | absent => rfl
    | leaf value => rfl
    | node child =>
      cases lower with
      | node below =>
        rw [merge, find_node_cons, ih]
        rfl
      | absent =>
        rw [merge, find_node_cons, find_absent, mention]
        cases said : (child key).mention path with
        | none | some _ => rw [find, said]; rfl
      | leaf value =>
        rw [merge, find_node_cons, mention]
        cases said : (child key).mention path with
        | none | some _ => rw [find, said]; rfl

/-- Layers laid over a tree one after the other. -/
def loads (layers : List (Tree Key Value)) (tree : Tree Key Value) : Tree Key Value :=
  layers.foldl (fun tree layer => layer.merge tree) tree

@[simp] theorem loads_nil (tree : Tree Key Value) : loads [] tree = tree := rfl

@[simp] theorem loads_cons (layer : Tree Key Value) (layers : List (Tree Key Value))
    (tree : Tree Key Value) : loads (layer :: layers) tree = loads layers (layer.merge tree) := rfl

theorem loads_append (first second : List (Tree Key Value)) (tree : Tree Key Value) :
    loads (first ++ second) tree = loads second (loads first tree) :=
  List.foldl_append

/-- What the last layer that says something of the path says. -/
def latest (path : List Key) : List (Tree Key Value) → Option (Option (Content Value))
  | [] => none
  | layer :: layers => (latest path layers).or (layer.mention path)

theorem find_loads (layers : List (Tree Key Value)) (tree : Tree Key Value) (path : List Key) :
    (loads layers tree).find path = ((latest path layers).elim (tree.find path) id) := by
  induction layers generalizing tree with
  | nil => rfl
  | cons layer layers ih =>
    rw [loads_cons, ih, find_merge, latest]
    cases latest path layers <;> rfl

theorem latest_append (path : List Key) (first second : List (Tree Key Value)) :
    latest path (first ++ second) = (latest path second).or (latest path first) := by
  induction first with
  | nil => rw [List.nil_append, latest, Option.or_none]
  | cons layer layers ih => rw [List.cons_append, latest, ih, latest, Option.or_assoc]

theorem latest_eq_none {path : List Key} {layers : List (Tree Key Value)} :
    latest path layers = none ↔ ∀ layer ∈ layers, layer.mention path = none := by
  induction layers with
  | nil => simp [latest]
  | cons layer layers ih =>
    rw [latest, Option.or_eq_none_iff, ih, List.forall_mem_cons]
    exact and_comm

/-- What the stack shows at a path some layer says. -/
theorem mem_of_latest {path : List Key} {layers : List (Tree Key Value)}
    {content : Option (Content Value)} (said : latest path layers = some content) :
    ∃ layer ∈ layers, layer.mention path = some content := by
  induction layers with
  | nil => cases said
  | cons layer layers ih =>
    rw [latest, Option.or_eq_some_iff] at said
    cases said with
    | inl above =>
      obtain ⟨layer, listed, same⟩ := ih above
      exact ⟨layer, List.mem_cons_of_mem _ listed, same⟩
    | inr here => exact ⟨layer, List.mem_cons_self, here.2⟩

end Tree

end Golusoris.Lib
