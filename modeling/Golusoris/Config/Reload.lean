import Golusoris.Config.Sources
import Golusoris.Lib.Machine

/-!
# Reloading changed files

Source: `New`, `overlay`, `reload`, `watchFile` and `startHUP` of
`core/config/config.go`. A reload lays the changed file over a tree that already
holds every layer and then lays the layers above the files once more. What the
tree shows at a key path is what the last layer laid there says, so a reload
agrees with a new start when the file it lays last is also the last in the list
that mentions the path, and when no path loses the only file that gave it.
-/

set_option linter.dupNamespace false

namespace Golusoris.Config

open List
open Option (elim_none elim_some)
open Lib (Bytes Content Machine Tree)

structure Config (Value : Type) where
  k : Tree Bytes Value
  envValues : List (Bytes × Bytes)

/-- What a failed reload logs. -/
inductive Warning (Failure : Type) where
  | reloadFailed (path : Bytes) (cause : Failure)
  | reapplyFailed (path : Bytes) (cause : Error Failure)

section Functions

variable {Failure Value : Type} (runtime : Runtime Failure Value) (host : Host Failure)
  (opts : Options) (files : Files Failure)

def overlay (order : Order) (c : Config Value) : Config Value × Option (Error Failure) :=
  let loading := higher runtime host opts order
  let k := Tree.loads loading.layers c.k
  match loading.error with
  | some failed => ({ c with k := k }, some failed)
  | none => (⟨k, capturedEnv runtime host opts⟩, none)

/-- The tree a file's content holds. -/
def readLayer (path : Bytes) (content : Except Failure Bytes) : Except Failure (Tree Bytes Value) :=
  match parserFor runtime path, content with
  | none, _ => .error runtime.noParser
  | some _, .error cause => .error cause
  | some parser, .ok bytes => (runtime.parse parser bytes).map .node

def loadFiles : List Bytes → Tree Bytes Value → Except (Error Failure) (Tree Bytes Value)
  | [], k => .ok k
  | path :: paths, k =>
      match files path with
      | none => loadFiles paths k
      | some content =>
          if parserFor runtime path = none then .error (.unsupportedExtension path)
          else match readLayer runtime path content with
            | .error cause => .error (.load path cause)
            | .ok layer => loadFiles paths (layer.merge k)

def new (order : Order) : Except (Error Failure) (Config Value) :=
  let opts := opts.withDelimiter
  match (opts.validate : Except (Error Failure) Unit) with
  | .error failed => .error failed
  | .ok () =>
      match loadFiles runtime files opts.files .empty with
      | .error failed => .error failed
      | .ok k =>
          match overlay runtime host opts order ⟨k, []⟩ with
          | (_, some failed) => .error failed
          | (c, none) => .ok c

def reload (order : Order) (path : Bytes) (content : Except Failure Bytes) (c : Config Value) :
    Config Value × Option (Warning Failure) :=
  match readLayer runtime path content with
  | .error cause => (c, some (.reloadFailed path cause))
  | .ok layer =>
      match overlay runtime host opts order { c with k := layer.merge c.k } with
      | (c, some failed) => (c, some (.reapplyFailed path failed))
      | (c, none) => (c, none)

/-- A hangup signal reloads every file that exists. -/
def reloadAll (orders : Nat → Order) : List Bytes → Config Value → Config Value
  | [], c => c
  | path :: paths, c =>
      match files path with
      | none => reloadAll orders paths c
      | some content =>
          reloadAll (fun n => orders (n + 1)) paths (reload runtime host opts (orders 0) path content c).1

end Functions

variable {Failure Value : Type} (runtime : Runtime Failure Value) (host : Host Failure)
  (opts : Options)

def put (files : Files Failure) (path bytes : Bytes) : Files Failure :=
  fun other => if other = path then some (.ok bytes) else files other

structure State (Failure Value : Type) where
  files : Files Failure
  config : Config Value

/-- A file's content changes, and the watcher of the file or a hangup reloads. -/
inductive Event where
  | watch (path bytes : Bytes) (order : Order)
  | hangup (path bytes : Bytes) (orders : Nat → Order)

/-- A file that can be read and parsed. -/
def Readable (files : Files Failure) (path : Bytes) : Prop :=
  ∃ content layer, files path = some content ∧ readLayer runtime path content = .ok layer

inductive Step : State Failure Value → Event → State Failure Value → Prop where
  | watch {state : State Failure Value} {path bytes : Bytes} {order : Order}
      (listed : path ∈ opts.files) (readable : Readable runtime (put state.files path bytes) path) :
      Step state (.watch path bytes order) ⟨put state.files path bytes,
        (reload runtime host opts.withDelimiter order path (.ok bytes) state.config).1⟩
  | hangup {state : State Failure Value} {path bytes : Bytes} {orders : Nat → Order}
      (listed : path ∈ opts.files) (readable : Readable runtime (put state.files path bytes) path) :
      Step state (.hangup path bytes orders) ⟨put state.files path bytes,
        reloadAll runtime host opts.withDelimiter (put state.files path bytes) orders opts.files
          state.config⟩

/-- Runs of a configuration all of whose files exist. -/
def machine : Machine (State Failure Value) Event where
  Initial state := (∀ path ∈ opts.files, state.files path ≠ none) ∧
    ∃ order, new runtime host opts state.files order = .ok state.config
  Step := Step runtime host opts

/-- What a file holds; nothing where it cannot be read. -/
def fileLayer (files : Files Failure) (path : Bytes) : Tree Bytes Value :=
  match (files path).map (readLayer runtime path) with
  | some (.ok layer) => layer
  | _ => .absent

def fileLayers (files : Files Failure) : List (Tree Bytes Value) :=
  opts.files.map (fileLayer runtime files)

/-- The layers above the files of a configuration that was started with these options. -/
def higherLayers (order : Order) : List (Tree Bytes Value) :=
  (higher runtime host opts.withDelimiter order).layers

/-- No secret directory, variable or `*_FILE` variable says anything of the path. -/
def Lowly (order : Order) (path : List Bytes) : Prop :=
  ∀ layer ∈ higherLayers runtime host opts order, layer.mention path = none

/-- Reading a changed file agrees with a new start. Of the paths no higher layer mentions,
those the file mentions are not given otherwise by a later file, and those it does not
mention are given by the other files as the files gave them before. -/
structure WatchAgrees (before after : Files Failure) (order : Order) (file : Bytes) : Prop where
  mentioned : ∀ path content, Lowly runtime host opts order path →
    (fileLayer runtime after file).mention path = some content →
    Tree.latest path (fileLayers runtime opts after) = some content
  dropped : ∀ path, Lowly runtime host opts order path →
    (fileLayer runtime after file).mention path = none →
    (Tree.latest path (fileLayers runtime opts before)).join =
      (Tree.latest path (fileLayers runtime opts after)).join

/-- Reading all files agrees with a new start when no path that some file gave is left
without a layer. -/
def HangupAgrees (before after : Files Failure) (order : Order) : Prop :=
  ∀ path, Lowly runtime host opts order path →
    Tree.latest path (fileLayers runtime opts after) = none →
    (Tree.latest path (fileLayers runtime opts before)).join = none

@[simp] theorem files_withDelimiter : opts.withDelimiter.files = opts.files := by
  unfold Options.withDelimiter
  split <;> rfl

/-- Everything a start reads can be read. -/
structure Sound (files : Files Failure) : Prop where
  valid : (opts.withDelimiter.validate : Except (Error Failure) Unit) = .ok ()
  files : ∀ path ∈ opts.files, Readable runtime files path
  higher : ∀ order, (higher runtime host opts.withDelimiter order).error = none

/-- What a start gives where everything can be read. -/
def fresh (files : Files Failure) (order : Order) : Config Value :=
  ⟨Tree.loads (fileLayers runtime opts files ++ higherLayers runtime host opts order) .empty,
    capturedEnv runtime host opts.withDelimiter⟩

variable {runtime host opts} {files : Files Failure}

variable {path bytes : Bytes}

theorem fileLayer_of_readable (readable : Readable runtime files path) :
    ∃ content layer, files path = some content ∧ readLayer runtime path content = .ok layer ∧
      fileLayer runtime files path = layer ∧ layer.mention [] = some (some .node) := by
  obtain ⟨content, layer, found, read⟩ := readable
  refine ⟨content, layer, found, read, ?_, ?_⟩
  · rw [fileLayer, found, Option.map_some, read]
  · unfold readLayer at read
    split at read
    · cases read
    · cases read
    · cases parsed : runtime.parse _ _ with
      | error cause =>
        rw [parsed] at read
        cases read
      | ok child =>
        rw [parsed] at read
        cases read
        rfl

theorem parserFor_of_read {content : Except Failure Bytes} {layer : Tree Bytes Value}
    (read : readLayer runtime path content = .ok layer) : parserFor runtime path ≠ none := by
  intro missing
  unfold readLayer at read
  rw [missing] at read
  cases read

theorem loadFiles_of_readable {paths : List Bytes} (k : Tree Bytes Value)
    (readable : ∀ path ∈ paths, Readable runtime files path) :
    loadFiles runtime files paths k = .ok (Tree.loads (paths.map (fileLayer runtime files)) k) := by
  induction paths generalizing k with
  | nil => rfl
  | cons path paths ih =>
    obtain ⟨content, layer, found, read, same, -⟩ :=
      fileLayer_of_readable (readable path mem_cons_self)
    rw [loadFiles, found]
    simp only [if_neg (parserFor_of_read read), read]
    rw [ih _ fun other listed => readable other (mem_cons_of_mem _ listed), map_cons, same,
      Tree.loads_cons]

theorem readable_of_loadFiles {paths : List Bytes} {k final : Tree Bytes Value}
    (present : ∀ path ∈ paths, files path ≠ none)
    (loaded : loadFiles runtime files paths k = .ok final) :
    ∀ path ∈ paths, Readable runtime files path := by
  fun_induction loadFiles runtime files paths k with
  | case1 => simp
  | case2 path paths k missing => exact absurd missing (present path mem_cons_self)
  | case3 => cases loaded
  | case4 => cases loaded
  | case5 path paths k content found _ layer read ih =>
    intro other listed
    rcases mem_cons.mp listed with rfl | listed
    · exact ⟨content, layer, found, read⟩
    · exact ih (fun path listed => present path (mem_cons_of_mem _ listed)) loaded other listed

variable (sound : Sound runtime host opts files) (order : Order)

include sound in
theorem overlay_of_sound (c : Config Value) :
    overlay runtime host opts.withDelimiter order c =
      (⟨Tree.loads (higherLayers runtime host opts order) c.k,
        capturedEnv runtime host opts.withDelimiter⟩, none) := by
  simp only [overlay, sound.higher order, higherLayers]

include sound in
theorem new_of_sound :
    new runtime host opts files order = .ok (fresh runtime host opts files order) := by
  simp only [new, sound.valid, files_withDelimiter, loadFiles_of_readable _ sound.files,
    overlay_of_sound sound, fresh, fileLayers, Tree.loads_append]

theorem sound_of_new {order : Order} {c : Config Value}
    (present : ∀ path ∈ opts.files, files path ≠ none)
    (started : new runtime host opts files order = .ok c) : Sound runtime host opts files := by
  rw [new] at started
  simp only [files_withDelimiter] at started
  cases valid : (opts.withDelimiter.validate : Except (Error Failure) Unit) with
  | error failed =>
    rw [valid] at started
    cases started
  | ok _ =>
    rw [valid] at started
    cases loaded : loadFiles runtime files opts.files .empty with
    | error failed =>
      rw [loaded] at started
      cases started
    | ok k =>
      rw [loaded] at started
      simp only [overlay] at started
      cases ended : (higher runtime host opts.withDelimiter order).error with
      | some failed =>
        rw [ended] at started
        cases started
      | none =>
        refine ⟨valid, readable_of_loadFiles present loaded, fun other => ?_⟩
        rw [← ended]
        exact (higher_alike runtime host opts.withDelimiter other order).error

include sound in
theorem sound_put (readable : Readable runtime (put files path bytes) path) :
    Sound runtime host opts (put files path bytes) := by
  refine ⟨sound.valid, fun other listed => ?_, sound.higher⟩
  by_cases same : other = path
  · subst same
    exact readable
  · obtain ⟨content, layer, found, read⟩ := sound.files other listed
    refine ⟨content, layer, ?_, read⟩
    rw [put, if_neg same]
    exact found

include sound in
theorem reload_of_sound {content : Except Failure Bytes} (found : files path = some content)
    (readable : Readable runtime files path) (c : Config Value) :
    (reload runtime host opts.withDelimiter order path content c).1 =
      ⟨Tree.loads (higherLayers runtime host opts order) ((fileLayer runtime files path).merge c.k),
        capturedEnv runtime host opts.withDelimiter⟩ := by
  obtain ⟨other, layer, given, read, same, -⟩ := fileLayer_of_readable readable
  obtain rfl : content = other := Option.some.inj (found.symm.trans given)
  rw [reload, read, same]
  simp only [overlay_of_sound sound]

/-- Which paths the higher layers mention does not depend on the order of a map's entries. -/
theorem silent_alike (first second : Order) {path : List Bytes}
    (silent : Tree.latest path (higherLayers runtime host opts first) = none) :
    Tree.latest path (higherLayers runtime host opts second) = none := by
  rw [Tree.latest_eq_none] at silent ⊢
  intro layer laid
  apply silent
  exact (higher_alike runtime host opts.withDelimiter first second).layers.mem_iff.mpr laid

theorem find_fresh (files : Files Failure) (order : Order) (path : List Bytes) :
    (fresh runtime host opts files order).k.find path =
      (Tree.latest path (higherLayers runtime host opts order)).elim
        ((Tree.latest path (fileLayers runtime opts files)).elim (Tree.empty.find path) id) id := by
  rw [fresh, Tree.find_loads, Tree.latest_append]
  cases Tree.latest path (higherLayers runtime host opts order) <;> rfl

/-- What a file that is listed says is something the files say. -/
theorem latest_ne_none {file : Bytes} (listed : file ∈ opts.files) {path : List Bytes}
    {content : Option (Content Value)}
    (said : (fileLayer runtime files file).mention path = some content) :
    Tree.latest path (fileLayers runtime opts files) ≠ none := by
  intro silent
  have unsaid := Tree.latest_eq_none.mp silent _ (mem_map_of_mem listed)
  rw [said] at unsaid
  cases unsaid

/-- The empty tree shows nothing below its root. -/
theorem elim_empty {key : Bytes} {path : List Bytes} (said : Option (Option (Content Value))) :
    said.elim (Tree.empty.find (key :: path)) id = said.join := by
  cases said with
  | none => exact Tree.find_empty key path
  | some content => rfl

include sound in
/-- A watched reload leads to what a new start gives exactly when its condition holds. -/
theorem watch_fresh_iff (listed : path ∈ opts.files)
    (readable : Readable runtime (put files path bytes) path) (earlier order : Order) :
    (∃ other, (reload runtime host opts.withDelimiter order path (.ok bytes)
        (fresh runtime host opts files earlier)).1 =
          fresh runtime host opts (put files path bytes) other) ↔
      WatchAgrees runtime host opts files (put files path bytes) order path := by
  have after := sound_put sound readable
  obtain ⟨-, layer, -, -, layered, rooted⟩ := fileLayer_of_readable readable
  rw [reload_of_sound after order (if_pos rfl) readable]
  constructor
  · rintro ⟨other, same⟩
    have shown : ∀ key, Lowly runtime host opts order key →
        ((fileLayer runtime (put files path bytes) path).mention key).elim
            ((Tree.latest key (fileLayers runtime opts files)).elim (Tree.empty.find key) id) id =
          (Tree.latest key (fileLayers runtime opts (put files path bytes))).elim
            (Tree.empty.find key) id := by
      intro key lowly
      have silent := Tree.latest_eq_none.mpr lowly
      have found := congrArg (fun c => c.k.find key) same
      simp only at found
      rw [Tree.find_loads, silent, elim_none, Tree.find_merge, find_fresh, find_fresh,
        silent_alike order other silent, silent_alike order earlier silent, elim_none,
        elim_none] at found
      exact found
    constructor
    · intro key content lowly said
      have found := shown key lowly
      rw [said, elim_some] at found
      cases given : Tree.latest key (fileLayers runtime opts (put files path bytes)) with
      | none => exact absurd given (latest_ne_none listed said)
      | some content =>
        rw [given] at found
        exact congrArg some found.symm
    · intro key lowly said
      have found := shown key lowly
      cases key with
      | nil =>
        rw [layered, rooted] at said
        cases said
      | cons first rest =>
        rw [said, elim_none, elim_empty, elim_empty] at found
        exact found
  · intro agrees
    refine ⟨order, ?_⟩
    have tree : Tree.loads (higherLayers runtime host opts order)
        ((fileLayer runtime (put files path bytes) path).merge (fresh runtime host opts files earlier).k) =
          (fresh runtime host opts (put files path bytes) order).k := by
      apply Tree.ext_find
      intro key
      rw [Tree.find_loads, Tree.find_merge, find_fresh, find_fresh]
      cases above : Tree.latest key (higherLayers runtime host opts order) with
      | some content => rfl
      | none =>
        have lowly : Lowly runtime host opts order key := Tree.latest_eq_none.mp above
        rw [silent_alike order earlier above, elim_none, elim_none, elim_none]
        cases said : (fileLayer runtime (put files path bytes) path).mention key with
        | some content => rw [agrees.mentioned key content lowly said, elim_some, elim_some]
        | none =>
          cases key with
          | nil =>
            rw [layered, rooted] at said
            cases said
          | cons first rest =>
            rw [elim_none, elim_empty, elim_empty]
            exact agrees.dropped _ lowly said
    rw [tree]
    rfl

include sound in
/-- What the tree shows after all files were reloaded. -/
theorem reloadAll_shows (orders : Nat → Order) {paths : List Bytes} (some_ : paths ≠ [])
    (readable : ∀ path ∈ paths, Readable runtime files path) (c : Config Value) :
    ∃ order, (reloadAll runtime host opts.withDelimiter files orders paths c).envValues =
        capturedEnv runtime host opts.withDelimiter ∧
      ∀ key, (reloadAll runtime host opts.withDelimiter files orders paths c).k.find key =
        (Tree.latest key (higherLayers runtime host opts order)).elim
          ((Tree.latest key (paths.map (fileLayer runtime files))).elim (c.k.find key) id) id := by
  induction paths generalizing c orders with
  | nil => exact absurd rfl some_
  | cons path paths ih =>
    have here := readable path mem_cons_self
    have rest : ∀ other ∈ paths, Readable runtime files other :=
      fun other listed => readable other (mem_cons_of_mem _ listed)
    obtain ⟨content, layer, found, -, -, -⟩ := fileLayer_of_readable here
    rw [reloadAll, found]
    simp only
    rw [reload_of_sound sound (orders 0) found here]
    cases paths with
    | nil =>
      refine ⟨orders 0, rfl, fun key => ?_⟩
      rw [reloadAll, Tree.find_loads, Tree.find_merge]
      rfl
    | cons next paths =>
      obtain ⟨order, env, shows_⟩ := ih (fun n => orders (n + 1)) (cons_ne_nil _ _) rest
        ⟨Tree.loads (higherLayers runtime host opts (orders 0))
          ((fileLayer runtime files path).merge c.k), capturedEnv runtime host opts.withDelimiter⟩
      refine ⟨order, env, fun key => ?_⟩
      rw [shows_ key]
      cases above : Tree.latest key (higherLayers runtime host opts order) with
      | some content => rfl
      | none =>
        rw [elim_none, elim_none, Tree.find_loads, silent_alike order _ above,
          elim_none, Tree.find_merge, map_cons (a := path), Tree.latest]
        cases Tree.latest key ((next :: paths).map (fileLayer runtime files)) <;> rfl

include sound in
/-- A hangup leads to what a new start gives exactly when its condition holds. -/
theorem hangup_fresh_iff (listed : path ∈ opts.files)
    (readable : Readable runtime (put files path bytes) path) (earlier order : Order)
    (orders : Nat → Order) :
    (∃ other, reloadAll runtime host opts.withDelimiter (put files path bytes) orders opts.files
        (fresh runtime host opts files earlier) =
          fresh runtime host opts (put files path bytes) other) ↔
      HangupAgrees runtime host opts files (put files path bytes) order := by
  have after := sound_put sound readable
  obtain ⟨-, layer, -, -, layered, rooted⟩ := fileLayer_of_readable readable
  obtain ⟨last, env, shown⟩ := reloadAll_shows after orders (ne_nil_of_mem listed) after.files
    (fresh runtime host opts files earlier)
  constructor
  · rintro ⟨other, same⟩ key lowly unsaid
    have silent := Tree.latest_eq_none.mpr lowly
    have found := shown key
    rw [same, find_fresh, find_fresh, silent_alike order other silent, silent_alike order last silent,
      silent_alike order earlier silent] at found
    rw [fileLayers] at unsaid
    rw [fileLayers, unsaid, elim_none, elim_none, elim_none, elim_none, elim_none] at found
    cases key with
    | nil =>
      have said : (fileLayer runtime (put files path bytes) path).mention [] = some (some .node) := by
        rw [layered, rooted]
      exact absurd unsaid (latest_ne_none listed said)
    | cons first rest =>
      rw [elim_empty, Tree.find_empty] at found
      exact found.symm
  · intro agrees
    refine ⟨last, ?_⟩
    have tree : (reloadAll runtime host opts.withDelimiter (put files path bytes) orders opts.files
        (fresh runtime host opts files earlier)).k =
          (fresh runtime host opts (put files path bytes) last).k := by
      apply Tree.ext_find
      intro key
      rw [shown key, find_fresh, find_fresh]
      cases above : Tree.latest key (higherLayers runtime host opts last) with
      | some content => rfl
      | none =>
        rw [silent_alike last earlier above, fileLayers, fileLayers]
        cases said : Tree.latest key (opts.files.map (fileLayer runtime (put files path bytes))) with
        | some content => rfl
        | none =>
          cases key with
          | nil =>
            have root : (fileLayer runtime (put files path bytes) path).mention [] =
                some (some .node) := by rw [layered, rooted]
            exact absurd said (latest_ne_none listed root)
          | cons first rest =>
            have lowly := Tree.latest_eq_none.mp (silent_alike last order above)
            rw [elim_none, elim_none, elim_none, elim_empty, Tree.find_empty]
            exact agrees _ lowly said
    cases reloaded : reloadAll runtime host opts.withDelimiter (put files path bytes) orders opts.files
        (fresh runtime host opts files earlier) with
    | mk k envValues =>
      rw [reloaded] at tree env
      simp only at tree env
      rw [tree, env]
      rfl

variable (runtime host opts)

/-- The change of a file is one after which reloading agrees with a new start. -/
def Agrees (before : Files Failure) : Event → Prop
  | .watch path bytes order =>
      WatchAgrees runtime host opts before (put before path bytes) order path
  | .hangup path bytes orders => HangupAgrees runtime host opts before (put before path bytes) (orders 0)

def agreeingMachine : Machine (State Failure Value) Event where
  Initial := (machine runtime host opts).Initial
  Step before event after :=
    (machine runtime host opts).Step before event after ∧ Agrees runtime host opts before.files event

/-- The configuration is what a new start gives, and a start would succeed. -/
structure Fresh (state : State Failure Value) : Prop where
  sound : Sound runtime host opts state.files
  config : ∃ order, state.config = fresh runtime host opts state.files order

variable {runtime host opts}

theorem Fresh.step {before after : State Failure Value} {event : Event}
    (current : Fresh runtime host opts before)
    (step : (agreeingMachine runtime host opts).Step before event after) :
    Fresh runtime host opts after := by
  obtain ⟨order, config⟩ := current.config
  obtain ⟨moved, agrees⟩ := step
  cases moved with
  | watch listed readable =>
    constructor
    · exact sound_put current.sound readable
    · rw [config]
      exact (watch_fresh_iff current.sound listed readable order _).mpr agrees
  | @hangup path bytes orders listed readable =>
    constructor
    · exact sound_put current.sound readable
    · rw [config]
      exact (hangup_fresh_iff current.sound listed readable order (orders 0) orders).mpr agrees

/-- In every run whose reloads all meet their condition, the configuration is what a new start
from the present contents gives, and each key has the value of the highest layer that
mentions it. -/
theorem reload_fresh (runtime : Runtime Failure Value) (host : Host Failure) (opts : Options)
    (events : List Event) (state : State Failure Value)
    (run : (agreeingMachine runtime host opts).Run events state) :
    ∃ order, new runtime host opts state.files order = .ok state.config ∧
      ∀ key path, state.config.k.find (key :: path) =
        (Tree.latest (key :: path)
          (fileLayers runtime opts state.files ++ higherLayers runtime host opts order)).join := by
  have current : Fresh runtime host opts state := by
    refine run.invariant (Fresh runtime host opts) ?_ fun before event after => Fresh.step
    rintro state ⟨present, order, started⟩
    have sound := sound_of_new present started
    refine ⟨sound, order, ?_⟩
    rw [new_of_sound sound] at started
    exact (Except.ok.inj started).symm
  obtain ⟨order, config⟩ := current.config
  refine ⟨order, ?_, fun key path => ?_⟩
  · rw [new_of_sound current.sound, config]
  · rw [config, fresh, Tree.find_loads, elim_empty]

/-- A document of one key. -/
def document (digit : UInt8) : Bytes := [0x7B, 0x22, 0x6B, 0x22, 0x3A, digit, 0x7D]

def sampleRuntime : Runtime Unit UInt8 where
  toLower := id
  toUpper := id
  parse
    | .json, [0x7B, 0x22, 0x6B, 0x22, 0x3A, digit, 0x7D] =>
        .ok fun key => if key = [0x6B] then .leaf digit else .absent
    | _, _ => .error ()
  unflatten _ entries := fun key =>
    match entries.reverse.find? fun entry => entry.1 = key with
    | some entry => .leaf (entry.2.headD 0)
    | none => .absent
  text bytes := bytes.headD 0
  noParser := ()

def sampleHost : Host Unit := ⟨fun _ => none, fun _ _ => .error (), []⟩

def lowerFile : Bytes := [0x61, 0x2E, 0x6A, 0x73, 0x6F, 0x6E]

def upperFile : Bytes := [0x62, 0x2E, 0x6A, 0x73, 0x6F, 0x6E]

def sampleFiles : Files Unit := put (put (fun _ => none) lowerFile (document 0x31)) upperFile
    (document 0x32)

def sampleOptions (files : List Bytes) : Options := ⟨[0x41, 0x5F], [], files, [], [], [], 0, false⟩

def inOrder : Order := ⟨id, fun entries => .refl entries⟩

def digitLayer (digit : UInt8) : Tree Bytes UInt8 :=
  .node fun key => if key = [0x6B] then .leaf digit else .absent

theorem mention_digitLayer {digit other : UInt8} {path : List Bytes}
    (unsaid : (digitLayer digit).mention path = none) : (digitLayer other).mention path = none := by
  cases path with
  | nil => cases unsaid
  | cons key rest =>
    rw [digitLayer, Tree.mention] at unsaid ⊢
    split at unsaid
    · cases rest <;> cases unsaid
    · rw [if_neg ‹_›]
      rfl

theorem reload_fresh_edited : ∃ state : State Unit UInt8, ∃ order,
    new sampleRuntime sampleHost (sampleOptions [lowerFile]) state.files order = .ok state.config ∧
      state.config.k.find [[0x6B]] = some (.leaf 0x33) := by
  have agrees : WatchAgrees sampleRuntime sampleHost (sampleOptions [lowerFile]) sampleFiles
      (put sampleFiles lowerFile (document 0x33)) inOrder lowerFile := by
    have layer : fileLayer sampleRuntime (put sampleFiles lowerFile (document 0x33)) lowerFile =
        digitLayer 0x33 := rfl
    have earlier : fileLayer sampleRuntime sampleFiles lowerFile = digitLayer 0x31 := rfl
    constructor
    · intro path content _ said
      change Option.or _ _ = _
      rw [said]
      rfl
    · intro path _ unsaid
      have before : (fileLayer sampleRuntime sampleFiles lowerFile).mention path = none := by
        rw [earlier]
        exact mention_digitLayer (layer ▸ unsaid)
      change (Option.or none ((fileLayer sampleRuntime sampleFiles lowerFile).mention path)).join =
        (Option.or none ((fileLayer sampleRuntime (put sampleFiles lowerFile (document 0x33))
          lowerFile).mention path)).join
      rw [before, unsaid]
  have run : ∃ state, (agreeingMachine sampleRuntime sampleHost (sampleOptions [lowerFile])).Run
      [.watch lowerFile (document 0x33) inOrder] state ∧ state.config.k.find [[0x6B]] = some (.leaf 0x33) := by
    refine ⟨_, ⟨⟨sampleFiles, fresh sampleRuntime sampleHost (sampleOptions [lowerFile]) sampleFiles
      inOrder⟩, ⟨?_, inOrder, rfl⟩, .cons ⟨.watch (by decide) ⟨_, digitLayer 0x33, rfl, rfl⟩, agrees⟩
        (.nil _)⟩, rfl⟩
    simp [sampleOptions, sampleFiles, put, lowerFile, upperFile]
  obtain ⟨state, run, shown⟩ := run
  obtain ⟨order, started, -⟩ := reload_fresh sampleRuntime sampleHost _ _ state run
  exact ⟨state, order, started, shown⟩

/-- The lower of two files that give one key is changed and reloaded by its watcher. -/
theorem lower_file_wins : ¬∀ (runtime : Runtime Unit UInt8) host opts events state,
    (machine runtime host opts).Run events state →
      ∃ order, new runtime host opts state.files order = .ok state.config := by
  intro claim
  have run : ∃ state, (machine sampleRuntime sampleHost (sampleOptions [lowerFile, upperFile])).Run
      [.watch lowerFile (document 0x33) inOrder] state ∧
        state.files = put sampleFiles lowerFile (document 0x33) ∧
        state.config.k.find [[0x6B]] = some (.leaf 0x33) := by
    refine ⟨_, ⟨⟨sampleFiles, fresh sampleRuntime sampleHost
      (sampleOptions [lowerFile, upperFile]) sampleFiles inOrder⟩, ⟨?_, inOrder, rfl⟩,
        .cons (.watch (by decide) ⟨_, digitLayer 0x33, rfl, rfl⟩) (.nil _)⟩, rfl, rfl⟩
    simp [sampleOptions, sampleFiles, put, lowerFile, upperFile]
  obtain ⟨state, run, files, shown⟩ := run
  obtain ⟨order, started⟩ := claim _ _ _ _ state run
  rw [files] at started
  have other : new sampleRuntime sampleHost (sampleOptions [lowerFile, upperFile])
      (put sampleFiles lowerFile (document 0x33)) order =
        .ok (fresh sampleRuntime sampleHost (sampleOptions [lowerFile, upperFile])
          (put sampleFiles lowerFile (document 0x33)) order) := rfl
  rw [other] at started
  have upper : (fresh sampleRuntime sampleHost (sampleOptions [lowerFile, upperFile])
      (put sampleFiles lowerFile (document 0x33)) order).k.find [[0x6B]] = some (.leaf 0x32) := rfl
  rw [Except.ok.inj started, shown] at upper
  exact absurd upper (by decide)

end Golusoris.Config
