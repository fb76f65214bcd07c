import Golusoris.Config.Reload

/-!
# Reloads that fail half-way

Source: `overlay` and `reload` of `core/config/config.go`, `loadSecretDirs` and
`loadFileEnv` of `core/config/secrets.go`. A reload lays the changed file over the live tree before it re-applies the layers above
the files, and these end at the first error. Every layer is kept here with its source,
so that a key can be followed back to the layer that defines it.
-/

set_option linter.dupNamespace false

namespace Golusoris.Config

open List
open Lib (Bytes Content Tree)
open Loading

/-- Where a layer is from. -/
inductive Source where
  | file (path : Bytes)
  | secretDir (dir : Bytes)
  | env
  | fileEnv (name : Bytes)
  deriving DecidableEq

/-- Secret directories, the environment and `*_FILE` variables. -/
def Source.isHigher : Source → Bool
  | .file _ => false
  | _ => true

/-- Layers with their sources, the last one on top. -/
abbrev History (Value : Type) := List (Source × Tree Bytes Value)

section Histories

variable {Value : Type}

/-- The last layer that says something of a path, with what it says. -/
def lastSaid (path : List Bytes) : History Value → Option (Source × Option (Content Value))
  | [] => none
  | (source, layer) :: rest =>
      (lastSaid path rest).or ((layer.mention path).map fun said => (source, said))

/-- What the layers of one source say of a path. -/
def saidBy (source : Source) (path : List Bytes) (history : History Value) :
    Option (Option (Content Value)) :=
  Tree.latest path ((history.filter fun entry => entry.1 = source).map Prod.snd)

/-- The tree is made up of the layers. -/
def Built (history : History Value) (c : Config Value) : Prop :=
  c.k = Tree.loads (history.map Prod.snd) .empty

/-- A layer above the files defines the value of a key. -/
structure Defines (history : History Value) (path : List Bytes) (source : Source) (value : Value) :
    Prop where
  said : lastSaid path history = some (source, some (.leaf value))
  higher : source.isHigher

theorem lastSaid_append (path : List Bytes) (first second : History Value) :
    lastSaid path (first ++ second) = (lastSaid path second).or (lastSaid path first) := by
  induction first with
  | nil => rw [nil_append, lastSaid, Option.or_none]
  | cons entry first ih => rw [cons_append, lastSaid, ih, lastSaid, Option.or_assoc]

theorem latest_eq_lastSaid (path : List Bytes) (history : History Value) :
    Tree.latest path (history.map Prod.snd) = (lastSaid path history).map Prod.snd := by
  induction history with
  | nil => rfl
  | cons entry history ih =>
    rw [map_cons, Tree.latest, ih, lastSaid]
    cases lastSaid path history with
    | some found => rfl
    | none => cases entry.2.mention path <;> rfl

/-- What the last layer says, its source says. -/
theorem saidBy_of_lastSaid {path : List Bytes} {history : History Value} {source : Source}
    {said : Option (Content Value)} (last : lastSaid path history = some (source, said)) :
    saidBy source path history = some said := by
  induction history with
  | nil => cases last
  | cons entry history ih =>
    rw [lastSaid] at last
    cases above : lastSaid path history with
    | some found =>
      rw [above, Option.some_or] at last
      rw [saidBy, filter_cons]
      have rest := ih (above.trans last)
      rw [saidBy] at rest
      split_ifs
      · rw [map_cons, Tree.latest, rest, Option.some_or]
      · exact rest
    | none =>
      rw [above, Option.none_or, Option.map_eq_some_iff] at last
      obtain ⟨here, mentioned, same⟩ := last
      obtain ⟨rfl, rfl⟩ := Prod.mk.inj same
      have silent : Tree.latest path
          ((history.filter fun other => other.1 = entry.1).map Prod.snd) = none := by
        rw [Tree.latest_eq_none]
        intro layer listed
        obtain ⟨other, kept, rfl⟩ := mem_map.mp listed
        have all := latest_eq_lastSaid path history
        rw [above, Option.map_none, Tree.latest_eq_none] at all
        exact all _ (mem_map_of_mem (mem_filter.mp kept).1)
      rw [saidBy, filter_cons, if_pos (by simp), map_cons, Tree.latest, silent,
        Option.none_or, mentioned]

/-- A tree shows at a key path what the last layer says of it. -/
theorem find_built {history : History Value} {c : Config Value} (built : Built history c)
    (key : Bytes) (path : List Bytes) :
    c.k.find (key :: path) = ((lastSaid (key :: path) history).map Prod.snd).join := by
  rw [built, Tree.find_loads, latest_eq_lastSaid]
  cases lastSaid (key :: path) history with
  | some found => rfl
  | none => exact Tree.find_empty key path

end Histories

section Laying

variable {Failure Value : Type}

/-- The layers of each source in turn, up to the first error. -/
def laid : List (Source × Loading Failure Value) → History Value
  | [] => []
  | (source, loading) :: rest =>
      loading.layers.map (fun layer => (source, layer)) ++
        match loading.error with
        | some _ => []
        | none => laid rest

variable (runtime : Runtime Failure Value) (host : Host Failure) (opts : Options)

def sources (order : Order) : List (Source × Loading Failure Value) :=
  opts.secretDirs.map (fun dir => (.secretDir dir, loadSecretDir runtime host opts order dir)) ++
    if opts.disableEnv then []
    else (.env, .one (envLayer runtime host opts)) ::
      if opts.fileEnvSuffix = [] then []
      else host.environ.map fun entry => (.fileEnv entry.1, loadFileVariable runtime host opts entry)

/-- What an overlay lays over the tree before it ends. -/
def applied (order : Order) : History Value := laid (sources runtime host opts order)

/-- What a start lays over the empty tree. -/
def startLayers (files : Files Failure) (order : Order) : History Value :=
  opts.files.map (fun path => (.file path, fileLayer runtime files path)) ++
    applied runtime host opts.withDelimiter order

namespace Loading

theorem done_andThen (next : Loading Failure Value) : done.andThen next = next := by
  rw [andThen, done]
  exact congrArg (fun layers => Loading.mk layers next.error) (nil_append _)

theorem andThen_assoc (first second third : Loading Failure Value) :
    (first.andThen second).andThen third = first.andThen (second.andThen third) := by
  cases ended : first.error with
  | some failed => simp only [andThen, ended]
  | none =>
    cases stopped : second.error with
    | some failed => simp only [andThen, ended, stopped]
    | none => simp only [andThen, ended, stopped, append_assoc]

theorem each_append {Item : Type} (first second : List Item) (load : Item → Loading Failure Value) :
    each (first ++ second) load = (each first load).andThen (each second load) := by
  induction first with
  | nil => exact (done_andThen _).symm
  | cons item first ih =>
    change (load item).andThen (each (first ++ second) load) = _
    rw [ih]
    exact (andThen_assoc _ _ _).symm

theorem each_map {Item Other : Type} (items : List Item) (view : Item → Other)
    (load : Other → Loading Failure Value) :
    each (items.map view) load = each items fun item => load (view item) :=
  foldr_map

end Loading

theorem map_laid (loads : List (Source × Loading Failure Value)) :
    (laid loads).map Prod.snd = (each loads Prod.snd).layers := by
  induction loads with
  | nil => rfl
  | cons entry loads ih =>
    obtain ⟨source, loading⟩ := entry
    change _ = (loading.andThen (each loads Prod.snd)).layers
    have plain : (loading.layers.map fun layer => (source, layer)).map Prod.snd = loading.layers := by
      rw [map_map]
      exact map_id _
    rw [laid, map_append, plain, andThen]
    cases loading.error with
    | some failed => exact append_nil _
    | none => exact congrArg (loading.layers ++ ·) ih

theorem each_sources (order : Order) :
    each (sources runtime host opts order) Prod.snd = higher runtime host opts order := by
  rw [sources, each_append, each_map, higher, loadSecretDirs]
  congr 1
  by_cases disabled : opts.disableEnv = true
  · rw [if_pos disabled, if_pos disabled]
    rfl
  · rw [if_neg disabled, if_neg disabled]
    change (Loading.one _).andThen (each _ _) = _
    rw [loadFileEnv]
    by_cases plain : opts.fileEnvSuffix = []
    · rw [if_pos plain, if_pos (Or.inr plain)]
      rfl
    · have indirect : ¬(opts.disableEnv = true ∨ opts.fileEnvSuffix = []) := by tauto
      rw [if_neg plain, if_neg indirect, each_map]

theorem map_applied (order : Order) :
    (applied runtime host opts order).map Prod.snd = (higher runtime host opts order).layers := by
  rw [applied, map_laid, each_sources]

theorem k_overlay (order : Order) (c : Config Value) :
    (overlay runtime host opts order c).1.k =
      Tree.loads ((applied runtime host opts order).map Prod.snd) c.k := by
  rw [map_applied, overlay]
  cases (higher runtime host opts order).error <;> rfl

end Laying

section Reloads

variable {Failure Value : Type} {runtime : Runtime Failure Value} {host : Host Failure}
  {opts : Options} {files : Files Failure}

theorem loads_of_loadFiles {paths : List Bytes} {k final : Tree Bytes Value}
    (loaded : loadFiles runtime files paths k = .ok final) :
    final = Tree.loads (paths.map (fileLayer runtime files)) k := by
  fun_induction loadFiles runtime files paths k with
  | case1 => exact (Except.ok.inj loaded).symm
  | case2 path paths k missing ih =>
    rw [map_cons, Tree.loads_cons, fileLayer, missing]
    exact ih loaded
  | case3 => cases loaded
  | case4 => cases loaded
  | case5 path paths k content found _ layer read ih =>
    rw [map_cons, Tree.loads_cons, fileLayer, found, Option.map_some, read]
    exact ih loaded

variable {order : Order}

theorem built_startLayers {c : Config Value} (ready : new runtime host opts files order = .ok c) :
    Built (startLayers runtime host opts files order) c := by
  rw [new] at ready
  simp only [files_withDelimiter] at ready
  cases valid : (opts.withDelimiter.validate : Except (Error Failure) Unit) with
  | error failed =>
    rw [valid] at ready
    cases ready
  | ok _ =>
    rw [valid] at ready
    cases loaded : loadFiles runtime files opts.files .empty with
    | error failed =>
      rw [loaded] at ready
      cases ready
    | ok k =>
      have overlaid := k_overlay runtime host opts.withDelimiter order ⟨k, []⟩
      rw [loaded] at ready
      simp only at ready
      rcases ended : overlay runtime host opts.withDelimiter order ⟨k, []⟩ with ⟨live, _ | failed⟩
      · rw [ended] at ready overlaid
        rw [Built, ← Except.ok.inj ready, overlaid, startLayers, map_append, map_map,
          Tree.loads_append]
        exact congrArg _ (loads_of_loadFiles loaded)
      · rw [ended] at ready
        cases ready

theorem k_reload {path : Bytes} {content : Except Failure Bytes} {layer : Tree Bytes Value}
    (read : readLayer runtime path content = .ok layer) (c : Config Value) :
    (reload runtime host opts order path content c).1.k =
      Tree.loads ((applied runtime host opts order).map Prod.snd) (layer.merge c.k) := by
  have laid := k_overlay runtime host opts order { c with k := layer.merge c.k }
  rw [reload, read]
  simp only
  rw [← laid]
  rcases overlay runtime host opts order { c with k := layer.merge c.k } with ⟨after, _ | failed⟩ <;>
    rfl

/-- A reload, failed or not, lays the file and then what the sources above still give. -/
theorem built_reload {history : History Value} {path : Bytes} {content : Except Failure Bytes}
    {layer : Tree Bytes Value} {c : Config Value} (built : Built history c)
    (read : readLayer runtime path content = .ok layer) :
    Built (history ++ (.file path, layer) :: applied runtime host opts order)
      (reload runtime host opts order path content c).1 := by
  rw [Built, k_reload read, map_append, map_cons, Tree.loads_append, Tree.loads_cons, ← built]

/-- Each key a higher layer defined has its value from that layer: the value it had, or what
was laid from the same source again. -/
def KeepsPrecedence (history applied : History Value) (c : Config Value) : Prop :=
  ∀ key path source value, Defines history (key :: path) source value →
    c.k.find (key :: path) = some (.leaf value) ∨
      saidBy source (key :: path) applied = some (c.k.find (key :: path))

/-- For each key a higher layer defined, the last layer that a reload lays over it, if any, is
from the same source again, or says what the key had or what that source now says. -/
def Undisturbed (history applied : History Value) (file : Bytes) (layer : Tree Bytes Value) : Prop :=
  ∀ key path source value, Defines history (key :: path) source value →
    ∀ other said, lastSaid (key :: path) ((.file file, layer) :: applied) = some (other, said) →
      other = source ∨ said = some (.leaf value) ∨ saidBy source (key :: path) applied = some said

theorem saidBy_file {source : Source} (higher : source.isHigher) (path : List Bytes) (file : Bytes)
    (layer : Tree Bytes Value) (history : History Value) :
    saidBy source path ((.file file, layer) :: history) = saidBy source path history := by
  have other : Source.file file ≠ source := by
    rintro rfl
    cases higher
  rw [saidBy, filter_cons, if_neg (by simpa using other), saidBy]

/-- A reload whose higher layers fail keeps every key that one of them defined, exactly when
nothing it lays up to the failure disturbs such a key. -/
theorem reload_precedence_iff (runtime : Runtime Failure Value) (host : Host Failure)
    (opts : Options) (order : Order) {history : History Value} {c after : Config Value}
    {path : Bytes} {content : Except Failure Bytes} {layer : Tree Bytes Value}
    {failure : Error Failure} (built : Built history c)
    (read : readLayer runtime path content = .ok layer)
    (failed : reload runtime host opts order path content c =
      (after, some (.reapplyFailed path failure))) :
    KeepsPrecedence history (applied runtime host opts order) after ↔
      Undisturbed history (applied runtime host opts order) path layer := by
  have whole : Built _ (reload runtime host opts order path content c).1 := built_reload built read
  rw [failed] at whole
  have shown (key : Bytes) (rest : List Bytes) := find_built whole key rest
  simp only [lastSaid_append] at shown
  constructor
  · intro keeps key rest source value defined other said last
    have found := shown key rest
    rw [last] at found
    right
    rcases keeps key rest source value defined with kept | again
    · left
      exact (found.symm.trans kept)
    · right
      rw [again, found]
      rfl
  · intro undisturbed key rest source value defined
    have found := shown key rest
    cases last : lastSaid (key :: rest) ((.file path, layer) :: applied runtime host opts order) with
    | none =>
      left
      rw [last, defined.said] at found
      exact found
    | some top =>
      obtain ⟨other, said⟩ := top
      rw [last] at found
      change after.k.find (key :: rest) = said at found
      rw [found]
      rcases undisturbed key rest source value defined other said last with rfl | same | again
      · right
        rw [← saidBy_file defined.higher _ path layer]
        exact saidBy_of_lastSaid last
      · exact .inl same
      · exact .inr again

end Reloads

def secretsDir : Bytes := [0x64]

def targetPath : Bytes := [0x70]

/-- `A_k` gives a key, and a secret directory may be there. -/
def guardedOptions : Options := ⟨[0x41, 0x5F], [0x2E], [lowerFile], [], [secretsDir], [], 0, false⟩

def guardedHost (readable : Bool) : Host Unit :=
  ⟨fun _ => if readable then none else some (.error ()), fun _ _ => .error (),
    [([0x41, 0x5F, 0x6B], [0x32])]⟩

/-- `A_j_F` names a file beside `A_k`. -/
def indirectOptions : Options := ⟨[0x41, 0x5F], [0x2E], [lowerFile], [], [], [0x5F, 0x46], 0, false⟩

def indirectHost (readable : Bool) : Host Unit :=
  ⟨fun _ => none, fun _ _ => if readable then .ok (some [0x34]) else .error (),
    [([0x41, 0x5F, 0x6B], [0x32]), ([0x41, 0x5F, 0x6A, 0x5F, 0x46], targetPath)]⟩

theorem envLayer_indirect (readable : Bool) :
    envLayer sampleRuntime (indirectHost readable) indirectOptions = digitLayer 0x32 := by
  have named : ((envVariables sampleRuntime (indirectHost readable) indirectOptions).map
      fun entry => (envTransform sampleRuntime indirectOptions entry.1, entry.2)) =
        [([0x6B], [0x32])] := by cases readable <;> rfl
  rw [envLayer, named, digitLayer]
  congr 1
  funext key
  by_cases same : [0x6B] = key
  · subst same
    rfl
  · have other : ¬key = [0x6B] := fun equal => same equal.symm
    rw [if_neg other]
    simp [sampleRuntime, same]

/-- The target of `A_j_F` cannot be read any more, but the environment is laid before it. -/
theorem reload_precedence_target : ∃ c after : Config UInt8,
    new sampleRuntime (indirectHost true) indirectOptions sampleFiles inOrder = .ok c ∧
      KeepsPrecedence (startLayers sampleRuntime (indirectHost true) indirectOptions sampleFiles inOrder)
        (applied sampleRuntime (indirectHost false) indirectOptions inOrder) after ∧
      after.k.find [[0x6B]] = some (.leaf 0x32) := by
  have ready : ∃ c, new sampleRuntime (indirectHost true) indirectOptions sampleFiles inOrder = .ok c :=
    ⟨_, rfl⟩
  obtain ⟨c, ready⟩ := ready
  have built := built_startLayers ready
  have read : readLayer sampleRuntime lowerFile (.ok (document 0x33)) = .ok (digitLayer 0x33) := rfl
  have failed : ∃ after, reload sampleRuntime (indirectHost false) indirectOptions inOrder lowerFile
      (.ok (document 0x33)) c = (after, some (.reapplyFailed lowerFile (.fileEnv _ ()))) := ⟨_, rfl⟩
  obtain ⟨after, failed⟩ := failed
  refine ⟨c, after, ready, (reload_precedence_iff _ _ _ _ built read failed).mpr ?_, ?_⟩
  · intro key rest source value defined other said last
    have layers : applied sampleRuntime (indirectHost false) indirectOptions inOrder =
        [(.env, digitLayer 0x32)] := by rw [← envLayer_indirect false]; rfl
    rw [layers] at last ⊢
    by_cases same : key = [0x6B]
    · subst same
      cases rest with
      | nil =>
        have said : lastSaid [[0x6B]] (startLayers sampleRuntime (indirectHost true) indirectOptions
            sampleFiles inOrder) = some (.env, some (.leaf 0x32)) := rfl
        rw [defined.said] at said
        cases said
        cases last
        exact .inl rfl
      | cons next rest =>
        have said : lastSaid ([0x6B] :: next :: rest) (startLayers sampleRuntime (indirectHost true)
            indirectOptions sampleFiles inOrder) = some (.env, none) := rfl
        rw [defined.said] at said
        cases said
    · simp [lastSaid, digitLayer, Tree.mention, same] at last
  · have whole : Built _ (reload sampleRuntime (indirectHost false) indirectOptions inOrder lowerFile
        (.ok (document 0x33)) c).1 := built_reload built read
    rw [failed] at whole
    rw [find_built whole]
    rfl

/-- The file is laid and the directory fails before the environment is laid again. -/
theorem file_over_environment : ¬∀ (runtime : Runtime Unit UInt8) (earlier host : Host Unit)
    (opts : Options) (files : Files Unit) (order : Order) (c after : Config UInt8) (path : Bytes)
    (content : Except Unit Bytes) (layer : Tree Bytes UInt8) (failure : Error Unit),
    new runtime earlier opts files order = .ok c → readLayer runtime path content = .ok layer →
      reload runtime host opts.withDelimiter order path content c =
        (after, some (.reapplyFailed path failure)) →
      KeepsPrecedence (startLayers runtime earlier opts files order)
        (applied runtime host opts.withDelimiter order) after := by
  intro claim
  have keeps := claim sampleRuntime (guardedHost true) (guardedHost false) guardedOptions sampleFiles
    inOrder _ _ lowerFile (.ok (document 0x33)) (digitLayer 0x33) _ rfl rfl rfl
  have defined : Defines (startLayers sampleRuntime (guardedHost true) guardedOptions sampleFiles inOrder)
      [[0x6B]] .env 0x32 := ⟨rfl, rfl⟩
  rcases keeps [0x6B] [] .env 0x32 defined with kept | again
  · cases kept
  · cases again

end Golusoris.Config
