import Golusoris.Config.Reload

/-!
# Reads while files are reloaded

Source: `overlay`, `reload`, `watchFile`, `startHUP`, `Get` and `Unmarshal` of
`core/config/config.go`, `unmarshalEnv` and `setEnvOverrides` of
`core/config/env_struct.go`. A reload lays the file over the tree before it takes
the lock under which the higher layers are laid once more, and a getter takes no
lock at all. A read shows what the last layer laid says of its key, so a key is
exposed from the load of a file that mentions it to the load of a higher layer
that does.
-/

namespace Golusoris.Config

open Lib (Bytes Content Machine Tree)

/-- What a reloading goroutine is about to do. -/
inductive Task (Failure Value : Type) where
  | idle
  | loading (paths : List Bytes)
  | locking (rest : List Bytes)
  | laying (host : Host Failure) (layers : List (Tree Bytes Value)) (error : Option (Error Failure))
      (rest : List Bytes)

structure Live (Failure Value : Type) where
  k : Tree Bytes Value
  envValues : List (Bytes × Bytes)
  /-- The goroutine that has `c.mu` locked for writing. -/
  holder : Option Nat
  tasks : Nat → Task Failure Value

def Live.task {Failure Value : Type} (live : Live Failure Value) (caller : Nat)
    (task : Task Failure Value) : Live Failure Value :=
  { live with tasks := fun other => if other = caller then task else live.tasks other }

inductive Action (Failure Value : Type) where
  | watch (path : Bytes)
  | hangup
  /-- The file does not exist, or could not be read or parsed. -/
  | skip
  | load (path : Bytes) (layer : Tree Bytes Value)
  | lock (host : Host Failure) (order : Order)
  | lay (layer : Tree Bytes Value)
  | unlock
  | finish
  | get (key : Bytes) (shown : Option (Content Value))
  | unmarshal (key : Bytes) (inferred : Bool) (shown : Option (Content Value))

section Steps

variable {Failure Value : Type} (runtime : Runtime Failure Value) (opts : Options)

/-- What a captured variable gives a path that was inferred from a struct's tags. -/
def envOverride (envValues : List (Bytes × Bytes)) (key : Bytes) : Option Bytes :=
  let name := runtime.toUpper (replaceAll key opts.delimiter underscore)
  if (compoundLookup runtime opts name).all (· = key) then
    (envValues.reverse.find? fun entry => entry.1 = name).map Prod.snd
  else none

def Live.shows (live : Live Failure Value) (key : Bytes) : Option (Content Value) :=
  live.k.find (split key opts.delimiter)

def Live.decodes (live : Live Failure Value) (key : Bytes) (inferred : Bool) : Option
    (Content Value) :=
  match if inferred then envOverride runtime opts live.envValues key else none with
  | some value => some (.leaf (runtime.text value))
  | none => live.shows opts key

/-- What secret directories and the environment hold may change from one overlay to the next;
`Around` are the hosts the process meets. -/
inductive Moves (Around : Host Failure → Prop) : Live Failure Value → Nat × Action Failure Value →
    Live Failure Value → Prop where
  | watch {live : Live Failure Value} {caller : Nat} {path : Bytes} (free : live.tasks caller = .idle)
      (listed : path ∈ opts.files) :
      Moves Around live (caller, .watch path) (live.task caller (.loading [path]))
  | hangup {live : Live Failure Value} {caller : Nat} (free : live.tasks caller = .idle) :
      Moves Around live (caller, .hangup) (live.task caller (.loading opts.files))
  | skip {live : Live Failure Value} {caller : Nat} {path : Bytes} {rest : List Bytes}
      (here : live.tasks caller = .loading (path :: rest)) :
      Moves Around live (caller, .skip) (live.task caller (.loading rest))
  | load {live : Live Failure Value} {caller : Nat} {path : Bytes} {rest : List Bytes}
      {content : Except Failure Bytes} {layer : Tree Bytes Value}
      (here : live.tasks caller = .loading (path :: rest))
      (read : readLayer runtime path content = .ok layer) :
      Moves Around live (caller, .load path layer)
        { live.task caller (.locking rest) with k := layer.merge live.k }
  | lock {live : Live Failure Value} {caller : Nat} {rest : List Bytes} {host : Host Failure}
      {order : Order} (here : live.tasks caller = .locking rest) (free : live.holder = none)
      (around : Around host) :
      Moves Around live (caller, .lock host order)
        { live.task caller (.laying host (higher runtime host opts order).layers
            (higher runtime host opts order).error rest) with holder := some caller }
  | lay {live : Live Failure Value} {caller : Nat} {host : Host Failure} {layer : Tree Bytes Value}
      {layers : List (Tree Bytes Value)} {error : Option (Error Failure)} {rest : List Bytes}
      (here : live.tasks caller = .laying host (layer :: layers) error rest) :
      Moves Around live (caller, .lay layer)
        { live.task caller (.laying host layers error rest) with k := layer.merge live.k }
  | unlock {live : Live Failure Value} {caller : Nat} {host : Host Failure}
      {error : Option (Error Failure)} {rest : List Bytes}
      (here : live.tasks caller = .laying host [] error rest) :
      Moves Around live (caller, .unlock)
        { live.task caller (.loading rest) with
          holder := none
          envValues := if error.isNone then capturedEnv runtime host opts else live.envValues }
  | finish {live : Live Failure Value} {caller : Nat} (here : live.tasks caller = .loading []) :
      Moves Around live (caller, .finish) (live.task caller .idle)
  | get {live : Live Failure Value} {caller : Nat} {key : Bytes} :
      Moves Around live (caller, .get key (live.shows opts key)) live
  | unmarshal {live : Live Failure Value} {caller : Nat} {key : Bytes} {inferred : Bool}
      (free : live.holder = none) (named : inferred → 0x5F ∈ key) :
      Moves Around live (caller, .unmarshal key inferred (live.decodes runtime opts key inferred)) live

/-- The configuration `New` returned, with its readers and reloads. -/
def liveMachine (Around : Host Failure → Prop) :
    Machine (Live Failure Value) (Nat × Action Failure Value) where
  Initial live := ∃ host files order config, Around host ∧
    new runtime host opts files order = .ok config ∧
    live = ⟨config.k, config.envValues, none, fun _ => .idle⟩
  Step := Moves runtime opts.withDelimiter Around

variable (Around : Host Failure → Prop)

/-- What a secret directory, the environment or a `*_FILE` variable gives the key. -/
def FromHigher (key : Bytes) (shown : Option (Content Value)) : Prop :=
  ∃ host, Around host ∧
    ((∃ order, ∃ layer ∈ higherLayers runtime host opts order,
      layer.mention (split key opts.withDelimiter.delimiter) = some shown) ∨
    ∃ entry ∈ capturedEnv runtime host opts.withDelimiter,
      shown = some (.leaf (runtime.text entry.2)))

/-- The key is defined above the files throughout. -/
def Defined (key : Bytes) : Prop :=
  ∀ host, Around host → ∀ order, ∃ layer ∈ higherLayers runtime host opts order, ∃ content,
    layer.mention (split key opts.withDelimiter.delimiter) = some (some content)

def exposedBy (path : List Bytes) (was : Bool) : Action Failure Value → Bool
  | .load _ layer => was || (layer.mention path).isSome
  | .lay layer => was && (layer.mention path).isNone
  | _ => was

/-- The last layer laid that mentions the path was a file's. -/
def exposed (path : List Bytes) (events : List (Nat × Action Failure Value)) : Bool :=
  events.foldl (fun was event => exposedBy path was event.2) false

/-- What a file that was loaded gives the key. -/
def FromFile (events : List (Nat × Action Failure Value)) (key : Bytes)
    (shown : Option (Content Value)) : Prop :=
  ∃ caller path layer, (caller, .load path layer) ∈ events ∧
    layer.mention (split key opts.withDelimiter.delimiter) = some shown

/-- A read of the key that shows a value. -/
inductive Reads (key : Bytes) : Action Failure Value → Option (Content Value) → Prop where
  | get (shown : Option (Content Value)) : Reads key (.get key shown) shown
  | unmarshal (inferred : Bool) (shown : Option (Content Value)) :
      Reads key (.unmarshal key inferred shown) shown

/-- Along a run: where the value of the key came from last, and what is about to be laid. -/
structure Sourced (key : Bytes) (history : List (Nat × Action Failure Value))
    (live : Live Failure Value) : Prop where
  higher : exposed (split key opts.withDelimiter.delimiter) history = false →
    FromHigher runtime opts Around key (live.shows opts.withDelimiter key)
  file : exposed (split key opts.withDelimiter.delimiter) history = true →
    FromFile opts history key (live.shows opts.withDelimiter key)
  laying : ∀ caller host layers error rest, live.tasks caller = .laying host layers error rest →
    Around host ∧ ∃ order, ∀ layer ∈ layers, layer ∈ higherLayers runtime host opts order
  env : ∀ entry ∈ live.envValues, ∃ host, Around host ∧
    entry ∈ capturedEnv runtime host opts.withDelimiter

variable {runtime opts Around}

theorem exposed_snoc (path : List Bytes) (history : List (Nat × Action Failure Value))
    (event : Nat × Action Failure Value) :
    exposed path (history ++ [event]) = exposedBy path (exposed path history) event.2 := by
  rw [exposed, List.foldl_append]
  rfl

variable {history : List (Nat × Action Failure Value)} {key : Bytes}

theorem FromFile.later {shown : Option (Content Value)} (given : FromFile opts history key shown)
    (event : Nat × Action Failure Value) : FromFile opts (history ++ [event]) key shown := by
  obtain ⟨caller, path, layer, loaded, said⟩ := given
  exact ⟨caller, path, layer, List.mem_append_left _ loaded, said⟩

theorem of_envOverride {envValues : List (Bytes × Bytes)} {value : Bytes}
    (given : envOverride runtime opts envValues key = some value) :
    ∃ entry ∈ envValues, entry.2 = value := by
  rw [envOverride] at given
  split at given
  · obtain ⟨entry, found, rfl⟩ := Option.map_eq_some_iff.mp given
    exact ⟨entry, List.mem_reverse.mp (List.mem_of_find?_eq_some found), rfl⟩
  · cases given

/-- The tasks of the others are as they were. -/
theorem laying_task {live : Live Failure Value} {caller : Nat} {task : Task Failure Value}
    {Holds : Host Failure → List (Tree Bytes Value) → Prop}
    (others : ∀ caller host layers error rest, live.tasks caller = .laying host layers error rest →
      Holds host layers)
    (own : ∀ host layers error rest, task = .laying host layers error rest → Holds host layers)
    (other : Nat) (host : Host Failure) (layers : List (Tree Bytes Value))
    (error : Option (Error Failure)) (rest : List Bytes)
    (here : (live.task caller task).tasks other = .laying host layers error rest) :
    Holds host layers := by
  rw [Live.task] at here
  simp only at here
  split at here
  · exact own host layers error rest here
  · exact others other host layers error rest here

/-- A step that neither lays a layer nor replaces the captured variables. -/
theorem Sourced.keep
    {before after : Live Failure Value} (sourced : Sourced runtime opts Around key history before)
    {event : Nat × Action Failure Value}
    (quiet : ∀ path was, exposedBy path was event.2 = was)
    (tree : after.k = before.k) (env : after.envValues = before.envValues)
    (laying : ∀ caller host layers error rest, after.tasks caller = .laying host layers error rest →
      Around host ∧ ∃ order, ∀ layer ∈ layers, layer ∈ higherLayers runtime host opts order) :
    Sourced runtime opts Around key (history ++ [event]) after := by
  have shown : after.shows opts.withDelimiter key = before.shows opts.withDelimiter key := by
    rw [Live.shows, tree, Live.shows]
  constructor
  · rw [exposed_snoc, quiet, shown]
    exact sourced.higher
  · rw [exposed_snoc, quiet, shown]
    exact fun seen => (sourced.file seen).later event
  · exact laying
  · rw [env]
    exact sourced.env

theorem Sourced.step {before after : Live Failure Value} {event : Nat × Action Failure Value}
    (sourced : Sourced runtime opts Around key history before)
    (step : (liveMachine runtime opts Around).Step before event after) :
    Sourced runtime opts Around key (history ++ [event]) after := by
  have shown : ∀ layer : Tree Bytes Value, (layer.merge before.k).find
        (split key opts.withDelimiter.delimiter) =
      (layer.mention (split key opts.withDelimiter.delimiter)).elim
        (before.shows opts.withDelimiter key) id := fun _ => Tree.find_merge _ _ _
  cases step with
  | watch _ _ | hangup _ | skip _ | finish _ =>
    refine sourced.keep (fun _ _ => rfl) rfl rfl ?_
    exact laying_task sourced.laying nofun
  | @load caller path rest content layer here read =>
    constructor
    · rw [exposed_snoc, exposedBy, Bool.or_eq_false_iff, Live.shows, shown]
      rintro ⟨unexposed, unsaid⟩
      rw [Option.isSome_eq_false_iff, Option.isNone_iff_eq_none] at unsaid
      rw [unsaid]
      exact sourced.higher unexposed
    · rw [exposed_snoc, exposedBy, Bool.or_eq_true, Live.shows, shown]
      intro seen
      cases said : layer.mention (split key opts.withDelimiter.delimiter) with
      | some content =>
        refine ⟨caller, path, layer, ?_, said⟩
        exact List.mem_append_right _ List.mem_cons_self
      | none =>
        rw [said] at seen
        exact (sourced.file (seen.resolve_right Bool.false_ne_true)).later _
    · exact laying_task sourced.laying nofun
    · exact sourced.env
  | @lock caller rest host order here free around =>
    refine sourced.keep (fun _ _ => rfl) rfl rfl ?_
    refine laying_task sourced.laying ?_
    intro other layers error rest same
    cases same
    exact ⟨around, order, fun layer laid => laid⟩
  | @lay caller host layer layers error rest here =>
    obtain ⟨around, order, laid⟩ := sourced.laying caller host _ _ _ here
    constructor
    · rw [exposed_snoc, exposedBy, Bool.and_eq_false_iff, Live.shows, shown]
      intro unseen
      cases said : layer.mention (split key opts.withDelimiter.delimiter) with
      | some content => exact ⟨host, around, .inl ⟨order, layer, laid layer List.mem_cons_self, said⟩⟩
      | none =>
        rw [said] at unseen
        exact sourced.higher (unseen.resolve_right nofun)
    · rw [exposed_snoc, exposedBy, Bool.and_eq_true, Live.shows, shown]
      rintro ⟨exposed_, unsaid⟩
      rw [Option.isNone_iff_eq_none] at unsaid
      rw [unsaid]
      exact (sourced.file exposed_).later _
    · refine laying_task sourced.laying ?_
      intro other more error rest same
      cases same
      exact ⟨around, order, fun layer listed => laid layer (List.mem_cons_of_mem _ listed)⟩
    · exact sourced.env
  | @unlock caller host error rest here =>
    have kept : Sourced runtime opts Around key (history ++ [(caller, .unlock)])
        { before.task caller (.loading rest) with holder := none } := by
      refine sourced.keep (fun _ _ => rfl) rfl rfl ?_
      exact laying_task sourced.laying nofun
    refine ⟨kept.higher, kept.file, kept.laying, ?_⟩
    intro entry found
    simp only at found
    split at found
    · exact ⟨host, (sourced.laying caller host _ _ _ here).1, found⟩
    · exact sourced.env entry found
  | get | unmarshal _ _ => exact sourced.keep (fun _ _ => rfl) rfl rfl sourced.laying

/-- What `New` returns was overlaid last. -/
theorem overlay_of_new {host : Host Failure} {files : Files Failure} {order : Order}
    {config : Config Value} (started : new runtime host opts files order = .ok config) :
    ∃ k, config = ⟨Tree.loads (higherLayers runtime host opts order) k,
      capturedEnv runtime host opts.withDelimiter⟩ := by
  rw [new] at started
  simp only [overlay] at started
  split at started
  · cases started
  · split at started
    · cases started
    · rename_i k _
      cases ended : (higher runtime host opts.withDelimiter order).error with
      | some failed =>
        rw [ended] at started
        cases started
      | none =>
        rw [ended] at started
        exact ⟨k, (Except.ok.inj started).symm⟩

theorem sourced_start (defined : Defined runtime opts Around key) {live : Live Failure Value}
    (started : (liveMachine runtime opts Around).Initial live) :
    Sourced runtime opts Around key [] live := by
  obtain ⟨host, files, order, config, around, built, rfl⟩ := started
  obtain ⟨k, rfl⟩ := overlay_of_new built
  constructor
  · intro _
    have shown : (Tree.loads (higherLayers runtime host opts order) k).find
        (split key opts.withDelimiter.delimiter) = _ := Tree.find_loads _ _ _
    rw [Live.shows, shown]
    cases said : Tree.latest (split key opts.withDelimiter.delimiter)
        (higherLayers runtime host opts order) with
    | some content =>
      obtain ⟨layer, laid, same⟩ := Tree.mem_of_latest said
      exact ⟨host, around, .inl ⟨order, layer, laid, same⟩⟩
    | none =>
      obtain ⟨layer, laid, content, mentioned⟩ := defined host around order
      rw [Tree.latest_eq_none.mp said layer laid] at mentioned
      cases mentioned
  · intro seen
    cases seen
  · intro caller host layers error rest here
    cases here
  · exact fun entry found => ⟨host, around, found⟩

end Steps

/-- One variable, `A_k=s`. -/
def variableHost : Host Unit :=
  ⟨fun _ => none, fun _ _ => .error (), [([0x41, 0x5F, 0x6B], [0x73])]⟩

theorem defined_variable :
    Defined sampleRuntime (sampleOptions [lowerFile]) (· = variableHost) [0x6B] := by
  rintro host rfl order
  exact ⟨_, List.mem_cons_self, .leaf 0x73, rfl⟩

def started : Live Unit UInt8 :=
  ⟨(fresh sampleRuntime variableHost (sampleOptions [lowerFile]) sampleFiles inOrder).k,
    capturedEnv sampleRuntime variableHost (sampleOptions [lowerFile]).withDelimiter, none, fun _ => .idle⟩

theorem initial_started : (liveMachine sampleRuntime (sampleOptions [lowerFile])
    (· = variableHost)).Initial started :=
  ⟨variableHost, sampleFiles, inOrder, _, rfl, rfl, rfl⟩

end Golusoris.Config
