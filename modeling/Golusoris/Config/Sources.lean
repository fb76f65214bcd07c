import Golusoris.Lib.Layers
import Golusoris.Lib.Utf8
import Mathlib.Data.List.Perm.Basic

/-!
# The layers of a configuration

Source: `core/config/config.go` and `core/config/secrets.go`. The key tree is
koanf's: every load lays what a provider read over the tree, node by node.
`overlay` reads secret directories, the environment and the files that `*_FILE`
variables name, and lays each over the tree as soon as it is read.
-/

namespace Golusoris.Config

open Lib (Bytes Tree)

structure Options where
  envPrefix : Bytes
  delimiter : Bytes
  files : List Bytes
  compoundKeys : List Bytes
  secretDirs : List Bytes
  fileEnvSuffix : Bytes
  maxSecretBytes : Int
  disableEnv : Bool

def defaultMaxSecretBytes : Int := 64 * 1024

def maxSecretDirEntries : Nat := 1024

namespace Options

def secretLimit (opts : Options) : Int :=
  if opts.maxSecretBytes = 0 then defaultMaxSecretBytes else opts.maxSecretBytes

/-- The delimiter is a dot when none is given. -/
def withDelimiter (opts : Options) : Options :=
  if opts.delimiter = [] then { opts with delimiter := [0x2E] } else opts

end Options

inductive Error (Failure : Type) where
  | negativeMaxSecretBytes
  | suffixNeedsPrefix
  | unsupportedExtension (path : Bytes)
  | load (path : Bytes) (cause : Failure)
  | readSecretDir (dir : Bytes) (cause : Failure)
  | secretDirEntries (dir : Bytes)
  | readSecret (cause : Failure)
  | invalidKey (name : Bytes)
  | bothSet (base name : Bytes)
  | fileEnv (name : Bytes) (cause : Failure)
  | secretIsDirectory (name path : Bytes)

def Options.validate {Failure : Type} (opts : Options) : Except (Error Failure) Unit :=
  if opts.maxSecretBytes < 0 then .error .negativeMaxSecretBytes
  else if opts.fileEnvSuffix ≠ [] ∧ opts.envPrefix = [] then .error .suffixNeedsPrefix
  else .ok ()

/-- The parts of a text between the places where the delimiter stands. -/
def splitFrom (delim : Bytes) : Nat → Bytes → Bytes → List Bytes
  | _, part, [] => [part.reverse]
  | passed + 1, part, _ :: rest => splitFrom delim passed part rest
  | 0, part, byte :: rest =>
      if delim.isPrefixOf (byte :: rest) then
        part.reverse :: splitFrom delim (delim.length - 1) [] rest
      else splitFrom delim 0 (byte :: part) rest

def split (text delim : Bytes) : List Bytes := splitFrom delim 0 [] text

def replaceAll (text old new : Bytes) : Bytes := List.intercalate new (split text old)

/-- The text without the suffix it ends in. -/
def cutSuffix (text suffix : Bytes) : Option Bytes :=
  if suffix.isSuffixOf text then some (text.take (text.length - suffix.length)) else none

def underscore : Bytes := [0x5F]

inductive Parser where
  | yaml
  | json
  deriving DecidableEq

/-- From the last dot of the last element of the path on. -/
def ext (path : Bytes) : Bytes :=
  let last := (path.reverse.takeWhile fun byte => byte != 0x2F).reverse
  if last.contains 0x2E then 0x2E :: (last.reverse.takeWhile fun byte => byte != 0x2E).reverse else []

/-- A secret file: an entry of a directory, or the target of a `*_FILE` variable. -/
inductive Place where
  | entry (dir name : Bytes)
  | target (path : Bytes)
  deriving DecidableEq

/-- The libraries the loader rests on. -/
structure Runtime (Failure Value : Type) where
  toLower : Bytes → Bytes
  toUpper : Bytes → Bytes
  /-- The map a document holds. -/
  parse : Parser → Bytes → Except Failure (Bytes → Tree Bytes Value)
  /-- The map of a list of key paths and values, a later one of which replaces an earlier. -/
  unflatten : Bytes → List (Bytes × Bytes) → Bytes → Tree Bytes Value
  text : Bytes → Value
  /-- Loading a file without a parser fails. -/
  noParser : Failure

/-- What reading a file gives, where the file exists. -/
abbrev Files (Failure : Type) : Type := Bytes → Option (Except Failure Bytes)

structure Host (Failure : Type) where
  /-- The names in a directory, where the directory exists. -/
  readDir : Bytes → Option (Except Failure (List Bytes))
  /-- The trimmed content of at most so many bytes; none for a directory. -/
  readSecret : Place → Int → Except Failure (Option Bytes)
  environ : List (Bytes × Bytes)

/-- An iteration over a map visits its entries in any order. -/
structure Order where
  visit : List (Bytes × Bytes) → List (Bytes × Bytes)
  visits : ∀ entries, (visit entries).Perm entries

/-- Layers laid over the tree, up to the error that ended it. -/
structure Loading (Failure Value : Type) where
  layers : List (Tree Bytes Value)
  error : Option (Error Failure)

namespace Loading

variable {Failure Value : Type}

def done : Loading Failure Value := ⟨[], none⟩

def fail (error : Error Failure) : Loading Failure Value := ⟨[], some error⟩

def one (layer : Tree Bytes Value) : Loading Failure Value := ⟨[layer], none⟩

def andThen (first next : Loading Failure Value) : Loading Failure Value :=
  match first.error with
  | some _ => first
  | none => ⟨first.layers ++ next.layers, next.error⟩

/-- The loading of each item in turn. -/
def each {Item : Type} (items : List Item) (load : Item → Loading Failure Value) :
    Loading Failure Value :=
  items.foldr (fun item rest => (load item).andThen rest) done

end Loading

variable {Failure Value : Type} (runtime : Runtime Failure Value) (host : Host Failure)
  (opts : Options)

def parserFor (path : Bytes) : Option Parser :=
  let extension := runtime.toLower (ext path)
  if extension = [0x2E, 0x79, 0x61, 0x6D, 0x6C] ∨ extension = [0x2E, 0x79, 0x6D, 0x6C] then some .yaml
  else if extension = [0x2E, 0x6A, 0x73, 0x6F, 0x6E] then some .json
  else none

/-- What `koanf.Set` lays over the tree. -/
def setLayer (key value : Bytes) : Tree Bytes Value :=
  .single (runtime.text value) (split key opts.delimiter)

/-- A file name is a key path without empty segments. -/
def secretKey (name delim : Bytes) : Except (Error Failure) Bytes :=
  if [] ∈ split name delim then .error (.invalidKey name) else .ok name

def readEntries (dir : Bytes) : List Bytes → Except (Error Failure) (List (Bytes × Bytes))
  | [] => .ok []
  | name :: names =>
      if name.head? = some 0x2E then readEntries dir names
      else match host.readSecret (.entry dir name) opts.secretLimit with
        | .error cause => .error (.readSecret cause)
        | .ok none => readEntries dir names
        | .ok (some value) =>
            match secretKey name opts.delimiter with
            | .error invalid => .error invalid
            | .ok key => (readEntries dir names).map ((key, value) :: ·)

def readSecretDir (dir : Bytes) : Except (Error Failure) (List (Bytes × Bytes)) :=
  match host.readDir dir with
  | none => .ok []
  | some (.error cause) => .error (.readSecretDir dir cause)
  | some (.ok names) =>
      if maxSecretDirEntries < names.length then .error (.secretDirEntries dir)
      else readEntries host opts dir names

def loadSecretDir (order : Order) (dir : Bytes) : Loading Failure Value :=
  match readSecretDir host opts dir with
  | .error failed => .fail failed
  | .ok values => ⟨(order.visit values).map fun entry => setLayer runtime opts entry.1 entry.2, none⟩

def loadSecretDirs (order : Order) : Loading Failure Value :=
  .each opts.secretDirs (loadSecretDir runtime host opts order)

/-- The declared compound key whose variable has a name; the last one declared counts. -/
def compoundLookup (name : Bytes) : Option Bytes :=
  opts.compoundKeys.reverse.find? fun key =>
    runtime.toUpper (replaceAll key opts.delimiter underscore) = name

def envKey (stripped : Bytes) : Bytes :=
  match compoundLookup runtime opts stripped with
  | some key => key
  | none => replaceAll (runtime.toLower stripped) underscore opts.delimiter

/-- The key path a variable gives, if any. -/
def envTransform (name : Bytes) : Bytes :=
  let stripped := name.drop opts.envPrefix.length
  if compoundLookup runtime opts stripped = none ∧ opts.fileEnvSuffix ≠ [] ∧
      opts.fileEnvSuffix.isSuffixOf stripped then []
  else envKey runtime opts stripped

/-- The variables with the prefix that give a key. -/
def envVariables : List (Bytes × Bytes) :=
  host.environ.filter fun entry =>
    opts.envPrefix.isPrefixOf entry.1 && !(envTransform runtime opts entry.1).isEmpty

def envLayer : Tree Bytes Value :=
  .node (runtime.unflatten opts.delimiter
    ((envVariables runtime host opts).map fun entry => (envTransform runtime opts entry.1, entry.2)))

/-- The variables by their names without the prefix. -/
def capturedEnv : List (Bytes × Bytes) :=
  if opts.disableEnv ∨ opts.envPrefix = [] then []
  else (envVariables runtime host opts).map fun entry =>
    (entry.1.drop opts.envPrefix.length, entry.2)

/-- The key and the base name of a `*_FILE` variable. -/
def fileEnvKey (name : Bytes) : Option (Bytes × Bytes) :=
  if !opts.envPrefix.isPrefixOf name then none
  else
    let stripped := name.drop opts.envPrefix.length
    match compoundLookup runtime opts stripped with
    | some _ => none
    | none =>
        match cutSuffix stripped opts.fileEnvSuffix with
        | none => none
        | some base => if base = [] then none else some (envKey runtime opts base, base)

def loadFileVariable (entry : Bytes × Bytes) : Loading Failure Value :=
  match fileEnvKey runtime opts entry.1 with
  | none => .done
  | some (key, base) =>
      if opts.envPrefix ++ base ∈ host.environ.map Prod.fst then .fail (.bothSet base entry.1)
      else match host.readSecret (.target entry.2) opts.secretLimit with
        | .error cause => .fail (.fileEnv entry.1 cause)
        | .ok none => .fail (.secretIsDirectory entry.1 entry.2)
        | .ok (some value) => .one (setLayer runtime opts key value)

def loadFileEnv : Loading Failure Value :=
  if opts.disableEnv ∨ opts.fileEnvSuffix = [] then .done
  else .each host.environ (loadFileVariable runtime host opts)

/-- The layers above the files. -/
def higher (order : Order) : Loading Failure Value :=
  (loadSecretDirs runtime host opts order).andThen
    (if opts.disableEnv then .done
    else (Loading.one (envLayer runtime host opts)).andThen (loadFileEnv runtime host opts))

/-! ## The order of a map's entries

Which layers are laid does not depend on it, only their sequence. -/

namespace Loading

/-- The same layers in any sequence, and the same end. -/
structure Alike (first second : Loading Failure Value) : Prop where
  layers : first.layers.Perm second.layers
  error : first.error = second.error

theorem Alike.rfl (loading : Loading Failure Value) : loading.Alike loading := ⟨.refl _, Eq.refl _⟩

theorem Alike.andThen {first second next other : Loading Failure Value} (head : first.Alike second)
    (rest : next.Alike other) : (first.andThen next).Alike (second.andThen other) := by
  rw [Loading.andThen, Loading.andThen, ← head.error]
  cases first.error with
  | some failed => exact head
  | none =>
    constructor
    · exact head.layers.append rest.layers
    · exact rest.error

theorem Alike.each {Item : Type} {items : List Item} {load other : Item → Loading Failure Value}
    (alike : ∀ item, (load item).Alike (other item)) :
    (Loading.each items load).Alike (Loading.each items other) := by
  induction items with
  | nil => exact .rfl _
  | cons item items ih => exact (alike item).andThen ih

end Loading

theorem loadSecretDir_alike (first second : Order) (dir : Bytes) :
    (loadSecretDir runtime host opts first dir).Alike
    (loadSecretDir runtime host opts second dir) := by
  rw [loadSecretDir, loadSecretDir]
  cases readSecretDir host opts dir with
  | error failed => exact .rfl _
  | ok values =>
    constructor
    · exact ((first.visits values).trans (second.visits values).symm).map _
    · rfl

theorem higher_alike (first second : Order) :
    (higher runtime host opts first).Alike (higher runtime host opts second) :=
  (Loading.Alike.each (loadSecretDir_alike runtime host opts first second)).andThen (.rfl _)

end Golusoris.Config
