import Brewery.Settings.Basic
import Brewery.Settings.Variable
import Brewery.Toml.Reader

/-!
Reading the settings. The standard settings stand first, then come those of the settings
file, then those of the environment; tables are combined key by key, and of any other two
values the later counts. A setting of the wrong type makes all settings invalid, an unknown
one does not matter.
-/

namespace Brewery.Toml

mutual

/-- A value laid over the value that stood before it. -/
def Value.over : (value before : Value) → Value
  | .table origin entries, before =>
      match before with
      | .table _ earlier => .table origin (overEntries entries earlier)
      | _ => .table origin entries
  | value, _ => value

/-- Entries laid over those that stood before them. -/
def overEntries : (entries before : List (Text × Value)) → List (Text × Value)
  | [], before => before
  | (key, value) :: rest, before =>
      let combined := match Entries.get? before key with
        | some earlier => Entries.replace before key (value.over earlier)
        | none => before ++ [(key, value)]
      overEntries rest combined

end

end Brewery.Toml

namespace Brewery.Settings

open Toml (Value Entries)

/-- The settings of a group, by their keys; a group given as an array has them in order. -/
def group? (keys : List String) : Option Value → Option (Text → Option Value)
  | none => some fun _ => none
  | some (.table _ entries) => some (Entries.get? entries)
  | some (.array elements) => some (Entries.get? ((keys.map String.toList).zip elements))
  | some (.date _) => some fun _ => none
  | some _ => none

def bool? (standard : Bool) : Option Value → Option Bool
  | none => some standard
  | some (.bool truth) => some truth
  | some _ => none

def text? (standard : Text) : Option Value → Option Text
  | none => some standard
  | some (.string characters) => some characters
  | some _ => none

/-- A number from zero up to, and without, a limit. -/
def number? (limit standard : Nat) : Option Value → Option Nat
  | none => some standard
  | some (.integer number) =>
      if 0 ≤ number && number < limit then some number.toNat else none
  | some _ => none

def texts? (standard : List Text) : Option Value → Option (List Text)
  | none => some standard
  | some (.array elements) => elements.mapM fun element => text? [] (some element)
  | some _ => none

def pathOption? : Option Value → Option (Option Path)
  | none => some none
  | some (.string characters) => some (some ⟨characters⟩)
  | some _ => none

def modules? : Option Value → Option (List (Text × Text))
  | none => some []
  | some (.table _ entries) => entries.mapM fun entry =>
      (text? [] (some entry.2)).map fun level => (entry.1, level)
  | some _ => none

def formats? (value : Option Value) : Option Formats := do
  let get ← group? ["cielo", "coffee", "starbucks", "data"] value
  let chosen ← SourceKind.recognized.mapM fun kind =>
    (bool? true (get kind.key)).map fun enabled => (kind, enabled)
  some ⟨(chosen.filter Prod.snd).map Prod.fst⟩

def commands? (value : Option Value) : Option Commands := do
  let get ← group? ["script", "template", "execute"] value
  some {
    script := ← texts? Commands.standard.script (get "script".toList)
    template := ← texts? Commands.standard.template (get "template".toList)
    execute := ← texts? Commands.standard.execute (get "execute".toList) }

def logging? (value : Option Value) : Option Logging := do
  let get ← group? ["default", "modules"] value
  some {
    level := ← text? standard.logging.level (get "default".toList)
    modules := ← modules? (get "modules".toList) }

def ofEntries? (entries : Entries) : Option Settings := do
  let get (key : String) := entries.get? key.toList
  let watch ← group? ["debounce_ms"] (get "watch")
  some {
    version := ← number? (Nat.pow 2 32) standard.version (get "version")
    root := ← pathOption? (get "root")
    stores := ⟨← text? standard.stores.text (get "stores_dir")⟩
    includeDirs := (← texts? [] (get "include_dirs")).map Path.mk
    symbols := ⟨← text? standard.symbols.text (get "symbols_file")⟩
    formats := ← formats? (get "formats")
    commands := ← commands? (get "compilers")
    debounce := ← number? (Nat.pow 2 64) standard.debounce (watch "debounce_ms".toList)
    logging := ← logging? (get "logging") }

/-- The settings that environment variables give, later variables over earlier ones. -/
def ofVariables (environment : List (Text × Text)) : Entries :=
  environment.foldl (fun entries setting =>
    match Variable.keys? setting.1 with
    | some keys =>
        match Variable.nest keys (Variable.value setting.2) with
        | .table _ given => Toml.overEntries given entries
        | _ => entries
    | none => entries) []

/-- The settings file that a path means. A relative path is looked for from the current
directory upward. -/
def search? (disk : Disk) (path : Path) : Option Path :=
  let candidates := if path.isAbsolute then [path] else (ancestors disk).map (·.join path)
  candidates.find? fun candidate => disk.isFile candidate

/-- The entries of the settings file; without a file there are none. -/
def fileEntries? (disk : Disk) (path : Path) : Option Entries :=
  match search? disk path with
  | none => some []
  | some file =>
      match disk.readText file with
      | .ok text => Toml.parse? .v10 text
      | .error _ => none

/-- The settings in force, or none when they are invalid. Without a path the settings file
is that of the workspace. -/
def load? (disk : Disk) (environment : List (Text × Text)) (path : Option Path) :
    Option Settings := do
  let file := match path, workspace? disk with
    | some path, _ => path
    | none, some workspace => fileIn workspace
    | none, none => directory.join fileName
  let entries ← fileEntries? disk file
  ofEntries? (Toml.overEntries (ofVariables environment) entries)

end Brewery.Settings
