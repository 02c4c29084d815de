import Brewery.Disk.Lookup
import Brewery.Source.Kind

/-!
The settings of a workspace, and what they mean for a tree that is brewed: its directories
are taken from the root of the tree, the registry of symbols from the workspace, which is
the nearest directory upward that holds the settings directory.
-/

namespace Brewery

/-- Which kinds of sources are brewed. -/
structure Formats where
  enabled : List SourceKind
  deriving DecidableEq

namespace Formats

/-- The kinds among the given ones that can be brewed, in the order of listing. -/
def only (kinds : List SourceKind) : Formats :=
  ⟨SourceKind.recognized.filter fun kind => kinds.elem kind⟩

def all : Formats := ⟨SourceKind.recognized⟩

def contains (formats : Formats) (kind : SourceKind) : Bool := formats.enabled.elem kind

end Formats

/-- The command lines that serve as stages. -/
structure Commands where
  script : List Text
  template : List Text
  execute : List Text
  deriving DecidableEq

structure Logging where
  level : Text
  modules : List (Text × Text)
  deriving DecidableEq

structure Settings where
  version : Nat
  root : Option Path
  stores : Path
  includeDirs : List Path
  symbols : Path
  formats : Formats
  commands : Commands
  /-- How many milliseconds a changed path has to be quiet. -/
  debounce : Nat
  logging : Logging
  deriving DecidableEq

namespace Settings

def directory : Path := Path.ofString ".cielo"

def fileName : Path := Path.ofString "settings.toml"

def Commands.standard : Commands :=
  ⟨["coffee", "--compile", "--bare", "--stdio"].map String.toList, [], ["node".toList]⟩

def standard : Settings :=
  { version := 1
    root := none
    stores := Path.ofString "stores"
    includeDirs := []
    symbols := directory.join (Path.ofString "symbols.toml")
    formats := Formats.all
    commands := Commands.standard
    debounce := 0
    logging := ⟨"info".toList, []⟩ }

/-- A place and those around it, the innermost first. -/
def outward : Place → List Place
  | [] => [[]]
  | name :: rest => (name :: rest) :: outward rest

/-- The current directory and those above it. -/
def ancestors (disk : Disk) : List Path := (outward disk.current).map Place.path

def workspace? (disk : Disk) : Option Path :=
  (ancestors disk).find? fun path => disk.isDirectory (path.join directory)

/-- The settings file of a workspace. -/
def fileIn (workspace : Path) : Path := (workspace.join directory).join fileName

def storesPath (settings : Settings) (root : Path) : Path := root.join settings.stores

def includePaths (settings : Settings) (root : Path) : List Path :=
  settings.includeDirs.map root.join

/-- Where the registry is: in the workspace, or else in the given directory. -/
def symbolsPath (settings : Settings) (disk : Disk) (fallback : Path) : Path :=
  ((workspace? disk).getD fallback).join settings.symbols

end Settings
end Brewery
