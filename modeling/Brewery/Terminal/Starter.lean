import Brewery.Disk.Change
import Brewery.Settings.Printer

/-!
Setting up a workspace: a settings file with the standard settings, and a registry with a
few symbols to start from. What is there already is kept, unless it is to be overwritten.
-/

namespace Brewery.Terminal.Starter

/-- The disk after the set-up, what was said on the way, and why it ended early, if it did. -/
structure Result where
  disk : Disk
  output : Text
  failure : Option Text

def registry : Text :=
  ("# Import symbol registry\n" ++
  "#\n" ++
  "# Maps a bare identifier to the import statement that binds it. When a\n" ++
  "# brewed script uses one of these names without defining it, the statement\n" ++
  "# is prepended to the generated CoffeeScript. Entries are emitted in the\n" ++
  "# order they appear here.\n" ++
  "\n" ++
  "[symbols]\n" ++
  "undef = \"import \x7bundef\x7d from '@jdeighan/coffee-utils'\"\n" ++
  "say = \"import \x7bsay\x7d from '@jdeighan/coffee-utils'\"\n" ++
  "croak = \"import \x7bcroak\x7d from '@jdeighan/coffee-utils'\"\n" ++
  "log = \"import \x7blog\x7d from '@jdeighan/coffee-utils/log'\"\n" ++
  "writable = \"import \x7bwritable\x7d from 'svelte/store'\"\n" ++
  "readable = \"import \x7breadable\x7d from 'svelte/store'\"\n").toList

def said (what : String) (path : Path) : Text := what.toList ++ path.text ++ ['\n']

/-- Writes a file, its directory being made if it is missing. -/
def write (disk : Disk) (path : Path) (text : Text) : Disk × Except Fault Unit :=
  match disk.makeDirectories (path.parent?.getD (Path.ofString "")) with
  | (disk, .error fault) => (disk, .error fault)
  | (disk, .ok ()) =>
      match disk.overwrite path (.text text) with
      | .ok disk => (disk, .ok ())
      | .error fault => (disk, .error fault)

def refused : Text :=
  "Configuration file already exists. Use --force to overwrite".toList

def run (disk : Disk) (force : Bool) : Result :=
  let here := Place.path disk.current
  let settings := Settings.fileIn here
  let symbols := here.join Settings.standard.symbols
  let existed := disk.holds settings
  if existed && !force then ⟨disk, [], some refused⟩
  else match write disk settings (Settings.standard.render?.getD []) with
    | (disk, .error fault) => ⟨disk, [], some fault.message⟩
    | (disk, .ok ()) =>
        let first := if existed then said "Overwrote configuration at: " settings
          else said "Created default configuration at: " settings
        let last := "Edit ".toList ++ settings.text ++ " to customize your settings.\n".toList
        if disk.holds symbols && !force then
          ⟨disk, first ++ said "Found existing " symbols ++ last, none⟩
        else match write disk symbols registry with
          | (disk, .error fault) => ⟨disk, first, some fault.message⟩
          | (disk, .ok ()) =>
              ⟨disk, first ++ said "Created symbol registry at: " symbols ++ last, none⟩

end Brewery.Terminal.Starter
