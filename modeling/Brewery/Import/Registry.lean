import Brewery.Disk.Lookup
import Brewery.Import.Table
import Brewery.Log
import Brewery.Toml.Reader

/-!
The registry file, which gives the table of symbols: its table `symbols` maps names
to import statements. Other entries of the file do not matter. Without a file there are no
symbols.
-/

namespace Brewery

inductive RegistryError where
  | read (path : Path) (fault : Fault)
  | invalid (path : Path)
  deriving DecidableEq

def RegistryError.message : RegistryError → Text
  | .read path fault =>
      "cannot read symbol registry ".toList ++ path.text ++ ": ".toList ++ fault.message
  | .invalid path => "invalid symbol registry ".toList ++ path.text

namespace SymbolTable

/-- A statement given as a string, under its name. -/
def statement? : Text × Toml.Value → Option (Text × Text)
  | (name, .string statement) => some (name, statement)
  | _ => none

def ofEntries? (entries : Toml.Entries) : Option SymbolTable :=
  match entries.get? "symbols".toList with
  | none => some empty
  | some (.table _ symbols) => (symbols.mapM statement?).map ofPairs
  | some _ => none

def load (disk : Disk) (path : Path) : Log × Except RegistryError SymbolTable :=
  if !disk.holds path then ([.debug "imports" "no registry" path.text], .ok empty)
  else match disk.readText path with
    | .error fault => ([], .error (.read path fault))
    | .ok text =>
        match (Toml.parse? .v11 text).bind ofEntries? with
        | none => ([], .error (.invalid path))
        | some table =>
            ([.debug "imports" "registry loaded" (Text.ofNat table.size ++ " symbols".toList)],
              .ok table)

end SymbolTable
end Brewery
