import Brewery.Text.Basic

/-!
Values of a settings file. A table keeps its entries in the order in which they were given,
and how it came to be, because that decides what may still be added to it. Numbers with a
fraction and dates keep their spelling: nothing here counts with them.
-/

namespace Brewery.Toml

/-- How a table came to be. -/
inductive Origin where
  /-- By the header of a table inside it. -/
  | implied
  /-- By a dotted key. -/
  | dotted
  /-- By a header of its own. -/
  | header
  /-- In braces; such a table is complete. -/
  | braces
  deriving DecidableEq

inductive Value where
  | string (characters : Text)
  | integer (number : Int)
  | float (spelling : Text)
  | bool (truth : Bool)
  | date (spelling : Text)
  | array (elements : List Value)
  /-- An array whose tables each have a header of their own. -/
  | tables (elements : List (List (Text × Value)))
  | table (origin : Origin) (entries : List (Text × Value))

abbrev Entries := List (Text × Value)

namespace Entries

def get? (entries : Entries) (key : Text) : Option Value :=
  (entries.find? fun entry => entry.1 = key).map Prod.snd

/-- Puts a value in the place of the one that a key has. -/
def replace (entries : Entries) (key : Text) (value : Value) : Entries :=
  entries.map fun entry => if entry.1 = key then (key, value) else entry

end Entries
end Brewery.Toml
