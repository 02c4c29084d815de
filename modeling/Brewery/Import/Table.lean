import Brewery.Text.Basic

/-!
The table of importable symbols: names and the statements that bind them, in the order in
which the names were first given. A name given again keeps its place and takes the new
statement.
-/

namespace Brewery

structure SymbolTable where
  entries : List (Text × Text)

namespace SymbolTable

def empty : SymbolTable := ⟨[]⟩

def insert (table : SymbolTable) (name statement : Text) : SymbolTable :=
  if table.entries.any fun entry => entry.1 = name then
    ⟨table.entries.map fun entry => if entry.1 = name then (name, statement) else entry⟩
  else ⟨table.entries ++ [(name, statement)]⟩

def ofPairs (pairs : List (Text × Text)) : SymbolTable :=
  pairs.foldl (fun table pair => table.insert pair.1 pair.2) empty

def get? (table : SymbolTable) (name : Text) : Option Text :=
  (table.entries.find? fun entry => entry.1 = name).map Prod.snd

def contains (table : SymbolTable) (name : Text) : Bool := (table.get? name).isSome

def size (table : SymbolTable) : Nat := table.entries.length

def isEmpty (table : SymbolTable) : Bool := table.entries.isEmpty

end SymbolTable
end Brewery
