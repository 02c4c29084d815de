import Brewery.Coffee.Bindings
import Brewery.Import.Table
import Brewery.Log

/-!
The prelude of a text: an import statement for each symbol of the table that the text uses
and does not bind. Statements come in the order of the table, each once.
-/

namespace Brewery.SymbolTable

/-- The symbols a text needs, in the order of the table. -/
def needed (table : SymbolTable) (text : Text) : List Text :=
  let free := (Coffee.scan text).free
  (table.entries.map Prod.fst).filter fun name => free.elem name

def statements (table : SymbolTable) (text : Text) : List Text :=
  ((table.needed text).filterMap table.get?).eraseDups

def prelude (table : SymbolTable) (text : Text) : Text :=
  Text.joinWith ['\n'] (table.statements text)

/-- A text with its prelude in front, one empty line between them. A text that needs
nothing stays as it is. -/
def apply (table : SymbolTable) (text : Text) : Text :=
  let statements := table.prelude text
  if statements.isEmpty then text
  else statements ++ ['\n', '\n'] ++ text.dropWhile fun c => c = '\n' || c = '\r'

/-- What `apply` has to report: the symbols that its own result still needs. -/
def applyLog (table : SymbolTable) (text : Text) : Log :=
  if (table.prelude text).isEmpty then []
  else
    let left := table.needed (table.apply text)
    if left.isEmpty then []
    else [.warn "imports" ("prelude left symbols unbound: ".toList ++
      Text.joinWith ", ".toList left)]

end Brewery.SymbolTable
