import Brewery.Settings.Basic

/-!
How much is logged: what the settings say, errors only, or everything down to debugging.
-/

namespace Brewery

inductive Verbosity where
  | normal
  | quiet
  | debug
  deriving DecidableEq

namespace Verbosity

/-- Quiet wins over debug. -/
def ofFlags (quiet debug : Bool) : Verbosity :=
  if quiet then .quiet else if debug then .debug else .normal

def text : Verbosity → Text
  | .normal => "normal".toList
  | .quiet => "quiet".toList
  | .debug => "debug".toList

end Verbosity

/-- The directives of a filter: a level for all, then levels for modules in the order of their
names. Quiet leaves no exceptions. -/
def Logging.filter (logging : Logging) (verbosity : Verbosity) : Text :=
  let modules := logging.modules.mergeSort fun left right => Text.le left.1 right.1
  let exceptions := modules.flatMap fun entry => ',' :: entry.1 ++ '=' :: entry.2
  match verbosity with
  | .quiet => "error".toList
  | .debug => "debug".toList ++ exceptions
  | .normal => logging.level ++ exceptions

end Brewery
