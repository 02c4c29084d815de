import Brewery.Text.Basic

/-!
What a run tells its user. An entry names the part of the brewer that speaks, what
happened, and mostly to what: `[brew] compiled: a.coffee => a.js`.
-/

namespace Brewery

inductive Level where
  | error
  | warn
  | info
  | debug
  deriving DecidableEq

structure LogEntry where
  level : Level
  message : Text
  deriving DecidableEq

abbrev Log := List LogEntry

namespace LogEntry

def tagged (part event : String) : Text := '[' :: part.toList ++ "] ".toList ++ event.toList

def error (part : String) (message : Text) : LogEntry :=
  ⟨.error, '[' :: part.toList ++ "] ".toList ++ message⟩

def warn (part : String) (message : Text) : LogEntry :=
  ⟨.warn, '[' :: part.toList ++ "] ".toList ++ message⟩

def notice (part event : String) : LogEntry := ⟨.info, tagged part event⟩

def info (part event : String) (detail : Text) : LogEntry :=
  ⟨.info, tagged part event ++ ": ".toList ++ detail⟩

def debug (part event : String) (detail : Text) : LogEntry :=
  ⟨.debug, tagged part event ++ ": ".toList ++ detail⟩

end LogEntry

def Level.name : Level → Text
  | .error => "ERROR".toList
  | .warn => "WARN".toList
  | .info => "INFO".toList
  | .debug => "DEBUG".toList

def LogEntry.text (entry : LogEntry) : Text := entry.level.name ++ ' ' :: entry.message

end Brewery
