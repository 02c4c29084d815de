import Brewery.Path

/-!
Kinds of sources, told by the extension alone, and the stages that each kind goes through.
-/

namespace Brewery

inductive SourceKind where
  | macroScript
  | intermediateScript
  | componentTemplate
  | dataLiteral
  | unrecognized
  deriving DecidableEq

/-- One step from a text to the artifact made of it. -/
inductive Stage where
  | preprocess
  | compileScript
  | compileTemplate
  | wrapData
  deriving DecidableEq

namespace SourceKind

/-- The kinds that can be brewed, in the order in which they are listed. -/
def recognized : List SourceKind :=
  [.macroScript, .intermediateScript, .componentTemplate, .dataLiteral]

def ofExtension (extension : Text) : SourceKind :=
  if extension = "cielo".toList then .macroScript
  else if extension = "coffee".toList then .intermediateScript
  else if extension = "starbucks".toList then .componentTemplate
  else if extension = "json5".toList then .dataLiteral
  else .unrecognized

def chain : SourceKind → List Stage
  | .macroScript => [.preprocess, .compileScript]
  | .intermediateScript => [.compileScript]
  | .componentTemplate => [.compileTemplate]
  | .dataLiteral => [.wrapData]
  | .unrecognized => []

/-- The name of a kind in settings and options. -/
def key : SourceKind → Text
  | .macroScript => "cielo".toList
  | .intermediateScript => "coffee".toList
  | .componentTemplate => "starbucks".toList
  | .dataLiteral => "data".toList
  | .unrecognized => "unknown".toList

def ofKey (key : Text) : SourceKind :=
  (recognized.find? fun kind => kind.key = key).getD .unrecognized

def displayName : SourceKind → Text
  | .macroScript => "macro-script".toList
  | .intermediateScript => "intermediate-script".toList
  | .componentTemplate => "component-template".toList
  | .dataLiteral => "data-literal".toList
  | .unrecognized => "unrecognized".toList

def ofPath (path : Path) : SourceKind :=
  match path.extension? with
  | some extension => ofExtension extension
  | none => .unrecognized

end SourceKind

namespace Stage

def outputExtension : Stage → Text
  | .preprocess => "coffee".toList
  | .compileScript => "js".toList
  | .compileTemplate => "svelte".toList
  | .wrapData => "js".toList

/-- Whether the artifact is one that others import by name. -/
def exposes : Stage → Bool
  | .preprocess => false
  | _ => true

/-- What the log says when a stage is done. -/
def done : Stage → String
  | .preprocess => "expanded"
  | .compileScript => "compiled"
  | .compileTemplate => "templated"
  | .wrapData => "wrapped"

end Stage
end Brewery
