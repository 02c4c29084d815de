import Brewery.Script.Expansion

/-!
Why a stage refuses a text. A failure of a compiler and a broken data literal keep the text
they were given, so that the failure can be studied outside the brewery.
-/

namespace Brewery

inductive StageError where
  | expand (error : ExpandError)
  | compile (command message original : Text)
  | notConfigured (compiler : Text)
  | spawn (command : Text) (fault : Fault)
  | data (original : Text)
  | read (path : Path) (fault : Fault)
  deriving DecidableEq

namespace StageError

def message : StageError → Text
  | .expand error => error.message
  | .compile command message _ => command ++ " failed: ".toList ++ message
  | .notConfigured compiler => "no ".toList ++ compiler ++ " command configured".toList
  | .spawn command fault => "cannot run ".toList ++ command ++ ": ".toList ++ fault.message
  | .data _ => "invalid data literal: ".toList
  | .read path fault => "cannot read ".toList ++ path.text ++ ": ".toList ++ fault.message

/-- The text that the failing stage was given, when it kept it. -/
def original? : StageError → Option Text
  | .compile _ _ original => some original
  | .data original => some original
  | _ => none

end StageError
end Brewery
