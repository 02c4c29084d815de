import Brewery.Source.Kind

/-!
Which paths are sources of a root. Dependencies and hidden segments below the root are
never sources, whatever their extension; nor are kinds that are switched off.
-/

namespace Brewery

def dependencyDirectory : Text := "node_modules".toList

def isExcludedSegment : Path.Component → Bool
  | .name segment => segment = dependencyDirectory || segment.head? = some '.'
  | _ => false

/-- Whether a path is hidden or a dependency. A path inside the root is judged by its part
below the root, any other path as a whole. -/
def Path.isExcluded (path root : Path) : Bool :=
  ((Path.stripPrefix? root path).getD path).components.any isExcludedSegment

structure Classifier where
  root : Path
  enabled : List SourceKind

namespace Classifier

/-- The kind as which a path is brewed. -/
def classify (classifier : Classifier) (path : Path) : SourceKind :=
  let kind := SourceKind.ofPath path
  if !path.isExcluded classifier.root && kind ≠ .unrecognized && classifier.enabled.elem kind
  then kind else .unrecognized

end Classifier
end Brewery
