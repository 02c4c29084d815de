import Brewery.Path

/-!
What a session reacts to: a path was added, changed or removed, or the first pass over the
tree has reported every file that was there.
-/

namespace Brewery

inductive Event where
  | added (path : Path)
  | changed (path : Path)
  | removed (path : Path)
  | ready
  deriving DecidableEq

namespace Event

def path? : Event → Option Path
  | .added path => some path
  | .changed path => some path
  | .removed path => some path
  | .ready => none

/-- The word for an event in the log. -/
def label : Event → String
  | .added _ => "add"
  | .changed _ => "change"
  | .removed _ => "unlink"
  | .ready => "ready"

end Event
end Brewery
