import Brewery.Disk.Lookup
import Brewery.Session.Event

/-!
Notices of a watched disk and the events they mean. A rename is the removal of the old path
and the addition of the new one; a rename of unknown direction is judged by what is there
now. Mere looks at a file, and changes of anything but its contents, mean nothing.
-/

namespace Brewery

inductive Happening where
  | created
  | written
  | removed
  | renamedFromTo
  | renamedAway
  | renamedHere
  | renamedSomehow
  | irrelevant
  deriving DecidableEq

structure Notice where
  happening : Happening
  paths : List Path

namespace Notice

def events (disk : Disk) (notice : Notice) : List Event :=
  match notice.happening with
  | .created => notice.paths.map .added
  | .written => notice.paths.map .changed
  | .removed => notice.paths.map .removed
  | .renamedFromTo =>
      match notice.paths with
      | source :: target :: _ => [.removed source, .added target]
      | _ => []
  | .renamedAway => notice.paths.map .removed
  | .renamedHere => notice.paths.map .added
  | .renamedSomehow =>
      notice.paths.map fun path => if disk.holds path then .added path else .removed path
  | .irrelevant => []

end Notice
end Brewery
