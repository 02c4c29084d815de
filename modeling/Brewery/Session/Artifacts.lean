import Brewery.Disk.Change
import Brewery.Log

/-!
Writing and removing artifacts. An artifact is replaced as a whole or not at all, and a
refusal of the disk is logged here, once, and handed on.
-/

namespace Brewery.Artifacts

def refusal (what : String) (path : Path) (fault : Fault) : Log :=
  [.error "write" (what.toList ++ ' ' :: path.text ++ ": ".toList ++ fault.message)]

def write (disk : Disk) (path : Path) (text : Text) : Disk × Log × Except Fault Unit :=
  match disk.replaceFile path text with
  | (disk, .ok ()) => (disk, [], .ok ())
  | (disk, .error fault) => (disk, refusal "cannot write" path fault, .error fault)

/-- Removes an artifact. Answers whether it was there. -/
def remove (disk : Disk) (path : Path) : Disk × Log × Except Fault Bool :=
  match disk.removeFile path with
  | .ok disk => (disk, [], .ok true)
  | .error .missing => (disk, [], .ok false)
  | .error fault => (disk, refusal "cannot remove" path fault, .error fault)

end Brewery.Artifacts
