import Brewery.Disk.Lookup
import Brewery.Log
import Brewery.Source.Classifier

/-!
The files of a tree, in the order of the first pass: entry by entry in the order of their
names, a directory's files at the directory's place. Excluded directories are not entered.
Links inside the tree are neither followed nor listed; the root itself may be one. What can
keep a tree from being listed or watched is one kind of error.
-/

namespace Brewery

inductive TreeError where
  | notDirectory (root : Path)
  | noWatcher (reason : Text)
  | notWatched (root : Path) (reason : Text)
  deriving DecidableEq

def TreeError.message : TreeError → Text
  | .notDirectory root => "Cannot scan ".toList ++ root.text ++ ": not a directory".toList
  | .noWatcher reason => "Failed to initialize watcher: ".toList ++ reason
  | .notWatched root reason => "Cannot watch path ".toList ++ root.text ++ ": ".toList ++ reason

namespace Tree

/-- The files at or below a place that is shown as `path`. No chain of directories is
longer than the depth of the disk, so with that bound every directory is entered. -/
def filesWithin : (bound : Nat) → (disk : Disk) → (root : Path) → Place → Path → List Path
  | 0, _, _, _, _ => []
  | bound + 1, disk, root, place, path =>
      (disk.inside place).flatMap fun entry =>
        let inner := path.join ⟨entry.1⟩
        if inner.isExcluded root then []
        else match entry.2 with
          | .file _ _ => [inner]
          | .directory _ => filesWithin bound disk root (entry.1 :: place) inner
          | .link _ => []

def files (disk : Disk) (root : Path) : Except TreeError (List Path) :=
  match disk.locate root with
  | .ok place =>
      if disk.isDirectoryAt place then .ok (filesWithin (disk.depth + 1) disk root place root)
      else .error (.notDirectory root)
  | .error _ => .error (.notDirectory root)

def foundLog (root : Path) (files : List Path) : Log :=
  [.debug "scan" "found" (Text.ofNat files.length ++ " files under ".toList ++ root.text)]

end Tree
end Brewery
