import Brewery.Disk.Lookup

/-!
What the paths of a command line name: at most one directory, the root, and any number of
files. All of them must exist, and all are shown by the paths of their places.
-/

namespace Brewery.Terminal

structure Targets where
  root : Path
  files : List Path
  deriving DecidableEq

inductive TargetError where
  | multipleRoots (first second : Path)
  | invalidPath (path : Path)
  deriving DecidableEq

def TargetError.message : TargetError → Text
  | .multipleRoots first second =>
      "only one directory may be given (".toList ++ first.text ++ " and ".toList ++
        second.text ++ [')']
  | .invalidPath path => "invalid path on command line: ".toList ++ path.text

namespace Targets

/-- Sorts paths one by one into the root, if there is one yet, and the files so far. -/
def sort (disk : Disk) : List Path → Option Path → List Path →
    Except TargetError (Option Path × List Path)
  | [], root, files => .ok (root, files)
  | path :: rest, root, files =>
      match disk.locate path with
      | .error _ => .error (.invalidPath path)
      | .ok place =>
          if disk.isDirectoryAt place then
            match root with
            | some first => .error (.multipleRoots first place.path)
            | none => sort disk rest (some place.path) files
          else if (disk.contentsAt? place).isSome then
            sort disk rest root (files ++ [place.path])
          else .error (.invalidPath path)

/-- Without a directory among the paths, the root is the standard one. -/
def resolve (disk : Disk) (paths : List Path) (standard : Path) :
    Except TargetError Targets := do
  let (root, files) ← sort disk paths none []
  match root with
  | some root => .ok ⟨root, files⟩
  | none =>
      match disk.canonical standard with
      | .ok root => .ok ⟨root, files⟩
      | .error _ => .error (.invalidPath standard)

end Targets
end Brewery.Terminal
