import Brewery.Disk.Lookup

/-!
Making, replacing and removing. These act on the last name of a path itself: replacing or
removing a link changes the link and not what it leads to.
-/

namespace Brewery.Disk

/-- The last segment of a path: a name in a directory, perhaps with a slash after it, or a
segment such as `..` that no directory holds as an entry of its own. -/
inductive Last where
  | entry (place : Place) (slash : Bool)
  | special

def last (disk : Disk) (path : Path) : Except Fault Last :=
  if path.text = [] then .error .missing
  else if Char.ofNat 0 ∈ path.text then .error .nulInPath
  else
    let (start, segments) := disk.start path
    let (slashes, names) := (segments.reverse.span (· = []))
    match names with
    | [] => .ok .special
    | name :: before => do
        let parent ← walk disk false linkLimit start before.reverse
        if !disk.isDirectoryAt parent then .error .notDirectory
        else if name = ['.'] || name = ['.', '.'] then .ok .special
        else if nameLimit < Text.Utf8.size name then .error .nameTooLong
        else .ok (.entry (name :: parent) !slashes.isEmpty)

def makeDirectory (disk : Disk) (path : Path) : Except Fault Disk := do
  match ← disk.last path with
  | .special => .error .present
  | .entry place _ =>
      match disk.node? place with
      | some _ => .error .present
      | none => .ok (disk.putDirectory place)

/-- Makes a directory and the missing ones above it. The bound is never reached when it is
the length of the path, because a parent is shorter than its child. -/
def makeDirectoriesWithin : Nat → Disk → Path → Disk × Except Fault Unit
  | 0, disk, _ => (disk, .error .missing)
  | bound + 1, disk, path =>
      if path.text = [] then (disk, .ok ())
      else
        let settle (disk : Disk) : Disk × Except Fault Unit :=
          match disk.makeDirectory path with
          | .ok made => (made, .ok ())
          | .error fault => (disk, if disk.isDirectory path then .ok () else .error fault)
        match disk.makeDirectory path, path.parent? with
        | .error .missing, some parent =>
            match makeDirectoriesWithin bound disk parent with
            | (above, .ok ()) => settle above
            | (above, .error fault) => (above, .error fault)
        | _, _ => settle disk

def makeDirectories (disk : Disk) (path : Path) : Disk × Except Fault Unit :=
  makeDirectoriesWithin (path.text.length + 1) disk path

/-- Puts a whole new file where a path says, at once. -/
def replaceFile (disk : Disk) (path : Path) (text : Text) : Disk × Except Fault Unit :=
  let parent := match path.parent? with
    | some parent => if parent.text = [] then Path.ofString "." else parent
    | none => Path.ofString "."
  match disk.makeDirectories parent with
  | (disk, .error fault) => (disk, .error fault)
  | (disk, .ok ()) =>
      match disk.last path with
      | .error fault => (disk, .error fault)
      | .ok .special => (disk, .error .busy)
      | .ok (.entry _ true) => (disk, .error .notDirectory)
      | .ok (.entry place false) =>
          if disk.isDirectoryAt place then (disk, .error .isDirectory)
          else (disk.putFile place (.text text), .ok ())

def removeFile (disk : Disk) (path : Path) : Except Fault Disk := do
  match ← disk.last path with
  | .special => .error .isDirectory
  | .entry place slash =>
      match disk.node? place with
      | none => .error .missing
      | some (.directory _) => .error .isDirectory
      | some _ => if slash then .error .notDirectory else .ok (disk.erase place)

/-- Writes into the file a path leads to, through links, and makes it if it is not there. -/
def overwrite (disk : Disk) (path : Path) (contents : Contents) : Except Fault Disk := do
  let place ← disk.locateFrom true path
  if disk.isDirectoryAt place then .error .isDirectory
  else .ok (disk.putFile place contents)

/-- Sets when a file was last written. -/
def touch (disk : Disk) (path : Path) (stamp : Int) : Option Disk :=
  match disk.locate path with
  | .ok place => match disk.node? place with
    | some (.file contents _) => some (disk.put place (.file contents stamp))
    | _ => none
  | .error _ => none

/-- Whether a file or link of a place differs between two disks, and to what. -/
def visible : Option Node → Option Node
  | some (.file contents _) => some (.file contents 0)
  | some (.link target) => some (.link target)
  | _ => none

/-- Files and links that are new, different or gone, each with what stands there now. -/
def changes (before after : Disk) : List (Place × Option Node) :=
  let places := ((before.nodes ++ after.nodes).map Prod.fst).eraseDups
  places.filterMap fun place =>
    let now := visible (after.node? place)
    if now = visible (before.node? place) then none else some (place, now)

end Brewery.Disk
