import Brewery.Disk.Basic
import Brewery.Disk.Fault
import Brewery.Path

/-!
From paths to places. A walk takes one segment at a time from a directory, goes up at `..`,
and puts the target of a link in place of its name. A walk follows at most forty links, so
every walk ends, also on a disk whose links form a cycle.
-/

namespace Brewery

/-- The absolute path of a place. -/
def Place.path (place : Place) : Path := ⟨'/' :: Text.joinWith ['/'] place.reverse⟩

namespace Disk

def linkLimit : Nat := 40

def nameLimit : Nat := 255

/-- Where a link points: the place to start from and the segments to walk. -/
def aim (here : Place) : (target : Text) → Place × List Text
  | '/' :: rest => ([], Text.splitAt '/' rest)
  | target => (here, Text.splitAt '/' target)

/-- Walks segments from a place as far as the first link; what lies beyond it is answered by
`follow`. With `vacant` the last name may be one that nothing has yet; its place is then
where it would be made. -/
def walkTo (disk : Disk) (vacant : Bool) (follow : Place → List Text → Except Fault Place)
    (here : Place) : List Text → Except Fault Place
  | [] => .ok here
  | segment :: rest =>
      if !disk.isDirectoryAt here then .error .notDirectory
      else if Path.isFiller segment then walkTo disk vacant follow here rest
      else if segment = ['.', '.'] then walkTo disk vacant follow here.tail rest
      else if nameLimit < Text.Utf8.size segment then .error .nameTooLong
      else match disk.node? (segment :: here) with
        | none => if vacant && rest.isEmpty then .ok (segment :: here) else .error .missing
        | some (.link target) => follow (aim here target).1 ((aim here target).2 ++ rest)
        | some _ => walkTo disk vacant follow (segment :: here) rest

/-- A walk with a number of links left. -/
def walk (disk : Disk) (vacant : Bool) : (links : Nat) → Place → List Text → Except Fault Place
  | 0 => walkTo disk vacant fun _ _ => .error .linkLoop
  | left + 1 => walkTo disk vacant (walk disk vacant left)

theorem walk_nil (disk : Disk) (vacant : Bool) (links : Nat) (here : Place) :
    walk disk vacant links here [] = .ok here := by
  cases links <;> rfl

theorem walk_cons (disk : Disk) (vacant : Bool) (links : Nat) (here : Place) (segment : Text)
    (rest : List Text) : walk disk vacant links here (segment :: rest) =
      if !disk.isDirectoryAt here then .error .notDirectory
      else if Path.isFiller segment then walk disk vacant links here rest
      else if segment = ['.', '.'] then walk disk vacant links here.tail rest
      else if nameLimit < Text.Utf8.size segment then .error .nameTooLong
      else match disk.node? (segment :: here) with
        | none => if vacant && rest.isEmpty then .ok (segment :: here) else .error .missing
        | some (.link target) =>
            match links with
            | 0 => .error .linkLoop
            | left + 1 => walk disk vacant left (aim here target).1 ((aim here target).2 ++ rest)
        | some _ => walk disk vacant links (segment :: here) rest := by
  cases links <;> rfl

/-- Where a path starts and the segments after that. -/
def start (disk : Disk) (path : Path) : Place × List Text :=
  match path.parts with
  | (.root, segments) => ([], segments)
  | (_, segments) => (disk.current, segments)

def locateFrom (disk : Disk) (vacant : Bool) (path : Path) : Except Fault Place :=
  if path.text = [] then .error .missing
  else if Char.ofNat 0 ∈ path.text then .error .nulInPath
  else walk disk vacant linkLimit (disk.start path).1 (disk.start path).2

/-- The place a path leads to, every link followed. -/
def locate (disk : Disk) (path : Path) : Except Fault Place := disk.locateFrom false path

def node (disk : Disk) (path : Path) : Except Fault Node := do
  let place ← disk.locate path
  match disk.node? place with
  | some node => .ok node
  | none => .error .missing

/-- The file a path leads to: its place and what it holds. -/
def file? (disk : Disk) (path : Path) : Option (Place × Contents) :=
  match disk.locate path with
  | .ok place => (disk.contentsAt? place).map fun contents => (place, contents)
  | .error _ => none

def isFile (disk : Disk) (path : Path) : Bool := (disk.file? path).isSome

def isDirectory (disk : Disk) (path : Path) : Bool :=
  match disk.node path with
  | .ok (.directory _) => true
  | _ => false

def holds (disk : Disk) (path : Path) : Bool :=
  match disk.node path with
  | .ok _ => true
  | .error _ => false

/-- The path of the place itself: absolute, without links, fillers and `..`. -/
def canonical (disk : Disk) (path : Path) : Except Fault Path :=
  (disk.locate path).map Place.path

/-- When a path was last written. -/
def stamp? (disk : Disk) (path : Path) : Option Int :=
  match disk.node path with
  | .ok (.file _ stamp) => some stamp
  | .ok (.directory stamp) => some stamp
  | _ => none

def readContents (disk : Disk) (path : Path) : Except Fault Contents := do
  match ← disk.node path with
  | .file contents _ => .ok contents
  | .directory _ => .error .isDirectory
  | .link _ => .error .linkLoop

def readText (disk : Disk) (path : Path) : Except Fault Text := do
  match ← disk.readContents path with
  | .text characters => .ok characters
  | .raw _ => .error .notText

theorem file?_member {disk : Disk} {path : Path} {place : Place} {contents : Contents}
    (found : disk.file? path = some (place, contents)) : ∃ node, (place, node) ∈ disk.nodes := by
  unfold file? at found
  split at found
  next here _ =>
    simp only [Option.map_eq_some_iff, Prod.mk.injEq] at found
    obtain ⟨_, held, same, _⟩ := found
    subst same
    unfold contentsAt? node? at held
    by_cases top : here = []
    · simp [top] at held
    · simp only [top, if_false] at held
      cases entry : disk.nodes.find? fun entry => entry.1 = here with
      | none => simp [entry] at held
      | some hit =>
          have inside := List.mem_of_find?_eq_some entry
          have key := List.find?_some entry
          simp only [decide_eq_true_eq] at key
          exact ⟨hit.2, by rw [← key]; exact inside⟩
  · simp at found

end Disk
end Brewery
