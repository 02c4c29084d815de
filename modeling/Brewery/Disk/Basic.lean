import Brewery.Text.Utf8

/-!
A disk is a finite map from places to directories, files and symbolic links, with a clock.
A place is the list of names that leads to it, the innermost name first, so the parent of a
place is its tail. The clock stands at the latest moment that a write has used; the next
write gets a later one.

Contents are text whenever their bytes are UTF-8, and raw bytes only otherwise, so a file
has one representation.
-/

namespace Brewery

abbrev Place := List Text

inductive Contents where
  | text (characters : Text)
  | raw (bytes : List UInt8)
  deriving DecidableEq

inductive Node where
  | directory (stamp : Int)
  | file (contents : Contents) (stamp : Int)
  | link (target : Text)
  deriving DecidableEq

structure Disk where
  nodes : List (Place × Node)
  /-- The current directory, from which relative paths start. -/
  current : Place
  clock : Int

namespace Contents

def ofBytes (bytes : List UInt8) : Contents :=
  match Text.Utf8.decode? bytes with
  | some characters => .text characters
  | none => .raw bytes

def bytes : Contents → List UInt8
  | .text characters => Text.Utf8.encode characters
  | .raw bytes => bytes

end Contents

namespace Disk

def empty (current : Place) (clock : Int) : Disk := ⟨[], current, clock⟩

/-- What stands at a place. The root is always a directory. -/
def node? (disk : Disk) (place : Place) : Option Node :=
  if place = [] then some (.directory 0)
  else (disk.nodes.find? fun entry => entry.1 = place).map Prod.snd

def put (disk : Disk) (place : Place) (node : Node) : Disk :=
  { disk with nodes := (place, node) :: disk.nodes.filter fun entry => entry.1 ≠ place }

def erase (disk : Disk) (place : Place) : Disk :=
  { disk with nodes := disk.nodes.filter fun entry => entry.1 ≠ place }

def isDirectoryAt (disk : Disk) (place : Place) : Bool :=
  match disk.node? place with
  | some (.directory _) => true
  | _ => false

def contentsAt? (disk : Disk) (place : Place) : Option Contents :=
  match disk.node? place with
  | some (.file contents _) => some contents
  | _ => none

/-- Writes a file at a place at a new moment. -/
def putFile (disk : Disk) (place : Place) (contents : Contents) : Disk :=
  { disk.put place (.file contents (disk.clock + 1)) with clock := disk.clock + 1 }

def putDirectory (disk : Disk) (place : Place) : Disk :=
  disk.put place (.directory disk.clock)

/-- Names and nodes directly inside a place, in the order of the names. -/
def inside (disk : Disk) (place : Place) : List (Text × Node) :=
  (disk.nodes.filterMap fun entry =>
    match entry.1 with
    | name :: parent => if parent = place then some (name, entry.2) else none
    | [] => none).mergeSort fun left right => Text.le left.1 right.1

/-- No place of the disk is longer than this. -/
def depth (disk : Disk) : Nat := (disk.nodes.map fun entry => entry.1.length).foldr max 0

theorem node?_put (disk : Disk) (place other : Place) (node : Node) (proper : place ≠ []) :
    (disk.put place node).node? other = if other = place then some node else disk.node? other := by
  unfold node? put
  by_cases same : other = place
  · subst same; simp [proper]
  · have different : place ≠ other := fun equal => same equal.symm
    simp only [same, if_false]
    split
    · rfl
    · congr 1
      rw [List.find?_cons_of_neg (by simp [different])]
      rw [List.find?_filter]
      congr 1
      funext entry
      by_cases hit : entry.1 = other
      · simp [hit, same]
      · simp [hit]

theorem node?_erase (disk : Disk) (place other : Place) (proper : place ≠ []) :
    (disk.erase place).node? other = if other = place then none else disk.node? other := by
  unfold node? erase
  by_cases same : other = place
  · subst same; simp [proper, List.find?_filter]
  · simp only [same, if_false]
    split
    · rfl
    · congr 1
      rw [List.find?_filter]
      congr 1
      funext entry
      by_cases hit : entry.1 = other
      · simp [hit, same]
      · simp [hit]

end Disk
end Brewery
