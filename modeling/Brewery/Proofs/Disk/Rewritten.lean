import Brewery.Proofs.Disk.Walk

/-!
Other texts in the same files. The way to a file goes through directories and links, so on a disk
whose files hold other texts every path leads where it did, and only what is read there is another.
-/

namespace Brewery

/-- What a file holds when its text, if it holds one, is rewritten. -/
def Contents.retext (rewrite : Text → Text) : Contents → Contents
  | .text characters => .text (rewrite characters)
  | .raw bytes => .raw bytes

def Node.retext (rewrite : Text → Text) : Node → Node
  | .file contents stamp => .file (contents.retext rewrite) stamp
  | .directory stamp => .directory stamp
  | .link target => .link target

namespace Disk

/-- The disk with the text of every file rewritten in its place. -/
def rewritten (disk : Disk) (rewrite : Place → Text → Text) : Disk :=
  { disk with nodes := disk.nodes.map fun entry => (entry.1, entry.2.retext (rewrite entry.1)) }

variable {disk : Disk} {rewrite : Place → Text → Text}

theorem node?_rewritten (place : Place) :
    (disk.rewritten rewrite).node? place = (disk.node? place).map (Node.retext (rewrite place)) := by
  unfold node? rewritten
  split
  · rfl
  · rw [List.find?_map, Option.map_map, Option.map_map]
    apply Option.map_congr
    intro entry held
    have same : entry.1 = place := by simpa using List.find?_some held
    rw [← same]
    rfl

theorem isDirectoryAt_rewritten (place : Place) :
    (disk.rewritten rewrite).isDirectoryAt place = disk.isDirectoryAt place := by
  unfold isDirectoryAt
  rw [node?_rewritten]
  cases disk.node? place with
  | none => rfl
  | some node => cases node <;> rfl

theorem walk_rewritten (vacant : Bool) (links : Nat) (here : Place) (segments : List Text) :
    walk (disk.rewritten rewrite) vacant links here segments =
      walk disk vacant links here segments := by
  have directory {here : Place} (inside : disk.isDirectoryAt here = true) :
      (disk.rewritten rewrite).isDirectoryAt here = true :=
    (isDirectoryAt_rewritten here).trans inside
  have node {place : Place} {node : Node} (held : disk.node? place = some node) :
      (disk.rewritten rewrite).node? place = some (node.retext (rewrite place)) := by
    rw [node?_rewritten, held]
    rfl
  induction links, here, segments using walk_induction disk with
  | stay => rw [walk_nil, walk_nil]
  | blocked links here segment rest outside =>
      rw [walk_cons, walk_cons]
      simp [isDirectoryAt_rewritten, outside]
  | filler links here segment rest inside empty ih =>
      rw [walk_cons, walk_cons]
      simpa [isDirectoryAt_rewritten, inside, empty] using ih
  | up links here rest inside ih =>
      rw [walk_cons, walk_cons]
      simpa [isDirectoryAt_rewritten, inside, Path.isFiller] using ih
  | long links here segment rest inside empty dots large =>
      rw [walk_cons, walk_cons]
      simp [isDirectoryAt_rewritten, inside, empty, dots, large]
  | missing links here segment rest inside step held =>
      rw [walk_step inside step, walk_step (directory inside) step, node?_rewritten, held]
      rfl
  | loop here segment rest target inside step held =>
      rw [walk_step inside step, walk_step (directory inside) step, held, node held]
      rfl
  | follow left here segment rest target inside step held ih =>
      rw [walk_step inside step, walk_step (directory inside) step, held, node held]
      exact ih
  | enter links here segment rest found inside step held solid ih =>
      have firm : ∀ target, found.retext (rewrite (segment :: here)) ≠ .link target := by
        intro target same
        cases found with
        | link other => exact solid other rfl
        | _ => exact absurd same (by simp [Node.retext])
      rw [walk_enter inside step held solid, walk_enter (directory inside) step (node held) firm]
      exact ih

theorem locate_rewritten (path : Path) : (disk.rewritten rewrite).locate path = disk.locate path := by
  have start : (disk.rewritten rewrite).start path = disk.start path := rfl
  rw [locate, locate, locateFrom, locateFrom, start, walk_rewritten]

theorem canonical_rewritten (path : Path) :
    (disk.rewritten rewrite).canonical path = disk.canonical path := by
  rw [canonical, canonical, locate_rewritten]

theorem contentsAt?_rewritten (place : Place) : (disk.rewritten rewrite).contentsAt? place =
    (disk.contentsAt? place).map (Contents.retext (rewrite place)) := by
  unfold contentsAt?
  rw [node?_rewritten]
  cases disk.node? place with
  | none => rfl
  | some node => cases node <;> rfl

theorem file?_rewritten (path : Path) : (disk.rewritten rewrite).file? path =
    (disk.file? path).map fun found => (found.1, found.2.retext (rewrite found.1)) := by
  unfold file?
  rw [locate_rewritten]
  cases disk.locate path with
  | error fault => rfl
  | ok place => simp only [contentsAt?_rewritten, Option.map_map]; rfl

end Disk
end Brewery
