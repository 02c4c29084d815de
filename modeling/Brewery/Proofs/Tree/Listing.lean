import Brewery.Proofs.Disk.Place
import Brewery.Tree.Listing
import Mathlib.Data.List.Nodup

/-!
What a listing of a tree finds: the files that are reached from the root through directories
that are not excluded, each under the path of its place. The bound of the listing is never felt,
because no file is deeper than the disk.
-/

namespace Brewery

/-- A disk as there can be one: a place holds one thing, and its names can be spelled. -/
structure Disk.Sound (disk : Disk) : Prop where
  single : (disk.nodes.map Prod.fst).Nodup
  proper : ∀ place node, (place, node) ∈ disk.nodes → place.Proper

namespace Disk

variable {disk : Disk} {place : Place} {node : Node} {name : Text}

theorem Sound.mem_nodes (sound : disk.Sound) (inner : place ≠ []) :
    (place, node) ∈ disk.nodes ↔ disk.node? place = some node := by
  rw [node?, if_neg inner]
  constructor
  · intro member
    cases found : disk.nodes.find? fun entry => entry.1 = place with
    | none => exact absurd (List.find?_eq_none.mp found _ member) (by simp)
    | some entry =>
        have hit := List.mem_of_find?_eq_some found
        have key : entry.1 = place := by simpa using List.find?_some found
        have same : entry = (place, node) :=
          List.inj_on_of_nodup_map sound.single hit member key
        rw [same]
        rfl
  · intro held
    obtain ⟨entry, found, same⟩ := Option.map_eq_some_iff.mp held
    have key : entry.1 = place := by simpa using List.find?_some found
    rw [← key, ← same]
    exact List.mem_of_find?_eq_some found

theorem Sound.proper_at (sound : disk.Sound) (held : disk.node? place = some node) :
    place.Proper := by
  by_cases empty : place = []
  · subst empty
    intro name member
    exact absurd member List.not_mem_nil
  · exact sound.proper place node ((sound.mem_nodes empty).mpr held)

theorem Sound.proper_entry {path : Path} (sound : disk.Sound) (entry : disk.entryAt? path = some place) :
    place.Proper := by
  obtain ⟨before, name, dir, shape, plain, step, _, inside, rfl⟩ := entryAt?_eq_some_iff.mp entry
  obtain ⟨stamp, held⟩ := isDirectoryAt_iff.mp inside
  have member : name ∈ path.parts.2 := by simp [shape]
  refine .cons ⟨?_, fun null => plain (Path.mem_text_of_mem_parts member null), step⟩
    (sound.proper_at held)
  exact (Path.parts_follow path (text_ne_nil_of_parts shape step.1)).1 name member

theorem Sound.erase (sound : disk.Sound) (place : Place) : (disk.erase place).Sound where
  single := (List.filter_sublist.map Prod.fst).nodup sound.single
  proper := fun other node member => sound.proper other node (List.mem_filter.mp member).1

theorem Sound.putFile (sound : disk.Sound) (new : place.Proper) (contents : Contents) :
    (disk.putFile place contents).Sound := by
  constructor
  · refine List.nodup_cons.mpr ⟨fun member => ?_, (sound.erase place).single⟩
    obtain ⟨entry, inside, key⟩ := List.mem_map.mp member
    have kept := (List.mem_filter.mp inside).2
    exact absurd key (by simpa using kept)
  · intro other node member
    rcases List.mem_cons.mp member with same | further
    · rw [(Prod.mk.inj same).1]
      exact new
    · exact (sound.erase place).proper other node further

theorem mem_inside : (name, node) ∈ disk.inside place ↔ (name :: place, node) ∈ disk.nodes := by
  rw [inside, List.mem_mergeSort, List.mem_filterMap]
  constructor
  · rintro ⟨⟨key, held⟩, member, shown⟩
    cases key with
    | nil => exact absurd shown (by simp)
    | cons first parent =>
        simp only [Option.ite_none_right_eq_some, Option.some.injEq, Prod.mk.injEq] at shown
        obtain ⟨rfl, rfl, rfl⟩ := shown
        exact member
  · intro member
    exact ⟨_, member, by simp⟩

theorem length_le_depth (member : (place, node) ∈ disk.nodes) : place.length ≤ disk.depth := by
  rw [depth]
  generalize disk.nodes = nodes at member
  induction nodes with
  | nil => exact absurd member List.not_mem_nil
  | cons first rest ih =>
      rw [List.map_cons, List.foldr_cons]
      rcases List.mem_cons.mp member with rfl | further
      · exact Nat.le_max_left _ _
      · exact Nat.le_trans (ih further) (Nat.le_max_right _ _)

end Disk

namespace Tree

/-- A file that is reached from a place through directories, with nothing on the way and the
file itself not excluded. -/
inductive Under (disk : Disk) (root : Path) : Place → Place → Prop where
  | file {name : Text} {place : Place} {contents : Contents} {stamp : Int}
      (held : disk.node? (name :: place) = some (.file contents stamp))
      (shown : (Place.path (name :: place)).isExcluded root = false) :
      Under disk root place (name :: place)
  | inner {name : Text} {place spot : Place} {stamp : Int}
      (held : disk.node? (name :: place) = some (.directory stamp))
      (shown : (Place.path (name :: place)).isExcluded root = false)
      (onward : Under disk root (name :: place) spot) : Under disk root place spot

variable {disk after : Disk} {root path : Path} {place spot : Place}

theorem Under.entry (under : Under disk root place spot) (sound : disk.Sound)
    (rooted : disk.Rooted place) : disk.entryAt? spot.path = some spot := by
  induction under with
  | file held _ => exact Disk.entryAt?_path rooted (sound.proper_at held)
  | inner held _ _ ih => exact ih (rooted.inner (Disk.isDirectoryAt_iff.mpr ⟨_, held⟩))

theorem Under.held (under : Under disk root place spot) :
    ∃ contents stamp, disk.node? spot = some (.file contents stamp) := by
  induction under with
  | @file name place contents stamp held _ => exact ⟨contents, stamp, held⟩
  | inner _ _ _ ih => exact ih

/-- A file that was there already was reached already, if no directory is new. -/
theorem Under.back (under : Under after root place spot) (ways : Disk.NoNewWays disk after)
    {contents : Contents} {stamp : Int} (held : disk.node? spot = some (.file contents stamp)) :
    Under disk root place spot := by
  induction under with
  | file _ shown => exact .file held shown
  | inner inside shown _ ih => exact .inner (ways.2 _ _ inside (by simp)) shown (ih held)

theorem mem_filesWithin {bound : Nat} (sound : disk.Sound) (proper : place.Proper)
    (deep : disk.depth < bound + place.length) :
    path ∈ filesWithin bound disk root place place.path ↔
      ∃ spot, Under disk root place spot ∧ path = spot.path := by
  induction bound generalizing place with
  | zero =>
      constructor
      · intro member
        exact absurd member List.not_mem_nil
      · rintro ⟨spot, under, rfl⟩
        -- Nothing is in a place that is deeper than the disk.
        have empty {name : Text} {node : Node} (held : disk.node? (name :: place) = some node) :
            False := by
          have long := Disk.length_le_depth ((sound.mem_nodes (List.cons_ne_nil _ _)).mpr held)
          rw [List.length_cons] at long
          omega
        cases under with
        | file held _ => exact (empty held).elim
        | inner held _ _ => exact (empty held).elim
  | succ bound ih =>
      have below {name : Text} {node : Node} (held : disk.node? (name :: place) = some node) :
          place.path.join ⟨name⟩ = Place.path (name :: place) ∧
            (path ∈ filesWithin bound disk root (name :: place) (Place.path (name :: place)) ↔
              ∃ spot, Under disk root (name :: place) spot ∧ path = spot.path) := by
        have inner := sound.proper_at held
        refine ⟨Place.join_path proper inner.head, ih inner ?_⟩
        rw [List.length_cons]
        omega
      rw [filesWithin, List.mem_flatMap]
      constructor
      · rintro ⟨⟨name, node⟩, member, listed⟩
        have held := (sound.mem_nodes (List.cons_ne_nil _ _)).mp (Disk.mem_inside.mp member)
        obtain ⟨spelled, further⟩ := below held
        dsimp only at listed
        rw [spelled] at listed
        split at listed
        · exact absurd listed List.not_mem_nil
        next shown =>
          have shown : (Place.path (name :: place)).isExcluded root = false := by simpa using shown
          cases node with
          | file contents stamp => exact ⟨_, .file held shown, List.mem_singleton.mp listed⟩
          | directory stamp =>
              obtain ⟨spot, under, same⟩ := further.mp listed
              exact ⟨spot, .inner held shown under, same⟩
          | link target => exact absurd listed List.not_mem_nil
      · rintro ⟨spot, under, rfl⟩
        cases under with
        | @file name _ contents stamp held shown =>
            obtain ⟨spelled, _⟩ := below held
            refine ⟨_, Disk.mem_inside.mpr ((sound.mem_nodes (List.cons_ne_nil _ _)).mpr held), ?_⟩
            dsimp only
            rw [spelled, if_neg (by simp [shown])]
            exact List.mem_singleton_self _
        | @inner name _ _ stamp held shown onward =>
            obtain ⟨spelled, further⟩ := below held
            refine ⟨_, Disk.mem_inside.mpr ((sound.mem_nodes (List.cons_ne_nil _ _)).mpr held), ?_⟩
            dsimp only
            rw [spelled, if_neg (by simp [shown])]
            exact further.mpr ⟨spot, onward, rfl⟩

/-- The files of a tree that is given by the path of its root. -/
theorem mem_files {root : Place} (sound : disk.Sound) (rooted : disk.Rooted root) :
    ∃ paths, files disk root.path = .ok paths ∧
      ∀ path, path ∈ paths ↔ ∃ spot, Under disk root.path root spot ∧ path = spot.path := by
  have inside := rooted root List.suffix_rfl
  obtain ⟨stamp, held⟩ := Disk.isDirectoryAt_iff.mp inside
  have proper := sound.proper_at held
  refine ⟨filesWithin (disk.depth + 1) disk root.path root root.path, ?_, fun path => ?_⟩
  · simp only [files, Disk.locate_path rooted proper, inside]
    rfl
  · exact mem_filesWithin sound proper (by omega)

end Tree
end Brewery
