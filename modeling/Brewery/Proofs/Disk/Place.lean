import Brewery.Proofs.Disk.Entry

/-!
Places and the paths that spell them. A place that is reached through directories only is found
again by its path, a path in a directory spells the place in that directory, and an artifact of
a path that spells a place is spelled the same way.
-/

namespace Brewery

/-- A name that a directory can hold and a path can spell. -/
def Disk.IsEntryName (name : Text) : Prop :=
  '/' ∉ name ∧ Char.ofNat 0 ∉ name ∧ IsStep name

def Place.Proper (place : Place) : Prop := ∀ name ∈ place, Disk.IsEntryName name

/-- Everything from a place up to the root is a directory. -/
def Disk.Rooted (disk : Disk) (place : Place) : Prop :=
  ∀ above, above <:+ place → disk.isDirectoryAt above = true

theorem Disk.IsEntryName.isName {name : Text} (proper : Disk.IsEntryName name) :
    Path.IsName name :=
  ⟨proper.1, proper.2.2.1, proper.2.2.2.1⟩

theorem Disk.Rooted.inner {disk : Disk} {place : Place} {name : Text} (rooted : disk.Rooted place)
    (inside : disk.isDirectoryAt (name :: place) = true) : disk.Rooted (name :: place) := by
  intro above suffix
  rcases List.suffix_cons_iff.mp suffix with rfl | further
  · exact inside
  · exact rooted above further

namespace Place

variable {place dir : Place} {name : Text}

theorem Proper.head (proper : Proper (name :: dir)) : Disk.IsEntryName name :=
  proper name List.mem_cons_self

theorem Proper.tail (proper : Proper (name :: dir)) : Proper dir :=
  fun other member => proper other (List.mem_cons_of_mem _ member)

theorem Proper.cons (first : Disk.IsEntryName name) (proper : Proper dir) : Proper (name :: dir) := by
  intro other member
  rcases List.mem_cons.mp member with rfl | inside
  · exact first
  · exact proper other inside

theorem Proper.follows (proper : Proper place) : Path.Follows .root place.reverse :=
  ⟨fun name member => (proper name (List.mem_reverse.mp member)).1, by simp⟩

theorem path_parts (proper : Proper place) (some : place ≠ []) :
    place.path.parts = (.root, place.reverse) :=
  Path.parts_ofParts (by simpa using some) proper.follows

theorem path_plain (proper : Proper place) : Char.ofNat 0 ∉ place.path.text := by
  intro member
  rcases List.mem_cons.mp member with slash | inside
  · exact absurd slash (by decide)
  rcases Text.mem_joinWith inside with slash | ⟨name, held, null⟩
  · exact absurd (List.mem_singleton.mp slash) (by decide)
  · exact (proper name (List.mem_reverse.mp held)).2.1 null

theorem join_path (proper : Proper place) (new : Disk.IsEntryName name) :
    place.path.join ⟨name⟩ = Place.path (name :: place) := by
  have joined := Path.ofParts_join new.isName proper.follows fun last ends empty => by
    have member := List.mem_reverse.mp (List.mem_of_getLast? ends)
    exact (proper last member).isName.ne_nil empty
  rw [← List.reverse_cons] at joined
  exact joined

theorem fileName?_path (proper : Proper (name :: dir)) :
    (Place.path (name :: dir)).fileName? = some name := by
  have step := proper.head.2.2
  rw [Path.fileName?_eq_some_iff, path_parts proper (by simp), List.reverse_reverse,
    List.dropWhile_cons_of_neg (by simp [step.1])]
  exact ⟨rfl, step.2.1⟩

theorem artifact_path (proper : Proper (name :: dir)) (stage : Stage) :
    (Place.path (name :: dir)).artifact stage = Place.path (stage.artifactName name :: dir) := by
  have folder : (Place.path (name :: dir)).folder = dir.reverse := by
    rw [Path.folder, path_parts proper (by simp), List.reverse_reverse,
      List.dropWhile_cons_of_neg (by simp [proper.head.2.2.1]), List.drop_one, List.tail_cons]
    cases dir with
    | nil => rfl
    | cons next rest => rw [List.dropWhile_cons_of_neg (by simp [proper.tail.head.2.2.1])]
  rw [Path.artifact_eq stage (fileName?_path proper), folder, path_parts proper (by simp),
    ← List.reverse_cons]
  rfl

end Place

namespace Disk

variable {disk : Disk} {place dir : Place} {name : Text}

-- A walk down names that are all directories takes every one of them as it is.
theorem walks_down {links : Nat} {names : List Text} {here : Place}
    (rooted : disk.Rooted (names.reverse ++ here))
    (proper : ∀ name ∈ names, IsEntryName name) :
    Walks disk links here names (names.reverse ++ here) := by
  induction names generalizing here with
  | nil => exact .stay
  | cons name rest ih =>
      rw [List.reverse_cons, List.append_assoc] at rooted ⊢
      obtain ⟨stamp, held⟩ := isDirectoryAt_iff.mp (rooted (name :: here) ⟨rest.reverse, rfl⟩)
      refine .enter (rooted here ⟨rest.reverse ++ [name], by simp⟩)
        (proper name List.mem_cons_self).2.2 held (by simp) ?_
      exact ih rooted fun other member => proper other (List.mem_cons_of_mem _ member)

theorem walks_place (rooted : disk.Rooted place) (proper : place.Proper) :
    Walks disk linkLimit [] place.reverse place := by
  have shape : place.reverse.reverse ++ [] = place := by simp
  have rooted : disk.Rooted (place.reverse.reverse ++ []) := by rwa [shape]
  have walks : Walks disk linkLimit [] place.reverse (place.reverse.reverse ++ []) :=
    walks_down rooted fun name member => proper name (List.mem_reverse.mp member)
  rwa [shape] at walks

/-- In a directory a path names the entry that it spells. -/
theorem entryAt?_path (rooted : disk.Rooted dir) (proper : Place.Proper (name :: dir)) :
    disk.entryAt? (Place.path (name :: dir)) = some (name :: dir) := by
  have parts := Place.path_parts proper (by simp)
  rw [List.reverse_cons] at parts
  rw [entryAt?_eq_some_iff]
  refine ⟨dir.reverse, name, dir, by rw [parts], Place.path_plain proper, proper.head.2.2, ?_,
    rooted dir List.suffix_rfl, rfl⟩
  rw [Disk.start, parts]
  exact walks_place rooted proper.tail

theorem locate_path (rooted : disk.Rooted place) (proper : place.Proper) :
    disk.locate place.path = .ok place := by
  have start : disk.start place.path = ([], place.reverse) ∨
      place = [] ∧ disk.start place.path = ([], [[]]) := by
    by_cases empty : place = []
    · subst empty
      exact Or.inr ⟨rfl, rfl⟩
    · rw [Disk.start, Place.path_parts proper empty]
      exact Or.inl rfl
  rw [locate, locateFrom, if_neg (by simp [Place.path]), if_neg (Place.path_plain proper),
    walk_eq_ok_iff]
  rcases start with same | ⟨rfl, same⟩
  · rw [same]
    exact walks_place rooted proper
  · rw [same]
    exact .filler (rooted [] List.suffix_rfl) rfl .stay

end Disk
end Brewery
