import Brewery.Proofs.Session.Layout
import Brewery.Proofs.Tree.Listing

/-!
The order of a listing. The files of a directory are listed in the order of their names, and no
file is listed twice. So a macro script is listed before the intermediate script of its name.
-/

namespace Brewery

namespace Text

theorem le_total (left right : Text) : (le left right || le right left) = true := by
  induction left generalizing right with
  | nil => rfl
  | cons first rest ih =>
      cases right with
      | nil => rfl
      | cons other further =>
          have below := ih further
          rcases Nat.lt_trichotomy first.toNat other.toNat with less | same | more
          · simp [le, less]
          · simpa [le, same] using below
          · simp [le, more]

theorem le_trans (left middle right : Text) (first : le left middle = true)
    (second : le middle right = true) : le left right = true := by
  induction left generalizing middle right with
  | nil => rfl
  | cons head tail ih =>
      cases middle with
      | nil => exact absurd first (by simp [le])
      | cons mid between =>
          cases right with
          | nil => exact absurd second (by simp [le])
          | cons last further =>
              simp only [le, Bool.or_eq_true, Bool.and_eq_true, decide_eq_true_eq,
                beq_iff_eq] at first second ⊢
              rcases first with less | ⟨same, first⟩
              · rcases second with more | ⟨level, _⟩
                · exact Or.inl (Nat.lt_trans less more)
                · exact Or.inl (level ▸ less)
              · rcases second with more | ⟨level, second⟩
                · exact Or.inl (same ▸ more)
                · exact Or.inr ⟨same.trans level, ih between further first second⟩

-- What two texts begin with alike does not decide their order.
theorem le_append (front left right : Text) : le (front ++ left) (front ++ right) = le left right := by
  induction front with
  | nil => rfl
  | cons first rest ih => simp [le, ih]

end Text

theorem Place.path_injective {left right : Place} (first : left.Proper) (second : right.Proper)
    (inner : left ≠ []) (other : right ≠ []) (same : left.path = right.path) : left = right := by
  have parts := congrArg Path.parts same
  rw [path_parts first inner, path_parts second other, Prod.mk.injEq] at parts
  exact List.reverse_injective parts.2

namespace Disk

variable {disk : Disk} {place : Place}

theorem Sound.inside_ordered (sound : disk.Sound) (place : Place) :
    (disk.inside place).Pairwise fun left right =>
      Text.le left.1 right.1 = true ∧ left.1 ≠ right.1 := by
  rw [List.pairwise_and_iff]
  constructor
  · exact List.pairwise_mergeSort (fun left middle right => Text.le_trans left.1 middle.1 right.1)
      (fun left right => Text.le_total left.1 right.1) _
  · rw [inside, List.Perm.pairwise_iff (fun different => different.symm)
      (List.mergeSort_perm _ _), List.pairwise_filterMap]
    refine (List.pairwise_map.mp sound.single).imp fun {left right} apart => ?_
    intro one shown two listed same
    obtain ⟨_ | ⟨name, parent⟩, node⟩ := left
    · exact absurd shown (by simp)
    obtain ⟨_ | ⟨other, above⟩, beside⟩ := right
    · exact absurd listed (by simp)
    simp only [Option.ite_none_right_eq_some, Option.some.injEq] at shown listed
    obtain ⟨rfl, rfl⟩ := shown
    obtain ⟨rfl, rfl⟩ := listed
    obtain rfl : name = other := same
    exact apart rfl

end Disk

namespace Tree

variable {disk : Disk} {root : Path} {place spot : Place}

theorem Under.inner_suffix (under : Under disk root place spot) :
    ∃ name, name :: place <:+ spot := by
  induction under with
  | @file name place _ _ _ _ => exact ⟨name, List.suffix_rfl⟩
  | @inner name place spot _ _ _ _ ih =>
      obtain ⟨first, further⟩ := ih
      exact ⟨name, (List.suffix_cons first _).trans further⟩

/-- A file is listed before another when, in one directory, its name comes first. -/
def Precedes (earlier later : Path) : Prop :=
  ∀ first second dir, Place.Proper (first :: dir) → Place.Proper (second :: dir) →
    earlier = Place.path (first :: dir) → later = Place.path (second :: dir) →
      Text.le first second = true ∧ first ≠ second

-- What is at or below different entries of a directory stands in their order.
theorem precedes_of_entries {left right : Text} {first second : Place} {earlier later : Path}
    (ordered : Text.le left right = true ∧ left ≠ right)
    (above : left :: place <:+ first) (beside : right :: place <:+ second)
    (proper : first.Proper) (fine : second.Proper)
    (spelled : earlier = first.path) (written : later = second.path) : Precedes earlier later := by
  intro name other dir known sound same again
  have one := Place.path_injective proper known (by rintro rfl; simp at above) (by simp)
    (spelled.symm.trans same)
  have two := Place.path_injective fine sound (by rintro rfl; simp at beside) (by simp)
    (written.symm.trans again)
  subst one two
  rcases List.suffix_cons_iff.mp above with here | below
  · rcases List.suffix_cons_iff.mp beside with there | deep
    · rw [← (List.cons.inj here).1, ← (List.cons.inj there).1]
      exact ordered
    · rw [← (List.cons.inj here).2] at deep
      exact absurd deep.length_le (by simp)
  · rcases List.suffix_cons_iff.mp beside with there | deep
    · rw [← (List.cons.inj there).2] at below
      exact absurd below.length_le (by simp)
    · obtain ⟨front, same⟩ := below
      obtain ⟨back, again⟩ := deep
      have both := same.trans again.symm
      have ends := List.append_inj_right' both (by simp)
      exact absurd (List.cons.inj ends).1 ordered.2

/-- The files that an entry of a place stands for. -/
def entryFiles (bound : Nat) (disk : Disk) (root : Path) (place : Place) (path : Path)
    (entry : Text × Node) : List Path :=
  let inner := path.join ⟨entry.1⟩
  if inner.isExcluded root then []
  else match entry.2 with
    | .file _ _ => [inner]
    | .directory _ => filesWithin bound disk root (entry.1 :: place) inner
    | .link _ => []

theorem filesWithin_succ (bound : Nat) (disk : Disk) (root : Path) (place : Place) (path : Path) :
    filesWithin (bound + 1) disk root place path =
      (disk.inside place).flatMap (entryFiles bound disk root place path) := rfl

theorem filesWithin_ordered {bound : Nat} (sound : disk.Sound) (proper : place.Proper)
    (deep : disk.depth < bound + place.length) :
    (filesWithin bound disk root place place.path).Pairwise Precedes := by
  induction bound generalizing place with
  | zero => exact .nil
  | succ bound ih =>
      have below {entry : Text × Node} (member : entry ∈ disk.inside place) :
          Place.Proper (entry.1 :: place) ∧
            place.path.join ⟨entry.1⟩ = Place.path (entry.1 :: place) ∧
            disk.depth < bound + (entry.1 :: place).length := by
        have inner := sound.proper _ _ (Disk.mem_inside.mp member)
        refine ⟨inner, Place.join_path proper inner.head, ?_⟩
        rw [List.length_cons]
        omega
      have found {entry : Text × Node} (member : entry ∈ disk.inside place) {path : Path}
          (listed : path ∈ entryFiles bound disk root place place.path entry) :
          ∃ spot : Place, entry.1 :: place <:+ spot ∧ spot.Proper ∧ path = spot.path := by
        obtain ⟨inner, spelled, deep⟩ := below member
        unfold entryFiles at listed
        simp only [spelled] at listed
        split at listed
        · exact absurd listed List.not_mem_nil
        split at listed
        · exact ⟨_, List.suffix_rfl, inner, List.mem_singleton.mp listed⟩
        · obtain ⟨spot, under, same⟩ := (mem_filesWithin sound inner deep).mp listed
          obtain ⟨name, suffix⟩ := under.inner_suffix
          obtain ⟨contents, stamp, held⟩ := under.held
          exact ⟨spot, (List.suffix_cons name _).trans suffix, sound.proper_at held, same⟩
        · exact absurd listed List.not_mem_nil
      rw [filesWithin_succ, List.pairwise_flatMap]
      constructor
      · intro entry member
        obtain ⟨inner, spelled, deep⟩ := below member
        unfold entryFiles
        simp only [spelled]
        split
        · exact .nil
        split
        · exact List.pairwise_singleton _ _
        · exact ih inner deep
        · exact .nil
      · refine (sound.inside_ordered place).imp_of_mem fun {left right} first second ordered => ?_
        intro earlier one later two
        obtain ⟨spot, above, proper, spelled⟩ := found first one
        obtain ⟨other, beside, fine, written⟩ := found second two
        exact precedes_of_entries ordered above beside proper fine spelled written

/-- The files of a tree, each once, and in one directory in the order of their names. -/
theorem files_ordered {root : Place} (sound : disk.Sound) (rooted : disk.Rooted root)
    {paths : List Path} (listed : files disk root.path = .ok paths) : paths.Pairwise Precedes := by
  have inside := rooted root List.suffix_rfl
  obtain ⟨stamp, held⟩ := Disk.isDirectoryAt_iff.mp inside
  have proper := sound.proper_at held
  simp only [files, Disk.locate_path rooted proper, inside, ↓reduceIte, Except.ok.injEq] at listed
  rw [← listed]
  exact filesWithin_ordered sound proper (by omega)

/-- A macro script comes before its own intermediate script. -/
theorem script_precedes {script : Path} {name : Text} {dir : Place}
    (proper : Place.Proper (name :: dir)) (spelled : script = Place.path (name :: dir))
    (kind : SourceKind.ofPath script = .macroScript)
    (fine : Place.Proper (Stage.preprocess.artifactName name :: dir)) :
    ¬Precedes (script.artifact .preprocess) script := by
  intro precedes
  have named : script.fileName? = some name := spelled ▸ Place.fileName?_path proper
  obtain ⟨stem, _, cut, written⟩ := SourceKind.ofPath_name named (by simp [kind])
  have ordered := (precedes _ _ dir fine proper
    (by rw [spelled, Place.artifact_path proper]) spelled).1
  have artifact : Stage.preprocess.artifactName name = stem ++ ".coffee".toList := by
    rw [Stage.artifactName, cut]
    rfl
  rw [artifact, written, kind] at ordered
  exact absurd ((Text.le_append stem _ _).symm.trans ordered) (by decide)

end Tree
end Brewery
