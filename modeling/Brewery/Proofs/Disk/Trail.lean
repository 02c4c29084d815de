import Brewery.Proofs.Disk.Entry

/-!
What a walk looks at. The trail of a walk is every entry that it looks up and every parent that it
goes up to, those behind links included. Where a path leads depends on its trail and on which
places are directories, so disks that differ only off the trail of a path, and hold the same
directories, are one to it. A trail gets shorter when files come in its way, and never longer.
-/

namespace Brewery

/-- A node, whenever it was written. -/
def Node.undated : Node → Node
  | .directory _ => .directory 0
  | .file contents _ => .file contents 0
  | .link target => .link target

namespace Disk

/-- What stands at a place, whenever it was written. -/
def undated? (disk : Disk) (place : Place) : Option Node := (disk.node? place).map Node.undated

/-- The places that a walk looks at before the first link; what it looks at beyond it is answered
by `follow`. -/
def trailTo (disk : Disk) (follow : Place → List Text → List Place) (here : Place) :
    List Text → List Place
  | [] => []
  | segment :: rest =>
      if !disk.isDirectoryAt here then []
      else if Path.isFiller segment then trailTo disk follow here rest
      else if segment = ['.', '.'] then here.tail :: trailTo disk follow here.tail rest
      else if nameLimit < Text.Utf8.size segment then []
      else (segment :: here) :: match disk.node? (segment :: here) with
        | none => []
        | some (.link target) => follow (aim here target).1 ((aim here target).2 ++ rest)
        | some _ => trailTo disk follow (segment :: here) rest

/-- The places that a walk with a number of links left looks at. -/
def trail (disk : Disk) : (links : Nat) → Place → List Text → List Place
  | 0 => trailTo disk fun _ _ => []
  | left + 1 => trailTo disk (trail disk left)

/-- The places that are looked at to find where a path leads, from the one where it starts. -/
def trailOf (disk : Disk) (path : Path) : List Place :=
  (disk.start path).1 :: trail disk linkLimit (disk.start path).1 (disk.start path).2

section Trails

variable {disk : Disk} {links : Nat} {here : Place} {segment : Text} {rest : List Text}

@[simp] theorem trail_nil : trail disk links here [] = [] := by
  cases links <;> rfl

theorem trail_cons : trail disk links here (segment :: rest) =
    if !disk.isDirectoryAt here then []
    else if Path.isFiller segment then trail disk links here rest
    else if segment = ['.', '.'] then here.tail :: trail disk links here.tail rest
    else if nameLimit < Text.Utf8.size segment then []
    else (segment :: here) :: match disk.node? (segment :: here) with
      | none => []
      | some (.link target) =>
          match links with
          | 0 => []
          | left + 1 => trail disk left (aim here target).1 ((aim here target).2 ++ rest)
      | some _ => trail disk links (segment :: here) rest := by
  cases links <;> rfl

theorem trail_blocked (outside : disk.isDirectoryAt here = false) (segments : List Text) :
    trail disk links here segments = [] := by
  cases segments with
  | nil => exact trail_nil
  | cons => rw [trail_cons]; simp [outside]

theorem trail_filler (inside : disk.isDirectoryAt here = true)
    (empty : Path.isFiller segment = true) :
    trail disk links here (segment :: rest) = trail disk links here rest := by
  rw [trail_cons]
  simp [inside, empty]

theorem trail_up (inside : disk.isDirectoryAt here = true) :
    trail disk links here (['.', '.'] :: rest) = here.tail :: trail disk links here.tail rest := by
  rw [trail_cons]
  simp [inside, Path.isFiller]

theorem trail_step (inside : disk.isDirectoryAt here = true) (step : IsStep segment) :
    trail disk links here (segment :: rest) =
      (segment :: here) :: match disk.node? (segment :: here) with
        | none => []
        | some (.link target) =>
            match links with
            | 0 => []
            | left + 1 => trail disk left (aim here target).1 ((aim here target).2 ++ rest)
        | some _ => trail disk links (segment :: here) rest := by
  obtain ⟨empty, dots, short⟩ := step
  rw [trail_cons]
  simp [inside, empty, dots, Nat.not_lt.mpr short]

theorem trail_enter {node : Node} (inside : disk.isDirectoryAt here = true) (step : IsStep segment)
    (held : disk.node? (segment :: here) = some node) (solid : ∀ target, node ≠ .link target) :
    trail disk links here (segment :: rest) =
      (segment :: here) :: trail disk links (segment :: here) rest := by
  rw [trail_step inside step, held]
  cases node with
  | link target => exact absurd rfl (solid target)
  | _ => rfl

end Trails

section Subset

theorem aim_ne_nil (here : Place) (target : Text) : (aim here target).2 ≠ [] := by
  unfold aim
  split
  · exact Text.splitAt_ne_nil _ _
  · exact Text.splitAt_ne_nil _ _

variable {disk : Disk} {links : Nat} {here place : Place} {segments : List Text}

/-- The beginning of a walk looks up nothing that the whole walk does not. -/
theorem trail_append (links : Nat) (here : Place) (segments more : List Text) :
    trail disk links here segments ⊆ trail disk links here (segments ++ more) := by
  induction links, here, segments using walk_induction disk with
  | stay => simp
  | blocked links here segment rest outside => simp [trail_blocked outside]
  | filler links here segment rest inside empty ih =>
      rwa [List.cons_append, trail_filler inside empty, trail_filler inside empty]
  | up links here rest inside ih =>
      rw [List.cons_append, trail_up inside, trail_up inside]
      exact List.cons_subset_cons _ ih
  | long links here segment rest inside empty dots large =>
      rw [trail_cons]
      simp [inside, empty, dots, large]
  | missing links here segment rest inside step held =>
      simp [trail_step inside step, held]
  | loop here segment rest target inside step held =>
      simp [trail_step inside step, held]
  | follow left here segment rest target inside step held ih =>
      rw [List.append_assoc] at ih
      rw [List.cons_append, trail_step inside step, trail_step inside step, held]
      exact List.cons_subset_cons _ ih
  | enter links here segment rest node inside step held solid ih =>
      rw [List.cons_append, trail_enter inside step held solid, trail_enter inside step held solid]
      exact List.cons_subset_cons _ ih

/-- A disk without new ways has no new trails. -/
theorem trail_back {before after : Disk} (ways : NoNewWays before after) (links : Nat)
    (here : Place) (segments : List Text) :
    trail after links here segments ⊆ trail before links here segments := by
  induction links, here, segments using walk_induction after with
  | stay => simp
  | blocked links here segment rest outside => simp [trail_blocked outside]
  | filler links here segment rest inside empty ih =>
      rwa [trail_filler inside empty, trail_filler (ways.directory inside) empty]
  | up links here rest inside ih =>
      rw [trail_up inside, trail_up (ways.directory inside)]
      exact List.cons_subset_cons _ ih
  | long links here segment rest inside empty dots large =>
      rw [trail_cons]
      simp [inside, empty, dots, large]
  | missing links here segment rest inside step held =>
      simp [trail_step inside step, trail_step (ways.directory inside) step, held]
  | loop here segment rest target inside step held =>
      simp [trail_step inside step, trail_step (ways.directory inside) step, held]
  | follow left here segment rest target inside step held ih =>
      rw [trail_step inside step, trail_step (ways.directory inside) step, held,
        ways.2 _ _ held (by simp)]
      exact List.cons_subset_cons _ ih
  | enter links here segment rest node inside step held solid ih =>
      rw [trail_enter inside step held solid]
      cases leads : after.isDirectoryAt (segment :: here) with
      | true =>
          obtain ⟨stamp, same⟩ := isDirectoryAt_iff.mp leads
          rw [trail_enter (ways.directory inside) step (ways.2 _ _ same (by simp)) (by simp)]
          exact List.cons_subset_cons _ ih
      | false =>
          -- A file ends the walk, whatever stood there before.
          rw [trail_blocked leads, trail_step (ways.directory inside) step]
          simp

/-- Where a walk arrives, it has looked, unless it is a directory. -/
theorem Walks.mem_trail (walks : Walks disk links here segments place)
    (solid : disk.isDirectoryAt place = false) (further : segments ≠ []) :
    place ∈ trail disk links here segments := by
  induction walks with
  | stay => exact absurd rfl further
  | @filler links here place segment rest inside empty onward ih =>
      rw [trail_filler inside empty]
      refine ih solid ?_
      rintro rfl
      cases onward
      exact absurd (inside.symm.trans solid) (by simp)
  | @up links here place rest inside onward ih =>
      rw [trail_up inside]
      by_cases last : rest = []
      · subst last
        cases onward
        exact List.mem_cons_self
      · exact List.mem_cons_of_mem _ (ih solid last)
  | @follow left here place segment target rest inside step held onward ih =>
      rw [trail_step inside step, held]
      exact List.mem_cons_of_mem _ (ih solid (by simp [aim_ne_nil]))
  | @enter links here place segment rest node inside step held firm onward ih =>
      rw [trail_enter inside step held firm]
      by_cases last : rest = []
      · subst last
        cases onward
        exact List.mem_cons_self
      · exact List.mem_cons_of_mem _ (ih solid last)

theorem mem_trailOf {path : Path} (located : disk.locate path = .ok place)
    (solid : disk.isDirectoryAt place = false) : place ∈ disk.trailOf path := by
  obtain ⟨_, _, walks⟩ := locate_eq_ok_iff.mp located
  rw [trailOf, start_segments]
  by_cases further : path.parts.2 = []
  · rw [further] at walks
    cases walks
    exact List.mem_cons_self
  · exact List.mem_cons_of_mem _ (walks.mem_trail solid further)

/-- A path that is followed to its end has its folder followed. -/
theorem trail_folder {path : Path} {name : Text} (disk : Disk)
    (named : path.fileName? = some name) :
    trail disk linkLimit (disk.start path).1 path.folder ⊆ disk.trailOf path := by
  obtain ⟨inner, outer, shape, _, _⟩ := Path.parts_split named
  rw [trailOf, start_segments, shape, List.append_assoc]
  exact fun place member => List.mem_cons_of_mem _ (trail_append _ _ _ _ member)

end Subset

/-- Two disks with the same directories that hold the same, whenever it was written, in every place
where they may not differ. -/
structure SameBut (differ : Place → Prop) (left right : Disk) : Prop where
  current : right.current = left.current
  directory : ∀ place, right.isDirectoryAt place = left.isDirectoryAt place
  held : ∀ place, ¬differ place → right.undated? place = left.undated? place

theorem undated?_of_node? {disk other : Disk} {place : Place}
    (same : other.node? place = disk.node? place) : other.undated? place = disk.undated? place := by
  rw [undated?, undated?, same]

namespace SameBut

variable {differ : Place → Prop} {left right : Disk} {path : Path} {place : Place}

theorem start (alike : SameBut differ left right) (path : Path) :
    right.start path = left.start path := by
  unfold Disk.start
  rw [alike.current]

/-- What can stand in a place of one disk where the other has something. -/
theorem node? (alike : SameBut differ left right) (same : ¬differ place) {node : Node}
    (held : left.node? place = some node) :
    ∃ other, right.node? place = some other ∧ other.undated = node.undated := by
  have equal := alike.held place same
  rw [undated?, undated?, held, Option.map_some, Option.map_eq_some_iff] at equal
  exact equal

theorem missing (alike : SameBut differ left right) (same : ¬differ place)
    (held : left.node? place = none) : right.node? place = none := by
  have equal := alike.held place same
  rwa [undated?, undated?, held, Option.map_none, Option.map_eq_none_iff] at equal

theorem link (alike : SameBut differ left right) (same : ¬differ place) {target : Text}
    (held : left.node? place = some (.link target)) : right.node? place = some (.link target) := by
  obtain ⟨other, found, equal⟩ := alike.node? same held
  cases other <;> cases equal
  exact found

theorem contentsAt? (alike : SameBut differ left right) (same : ¬differ place) :
    right.contentsAt? place = left.contentsAt? place := by
  cases held : left.node? place with
  | none => simp [Disk.contentsAt?, held, alike.missing same held]
  | some node =>
      obtain ⟨other, found, equal⟩ := alike.node? same held
      cases node <;> cases other <;> cases equal <;> simp [Disk.contentsAt?, held, found]

/-- Off its trail a walk knows nothing of a disk but its directories. -/
theorem walk (alike : SameBut differ left right) (vacant : Bool) (links : Nat) (here : Place)
    (segments : List Text)
    (clear : ∀ place ∈ trail left links here segments, ¬differ place) :
    Disk.walk right vacant links here segments = Disk.walk left vacant links here segments := by
  induction links, here, segments using walk_induction left with
  | stay => rw [walk_nil, walk_nil]
  | blocked links here segment rest outside =>
      rw [walk_cons, walk_cons]
      simp [alike.directory, outside]
  | filler links here segment rest inside empty ih =>
      rw [trail_filler inside empty] at clear
      rw [walk_cons, walk_cons]
      simpa [alike.directory, inside, empty] using ih clear
  | up links here rest inside ih =>
      rw [trail_up inside] at clear
      rw [walk_cons, walk_cons]
      simpa [alike.directory, inside, Path.isFiller] using
        ih fun place member => clear place (List.mem_cons_of_mem _ member)
  | long links here segment rest inside empty dots large =>
      rw [walk_cons, walk_cons]
      simp [alike.directory, inside, empty, dots, large]
  | missing links here segment rest inside step held =>
      rw [trail_step inside step] at clear
      have gone := alike.missing (clear _ List.mem_cons_self) held
      rw [walk_step inside step, walk_step ((alike.directory _).trans inside) step, held, gone]
  | loop here segment rest target inside step held =>
      rw [trail_step inside step] at clear
      have link := alike.link (clear _ List.mem_cons_self) held
      rw [walk_step inside step, walk_step ((alike.directory _).trans inside) step, held, link]
  | follow left here segment rest target inside step held ih =>
      rw [trail_step inside step, held] at clear
      have link := alike.link (clear _ List.mem_cons_self) held
      rw [walk_step inside step, walk_step ((alike.directory _).trans inside) step, held, link]
      exact ih fun place member => clear place (List.mem_cons_of_mem _ member)
  | enter links here segment rest node inside step held solid ih =>
      rw [trail_enter inside step held solid] at clear
      obtain ⟨other, found, equal⟩ := alike.node? (clear _ List.mem_cons_self) held
      have firm : ∀ target, other ≠ .link target := by
        rintro target rfl
        cases node <;> cases equal
        exact solid target rfl
      rw [walk_enter inside step held solid,
        walk_enter ((alike.directory _).trans inside) step found firm]
      exact ih fun place member => clear place (List.mem_cons_of_mem _ member)

theorem locate (alike : SameBut differ left right)
    (clear : ∀ place ∈ left.trailOf path, ¬differ place) :
    right.locate path = left.locate path := by
  rw [Disk.locate, Disk.locate, locateFrom, locateFrom, alike.start,
    alike.walk _ _ _ _ fun place member => clear place (List.mem_cons_of_mem _ member)]

theorem file? (alike : SameBut differ left right)
    (clear : ∀ place ∈ left.trailOf path, ¬differ place) : right.file? path = left.file? path := by
  rw [Disk.file?, Disk.file?, alike.locate clear]
  cases located : left.locate path with
  | error fault => rfl
  | ok place =>
      cases solid : left.isDirectoryAt place with
      | false => simp [alike.contentsAt? (clear place (mem_trailOf located solid))]
      | true =>
          obtain ⟨stamp, held⟩ := isDirectoryAt_iff.mp solid
          obtain ⟨other, found⟩ := isDirectoryAt_iff.mp ((alike.directory place).trans solid)
          simp [Disk.contentsAt?, held, found]

theorem readText (alike : SameBut differ left right)
    (clear : ∀ place ∈ left.trailOf path, ¬differ place) :
    right.readText path = left.readText path := by
  simp only [Disk.readText, readContents, node, bind, Except.bind, alike.locate clear]
  cases located : left.locate path with
  | error fault => rfl
  | ok place =>
      cases solid : left.isDirectoryAt place with
      | false =>
          have same := clear place (mem_trailOf located solid)
          cases held : left.node? place with
          | none => simp [held, alike.missing same held]
          | some node =>
              obtain ⟨other, found, equal⟩ := alike.node? same held
              cases node <;> cases other <;> cases equal <;> simp [held, found]
      | true =>
          obtain ⟨stamp, held⟩ := isDirectoryAt_iff.mp solid
          obtain ⟨other, found⟩ := isDirectoryAt_iff.mp ((alike.directory place).trans solid)
          simp [held, found]

theorem canonical (alike : SameBut differ left right)
    (clear : ∀ place ∈ left.trailOf path, ¬differ place) :
    right.canonical path = left.canonical path := by
  rw [Disk.canonical, Disk.canonical, alike.locate clear]

/-- A path names the same entry where its folder is reached the same way. -/
theorem entryAt? {before : List Text} {name : Text} (alike : SameBut differ left right)
    (shape : path.parts.2 = before ++ [name])
    (clear : ∀ place ∈ trail left linkLimit (left.start path).1 before, ¬differ place) :
    right.entryAt? path = left.entryAt? path := by
  ext place
  have split {disk : Disk} : disk.entryAt? path = some place ↔ ∃ dir, Char.ofNat 0 ∉ path.text ∧
      IsStep name ∧ Disk.walk disk false linkLimit (disk.start path).1 before = .ok dir ∧
        disk.isDirectoryAt dir = true ∧ place = name :: dir := by
    rw [entryAt?_eq_some_iff]
    constructor
    · rintro ⟨front, last, dir, again, plain, step, walks, inside, same⟩
      obtain ⟨rfl, ends⟩ := List.append_inj' (shape.symm.trans again) rfl
      cases ends
      exact ⟨dir, plain, step, walk_eq_ok_iff.mpr walks, inside, same⟩
    · rintro ⟨dir, plain, step, walks, inside, same⟩
      exact ⟨before, name, dir, shape, plain, step, walk_eq_ok_iff.mp walks, inside, same⟩
  simp only [split, alike.start, alike.walk _ _ _ _ clear, alike.directory]

theorem putFile (alike : SameBut differ left right) (solid : left.isDirectoryAt place = false)
    (contents : Contents) :
    SameBut differ (left.putFile place contents) (right.putFile place contents) := by
  have firm := (alike.directory place).trans solid
  refine ⟨alike.current, fun other => ?_, fun other same => ?_⟩
  · rw [isDirectoryAt_putFile solid, isDirectoryAt_putFile firm, alike.directory]
  · have proper := place_ne_nil solid
    rw [undated?, undated?, node?_putFile proper, node?_putFile proper]
    split
    · rfl
    · exact alike.held other same

end SameBut

/-- Disks of which the second only has other files are alike where it has none. -/
theorem Overlaid.sameBut {differ : Place → Prop} {before after : Disk}
    (covers : Overlaid before after)
    (same : ∀ place, ¬differ place → after.undated? place = before.undated? place) :
    SameBut differ before after :=
  ⟨covers.1, covers.directory, same⟩

end Brewery.Disk
