import Brewery.Disk.Change

/-!
Walks that arrive. `Walks` is the relation of which `walk` is the function, without its
failures, so what a walk keeps is proved by induction on the steps it took. A walk depends
on the directories and links it goes through and on nothing else.
-/

namespace Brewery.Disk

/-- A name that a walk can take into a directory. -/
def IsStep (segment : Text) : Prop :=
  Path.isFiller segment = false ∧ segment ≠ ['.', '.'] ∧ Text.Utf8.size segment ≤ nameLimit

/-- A walk from a place along segments that arrives at another, with so many links left. -/
inductive Walks (disk : Disk) : Nat → Place → List Text → Place → Prop where
  | stay {links : Nat} {here : Place} : Walks disk links here [] here
  | filler {links : Nat} {here place : Place} {segment : Text} {rest : List Text}
      (inside : disk.isDirectoryAt here = true) (empty : Path.isFiller segment = true)
      (onward : Walks disk links here rest place) : Walks disk links here (segment :: rest) place
  | up {links : Nat} {here place : Place} {rest : List Text}
      (inside : disk.isDirectoryAt here = true)
      (onward : Walks disk links here.tail rest place) :
      Walks disk links here (['.', '.'] :: rest) place
  | follow {left : Nat} {here place : Place} {segment target : Text} {rest : List Text}
      (inside : disk.isDirectoryAt here = true) (step : IsStep segment)
      (held : disk.node? (segment :: here) = some (.link target))
      (onward : Walks disk left (aim here target).1 ((aim here target).2 ++ rest) place) :
      Walks disk (left + 1) here (segment :: rest) place
  | enter {links : Nat} {here place : Place} {segment : Text} {rest : List Text} {node : Node}
      (inside : disk.isDirectoryAt here = true) (step : IsStep segment)
      (held : disk.node? (segment :: here) = some node)
      (solid : ∀ target, node ≠ .link target)
      (onward : Walks disk links (segment :: here) rest place) :
      Walks disk links here (segment :: rest) place

section Stepping

variable {disk : Disk} {links : Nat} {here : Place} {segment : Text} {rest : List Text}

/-- The steps of a walk, one case for each way in which it goes on or ends. -/
theorem walk_induction (disk : Disk) {motive : Nat → Place → List Text → Prop}
    (stay : ∀ links here, motive links here [])
    (blocked : ∀ links here segment rest, disk.isDirectoryAt here = false →
      motive links here (segment :: rest))
    (filler : ∀ links here segment rest, disk.isDirectoryAt here = true →
      Path.isFiller segment = true → motive links here rest → motive links here (segment :: rest))
    (up : ∀ links here rest, disk.isDirectoryAt here = true → motive links here.tail rest →
      motive links here (['.', '.'] :: rest))
    (long : ∀ links here segment rest, disk.isDirectoryAt here = true →
      Path.isFiller segment = false → segment ≠ ['.', '.'] → nameLimit < Text.Utf8.size segment →
      motive links here (segment :: rest))
    (missing : ∀ links here segment rest, disk.isDirectoryAt here = true → IsStep segment →
      disk.node? (segment :: here) = none → motive links here (segment :: rest))
    (loop : ∀ here segment rest target, disk.isDirectoryAt here = true → IsStep segment →
      disk.node? (segment :: here) = some (.link target) → motive 0 here (segment :: rest))
    (follow : ∀ left here segment rest target, disk.isDirectoryAt here = true → IsStep segment →
      disk.node? (segment :: here) = some (.link target) →
      motive left (aim here target).1 ((aim here target).2 ++ rest) →
      motive (left + 1) here (segment :: rest))
    (enter : ∀ links here segment rest node, disk.isDirectoryAt here = true → IsStep segment →
      disk.node? (segment :: here) = some node → (∀ target, node ≠ .link target) →
      motive links (segment :: here) rest → motive links here (segment :: rest))
    (links : Nat) (here : Place) (segments : List Text) : motive links here segments := by
  -- The outer induction is on the links that are left, the inner one on the segments up to the
  -- next link.
  induction links using Nat.strongRecOn generalizing here segments with
  | ind links outer =>
      induction segments generalizing here with
      | nil => exact stay links here
      | cons segment rest inner =>
          cases inside : disk.isDirectoryAt here with
          | false => exact blocked links here segment rest inside
          | true =>
              cases empty : Path.isFiller segment with
              | true => exact filler links here segment rest inside empty (inner here)
              | false =>
                  by_cases dots : segment = ['.', '.']
                  · exact dots ▸ up links here rest inside (inner here.tail)
                  by_cases large : nameLimit < Text.Utf8.size segment
                  · exact long links here segment rest inside empty dots large
                  have step : IsStep segment := ⟨empty, dots, Nat.not_lt.mp large⟩
                  cases held : disk.node? (segment :: here) with
                  | none => exact missing links here segment rest inside step held
                  | some node =>
                      cases node with
                      | link target =>
                          cases links with
                          | zero => exact loop here segment rest target inside step held
                          | succ left =>
                              exact follow left here segment rest target inside step held
                                (outer left (Nat.lt_succ_self left) _ _)
                      | _ =>
                          exact enter links here segment rest _ inside step held (by simp) (inner _)

theorem walk_step (inside : disk.isDirectoryAt here = true) (step : IsStep segment)
    (vacant : Bool) : walk disk vacant links here (segment :: rest) =
      match disk.node? (segment :: here) with
        | none => if vacant && rest.isEmpty then .ok (segment :: here) else .error .missing
        | some (.link target) =>
            match links with
            | 0 => .error .linkLoop
            | left + 1 => walk disk vacant left (aim here target).1 ((aim here target).2 ++ rest)
        | some _ => walk disk vacant links (segment :: here) rest := by
  obtain ⟨empty, dots, short⟩ := step
  have whole := walk_cons disk vacant links here segment rest
  rw [if_neg (by simp [inside]), if_neg (by simp [empty]), if_neg dots,
    if_neg (Nat.not_lt.mpr short)] at whole
  exact whole

theorem walk_enter {node : Node} (inside : disk.isDirectoryAt here = true) (step : IsStep segment)
    (held : disk.node? (segment :: here) = some node) (solid : ∀ target, node ≠ .link target)
    (vacant : Bool) : walk disk vacant links here (segment :: rest) =
      walk disk vacant links (segment :: here) rest := by
  rw [walk_step inside step, held]
  cases node with
  | link target => exact absurd rfl (solid target)
  | _ => rfl

end Stepping

theorem Walks.of_walk {disk : Disk} {links : Nat} {here place : Place} {segments : List Text}
    (found : walk disk false links here segments = .ok place) :
    Walks disk links here segments place := by
  induction links, here, segments using walk_induction disk with
  | stay =>
      rw [walk_nil] at found
      cases found
      exact .stay
  | blocked links here segment rest outside =>
      rw [walk_cons] at found
      simp [outside] at found
  | filler links here segment rest inside empty ih =>
      rw [walk_cons] at found
      exact .filler inside empty (ih (by simpa [inside, empty] using found))
  | up links here rest inside ih =>
      rw [walk_cons] at found
      exact .up inside (ih (by simpa [inside, Path.isFiller] using found))
  | long links here segment rest inside empty dots large =>
      rw [walk_cons] at found
      simp [inside, empty, dots, large] at found
  | missing links here segment rest inside step held =>
      rw [walk_step inside step, held] at found
      simp at found
  | loop here segment rest target inside step held =>
      rw [walk_step inside step, held] at found
      simp at found
  | follow left here segment rest target inside step held ih =>
      rw [walk_step inside step, held] at found
      exact .follow inside step held (ih found)
  | enter links here segment rest node inside step held solid ih =>
      rw [walk_enter inside step held solid] at found
      exact .enter inside step held solid (ih found)

theorem walk_eq_ok_iff {disk : Disk} {links : Nat} {here place : Place} {segments : List Text} :
    walk disk false links here segments = .ok place ↔ Walks disk links here segments place := by
  refine ⟨.of_walk, fun walks => ?_⟩
  induction walks with
  | stay => rw [walk_nil]
  | filler inside empty _ ih => rw [walk_cons]; simp [inside, empty, ih]
  | up inside _ ih => rw [walk_cons]; simp [inside, Path.isFiller, ih]
  | follow inside step held _ ih =>
      rw [walk_step inside step, held]
      exact ih
  | enter inside step held solid _ ih =>
      rw [walk_enter inside step held solid]
      exact ih

theorem node?_root (disk : Disk) : disk.node? [] = some (.directory 0) := rfl

theorem isDirectoryAt_iff {disk : Disk} {place : Place} :
    disk.isDirectoryAt place = true ↔ ∃ stamp, disk.node? place = some (.directory stamp) := by
  unfold isDirectoryAt
  split
  · next stamp held => exact ⟨fun _ => ⟨stamp, held⟩, fun _ => rfl⟩
  · next none => exact ⟨fun no => absurd no (by simp), fun ⟨stamp, held⟩ => absurd held (none stamp)⟩

theorem place_ne_nil {disk : Disk} {place : Place} (solid : disk.isDirectoryAt place = false) :
    place ≠ [] := by
  rintro rfl
  exact absurd solid (by simp [isDirectoryAt, node?_root])

theorem node?_putFile {disk : Disk} {place : Place} (proper : place ≠ []) (contents : Contents)
    (other : Place) : (disk.putFile place contents).node? other =
      if other = place then some (.file contents (disk.clock + 1)) else disk.node? other :=
  node?_put disk place other _ proper

theorem node?_putFile_self {disk : Disk} {place : Place}
    (solid : disk.isDirectoryAt place = false) (contents : Contents) :
    (disk.putFile place contents).node? place = some (.file contents (disk.clock + 1)) := by
  rw [node?_putFile (place_ne_nil solid), if_pos rfl]

theorem isDirectoryAt_putFile {disk : Disk} {place : Place}
    (solid : disk.isDirectoryAt place = false) (contents : Contents) (other : Place) :
    (disk.putFile place contents).isDirectoryAt other = disk.isDirectoryAt other := by
  by_cases same : other = place
  · subst same
    rw [solid]
    simp [isDirectoryAt, node?_putFile (place_ne_nil solid)]
  · simp [isDirectoryAt, node?_putFile (place_ne_nil solid), same]

/-- Two disks of which the second has files in places where the first has no directory, and is
the first everywhere else. -/
def Overlaid (before after : Disk) : Prop :=
  after.current = before.current ∧ ∀ place, after.node? place = before.node? place ∨
    before.isDirectoryAt place = false ∧
      ∃ contents stamp, after.node? place = some (.file contents stamp)

namespace Overlaid

variable {before after : Disk}

theorem refl (disk : Disk) : Overlaid disk disk := ⟨rfl, fun _ => Or.inl rfl⟩

theorem putFile {disk : Disk} {place : Place} (solid : disk.isDirectoryAt place = false)
    (contents : Contents) : Overlaid disk (disk.putFile place contents) := by
  refine ⟨rfl, fun other => ?_⟩
  rw [node?_putFile (place_ne_nil solid)]
  by_cases same : other = place
  · subst same
    exact Or.inr ⟨solid, contents, _, if_pos rfl⟩
  · exact Or.inl (if_neg same)

theorem directory (covers : Overlaid before after) (place : Place) :
    after.isDirectoryAt place = before.isDirectoryAt place := by
  rcases covers.2 place with same | ⟨solid, contents, stamp, held⟩
  · simp [isDirectoryAt, same]
  · rw [solid]
    simp [isDirectoryAt, held]

theorem trans {later : Disk} (first : Overlaid before after) (second : Overlaid after later) :
    Overlaid before later := by
  refine ⟨second.1.trans first.1, fun place => ?_⟩
  rcases second.2 place with same | ⟨solid, contents, stamp, held⟩
  · rw [same]
    exact first.2 place
  · exact Or.inr ⟨by rw [← first.directory]; exact solid, contents, stamp, held⟩

/-- Nothing is gone. -/
theorem keeps (covers : Overlaid before after) {place : Place} (held : before.node? place ≠ none) :
    after.node? place ≠ none := by
  rcases covers.2 place with same | ⟨_, contents, stamp, file⟩
  · rw [same]; exact held
  · simp [file]

end Overlaid

/-- Two disks of which the second has no directory and no link that the first has not. -/
def NoNewWays (before after : Disk) : Prop :=
  after.current = before.current ∧
    ∀ place node, after.node? place = some node → (∀ contents stamp, node ≠ .file contents stamp) →
      before.node? place = some node

namespace NoNewWays

variable {before after : Disk}

theorem directory (ways : NoNewWays before after) {place : Place}
    (inside : after.isDirectoryAt place = true) : before.isDirectoryAt place = true := by
  obtain ⟨stamp, held⟩ := isDirectoryAt_iff.mp inside
  exact isDirectoryAt_iff.mpr ⟨stamp, ways.2 place _ held (by simp)⟩

theorem refl (disk : Disk) : NoNewWays disk disk := ⟨rfl, fun _ _ held _ => held⟩

theorem trans {later : Disk} (first : NoNewWays before after) (second : NoNewWays after later) :
    NoNewWays before later :=
  ⟨second.1.trans first.1, fun place node held leads =>
    first.2 place node (second.2 place node held leads) leads⟩

theorem of_overlaid (covers : Overlaid before after) : NoNewWays before after := by
  refine ⟨covers.1, fun place node held leads => ?_⟩
  rcases covers.2 place with same | ⟨_, contents, stamp, file⟩
  · rw [← same]; exact held
  · exact absurd (Option.some.inj (held.symm.trans file)) (leads contents stamp)

theorem erase (disk : Disk) {place : Place} (proper : place ≠ []) :
    NoNewWays disk (disk.erase place) := by
  refine ⟨rfl, fun other node held _ => ?_⟩
  rw [node?_erase disk place other proper] at held
  split at held
  · exact absurd held (by simp)
  · exact held

/-- A disk that differs from another only where the other has a file, or nothing, has all of
its ways. -/
theorem of_plain (current : before.current = after.current)
    (plain : ∀ place node, before.node? place = some node → after.node? place = before.node? place ∨
      ∃ contents stamp, node = .file contents stamp) : NoNewWays after before := by
  refine ⟨current, fun place node held leads => ?_⟩
  rcases plain place node held with same | ⟨contents, stamp, file⟩
  · rw [same]; exact held
  · exact absurd file (leads contents stamp)

end NoNewWays

namespace Walks

variable {disk : Disk}

/-- Every walk along two runs of segments makes a halt between them. -/
theorem split {links : Nat} {here place : Place} {before after : List Text}
    (walks : Walks disk links here (before ++ after) place) :
    ∃ middle left, Walks disk links here before middle ∧ Walks disk left middle after place := by
  generalize whole : before ++ after = segments at walks
  induction walks generalizing before with
  | @stay links here =>
      obtain ⟨rfl, rfl⟩ := List.append_eq_nil_iff.mp whole
      exact ⟨here, links, .stay, .stay⟩
  | @filler links here place segment rest inside empty onward ih =>
      rcases List.append_eq_cons_iff.mp whole with ⟨rfl, rfl⟩ | ⟨more, rfl, rfl⟩
      · exact ⟨here, links, .stay, .filler inside empty onward⟩
      · obtain ⟨middle, left, start, finish⟩ := ih rfl
        exact ⟨middle, left, .filler inside empty start, finish⟩
  | @up links here place rest inside onward ih =>
      rcases List.append_eq_cons_iff.mp whole with ⟨rfl, rfl⟩ | ⟨more, rfl, rfl⟩
      · exact ⟨here, links, .stay, .up inside onward⟩
      · obtain ⟨middle, left, start, finish⟩ := ih rfl
        exact ⟨middle, left, .up inside start, finish⟩
  | @follow left here place segment target rest inside step held onward ih =>
      rcases List.append_eq_cons_iff.mp whole with ⟨rfl, rfl⟩ | ⟨more, rfl, rfl⟩
      · exact ⟨here, left + 1, .stay, .follow inside step held onward⟩
      · obtain ⟨middle, left, start, finish⟩ := ih (List.append_assoc _ _ _)
        exact ⟨middle, left, .follow inside step held start, finish⟩
  | @enter links here place segment rest node inside step held solid onward ih =>
      rcases List.append_eq_cons_iff.mp whole with ⟨rfl, rfl⟩ | ⟨more, rfl, rfl⟩
      · exact ⟨here, links, .stay, .enter inside step held solid onward⟩
      · obtain ⟨middle, left, start, finish⟩ := ih rfl
        exact ⟨middle, left, .enter inside step held solid start, finish⟩

/-- A walk that has further to go halts only in directories. -/
theorem directory {links : Nat} {here place : Place} {segments : List Text}
    (walks : Walks disk links here segments place) (further : segments ≠ []) :
    disk.isDirectoryAt here = true := by
  cases walks with
  | stay => exact absurd rfl further
  | filler inside => exact inside
  | up inside => exact inside
  | follow inside => exact inside
  | enter inside => exact inside

theorem fillers {links : Nat} {here place : Place} {segments : List Text}
    (walks : Walks disk links here segments place)
    (empty : ∀ segment ∈ segments, Path.isFiller segment = true) : place = here := by
  induction walks with
  | stay => rfl
  | filler _ _ _ ih => exact ih fun other member => empty other (List.mem_cons_of_mem _ member)
  | up => exact absurd (empty _ List.mem_cons_self) (by simp [Path.isFiller])
  | follow _ step => exact absurd (empty _ List.mem_cons_self) (by simp [step.1])
  | enter _ step => exact absurd (empty _ List.mem_cons_self) (by simp [step.1])

/-- Fillers after a walk change nothing. -/
theorem pad {links : Nat} {here place : Place} {segments fillers : List Text}
    (walks : Walks disk links here segments place) (inside : disk.isDirectoryAt place = true)
    (empty : ∀ segment ∈ fillers, Path.isFiller segment = true) :
    Walks disk links here (segments ++ fillers) place := by
  induction walks with
  | stay =>
      induction fillers with
      | nil => exact .stay
      | cons first rest ih =>
          exact .filler inside (empty first List.mem_cons_self)
            (ih fun segment member => empty segment (List.mem_cons_of_mem _ member))
  | filler here hollow _ ih => exact .filler here hollow (ih inside)
  | up here _ ih => exact .up here (ih inside)
  | follow here step held _ ih =>
      have onward := ih inside
      rw [List.append_assoc] at onward
      exact .follow here step held onward
  | enter here step held solid _ ih => exact .enter here step held solid (ih inside)

/-- Segments that say something. -/
def names (segments : List Text) : List Text := segments.filter fun segment => !Path.isFiller segment

theorem names_append (before after : List Text) :
    names (before ++ after) = names before ++ names after := List.filter_append _ _

theorem names_cons {segment : Text} (kept : Path.isFiller segment = false) (rest : List Text) :
    names (segment :: rest) = segment :: names rest := by
  simp [names, kept]

theorem skip {links : Nat} {here place : Place} {segments : List Text} {name : Text}
    {rest : List Text} (walks : Walks disk links here segments place)
    (shape : names segments = name :: rest) :
    ∃ more, Walks disk links here (name :: more) place ∧ names more = rest := by
  induction segments generalizing links with
  | nil => simp [names] at shape
  | cons segment others ih =>
      by_cases empty : Path.isFiller segment = true
      · have shape : names others = name :: rest := by simpa [names, empty] using shape
        cases walks with
        | filler _ _ onward => exact ih onward shape
        | up => simp [Path.isFiller] at empty
        | follow _ step => simp [step.1] at empty
        | enter _ step => simp [step.1] at empty
      · have shape : segment :: names others = name :: rest := by simpa [names, empty] using shape
        obtain ⟨rfl, same⟩ := List.cons.inj shape
        exact ⟨others, walks, same⟩

/-- Walks that differ in fillers only arrive at one place. -/
theorem agree {links : Nat} {here place other : Place} {segments others : List Text}
    (walks : Walks disk links here segments place) (same : names segments = names others)
    (again : Walks disk links here others other) : place = other := by
  induction walks generalizing others other with
  | stay =>
      refine (again.fillers fun segment member => ?_).symm
      cases kept : Path.isFiller segment with
      | true => rfl
      | false =>
          have inside : segment ∈ names others := List.mem_filter.mpr ⟨member, by simp [kept]⟩
          rw [← same] at inside
          simp [names] at inside
  | filler _ empty _ ih => exact ih (by simpa [names, empty] using same) again
  | up _ _ ih =>
      rw [names_cons (by simp [Path.isFiller])] at same
      obtain ⟨more, again, rest⟩ := again.skip same.symm
      cases again with
      | filler _ empty => simp [Path.isFiller] at empty
      | up _ onward => exact ih rest.symm onward
      | follow _ step => exact absurd rfl step.2.1
      | enter _ step => exact absurd rfl step.2.1
  | follow _ step held _ ih =>
      rw [names_cons step.1] at same
      obtain ⟨more, again, rest⟩ := again.skip same.symm
      cases again with
      | filler _ empty => simp [step.1] at empty
      | up => exact absurd rfl step.2.1
      | follow _ _ again onward =>
          rw [held] at again
          cases again
          exact ih (by rw [names_append, names_append, rest]) onward
      | enter _ _ again solid => exact absurd (Option.some.inj (again.symm.trans held)) (solid _)
  | enter _ step held solid _ ih =>
      rw [names_cons step.1] at same
      obtain ⟨more, again, rest⟩ := again.skip same.symm
      cases again with
      | filler _ empty => simp [step.1] at empty
      | up => exact absurd rfl step.2.1
      | follow _ _ again => exact absurd (Option.some.inj (held.symm.trans again)) (solid _)
      | enter _ _ _ _ onward => exact ih rest.symm onward

/-- One more name after a walk: what stands there is the end, and what does not is missing,
unless a vacant place will do. A link would lead further. -/
theorem concat {links : Nat} {here place : Place} {segments : List Text} {name : Text}
    (walks : Walks disk links here segments place) (inside : disk.isDirectoryAt place = true)
    (step : IsStep name) (firm : ∀ target, disk.node? (name :: place) ≠ some (.link target))
    (vacant : Bool) : walk disk vacant links here (segments ++ [name]) =
      if disk.node? (name :: place) = none ∧ vacant = false then .error .missing
      else .ok (name :: place) := by
  induction walks with
  | stay =>
      rw [List.nil_append, walk_step inside step]
      cases held : disk.node? (name :: _) with
      | none => cases vacant <;> simp
      | some node =>
          cases node with
          | link target => exact absurd held (firm target)
          | _ => simp [walk_nil]
  | filler here empty _ ih =>
      rw [List.cons_append, walk_cons]
      simpa [here, empty] using ih inside firm
  | up here _ ih =>
      rw [List.cons_append, walk_cons]
      simpa [here, Path.isFiller] using ih inside firm
  | follow here first link _ ih =>
      have onward := ih inside firm
      rw [List.append_assoc] at onward
      rw [List.cons_append, walk_step here first, link]
      exact onward
  | enter here first entry solid _ ih =>
      rw [List.cons_append, walk_enter here first entry solid]
      exact ih inside firm

/-- A walk to a directory goes the same way on a disk that has at least its ways. -/
theorem back {before after : Disk} (ways : NoNewWays before after) {links : Nat}
    {here place : Place} {segments : List Text} (walks : Walks after links here segments place)
    (arrived : after.isDirectoryAt place = true) : Walks before links here segments place := by
  induction walks with
  | stay => exact .stay
  | filler inside empty _ ih => exact .filler (ways.directory inside) empty (ih arrived)
  | up inside _ ih => exact .up (ways.directory inside) (ih arrived)
  | follow inside step held _ ih =>
      exact .follow (ways.directory inside) step (ways.2 _ _ held (by simp)) (ih arrived)
  | @enter links here place segment rest node inside step held solid onward ih =>
      -- A file can only be the end of a walk, and this walk ends in a directory.
      have leads : after.isDirectoryAt (segment :: here) = true := by
        by_cases more : rest = []
        · subst more
          cases onward
          exact arrived
        · exact onward.directory more
      obtain ⟨stamp, same⟩ := isDirectoryAt_iff.mp leads
      have node : node = .directory stamp := Option.some.inj (held.symm.trans same)
      subst node
      exact .enter (ways.directory inside) step (ways.2 _ _ held (by simp)) (by simp) (ih arrived)

/-- What becomes of a walk when files are put down: it goes the same way, or it runs into
one of them. -/
theorem overlaid {after : Disk} {links : Nat} {here place : Place} {segments : List Text}
    (walks : Walks disk links here segments place) (covers : Overlaid disk after) :
    walk after false links here segments = .ok place ∨
      walk after false links here segments = .error .notDirectory ∨
      ∃ spot, walk after false links here segments = .ok spot ∧
        after.isDirectoryAt spot = false := by
  have blocked (links : Nat) {spot : Place} (rest : List Text)
      (solid : after.isDirectoryAt spot = false) :
      walk after false links spot rest = .error .notDirectory ∨
        ∃ spot', walk after false links spot rest = .ok spot' ∧
          after.isDirectoryAt spot' = false := by
    cases rest with
    | nil => exact Or.inr ⟨spot, by rw [walk_nil], solid⟩
    | cons segment more => exact Or.inl (by rw [walk_cons]; simp [solid])
  induction walks with
  | stay => exact Or.inl (by rw [walk_nil])
  | filler inside empty _ ih =>
      rw [walk_cons]
      simpa [covers.directory, inside, empty] using ih
  | up inside _ ih =>
      rw [walk_cons]
      simpa [covers.directory, inside, Path.isFiller] using ih
  | @follow left here place segment target rest inside step held onward ih =>
      rw [← covers.directory] at inside
      rcases covers.2 (segment :: here) with same | ⟨solid, contents, stamp, file⟩
      · rw [walk_step inside step, same, held]
        exact ih
      · rw [← covers.directory] at solid
        rw [walk_enter inside step file (by simp)]
        exact Or.inr (blocked (left + 1) rest solid)
  | @enter links here place segment rest node inside step held firm onward ih =>
      rw [← covers.directory] at inside
      rcases covers.2 (segment :: here) with same | ⟨solid, contents, stamp, file⟩
      · rw [walk_enter inside step (same.trans held) firm]
        exact ih
      · rw [← covers.directory] at solid
        rw [walk_enter inside step file (by simp)]
        exact Or.inr (blocked links rest solid)

end Walks
end Brewery.Disk
