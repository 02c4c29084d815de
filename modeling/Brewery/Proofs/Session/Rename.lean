import Brewery.Proofs.Session.Footprint
import Brewery.Proofs.Session.Layout
import Brewery.Tree.Notice

/-!
What a rename may cost. A rename is told as the removal of the old path and the addition of
the new one. The removal takes the artifact of the old path with it, whoever made the file
that has the artifact's name; when the new path is that name, the renamed file itself goes. In
every other case the file stays as it is.
-/

namespace Brewery.Brewer

/-- Whether the removal of a path takes along the file at a place. -/
def TakesAlong (brewer : Brewer) (progress : Progress) (path : Path) (place : Place) : Prop :=
  progress.session.phase ≠ .done ∧ progress.session.isOwnRemoval path = false ∧
    ¬(brewer.classifier.classify path = .dataLiteral ∧ brewer.inStores path = false) ∧
    ∃ target, path.cascadeTarget? (brewer.classifier.classify path) = some target ∧
      progress.disk.entryAt? target = some place

/-- A session after the events of a rename. -/
def renamed (brewer : Brewer) (old new : Path) (progress : Progress) : Progress :=
  (brewer.handleAll (Notice.events progress.disk ⟨.renamedFromTo, [old, new]⟩) progress).1

variable {brewer : Brewer} {place : Place} {contents : Contents} {stamp : Int}

theorem renamed_eq (old new : Path) (progress : Progress) :
    brewer.renamed old new progress =
      (brewer.handle (.added new) (brewer.handle (.removed old) progress).1).1 := by
  unfold renamed
  simp only [Notice.events, handleAll]
  by_cases done : progress.session.phase = .done
  · simp [handle_done done]
  · have onward : brewer.handle (.removed old) progress =
        ((brewer.handle (.removed old) progress).1, .onward) := by
      simp [handle, done]
    rw [onward]
    simp only
    generalize (brewer.handle (.removed old) progress).1 = middle
    cases ended : brewer.handle (.added new) middle with
    | mk after flow => cases flow <;> rfl

-- What is added never has its own place rewritten: its artifacts have other names.
theorem handle_added_spares (brewer : Brewer) {new : Path} {progress : Progress} {disk : Disk}
    (entry : disk.entryAt? new = some place) (ways : Disk.NoNewWays disk progress.disk) :
    (brewer.handle (.added new) progress).1.disk.node? place = progress.disk.node? place := by
  obtain ⟨count, rewrites, _⟩ := handle_added brewer new progress
  refine rewrites.frame fun artifact member found => ?_
  have found := Disk.entryAt?_back ways found
  obtain ⟨name, dir, named, _, _, here⟩ := Disk.entryAt?_home entry
  obtain ⟨other, home, known, _, _, there⟩ := Disk.entryAt?_home found
  rcases classify_cases brewer.classifier new with chain | chain
  · rw [chain] at member
    obtain ⟨last, again, different⟩ := Path.artifacts_renamed named member
    have same : last = other := Option.some.inj (again.symm.trans known)
    exact different (same.trans (List.cons.inj (there.symm.trans here)).1)
  · rw [chain] at member
    exact absurd member (by simp [SourceKind.chain, Path.artifacts])

theorem handle_removed_takes {old : Path} {progress : Progress}
    (held : progress.disk.node? place = some (.file contents stamp))
    (takes : brewer.TakesAlong progress old place) :
    (brewer.handle (.removed old) progress).1.disk = progress.disk.erase place := by
  obtain ⟨active, foreign, meant, target, cascades, entry⟩ := takes
  rw [handle_active active]
  have ended := whenGone_cases brewer old
    (progress.tell [.debug "brew" (Event.removed old).label (brewer.short old)])
  simp only
  generalize brewer.whenGone old _ = after at ended ⊢
  cases ended with
  | own _ known => exact absurd (foreign.symm.trans known) (by simp)
  | alone _ none =>
      rcases none with outside | none
      · exact absurd outside meant
      · exact absurd (none.symm.trans cascades) (by simp)
  | kept other fault _ _ _ again refused =>
      cases Option.some.inj (again.symm.trans cascades)
      have gone := Disk.removeFile_of_entry entry held
      exact absurd (gone.symm.trans refused) (by simp)
  | erased other spot _ _ _ again there =>
      cases Option.some.inj (again.symm.trans cascades)
      cases Option.some.inj (there.symm.trans entry)
      rfl

theorem handle_removed_spares {old : Path} {progress : Progress}
    (spared : ¬brewer.TakesAlong progress old place) :
    (brewer.handle (.removed old) progress).1.disk.node? place = progress.disk.node? place := by
  by_cases done : progress.session.phase = .done
  · rw [handle_done done]
  rw [handle_active done]
  have ended := whenGone_cases brewer old
    (progress.tell [.debug "brew" (Event.removed old).label (brewer.short old)])
  simp only
  generalize brewer.whenGone old _ = after at ended ⊢
  cases ended with
  | own => rfl
  | alone => rfl
  | kept => rfl
  | erased target spot _ foreign meant cascades entry _ solid =>
      have different : place ≠ spot := by
        rintro rfl
        exact spared ⟨done, foreign, meant, target, cascades, entry⟩
      rw [Progress.tell_disk]
      exact (Disk.node?_erase _ _ _ (Disk.place_ne_nil solid)).trans (if_neg different)

theorem handle_removed_ways (brewer : Brewer) (old : Path) (progress : Progress) :
    Disk.NoNewWays progress.disk (brewer.handle (.removed old) progress).1.disk := by
  obtain ⟨_, same | ⟨_, spot, _, _, solid, erased⟩⟩ := handle_removed brewer old progress
  · rw [same]; exact Disk.NoNewWays.refl _
  · rw [erased]; exact Disk.NoNewWays.erase _ (Disk.place_ne_nil solid)

/-- A file that is gone from its place cannot be read by a path that named the place. -/
theorem readContents_gone {before after : Disk} {path : Path} (entry : before.entryAt? path = some place)
    (ways : Disk.NoNewWays before after) (gone : after.node? place = none) :
    ∀ kept, after.readContents path ≠ .ok kept := by
  intro kept read
  obtain ⟨name, _, named, _⟩ := Disk.entryAt?_home entry
  obtain ⟨dir, home⟩ := Disk.home?_of_readContents named read
  have still := Disk.entryAt?_onward ways entry home
  rw [Disk.readContents, Disk.node_of_entry still (by simp [gone]), gone] at read
  simp [bind, Except.bind] at read

-- Without links nothing that leads anywhere is ever replaced or removed.
theorem renamed_ways (brewer : Brewer) (old new : Path) {progress : Progress}
    (linkless : ∀ spot target, progress.disk.node? spot ≠ some (.link target)) :
    Disk.NoNewWays (brewer.renamed old new progress).disk progress.disk := by
  have file {spot : Place} {node : Node} (solid : progress.disk.isDirectoryAt spot = false)
      (held : progress.disk.node? spot = some node) : ∃ contents stamp, node = .file contents stamp := by
    cases node with
    | directory stamp => simp [Disk.isDirectoryAt, held] at solid
    | link target => exact absurd held (linkless spot target)
    | file contents stamp => exact ⟨contents, stamp, rfl⟩
  rw [renamed_eq]
  generalize stepped : (brewer.handle (.removed old) progress).1 = middle
  have kept : ∀ spot, middle.disk.node? spot = progress.disk.node? spot ∨
      middle.disk.node? spot = none ∧ progress.disk.isDirectoryAt spot = false := by
    intro spot
    obtain ⟨_, same | ⟨_, other, _, _, solid, erased⟩⟩ := handle_removed brewer old progress
    · rw [← stepped, same]; exact Or.inl rfl
    · rw [← stepped, erased, Disk.node?_erase _ _ _ (Disk.place_ne_nil solid)]
      by_cases here : spot = other
      · subst here; exact Or.inr ⟨if_pos rfl, solid⟩
      · exact Or.inl (if_neg here)
  obtain ⟨count, rewrites, _⟩ := handle_added brewer new middle
  have covers := rewrites.overlaid
  have current : progress.disk.current = middle.disk.current := by
    have ways := handle_removed_ways brewer old progress
    rw [stepped] at ways
    exact ways.1.symm
  refine Disk.NoNewWays.of_plain (current.trans covers.1.symm) fun spot node held => ?_
  rcases kept spot with same | ⟨gone, solid⟩
  · rcases covers.2 spot with untouched | ⟨solid, _⟩
    · exact Or.inl (untouched.trans same)
    · rw [Disk.isDirectoryAt, same] at solid
      exact Or.inr (file solid held)
  · exact Or.inr (file solid held)

/-- After a rename the renamed file is in its place, unchanged, unless the removal of the old
path has taken it along, and then it is gone. -/
theorem renamed_keeps_iff (brewer : Brewer) (progress : Progress) (old new : Path)
    (entry : progress.disk.entryAt? new = some place)
    (held : progress.disk.node? place = some (.file contents stamp)) :
    ((brewer.renamed old new progress).disk.node? place = some (.file contents stamp) ↔
      ¬brewer.TakesAlong progress old place) ∧
    (brewer.TakesAlong progress old place →
      (brewer.renamed old new progress).disk.node? place = none ∧
      ∀ kept, (brewer.renamed old new progress).disk.readContents new ≠ .ok kept) ∧
    ((∀ spot target, progress.disk.node? spot ≠ some (.link target)) →
      ¬brewer.TakesAlong progress old place →
      (brewer.renamed old new progress).disk.readContents new = .ok contents) := by
  have ways := handle_removed_ways brewer old progress
  have second := handle_added_spares brewer entry ways
  have spared (spares : ¬brewer.TakesAlong progress old place) :
      (brewer.renamed old new progress).disk.node? place = some (.file contents stamp) := by
    rw [renamed_eq, second, handle_removed_spares spares, held]
  have lost (takes : brewer.TakesAlong progress old place) :
      (brewer.renamed old new progress).disk.node? place = none := by
    have proper : place ≠ [] := by
      rintro rfl
      exact absurd (Disk.node?_root _ ▸ held) (by simp)
    rw [renamed_eq, second, handle_removed_takes held takes, Disk.node?_erase _ _ _ proper, if_pos rfl]
  refine ⟨⟨fun kept takes => ?_, spared⟩, fun takes => ⟨lost takes, ?_⟩, fun linkless spares => ?_⟩
  · exact absurd ((lost takes).symm.trans kept) (by simp)
  · refine readContents_gone entry ?_ (lost takes)
    obtain ⟨count, rewrites, _⟩ := handle_added brewer new (brewer.handle (.removed old) progress).1
    rw [renamed_eq]
    exact ways.trans (Disk.NoNewWays.of_overlaid rewrites.overlaid)
  · exact Disk.readContents_of_file (Disk.entryAt?_back (renamed_ways brewer old new linkless) entry)
      (spared spares)

section Lost

/-- A macro script that has just been renamed to an intermediate one. -/
def renamedScript : Progress :=
  .start ⟨[(["a.coffee".toList], .file (.text ['x']) 1)], [], 1⟩ .plain

theorem renamedScript_entry :
    renamedScript.disk.entryAt? (Path.ofString "/a.coffee") = some ["a.coffee".toList] := by
  rw [Disk.entryAt?_eq_some_iff]
  exact ⟨[], "a.coffee".toList, [], by decide, by decide, ⟨by decide, by decide, by decide⟩, .stay,
    rfl, rfl⟩

theorem renamedScript_taken : verbatim.TakesAlong renamedScript (Path.ofString "/a.cielo")
    ["a.coffee".toList] := by
  refine ⟨by decide, by decide, by decide, Path.ofString "/a.coffee", by decide, ?_⟩
  exact renamedScript_entry

/-- The removal of the macro script takes the file that its artifact would be, and this is the
file that was renamed. -/
theorem renamedScript_lost :
    renamedScript.disk.node? ["a.coffee".toList] = some (.file (.text ['x']) 1) ∧
      (verbatim.renamed (Path.ofString "/a.cielo") (Path.ofString "/a.coffee")
        renamedScript).disk.node? ["a.coffee".toList] = none :=
  ⟨rfl, ((renamed_keeps_iff verbatim renamedScript (Path.ofString "/a.cielo")
    (Path.ofString "/a.coffee") renamedScript_entry rfl).2.1 renamedScript_taken).1⟩

end Lost

end Brewery.Brewer
