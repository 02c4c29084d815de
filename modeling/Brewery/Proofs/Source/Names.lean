import Brewery.Proofs.Path.Parts

/-!
What a name says of its kind. A name of a kind ends in the extension of the kind, and the
artifacts of its chain end differently, so no chain leads back to the name it starts from. The
first artifact of a macro script is an intermediate script; every other artifact is of no kind.
-/

namespace Brewery

/-- The extension that makes a name one of a kind. -/
def SourceKind.extension : SourceKind → Text
  | .macroScript => "cielo".toList
  | .intermediateScript => "coffee".toList
  | .componentTemplate => "starbucks".toList
  | .dataLiteral => "json5".toList
  | .unrecognized => []

variable {path : Path} {name : Text}

theorem Path.splitExtension_stem {stem extension : Text}
    (cut : Path.splitExtension name = (stem, some extension)) : stem ≠ [] := by
  unfold Path.splitExtension at cut
  split at cut
  · split at cut
    · simp at cut
    · next written =>
        simp only [Prod.mk.injEq] at cut
        rw [← cut.1]
        simpa using written
  · simp at cut

theorem Path.dropWhile_extension (stem : Text) {extension : Text} (undotted : '.' ∉ extension) :
    (stem ++ '.' :: extension).reverse.takeWhile (· ≠ '.') = extension.reverse ∧
      (stem ++ '.' :: extension).reverse.dropWhile (· ≠ '.') = '.' :: stem.reverse := by
  have free : ∀ c ∈ extension.reverse, decide (c ≠ '.') = true := by
    intro c member
    exact decide_eq_true fun dot => undotted (dot ▸ List.mem_reverse.mp member)
  have turned : (stem ++ '.' :: extension).reverse = extension.reverse ++ '.' :: stem.reverse := by
    simp
  rw [turned]
  constructor
  · rw [List.takeWhile_append_of_pos free, List.takeWhile_cons_of_neg (by simp), List.append_nil]
  · rw [List.dropWhile_append_of_pos free, List.dropWhile_cons_of_neg (by simp)]

theorem Path.extension_unique {front stem left right : Text}
    (same : front ++ '.' :: left = stem ++ '.' :: right) (before : '.' ∉ left)
    (after : '.' ∉ right) : left = right := by
  have first := (Path.dropWhile_extension front before).1
  rw [same, (Path.dropWhile_extension stem after).1] at first
  exact (List.reverse_inj.mp first).symm

theorem SourceKind.ofExtension_extension {extension : Text}
    (recognized : SourceKind.ofExtension extension ≠ .unrecognized) :
    extension = (SourceKind.ofExtension extension).extension := by
  unfold SourceKind.ofExtension at recognized ⊢
  by_cases script : extension = "cielo".toList
  · rw [if_pos script]
    exact script
  rw [if_neg script] at recognized ⊢
  by_cases intermediate : extension = "coffee".toList
  · rw [if_pos intermediate]
    exact intermediate
  rw [if_neg intermediate] at recognized ⊢
  by_cases template : extension = "starbucks".toList
  · rw [if_pos template]
    exact template
  rw [if_neg template] at recognized ⊢
  by_cases data : extension = "json5".toList
  · rw [if_pos data]
    exact data
  rw [if_neg data] at recognized
  exact absurd rfl recognized

/-- A name of a kind is a stem, a dot and the extension of the kind. -/
theorem SourceKind.ofPath_name (named : path.fileName? = some name)
    (recognized : SourceKind.ofPath path ≠ .unrecognized) :
    ∃ stem, stem ≠ [] ∧ Path.splitExtension name = (stem, some (SourceKind.ofPath path).extension) ∧
      name = stem ++ '.' :: (SourceKind.ofPath path).extension := by
  cases cut : Path.splitExtension name with
  | mk stem extension =>
      cases extension with
      | none => simp [SourceKind.ofPath, Path.extension?, named, cut] at recognized
      | some extension =>
          have kind : SourceKind.ofPath path = SourceKind.ofExtension extension := by
            simp [SourceKind.ofPath, Path.extension?, named, cut]
          rw [kind] at recognized ⊢
          have same := SourceKind.ofExtension_extension recognized
          rw [← same]
          exact ⟨stem, Path.splitExtension_stem cut, rfl, Path.splitExtension_append cut⟩

/-- An artifact is of the kind of the extension that its stage gives, or, when no stem is left
in front of it, of none. -/
theorem SourceKind.ofPath_artifact (stage : Stage) (named : path.fileName? = some name) :
    SourceKind.ofPath (path.artifact stage) = SourceKind.ofExtension stage.outputExtension ∨
      SourceKind.ofPath (path.artifact stage) = .unrecognized := by
  by_cases recognized : SourceKind.ofPath (path.artifact stage) = .unrecognized
  · exact Or.inr recognized
  · left
    obtain ⟨stem, _, _, shape⟩ :=
      SourceKind.ofPath_name (Path.fileName?_artifact stage named) recognized
    have undotted : '.' ∉ stage.outputExtension := by cases stage <;> decide
    have undotted' : '.' ∉ (SourceKind.ofPath (path.artifact stage)).extension := by
      cases SourceKind.ofPath (path.artifact stage) <;> decide
    rw [Path.extension_unique shape undotted undotted']
    cases kind : SourceKind.ofPath (path.artifact stage) with
    | unrecognized => exact absurd kind recognized
    | _ => rfl

theorem Stage.extension_foreign {stage : Stage} {kind : SourceKind} (member : stage ∈ kind.chain) :
    stage.outputExtension.getLast? ≠ kind.extension.getLast? := by
  cases kind <;> cases stage <;> first | decide | simp [SourceKind.chain] at member

theorem SourceKind.ofPath_getLast? (named : path.fileName? = some name)
    (recognized : SourceKind.ofPath path ≠ .unrecognized) :
    name.getLast? = (SourceKind.ofPath path).extension.getLast? := by
  obtain ⟨stem, _, _, shape⟩ := SourceKind.ofPath_name named recognized
  have written : (SourceKind.ofPath path).extension ≠ [] := by
    cases kind : SourceKind.ofPath path with
    | unrecognized => exact absurd kind recognized
    | _ => decide
  obtain ⟨before, last, ends⟩ := (List.eq_nil_or_concat _).resolve_left written
  rw [shape, ends, List.concat_eq_append, ← List.cons_append, ← List.append_assoc,
    List.getLast?_concat, List.getLast?_concat]

/-- No artifact of a chain has the name that the chain starts from. -/
theorem Path.artifacts_renamed (named : path.fileName? = some name) {artifact : Path}
    (member : artifact ∈ path.artifacts (SourceKind.ofPath path).chain) :
    ∃ other, artifact.fileName? = some other ∧ other ≠ name := by
  have differ {stage : Stage} (origin : Text) (inside : stage ∈ (SourceKind.ofPath path).chain) :
      stage.artifactName origin ≠ name := by
    intro same
    have recognized : SourceKind.ofPath path ≠ .unrecognized := by
      intro unknown
      rw [unknown] at inside
      exact absurd inside (by simp [SourceKind.chain])
    have ends := SourceKind.ofPath_getLast? named recognized
    rw [← same, Path.artifactName_getLast?] at ends
    exact Stage.extension_foreign inside ends
  cases kind : SourceKind.ofPath path with
  | macroScript =>
      rw [kind] at member differ
      simp only [SourceKind.chain, Path.artifacts, List.mem_cons, List.not_mem_nil, or_false] at member
      have first := Path.fileName?_artifact .preprocess named
      rcases member with rfl | rfl
      · exact ⟨_, first, differ _ (by simp [SourceKind.chain])⟩
      · exact ⟨_, Path.fileName?_artifact .compileScript first, differ _ (by simp [SourceKind.chain])⟩
  | unrecognized => simp [kind, SourceKind.chain, Path.artifacts] at member
  | _ =>
      rw [kind] at member differ
      simp only [SourceKind.chain, Path.artifacts, List.mem_cons, List.not_mem_nil, or_false] at member
      subst member
      exact ⟨_, Path.fileName?_artifact _ named, differ _ (by simp [SourceKind.chain])⟩

end Brewery
