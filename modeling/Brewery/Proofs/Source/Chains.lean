import Brewery.Proofs.Path.Below
import Brewery.Proofs.Source.Names

/-!
Chains and the kinds of what is between their stages. The artifact of the first stage of a chain is
a source with the rest of the chain, and it is brewed where its own source is, so a chain can also
be run from any of its artifacts.
-/

namespace Brewery

variable {path source : Path} {name : Text} {stage : Stage} {rest : List Stage} {classifier : Classifier}

namespace Path

/-- An artifact has the components of its source but for the last. -/
theorem components_artifact (named : path.fileName? = some name) :
    ∃ front, path.components = front ++ [.name name] ∧
      ∀ stage, (path.artifact stage).components = front ++ [.name (stage.artifactName name)] := by
  obtain ⟨inner, outer, shape, before, after⟩ := parts_split named
  have proper := fileName?_isName named
  refine ⟨path.parts.1.components ++ Path.named path.folder, ?_, fun stage => ?_⟩
  · rw [components_eq, shape, ← List.singleton_append, named_append, named_append, named_append,
      named_fillers before, named_fillers after, named_singleton proper]
    simp
  · rw [components_eq, artifact_parts stage named, named_append,
      named_singleton (artifactName_isName stage proper.1), List.append_assoc]

theorem fileName?_same {other : Path} {again : Text} (same : path.same other = true)
    (named : path.fileName? = some name) (renamed : other.fileName? = some again) : name = again := by
  obtain ⟨front, shape, _⟩ := components_artifact named
  obtain ⟨folder, spelled, _⟩ := components_artifact renamed
  have whole := of_decide_eq_true same
  rw [shape, spelled] at whole
  exact Component.name.inj (List.cons.inj (List.append_inj' whole rfl).2).1

theorem splitExtension_whole {stem extension : Text} (written : stem ≠ []) (undotted : '.' ∉ extension) :
    splitExtension (stem ++ '.' :: extension) = (stem, some extension) := by
  obtain ⟨last, front⟩ := dropWhile_extension stem undotted
  rw [splitExtension, front, last]
  simp [written]

end Path

namespace SourceKind

theorem named_of_recognized (recognized : SourceKind.ofPath path ≠ .unrecognized) :
    ∃ name, path.fileName? = some name := by
  cases named : path.fileName? with
  | some name => exact ⟨name, rfl⟩
  | none => exact absurd (by simp [SourceKind.ofPath, Path.extension?, named]) recognized

-- The stem stays, so the artifact has an extension whatever the script is called.
theorem ofPath_preprocess (recognized : SourceKind.ofPath path ≠ .unrecognized) :
    SourceKind.ofPath (path.artifact .preprocess) = .intermediateScript := by
  obtain ⟨name, named⟩ := named_of_recognized recognized
  obtain ⟨stem, written, cut, _⟩ := SourceKind.ofPath_name named recognized
  have artifact : Stage.preprocess.artifactName name = stem ++ '.' :: "coffee".toList := by
    rw [Stage.artifactName, cut]
    rfl
  rw [ofPath, Path.extension?, Path.fileName?_artifact _ named, artifact, Option.bind_some,
    Path.splitExtension_whole written (by decide)]
  rfl

/-- The first artifact of a chain is a source with the rest of the chain. -/
theorem chain_artifact (chain : (SourceKind.ofPath path).chain = stage :: rest) :
    (SourceKind.ofPath (path.artifact stage)).chain = rest := by
  have recognized : SourceKind.ofPath path ≠ .unrecognized := by
    intro unknown
    rw [unknown] at chain
    exact absurd chain (by simp [SourceKind.chain])
  obtain ⟨name, named⟩ := named_of_recognized recognized
  have last (foreign : SourceKind.ofExtension stage.outputExtension = .unrecognized) :
      (SourceKind.ofPath (path.artifact stage)).chain = [] := by
    rcases SourceKind.ofPath_artifact stage named with same | unknown
    · rw [same, foreign]
      rfl
    · rw [unknown]
      rfl
  cases kind : SourceKind.ofPath path with
  | macroScript =>
      rw [kind] at chain
      obtain ⟨rfl, rfl⟩ := List.cons.inj chain
      rw [ofPath_preprocess recognized]
      rfl
  | unrecognized => exact absurd kind recognized
  | _ =>
      rw [kind] at chain
      obtain ⟨rfl, rfl⟩ := List.cons.inj chain
      exact last (by decide)

end SourceKind

section Hidden

theorem isExcludedSegment_dotted (dotted : '.' ∈ name) :
    isExcludedSegment (.name name) = decide (name.head? = some '.') := by
  have foreign : name ≠ dependencyDirectory := by
    rintro rfl
    exact absurd dotted (by decide)
  rw [isExcludedSegment, decide_eq_false foreign, Bool.false_or]

theorem exposedStem_marked (more : Text) : exposedStem ('_' :: more) = more := rfl

theorem exposedStem_unmarked {first : Char} (other : first ≠ '_') (more : Text) :
    exposedStem (first :: more) = first :: more := by
  simp [exposedStem, Text.dropPrefix?, other.symm]

/-- An artifact is hidden if its source is, or if exposing it leaves the dot in front. -/
theorem Stage.artifactName_hidden (stage : Stage) {stem extension : Text}
    (cut : Path.splitExtension name = (stem, some extension)) :
    (stage.artifactName name).head? = some '.' ↔
      name.head? = some '.' ∨ (stage.exposes = true ∧ ['_', '.'] <+: name) := by
  obtain ⟨first, more, rfl⟩ := List.exists_cons_of_ne_nil (Path.splitExtension_stem cut)
  rw [Stage.artifactName, cut, Path.splitExtension_append cut]
  cases stage.exposes with
  | false => simp
  | true =>
      by_cases marked : first = '_'
      · subst marked
        simp only [exposedStem_marked]
        cases more with
        | nil => simp
        | cons next more => simp [eq_comm]
      · simp [exposedStem_unmarked marked, Ne.symm marked]

end Hidden

namespace Path

variable {root other : Path} {front : List Component} {again : Text}

/-- What is below the root and not excluded has no name that is. -/
theorem name_shown (spelled : path.components = front ++ [.name name])
    (shown : path.isExcluded root = false) (inner : path.same root = false) :
    isExcludedSegment (.name name) = false := by
  have own := isExcluded_beside spelled spelled shown
  rw [shown, inner] at own
  simpa using own.symm

/-- What is beside a path that is not excluded is excluded if its name is hidden and that of the
path is not, or if the path is the root and is hidden where it lies; but the root is never excluded. -/
theorem isExcluded_dotted {Marked : Prop} (spelled : path.components = front ++ [.name name])
    (beside : other.components = front ++ [.name again]) (dotted : '.' ∈ name) (also : '.' ∈ again)
    (hidden : again.head? = some '.' ↔ name.head? = some '.' ∨ Marked)
    (shown : path.isExcluded root = false) :
    other.isExcluded root = true ↔ other.same root = false ∧
      (Marked ∨ (path.same root = true ∧ path.components.any isExcludedSegment = true)) := by
  rw [isExcluded_beside spelled beside shown, isExcludedSegment_dotted also, Bool.and_eq_true,
    Bool.not_eq_true', Bool.or_eq_true, decide_eq_true_eq, hidden]
  refine and_congr_right fun _ => ?_
  cases own : path.same root with
  | false =>
      have plain := name_shown spelled shown own
      rw [isExcludedSegment_dotted dotted, decide_eq_false_iff_not] at plain
      simp [plain]
  | true =>
      rw [spelled, List.any_append, Bool.true_and, Bool.or_eq_true]
      simp only [List.any_cons, List.any_nil, Bool.or_false, isExcludedSegment_dotted dotted,
        decide_eq_true_eq]
      tauto

end Path

namespace Classifier

theorem classify_eq (recognized : classifier.classify path ≠ .unrecognized) :
    path.isExcluded classifier.root = false ∧ classifier.classify path = SourceKind.ofPath path := by
  unfold classify at recognized ⊢
  simp only at recognized ⊢
  split at recognized
  · next known =>
      rw [if_pos known]
      exact ⟨by simp_all, rfl⟩
  · exact absurd rfl recognized

/-- The expanded script of a macro script that is brewed is brewed as well, when its kind is on. A
root that is the script itself is left out: what is beside it is outside the root. -/
theorem classify_preprocess (kind : classifier.classify path = .macroScript)
    (enabled : .intermediateScript ∈ classifier.enabled) (inner : path.same classifier.root = false) :
    classifier.classify (path.artifact .preprocess) = .intermediateScript := by
  obtain ⟨shown, spelled⟩ := classify_eq (by rw [kind]; simp)
  have recognized : SourceKind.ofPath path ≠ .unrecognized := by simp [← spelled, kind]
  have artifact := SourceKind.ofPath_preprocess recognized
  obtain ⟨name, named⟩ := SourceKind.named_of_recognized recognized
  obtain ⟨stem, _, cut, shape⟩ := SourceKind.ofPath_name named recognized
  obtain ⟨front, whole, components⟩ := Path.components_artifact named
  have hidden := Stage.artifactName_hidden .preprocess cut
  have visible := Path.isExcluded_dotted whole (components .preprocess) (by simp [shape])
    (by simp [Stage.artifactName]) hidden shown
  have plain : (path.artifact .preprocess).isExcluded classifier.root = false := by
    rw [← Bool.not_eq_true, visible]
    simp [Stage.exposes, inner]
  simp [classify, artifact, plain, enabled]

end Classifier

end Brewery
