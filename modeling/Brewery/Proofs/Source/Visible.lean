import Brewery.Proofs.Source.Chains

/-!
Where artifacts are seen. All artifacts of a source that is brewed lie beside it, under names of
their own. Exposing an artifact shows it, unless a dot comes after the underscore that is dropped.
-/

namespace Brewery

variable {source : Path} {name : Text} {stage : Stage} {rest chain : List Stage}
  {classifier : Classifier}

namespace Path

theorem parent?_artifact (stage : Stage) (named : source.fileName? = some name) :
    (source.artifact stage).parent? = source.parent? := by
  rw [parent?_eq (fileName?_artifact stage named), parent?_eq named, folder_artifact stage named,
    artifact_parts stage named]

/-- The artifacts of a chain lie where its source lies. -/
theorem parent?_artifacts (chain : List Stage) (named : source.fileName? = some name) :
    ∀ artifact ∈ source.artifacts chain, artifact.parent? = source.parent? := by
  induction chain generalizing source name with
  | nil => simp [artifacts]
  | cons stage rest ih =>
      intro artifact member
      rcases List.mem_cons.mp member with rfl | later
      · exact parent?_artifact stage named
      · rw [ih (fileName?_artifact stage named) artifact later, parent?_artifact stage named]

/-- A source and the artifacts of its chain are different paths. -/
theorem artifacts_apart (spelled : (SourceKind.ofPath source).chain = chain)
    (named : source.fileName? = some name) :
    (source :: source.artifacts chain).Pairwise fun one other => one.same other = false := by
  induction chain generalizing source name with
  | nil => simp [artifacts]
  | cons stage rest ih =>
      constructor
      · intro artifact member
        rw [← spelled] at member
        obtain ⟨other, renamed, differs⟩ := artifacts_renamed named member
        rw [← Bool.not_eq_true]
        exact fun same => differs (fileName?_same same named renamed).symm
      · exact ih (SourceKind.chain_artifact spelled) (fileName?_artifact stage named)

-- Expanding a script keeps its stem, so later artifacts are named as if they came of the script.
theorem artifactName_preprocess (stage : Stage) {stem extension : Text}
    (cut : splitExtension name = (stem, some extension)) :
    stage.artifactName (Stage.preprocess.artifactName name) = stage.artifactName name := by
  have expanded : Stage.preprocess.artifactName name = stem ++ '.' :: "coffee".toList := by
    rw [Stage.artifactName, cut]
    rfl
  rw [Stage.artifactName, expanded, splitExtension_whole (splitExtension_stem cut) (by decide),
    Stage.artifactName, cut]

theorem components_second {first second : Stage} {front : List Component}
    (named : source.fileName? = some name)
    (components : (source.artifact first).components = front ++ [.name (first.artifactName name)]) :
    ((source.artifact first).artifact second).components =
      front ++ [.name (second.artifactName (first.artifactName name))] := by
  obtain ⟨folder, spelled, further⟩ := components_artifact (fileName?_artifact first named)
  obtain ⟨rfl, _⟩ := List.append_inj' (components.symm.trans spelled) rfl
  exact further second

/-- The stages of a chain, each with the artifact that it makes of a source. -/
def made (source : Path) (chain : List Stage) : List (Stage × Path) :=
  chain.zip (source.artifacts chain)

end Path

/-- Where the artifacts of a source that is brewed lie, and which of them are excluded. -/
theorem artifacts_seen (recognized : classifier.classify source ≠ .unrecognized) :
    let chain := (classifier.classify source).chain
    ∃ name, source.fileName? = some name ∧
      (∀ artifact ∈ source.artifacts chain, artifact.parent? = source.parent?) ∧
      ((source :: source.artifacts chain).Pairwise fun one other => one.same other = false) ∧
      ∀ artifact ∈ source.artifacts chain, ∃ stage, (stage, artifact) ∈ source.made chain ∧
        (artifact.isExcluded classifier.root = true ↔ artifact.same classifier.root = false ∧
          ((stage.exposes = true ∧ ['_', '.'] <+: name) ∨
            (source.same classifier.root = true ∧
              source.components.any isExcludedSegment = true))) := by
  obtain ⟨shown, spelled⟩ := Classifier.classify_eq recognized
  rw [spelled] at recognized
  obtain ⟨name, named⟩ := SourceKind.named_of_recognized recognized
  obtain ⟨stem, _, cut, shape⟩ := SourceKind.ofPath_name named recognized
  obtain ⟨front, whole, components⟩ := Path.components_artifact named
  rw [spelled]
  refine ⟨name, named, Path.parent?_artifacts _ named, Path.artifacts_apart rfl named, ?_⟩
  have judged {stage : Stage} {artifact : Path}
      (beside : artifact.components = front ++ [.name (stage.artifactName name)]) :=
    Path.isExcluded_dotted whole beside (by simp [shape]) (by simp [Stage.artifactName])
      (Stage.artifactName_hidden stage cut) shown
  intro artifact member
  cases kind : SourceKind.ofPath source with
  | macroScript =>
      rw [kind] at member
      simp only [SourceKind.chain, Path.artifacts, List.mem_cons, List.not_mem_nil, or_false] at member
      rcases member with rfl | rfl
      · exact ⟨.preprocess, List.mem_cons_self, judged (components .preprocess)⟩
      · refine ⟨.compileScript, List.mem_cons_of_mem _ List.mem_cons_self, judged ?_⟩
        rw [Path.components_second named (components .preprocess), Path.artifactName_preprocess _ cut]
  | unrecognized => exact absurd kind recognized
  | _ =>
      rw [kind] at member
      simp only [SourceKind.chain, Path.artifacts, List.mem_cons, List.not_mem_nil, or_false] at member
      subst member
      exact ⟨_, List.mem_cons_self, judged (components _)⟩

/-- A macro script whose stem is an underscore, and its two artifacts. -/
def markedScript : Path := .ofString "/work/app/_.cielo"

def markedExpansion : Path := .ofString "/work/app/_.coffee"

def markedOutput : Path := .ofString "/work/app/.js"

-- Its expansion is seen, and the script that is compiled from it is not.
theorem markedScript_hidden :
    let classifier : Classifier := ⟨.ofString "/work/app", SourceKind.recognized⟩
    classifier.classify markedScript ≠ .unrecognized ∧
      markedScript.made (classifier.classify markedScript).chain =
        [(.preprocess, markedExpansion), (.compileScript, markedOutput)] ∧
      markedExpansion.isExcluded classifier.root = false ∧
      markedOutput.isExcluded classifier.root = true := by
  intro classifier
  have recognized : classifier.classify markedScript ≠ .unrecognized := by decide +kernel
  have made : markedScript.made (classifier.classify markedScript).chain =
      [(.preprocess, markedExpansion), (.compileScript, markedOutput)] := by decide +kernel
  obtain ⟨name, named, _, _, seen⟩ := artifacts_seen recognized
  obtain rfl : name = "_.cielo".toList := Option.some.inj (named.symm.trans (by decide +kernel))
  have apart : markedExpansion ≠ markedOutput := by decide +kernel
  refine ⟨recognized, made, ?_, ?_⟩
  · obtain ⟨stage, member, judged⟩ := seen markedExpansion (by decide +kernel)
    obtain rfl : stage = .preprocess := by simpa [made, apart] using member
    rw [← Bool.not_eq_true, judged]
    decide +kernel
  · obtain ⟨stage, member, judged⟩ := seen markedOutput (by decide +kernel)
    obtain rfl : stage = .compileScript := by simpa [made, apart.symm] using member
    rw [judged]
    decide +kernel

end Brewery
