import Brewery.Proofs.Session.Footprint
import Brewery.Proofs.Session.Freshness
import Brewery.Proofs.Session.Suppression
import Brewery.Proofs.Source.Chains

/-!
Chains hop by hop. A chain goes on from the artifact of a hop as if that artifact had been named
itself: the text it has in hand is the text on the disk, and where the disk cannot be read any more
nothing can be written either. So a macro script is built by its first hop and a build of the
expanded script, unless the first hop fails, which ends the chain.
-/

namespace Brewery

namespace Brewer

variable {brewer : Brewer} {source other input path : Path} {always : Bool} {stage : Stage}
  {stages : List Stage} {carried : Option Text} {progress : Progress} {name : Text}

section Rereading

/-- A hop from an input that cannot be reached makes nothing. -/
theorem hop_homeless (named : input.fileName? = some name)
    (carries : Carries progress.disk input carried) (homeless : progress.disk.home? input = none) :
    (∀ text, (brewer.hop source true stage input carried progress).2 ≠ .passed text) ∧
      (brewer.hop source true stage input carried progress).1.disk = progress.disk ∧
      (brewer.hop source true stage input carried progress).1.session = progress.session := by
  have ended : HopCase brewer source true stage input carried progress
      (brewer.hop source true stage input carried progress) := hop_cases named carries
  generalize brewer.hop source true stage input carried progress = result at ended ⊢
  cases ended with
  | current _ lazy => exact absurd lazy (by simp)
  | replaced _ _ _ _ read =>
      obtain ⟨dir, home⟩ := Disk.home?_of_readText named read
      exact absurd (homeless.symm.trans home) (by simp)
  | _ => exact ⟨by simp, rfl, rfl⟩

/-- Whether a chain has the text of its input in hand or reads it again makes no difference to the
disk and to what the session knows. -/
theorem runChain_reread (source : Path) (stages : List Stage) (named : input.fileName? = some name)
    (carries : Carries progress.disk input carried) :
    (brewer.runChain source true stages input carried progress).1.disk =
        (brewer.runChain source true stages input none progress).1.disk ∧
      (brewer.runChain source true stages input carried progress).1.session =
        (brewer.runChain source true stages input none progress).1.session := by
  cases stages with
  | nil => exact ⟨rfl, rfl⟩
  | cons stage rest =>
      cases carried with
      | none => exact ⟨rfl, rfl⟩
      | some text =>
          cases home : progress.disk.home? input with
          | some dir =>
              have again : inputText progress.disk input (some text) =
                  inputText progress.disk input none := by
                simp [inputText, carries.readText home]
              have same : brewer.hop source true stage input (some text) progress =
                  brewer.hop source true stage input none progress := by
                simp only [hop, again]
              rw [runChain, runChain, same]
              exact ⟨rfl, rfl⟩
          | none =>
              -- Neither way the chain gets beyond this hop.
              have ended {carried : Option Text} (carries : Carries progress.disk input carried) :
                  (brewer.runChain source true (stage :: rest) input carried progress).1.disk =
                      progress.disk ∧
                    (brewer.runChain source true (stage :: rest) input carried progress).1.session =
                      progress.session := by
                obtain ⟨stops, disk, session⟩ :=
                  @hop_homeless brewer source input stage carried progress name named carries home
                rw [runChain]
                generalize brewer.hop source true stage input carried progress = result
                  at stops disk session ⊢
                obtain ⟨after, outcome⟩ := result
                cases outcome with
                | passed text => exact absurd rfl (stops text)
                | stopped => exact ⟨disk, session⟩
                | failed error => exact ⟨disk, session⟩
              obtain ⟨disk, session⟩ := ended carries
              obtain ⟨disk', session'⟩ := ended (carries_none progress.disk input)
              exact ⟨disk.trans disk'.symm, session.trans session'.symm⟩

end Rereading

section Level

/-- Two states of which all is one that a chain goes by and that it changes, but for what the
session remembers. -/
structure Level (left right : Progress) : Prop where
  disk : right.disk = left.disk
  options : right.session.options = left.session.options
  phase : right.session.phase = left.session.phase
  counters : right.session.counters = left.session.counters

variable {left right : Progress}

theorem Level.needsRebuild (level : Level left right) (input artifact : Path) :
    right.session.needsRebuild right.disk input artifact =
      left.session.needsRebuild left.disk input artifact := by
  simp [Session.needsRebuild, Session.scanComplete, level.disk, level.options, level.phase]

-- Only the log tells for which source a stage is run, unless it wraps data.
theorem hop_level (level : Level left right) (plain : stage ≠ .wrapData) (input : Path)
    (carried : Option Text) :
    (brewer.hop other always stage input carried right).2 =
        (brewer.hop source always stage input carried left).2 ∧
      Level (brewer.hop source always stage input carried left).1
        (brewer.hop other always stage input carried right).1 := by
  have recorded (disk : Disk) (artifact : Path) (log : Log) : Level
      (Progress.tell { left with
        disk := disk
        session := (left.session.recordWrite disk artifact).countProcessed } log)
      (Progress.tell { right with
        disk := disk
        session := (right.session.recordWrite disk artifact).countProcessed } log) := by
    obtain ⟨options, phase, _⟩ := Session.recordWrite_same left.session disk artifact
    obtain ⟨options', phase', _⟩ := Session.recordWrite_same right.session disk artifact
    exact ⟨rfl, by simpa [Session.countProcessed, options, options'] using level.options,
      by simpa [Session.countProcessed, phase, phase'] using level.phase,
      by simp [Session.counters_recorded, level.counters]⟩
  have told (log log' : Log) : Level (left.tell log) (right.tell log') :=
    ⟨level.disk, level.options, level.phase, level.counters⟩
  have rebuild := level.needsRebuild input (input.artifact stage)
  rw [level.disk] at rebuild
  unfold hop make
  simp only [plain, level.disk, rebuild, decide_false, Bool.false_and, Bool.false_eq_true, if_false]
  split
  · exact ⟨rfl, told _ _⟩
  split
  · exact ⟨rfl, level⟩
  · exact ⟨rfl, told _ _⟩
  split
  · exact ⟨rfl, told _ _⟩
  split
  · exact ⟨rfl, ⟨rfl, level.options, level.phase, level.counters⟩⟩
  · exact ⟨rfl, recorded _ _ _⟩

theorem runChain_level (level : Level left right) (plain : .wrapData ∉ stages) (input : Path)
    (carried : Option Text) :
    Level (brewer.runChain source always stages input carried left).1
      (brewer.runChain other always stages input carried right).1 := by
  induction stages generalizing left right input carried with
  | nil => exact level
  | cons stage rest ih =>
      have first : stage ≠ .wrapData := fun same => plain (by simp [same])
      obtain ⟨outcome, onward⟩ :=
        @hop_level brewer source other always stage left right level first input carried
      rw [runChain, runChain]
      generalize brewer.hop other always stage input carried right = there at outcome onward ⊢
      generalize brewer.hop source always stage input carried left = here at outcome onward ⊢
      obtain ⟨here, result⟩ := here
      obtain ⟨there, answer⟩ := there
      obtain rfl : answer = result := outcome
      cases answer with
      | passed text => exact ih onward (fun member => plain (List.mem_cons_of_mem _ member)) _ _
      | stopped => exact onward
      | failed error => exact onward

end Level

section Building

theorem build_single (recognized : brewer.classifier.classify path ≠ .unrecognized)
    (progress : Progress) : brewer.build [path] progress = (brewer.buildFile path progress, .ok ()) := by
  rw [build_known (by simpa using recognized)]
  rfl

/-- A macro script is built by its first hop and a build of the expanded script, if the hop writes
it, and otherwise not at all. -/
theorem build_first (kind : brewer.classifier.classify source = .macroScript)
    (expanded : brewer.classifier.classify (source.artifact .preprocess) = .intermediateScript)
    (progress : Progress) :
    (∀ text, (brewer.hop source true .preprocess source none progress).2 = .passed (some text) →
      (brewer.build [source] progress).1.disk = (brewer.build [source.artifact .preprocess]
          (brewer.hop source true .preprocess source none progress).1).1.disk ∧
        (brewer.build [source] progress).1.session.counters.processed =
          (brewer.build [source.artifact .preprocess]
            (brewer.hop source true .preprocess source none
              progress).1).1.session.counters.processed) ∧
    ((∀ text, (brewer.hop source true .preprocess source none progress).2 ≠ .passed (some text)) →
      (brewer.build [source] progress).1.disk = progress.disk ∧
        (brewer.build [source] progress).1.session.counters.processed =
          progress.session.counters.processed) := by
  obtain ⟨name, named⟩ := @classify_named brewer.classifier source (by simp [kind])
  have next := Path.fileName?_artifact .preprocess named
  rw [build_single (by simp [kind]), build_single (by simp [expanded])]
  rw [buildFile_disk, buildFile_processed, kind, SourceKind.chain, runChain]
  have ended : HopCase brewer source true .preprocess source none progress
      (brewer.hop source true .preprocess source none progress) :=
    hop_cases named (carries_none progress.disk source)
  generalize brewer.hop source true .preprocess source none progress = result at ended ⊢
  rw [buildFile_disk, buildFile_processed, expanded]
  cases ended with
  | outside _ data => exact absurd data (by simp)
  | current _ lazy => exact absurd lazy (by simp)
  | replaced text output place log read made entry solid meant =>
      refine ⟨fun _ _ => ?_, fun stops => absurd rfl (stops output)⟩
      generalize written : Progress.tell _ log = after
      have carries : Carries after.disk (source.artifact .preprocess) (some output) := by
        intro held known
        cases known
        exact ⟨progress.disk, place, entry, solid, by rw [← written]; rfl⟩
      obtain ⟨disk, session⟩ := runChain_reread source [.compileScript] next carries
      have level := @runChain_level brewer source (source.artifact .preprocess) true [.compileScript]
        after after ⟨rfl, rfl, rfl, rfl⟩ (by simp) (source.artifact .preprocess) none
      simp only [SourceKind.chain]
      rw [disk, session, level.disk, level.counters]
      exact ⟨rfl, rfl⟩
  | _ => exact ⟨fun _ passed => absurd passed (by simp), fun _ => ⟨rfl, rfl⟩⟩

end Building

section Skipping

/-- Every write among the acts is one of an artifact. -/
def WritesArtifacts (acts : List Act) : Prop :=
  ∀ (artifact : Path) (stamp : Option Int), .wrote artifact stamp ∈ acts →
    ∃ (input : Path) (stage : Stage) (name : Text), input.fileName? = some name ∧
      artifact = input.artifact stage

theorem chainActs_artifacts (source : Path) (always : Bool) (stages : List Stage)
    (carried : Option Text) (progress : Progress) (named : input.fileName? = some name) :
    WritesArtifacts (brewer.chainActs source always stages input carried progress) := by
  induction stages generalizing input carried progress name with
  | nil => exact fun artifact stamp member => absurd member List.not_mem_nil
  | cons stage rest ih =>
      have next := Path.fileName?_artifact stage named
      intro artifact stamp member
      rw [chainActs] at member
      generalize brewer.hop source always stage input carried progress = result at member
      obtain ⟨after, outcome⟩ := result
      cases outcome with
      | passed text =>
          cases text with
          | none => exact ih none after next artifact stamp member
          | some text =>
              rcases List.mem_cons.mp member with same | further
              · cases same
                exact ⟨input, stage, name, named, rfl⟩
              · exact ih (some text) after next artifact stamp further
      | stopped => exact absurd member List.not_mem_nil
      | failed error => exact absurd member List.not_mem_nil

theorem buildActs_artifacts {files : List Path}
    (known : ∀ path ∈ files, brewer.classifier.classify path ≠ .unrecognized) (progress : Progress) :
    WritesArtifacts (brewer.buildActs files progress) := by
  induction files generalizing progress with
  | nil => exact fun artifact stamp member => absurd member List.not_mem_nil
  | cons path rest ih =>
      obtain ⟨name, named⟩ := classify_named (known path List.mem_cons_self)
      intro artifact stamp member
      rcases List.mem_append.mp member with here | later
      · exact chainActs_artifacts path true _ none progress named artifact stamp here
      · exact ih (fun other inside => known other (List.mem_cons_of_mem _ inside)) _ artifact stamp later

theorem acts_artifacts (brewer : Brewer) (event : Event) (progress : Progress) :
    WritesArtifacts (brewer.acts event progress) := by
  have present (path : Path) (progress : Progress) :
      WritesArtifacts (brewer.presentActs path progress) := by
    intro artifact stamp member
    unfold presentActs at member
    simp only at member
    split at member
    · exact absurd member List.not_mem_nil
    · next known =>
        obtain ⟨name, named⟩ := @classify_named brewer.classifier path (by simp_all)
        exact chainActs_artifacts path false _ none _ named artifact stamp member
  intro artifact stamp member
  unfold Brewer.acts at member
  split at member
  · exact absurd member List.not_mem_nil
  · rcases List.mem_cons.mp member with told | later
    · exact absurd told (by simp)
    · cases event with
      | ready => exact absurd later List.not_mem_nil
      | removed path => simp at later
      | added path => exact present path _ artifact stamp later
      | changed path => exact present path _ artifact stamp later

theorem Past.artifacts {acts : List Act} (past : Past brewer acts progress) : WritesArtifacts acts := by
  have joined {later acts : List Act} (first : WritesArtifacts later) (second : WritesArtifacts acts) :
      WritesArtifacts (later.reverse ++ acts) := by
    intro artifact stamp member
    rcases List.mem_append.mp member with here | before
    · exact first artifact stamp (List.mem_reverse.mp here)
    · exact second artifact stamp before
  induction past with
  | start => exact fun artifact stamp member => absurd member List.not_mem_nil
  | change _ _ ih => exact ih
  | handle _ event ih => exact joined (acts_artifacts brewer event _) ih
  | build _ known ih => exact joined (buildActs_artifacts known _) ih
  | refuse _ _ _ ih => exact ih
  | interrupt _ ih => exact ih

theorem mem_of_lastWrite? {acts : List Act} {stamp : Int} (last : Act.lastWrite? path acts = some stamp) :
    ∃ artifact, .wrote artifact (some stamp) ∈ acts ∧ path.same artifact = true := by
  induction acts with
  | nil => exact absurd last (by simp [Act.lastWrite?])
  | cons act earlier ih =>
      have onward (before : Act.lastWrite? path earlier = some stamp) :
          ∃ artifact, .wrote artifact (some stamp) ∈ act :: earlier ∧ path.same artifact = true := by
        obtain ⟨artifact, member, same⟩ := ih before
        exact ⟨artifact, List.mem_cons_of_mem _ member, same⟩
      cases act with
      | wrote artifact found =>
          cases found with
          | none => exact onward (by simpa [Act.lastWrite?, Act.takes, Act.buries] using last)
          | some found =>
              cases same : path.same artifact with
              | true =>
                  obtain rfl : found = stamp := by simpa [Act.lastWrite?, same] using last
                  exact ⟨artifact, List.mem_cons_self, same⟩
              | false => exact onward (by simpa [Act.lastWrite?, same] using last)
      | _ =>
          rw [Act.lastWrite?] at last
          · split at last
            · exact absurd last (by simp)
            · exact onward last
          · simp

/-- A session never takes a macro script for its own work. -/
theorem Past.script_foreign {acts : List Act} (past : Past brewer acts progress)
    (kind : SourceKind.ofPath source = .macroScript) (disk : Disk) :
    progress.session.isOwnWrite disk source = false := by
  unfold Session.isOwnWrite
  split
  · next recorded current written _ =>
      rw [(past.recalls source).1] at written
      obtain ⟨artifact, member, same⟩ := mem_of_lastWrite? written
      obtain ⟨input, stage, name, named, rfl⟩ := past.artifacts artifact _ member
      obtain ⟨spelled, here⟩ := @SourceKind.named_of_recognized source (by simp [kind])
      have there := Path.fileName?_artifact stage named
      have kinds : SourceKind.ofPath (input.artifact stage) = .macroScript := by
        rw [← kind, SourceKind.ofPath, SourceKind.ofPath, Path.extension?, Path.extension?, here, there,
          Path.fileName?_same same here there]
      rcases SourceKind.ofPath_artifact stage named with known | unknown
      · rw [kinds] at known
        cases stage <;> exact absurd known (by decide)
      · exact absurd (kinds.symm.trans unknown) (by simp)
  · rfl

theorem hop_current (kept : progress.session.needsRebuild progress.disk input (input.artifact stage) = false)
    (plain : stage ≠ .wrapData) (source : Path) (carried : Option Text) :
    ∃ log, brewer.hop source false stage input carried progress = (progress.tell log, .passed none) := by
  simp only [hop, plain, kept, decide_false, Bool.false_and, Bool.false_eq_true, if_false,
    Bool.not_false, Bool.and_self, if_true]
  exact ⟨_, rfl⟩

/-- What an addition does that is neither unknown nor the session's own. -/
theorem handle_added_chain (active : progress.session.phase ≠ .done)
    (recognized : brewer.classifier.classify path ≠ .unrecognized)
    (foreign : progress.session.isOwnWrite progress.disk path = false) :
    ∃ heard, Level progress heard ∧
      (brewer.handle (.added path) progress).1.disk = (brewer.runChain path false
        (brewer.classifier.classify path).chain path none heard).1.disk ∧
      (brewer.handle (.added path) progress).1.session.counters = (brewer.runChain path false
        (brewer.classifier.classify path).chain path none heard).1.session.counters := by
  rw [handle_active active]
  simp only
  generalize told : progress.tell _ = heard
  have met := whenPresent_cases brewer path heard
  generalize brewer.whenPresent path heard = after at met ⊢
  cases met with
  | ignored unknown => exact absurd unknown recognized
  | own _ _ known =>
      have known : progress.session.isOwnWrite progress.disk path = true := by
        rw [← told] at known
        exact known
      exact absurd (known.symm.trans foreign) (by simp)
  | built log _ _ =>
      refine ⟨noted path heard, ?_, rfl, rfl⟩
      rw [← told]
      exact ⟨rfl, rfl, rfl, rfl⟩

/-- In the first pass a macro script whose expanded script is up to date is treated as the expanded
script. -/
theorem handle_added_current (kind : brewer.classifier.classify source = .macroScript)
    (expanded : brewer.classifier.classify (source.artifact .preprocess) = .intermediateScript)
    (kept : progress.session.needsRebuild progress.disk source (source.artifact .preprocess) = false)
    (script : progress.session.isOwnWrite progress.disk source = false)
    (foreign : progress.session.isOwnWrite progress.disk (source.artifact .preprocess) = false) :
    (brewer.handle (.added source) progress).1.disk =
        (brewer.handle (.added (source.artifact .preprocess)) progress).1.disk ∧
      (brewer.handle (.added source) progress).1.session.counters =
        (brewer.handle (.added (source.artifact .preprocess)) progress).1.session.counters := by
  have active : progress.session.phase ≠ .done := by
    intro done
    simp [Session.needsRebuild, Session.scanComplete, done] at kept
  obtain ⟨left, before, disk, counters⟩ :=
    @handle_added_chain brewer source progress active (by simp [kind]) script
  obtain ⟨right, after, disk', counters'⟩ :=
    @handle_added_chain brewer (source.artifact .preprocess) progress active (by simp [expanded]) foreign
  rw [disk, counters, disk', counters', kind, expanded, SourceKind.chain, SourceKind.chain, runChain]
  have still := before.needsRebuild source (source.artifact .preprocess)
  obtain ⟨log, passed⟩ := @hop_current brewer source .preprocess left (still.trans kept) (by simp)
    source none
  rw [passed]
  have level : Level (left.tell log) right :=
    ⟨after.disk.trans before.disk.symm, after.options.trans before.options.symm,
      after.phase.trans before.phase.symm, after.counters.trans before.counters.symm⟩
  have same := @runChain_level brewer source (source.artifact .preprocess) false [.compileScript]
    _ _ level (by simp) (source.artifact .preprocess) none
  exact ⟨same.disk.symm, same.counters.symm⟩

end Skipping

/-- The artifact of a first stage is a source with the rest of the chain. A macro script is built as
by its first hop and a build of the expanded script; when the hop writes nothing, nothing is built.
In the first pass a macro script whose expanded script is up to date is brewed as that script. -/
theorem chain_stepwise (brewer : Brewer) :
    (∀ source stage rest, (SourceKind.ofPath source).chain = stage :: rest →
      (SourceKind.ofPath (source.artifact stage)).chain = rest) ∧
    ∀ source, brewer.classifier.classify source = .macroScript →
      .intermediateScript ∈ brewer.classifier.enabled → source.same brewer.root = false →
      ∀ progress,
        (∀ text, (brewer.hop source true .preprocess source none progress).2 = .passed (some text) →
          (brewer.build [source] progress).1.disk = (brewer.build [source.artifact .preprocess]
              (brewer.hop source true .preprocess source none progress).1).1.disk ∧
            (brewer.build [source] progress).1.session.counters.processed =
              (brewer.build [source.artifact .preprocess] (brewer.hop source true .preprocess source
                none progress).1).1.session.counters.processed) ∧
        ((∀ text, (brewer.hop source true .preprocess source none progress).2 ≠
            .passed (some text)) →
          (brewer.build [source] progress).1.disk = progress.disk ∧
            (brewer.build [source] progress).1.session.counters.processed =
              progress.session.counters.processed) ∧
        ∀ acts, Past brewer acts progress →
          progress.session.needsRebuild progress.disk source (source.artifact .preprocess) = false →
          progress.session.isOwnWrite progress.disk (source.artifact .preprocess) = false →
          (brewer.handle (.added source) progress).1.disk =
              (brewer.handle (.added (source.artifact .preprocess)) progress).1.disk ∧
            (brewer.handle (.added source) progress).1.session.counters.processed =
              (brewer.handle (.added (source.artifact .preprocess))
                progress).1.session.counters.processed := by
  refine ⟨fun source stage rest chain => SourceKind.chain_artifact chain, ?_⟩
  intro source kind enabled inner progress
  have expanded := Classifier.classify_preprocess kind enabled inner
  obtain ⟨writes, stops⟩ := build_first kind expanded progress
  refine ⟨writes, stops, fun acts past kept foreign => ?_⟩
  have spelled : SourceKind.ofPath source = .macroScript := by
    rcases classify_cases brewer.classifier source with same | unknown
    · exact same ▸ kind
    · exact absurd (kind.symm.trans unknown) (by simp)
  have script := past.script_foreign spelled progress.disk
  obtain ⟨disk, counters⟩ := handle_added_current kind expanded kept script foreign
  exact ⟨disk, congrArg Counters.processed counters⟩

section Expanded

/-- A macro script and, newer than it, its expanded script. -/
def expandedDisk : Disk where
  nodes := [(["a.cielo".toList], .file (.text []) 1),
    (["a.coffee".toList], .file (.text "x".toList) 2)]
  current := []
  clock := 2

theorem expandedDisk_hop : (verbatim.hop (.ofString "/a.cielo") true .preprocess
    (.ofString "/a.cielo") none (.start expandedDisk .plain)).2 = .passed (some []) := by
  have read : inputText expandedDisk (.ofString "/a.cielo") none = .ok (some []) := by decide +kernel
  have items : Script.itemsOf (Path.displayName (.ofString "/a.cielo")) [] = [] := by decide +kernel
  have expands : verbatim.expander.expandText expandedDisk [] (.ofString "/a.cielo") = .ok [] := by
    rw [Expander.expandText, Expander.expandLines, items, Expander.expandItems]
    rfl
  have made : verbatim.transform expandedDisk .preprocess [] (.ofString "/a.cielo") = ([], .ok []) := by
    rw [transform, expands]
    decide +kernel
  have written : Artifacts.write expandedDisk (Path.artifact (.ofString "/a.cielo") .preprocess) [] =
      (expandedDisk.putFile ["a.coffee".toList] (.text []), [], .ok ()) := rfl
  simp only [hop, Progress.start, read, make, made, written]
  rfl

theorem expandedDisk_stepwise :
    (verbatim.build [.ofString "/a.cielo"] (.start expandedDisk .plain)).1.disk =
        (verbatim.build [.ofString "/a.coffee"] (verbatim.hop (.ofString "/a.cielo") true .preprocess
          (.ofString "/a.cielo") none (.start expandedDisk .plain)).1).1.disk ∧
      (verbatim.handle (.added (.ofString "/a.cielo")) (.start expandedDisk .plain)).1.disk =
        (verbatim.handle (.added (.ofString "/a.coffee")) (.start expandedDisk .plain)).1.disk := by
  obtain ⟨_, stepwise⟩ := chain_stepwise verbatim
  obtain ⟨writes, _, skips⟩ := stepwise (.ofString "/a.cielo") (by decide) (by decide) (by decide)
    (.start expandedDisk .plain)
  exact ⟨(writes [] expandedDisk_hop).1,
    (skips [] (.start _ _) (by decide +kernel) (by decide +kernel)).1⟩

/-- A macro script that is no text, and what an earlier version of it became. -/
def brokenDisk : Disk where
  nodes := [(["a.cielo".toList], .file (.raw [0xFF]) 1),
    (["a.coffee".toList], .file (.text "x".toList) 1)]
  current := []
  clock := 1

-- The first hop fails, so the old expanded script is not compiled, as a build of it would do. And
-- when the script is the root, its expanded script is judged by the whole path and can be hidden.
theorem brokenDisk_apart :
    verbatim.IsPure ∧
      verbatim.classifier.classify (.ofString "/a.cielo") = .macroScript ∧
      .intermediateScript ∈ verbatim.classifier.enabled ∧
      (verbatim.build [.ofString "/a.cielo"] (.start brokenDisk .plain)).1.disk.contentsAt?
          ["a.js".toList] ≠
        (verbatim.build [.ofString "/a.coffee"] (verbatim.hop (.ofString "/a.cielo") true .preprocess
          (.ofString "/a.cielo") none (.start brokenDisk .plain)).1).1.disk.contentsAt?
            ["a.js".toList] ∧
      Classifier.classify ⟨.ofString "/.w/a.cielo", SourceKind.recognized⟩
        (.ofString "/.w/a.cielo") = .macroScript ∧
      Classifier.classify ⟨.ofString "/.w/a.cielo", SourceKind.recognized⟩
        (.ofString "/.w/a.coffee") = .unrecognized :=
  ⟨verbatim_pure, by decide, by decide, by decide +kernel, by decide, by decide⟩

end Expanded

end Brewer
end Brewery
