import Brewery.Proofs.Disk.Entry
import Brewery.Session.Reaction

/-!
Every way a chain, an addition and a removal can end, each with all that it found on the way.
The disk changes in few of them: a hop replaces its artifact by the whole output of its stage,
and a removal takes one artifact away. No directory is made, because an input that could be
read has its directory already.
-/

namespace Brewery

section Telling

@[simp] theorem Progress.tell_disk (progress : Progress) (entries : Log) :
    (progress.tell entries).disk = progress.disk := rfl

@[simp] theorem Progress.tell_session (progress : Progress) (entries : Log) :
    (progress.tell entries).session = progress.session := rfl

theorem Progress.tell_nil (progress : Progress) : progress.tell [] = progress := by
  simp [Progress.tell]

theorem Brewer.reportFailure_eq (brewer : Brewer) (path : Path) (error : StageError)
    (progress : Progress) : ∃ log, brewer.reportFailure path error progress = progress.tell log := by
  unfold Brewer.reportFailure
  split
  · exact ⟨_, rfl⟩
  · exact ⟨_, rfl⟩

end Telling

/-- A text in hand is what the write of an artifact has just left on the disk. -/
def Carries (disk : Disk) (input : Path) (carried : Option Text) : Prop :=
  ∀ text, carried = some text → ∃ (before : Disk) (place : Place),
    before.entryAt? input = some place ∧ before.isDirectoryAt place = false ∧
      disk = before.putFile place (.text text)

theorem carries_none (disk : Disk) (input : Path) : Carries disk input none :=
  fun _ held => absurd held (by simp)

-- The text in hand and the text on the disk are one, unless the write has cut its own way off.
theorem Carries.readText {disk : Disk} {input : Path} {text : Text} {dir : Place}
    (carries : Carries disk input (some text)) (home : disk.home? input = some dir) :
    disk.readText input = .ok text := by
  obtain ⟨before, place, entry, solid, rfl⟩ := carries text rfl
  have ways := Disk.NoNewWays.of_overlaid (Disk.Overlaid.putFile solid (.text text))
  have still := Disk.entryAt?_onward ways entry home
  exact Disk.readText_of_text still (Disk.node?_putFile_self solid _)

namespace Brewer

/-- The ways one hop can end, each with what it found. -/
inductive HopCase (brewer : Brewer) (source : Path) (always : Bool) (stage : Stage)
    (input : Path) (carried : Option Text) (progress : Progress) : Progress × Hop → Prop where
  | outside (log : Log) (data : stage = .wrapData) (out : brewer.inStores source = false) :
      HopCase brewer source always stage input carried progress (progress.tell log, .stopped)
  | current (log : Log) (lazy : always = false)
      (kept : progress.session.needsRebuild progress.disk input (input.artifact stage) = false) :
      HopCase brewer source always stage input carried progress
        (progress.tell log, .passed none)
  | unread (fault : Fault) (bare : carried = none)
      (read : progress.disk.readText input = .error fault) (present : fault ≠ .missing) :
      HopCase brewer source always stage input carried progress
        (progress, .failed (.read input fault))
  | vanished (log : Log) (bare : carried = none)
      (read : progress.disk.readText input = .error .missing) :
      HopCase brewer source always stage input carried progress (progress.tell log, .stopped)
  | rejected (text : Text) (error : StageError) (log : Log)
      (given : inputText progress.disk input carried = .ok (some text))
      (refused : (brewer.transform progress.disk stage text input).2 = .error error) :
      HopCase brewer source always stage input carried progress
        (progress.tell log, .failed error)
  | blocked (text output : Text) (fault : Fault) (log : Log)
      (given : inputText progress.disk input carried = .ok (some text))
      (made : (brewer.transform progress.disk stage text input).2 = .ok output)
      (refused : progress.disk.replaceFile (input.artifact stage) output =
        (progress.disk, .error fault)) :
      HopCase brewer source always stage input carried progress (progress.tell log, .stopped)
  | replaced (text output : Text) (place : Place) (log : Log)
      (read : progress.disk.readText input = .ok text)
      (made : (brewer.transform progress.disk stage text input).2 = .ok output)
      (entry : progress.disk.entryAt? (input.artifact stage) = some place)
      (solid : progress.disk.isDirectoryAt place = false)
      (meant : ¬(stage = .wrapData ∧ brewer.inStores source = false)) :
      HopCase brewer source always stage input carried progress
        (({ progress with
            disk := progress.disk.putFile place (.text output)
            session := (progress.session.recordWrite (progress.disk.putFile place (.text output))
              (input.artifact stage)).countProcessed }).tell log, .passed (some output))

variable {brewer : Brewer} {source input : Path} {always : Bool} {stage : Stage}
  {carried : Option Text} {progress : Progress}

theorem inputText_eq_some {disk : Disk} {text : Text}
    (given : inputText disk input carried = .ok (some text)) :
    carried = some text ∨ carried = none ∧ disk.readText input = .ok text := by
  cases carried with
  | some held =>
      simp only [inputText, Except.ok.injEq, Option.some.injEq] at given
      exact Or.inl (by rw [given])
  | none =>
      simp only [inputText] at given
      split at given
      · next read =>
          simp only [Except.ok.injEq, Option.some.injEq] at given
          exact Or.inr ⟨rfl, by rw [read, given]⟩
      · exact absurd given (by simp)
      · exact absurd given (by simp)

-- Where the input came from, its artifact can go.
theorem inputText_home {name text : Text} (named : input.fileName? = some name)
    (carries : Carries progress.disk input carried)
    (given : inputText progress.disk input carried = .ok (some text)) :
    ∃ before dir, before.home? input = some dir ∧ Disk.Overlaid before progress.disk := by
  rcases inputText_eq_some given with held | ⟨_, read⟩
  · obtain ⟨before, place, entry, solid, after⟩ := carries text held
    obtain ⟨_, dir, _, _, home, _⟩ := Disk.entryAt?_home entry
    exact ⟨before, dir, home, after ▸ Disk.Overlaid.putFile solid _⟩
  · obtain ⟨dir, home⟩ := Disk.home?_of_readText named read
    exact ⟨progress.disk, dir, home, Disk.Overlaid.refl _⟩

theorem hop_cases {name : Text} (named : input.fileName? = some name)
    (carries : Carries progress.disk input carried) :
    HopCase brewer source always stage input carried progress
      (brewer.hop source always stage input carried progress) := by
  unfold hop
  simp only
  split
  · next outside =>
      simp only [Bool.and_eq_true, decide_eq_true_eq, Bool.not_eq_true'] at outside
      exact .outside _ outside.1 outside.2
  next meant =>
    split
    · next current =>
        simp only [Bool.and_eq_true, Bool.not_eq_true'] at current
        exact .current _ current.1 current.2
    split
    · next error given =>
        cases carried with
        | some held => simp [inputText] at given
        | none =>
            simp only [inputText] at given
            split at given
            · exact absurd given (by simp)
            · exact absurd given (by simp)
            · next fault different read =>
                cases given
                exact .unread fault rfl read different
    · next given =>
        cases carried with
        | some held => simp [inputText] at given
        | none =>
            simp only [inputText] at given
            split at given
            · exact absurd given (by simp)
            · next read => exact .vanished _ rfl read
            · exact absurd given (by simp)
    · next text given =>
        unfold make
        simp only
        split
        · next log error refused => exact .rejected text error log given (by rw [refused])
        · next log output made =>
            obtain ⟨before, dir, home, covers⟩ := inputText_home named carries given
            have home' : before.home? (input.artifact stage) = some dir := by
              rw [Disk.home?_artifact stage named, home]
            rcases Disk.replaceFile_cases (Path.fileName?_artifact stage named) home' covers output with
              ⟨fault, refused⟩ | ⟨place, entry, solid, replaced⟩
            · simp only [Artifacts.write, refused]
              exact .blocked text output fault _ given (by rw [made]) refused
            · simp only [Artifacts.write, replaced]
              obtain ⟨_, _, _, _, reached, _⟩ := Disk.entryAt?_home entry
              rw [Disk.home?_artifact stage named] at reached
              have read : progress.disk.readText input = .ok text := by
                rcases inputText_eq_some given with held | ⟨_, read⟩
                · subst held; exact carries.readText reached
                · exact read
              exact .replaced text output place _ read (by rw [made]) entry solid
                (by simpa using meant)

/-- An input that no artifact can be made of: it cannot be read, its stage refuses it, or its
artifact cannot be written. -/
def Stuck (brewer : Brewer) (disk : Disk) (stage : Stage) (input : Path) : Prop :=
  ∀ text output, disk.readText input = .ok text →
    (brewer.transform disk stage text input).2 = .ok output →
      ∃ fault, disk.replaceFile (input.artifact stage) output = (disk, .error fault)

/-- What a chain does to the disk and to what the session knows, hop by hop. -/
inductive ChainCase (brewer : Brewer) (source : Path) (always : Bool) :
    List Stage → Path → Disk → Session → Disk → Session → Prop where
  | finished {input : Path} {disk : Disk} {session : Session} :
      ChainCase brewer source always [] input disk session disk session
  | outside {stage : Stage} {rest : List Stage} {input : Path} {disk : Disk} {session : Session}
      (data : stage = .wrapData) (out : brewer.inStores source = false) :
      ChainCase brewer source always (stage :: rest) input disk session disk session
  | stuck {stage : Stage} {rest : List Stage} {input : Path} {disk : Disk} {session : Session}
      (stuck : brewer.Stuck disk stage input) :
      ChainCase brewer source always (stage :: rest) input disk session disk session
  | current {stage : Stage} {rest : List Stage} {input : Path} {disk after : Disk}
      {session later : Session} (lazy : always = false)
      (kept : session.needsRebuild disk input (input.artifact stage) = false)
      (onward : ChainCase brewer source always rest (input.artifact stage) disk session after later) :
      ChainCase brewer source always (stage :: rest) input disk session after later
  | replaced {stage : Stage} {rest : List Stage} {input : Path} {disk after : Disk}
      {session later : Session} {text output : Text} {place : Place}
      (read : disk.readText input = .ok text)
      (made : (brewer.transform disk stage text input).2 = .ok output)
      (entry : disk.entryAt? (input.artifact stage) = some place)
      (solid : disk.isDirectoryAt place = false)
      (meant : ¬(stage = .wrapData ∧ brewer.inStores source = false))
      (onward : ChainCase brewer source always rest (input.artifact stage)
        (disk.putFile place (.text output))
        (session.recordWrite (disk.putFile place (.text output))
          (input.artifact stage)).countProcessed after later) :
      ChainCase brewer source always (stage :: rest) input disk session after later

-- A text in hand was read from the disk, if the disk can still be read there.
theorem given_text {text other : Text} {name : Text} (named : input.fileName? = some name)
    (carries : Carries progress.disk input carried)
    (given : inputText progress.disk input carried = .ok (some text))
    (read : progress.disk.readText input = .ok other) : text = other := by
  rcases inputText_eq_some given with held | ⟨_, again⟩
  · subst held
    obtain ⟨dir, home⟩ := Disk.home?_of_readText named read
    exact Except.ok.inj ((carries.readText home).symm.trans read)
  · exact Except.ok.inj (again.symm.trans read)

theorem runChain_cases (brewer : Brewer) (source : Path) (always : Bool) (stages : List Stage) {input : Path}
    {carried : Option Text} {progress : Progress} {name : Text}
    (named : input.fileName? = some name) (carries : Carries progress.disk input carried) :
    ChainCase brewer source always stages input progress.disk progress.session
      (brewer.runChain source always stages input carried progress).1.disk
      (brewer.runChain source always stages input carried progress).1.session := by
  induction stages generalizing input carried progress name with
  | nil => exact .finished
  | cons stage rest ih =>
      have next := Path.fileName?_artifact stage named
      have ended : HopCase brewer source always stage input carried progress
          (brewer.hop source always stage input carried progress) := hop_cases named carries
      rw [runChain]
      generalize brewer.hop source always stage input carried progress = result at ended ⊢
      cases ended with
      | outside _ data out => exact .outside data out
      | current log lazy kept =>
          exact .current lazy kept (ih next (carries_none (progress.tell log).disk _))
      | unread fault _ read _ =>
          refine .stuck fun text output held => ?_
          exact absurd (read.symm.trans held) (by simp)
      | vanished _ _ read =>
          refine .stuck fun text output held => ?_
          exact absurd (read.symm.trans held) (by simp)
      | rejected text error _ given refused =>
          refine .stuck fun other output held made => ?_
          rw [← given_text named carries given held, refused] at made
          exact absurd made (by simp)
      | blocked text output fault _ given made refused =>
          refine .stuck fun other again held made' => ?_
          rw [← given_text named carries given held, made] at made'
          cases made'
          exact ⟨fault, refused⟩
      | replaced text output place log read made entry solid meant =>
          generalize same : Progress.tell _ log = further
          have disk : further.disk = progress.disk.putFile place (.text output) := by
            rw [← same]; rfl
          have session : further.session = (progress.session.recordWrite
              (progress.disk.putFile place (.text output)) (input.artifact stage)).countProcessed := by
            rw [← same]; rfl
          have carries : Carries further.disk (input.artifact stage) (some output) := by
            intro held known
            cases known
            exact ⟨progress.disk, place, entry, solid, disk⟩
          have onward := ih next carries
          rw [disk, session] at onward
          exact .replaced read made entry solid meant onward

theorem classify_cases (classifier : Classifier) (path : Path) :
    classifier.classify path = SourceKind.ofPath path ∨ classifier.classify path = .unrecognized := by
  unfold Classifier.classify
  simp only
  split
  · exact Or.inl rfl
  · exact Or.inr rfl

theorem classify_named {classifier : Classifier} {path : Path}
    (recognized : classifier.classify path ≠ .unrecognized) :
    ∃ name, path.fileName? = some name := by
  cases named : path.fileName? with
  | some name => exact ⟨name, rfl⟩
  | none =>
      have kind : SourceKind.ofPath path = .unrecognized := by
        simp [SourceKind.ofPath, Path.extension?, named]
      simp [Classifier.classify, kind] at recognized

/-- What a session knows once it has seen that a path is there. -/
def noted (path : Path) (progress : Progress) : Progress :=
  { progress with session := progress.session.forgetRemoval path }

/-- The ways an addition or a change can end. -/
inductive PresentCase (brewer : Brewer) (path : Path) (progress : Progress) : Progress → Prop where
  | ignored (unknown : brewer.classifier.classify path = .unrecognized) :
      PresentCase brewer path progress (noted path progress)
  | own (log : Log) (recognized : brewer.classifier.classify path ≠ .unrecognized)
      (known : (noted path progress).session.isOwnWrite progress.disk path = true) :
      PresentCase brewer path progress ((noted path progress).tell log)
  | built (log : Log) (recognized : brewer.classifier.classify path ≠ .unrecognized)
      (foreign : (noted path progress).session.isOwnWrite progress.disk path = false) :
      PresentCase brewer path progress ((brewer.runChain path false
        (brewer.classifier.classify path).chain path none (noted path progress)).1.tell log)

theorem whenPresent_cases (brewer : Brewer) (path : Path) (progress : Progress) :
    PresentCase brewer path progress (brewer.whenPresent path progress) := by
  unfold whenPresent
  simp only
  split
  · next unknown => exact .ignored unknown
  next recognized =>
    split
    · next known => exact .own _ recognized known
    next foreign =>
      have built (log : Log) : PresentCase brewer path progress ((brewer.runChain path false
          (brewer.classifier.classify path).chain path none (noted path progress)).1.tell log) :=
        .built log recognized (by simpa [noted] using foreign)
      split
      · next ended answer passed =>
          have whole := built []
          rw [Progress.tell_nil] at whole
          rw [← show (brewer.runChain path false (brewer.classifier.classify path).chain path none
            (noted path progress)).1 = ended from congrArg Prod.fst passed]
          exact whole
      · next ended error failed =>
          obtain ⟨log, told⟩ := reportFailure_eq brewer path error ended
          rw [told, ← show (brewer.runChain path false (brewer.classifier.classify path).chain path
            none (noted path progress)).1 = ended from congrArg Prod.fst failed]
          exact built log

/-- The ways a removal can end. -/
inductive GoneCase (brewer : Brewer) (path : Path) (progress : Progress) : Progress → Prop where
  | own (log : Log) (known : progress.session.isOwnRemoval path = true) :
      GoneCase brewer path progress
        ({ progress with session := progress.session.forgetRemoval path }.tell log)
  | alone (foreign : progress.session.isOwnRemoval path = false)
      (none : (brewer.classifier.classify path = .dataLiteral ∧ brewer.inStores path = false) ∨
        path.cascadeTarget? (brewer.classifier.classify path) = none) :
      GoneCase brewer path progress
        { progress with session := progress.session.forgetWrite path }
  | kept (target : Path) (fault : Fault) (log : Log)
      (foreign : progress.session.isOwnRemoval path = false)
      (meant : ¬(brewer.classifier.classify path = .dataLiteral ∧ brewer.inStores path = false))
      (cascades : path.cascadeTarget? (brewer.classifier.classify path) = some target)
      (refused : progress.disk.removeFile target = .error fault) :
      GoneCase brewer path progress
        ({ progress with session := progress.session.forgetWrite path }.tell log)
  | erased (target : Path) (place : Place) (log : Log)
      (foreign : progress.session.isOwnRemoval path = false)
      (meant : ¬(brewer.classifier.classify path = .dataLiteral ∧ brewer.inStores path = false))
      (cascades : path.cascadeTarget? (brewer.classifier.classify path) = some target)
      (entry : progress.disk.entryAt? target = some place)
      (held : ∃ node, progress.disk.node? place = some node)
      (solid : progress.disk.isDirectoryAt place = false) :
      GoneCase brewer path progress
        ({ progress with
            disk := progress.disk.erase place
            session := (progress.session.forgetWrite path).recordRemoval target }.tell log)

theorem whenGone_cases (brewer : Brewer) (path : Path) (progress : Progress) :
    GoneCase brewer path progress (brewer.whenGone path progress) := by
  unfold whenGone
  split
  · next known => exact .own _ known
  next foreign =>
    have foreign : progress.session.isOwnRemoval path = false := by simpa using foreign
    simp only
    split
    · next outside => exact .alone foreign (Or.inl (by simpa using outside))
    next meant =>
      split
      · next none => exact .alone foreign (Or.inr none)
      · next target cascades =>
          have meant : ¬(brewer.classifier.classify path = .dataLiteral ∧
              brewer.inStores path = false) := by simpa using meant
          unfold cascade Artifacts.remove
          simp only
          cases removed : progress.disk.removeFile target with
          | ok after =>
              obtain ⟨place, entry, held, solid, rfl⟩ := Disk.removeFile_eq_ok removed
              exact .erased target place _ foreign meant cascades entry held solid
          | error fault =>
              cases fault <;> exact .kept target _ _ foreign meant cascades removed

end Brewer
end Brewery
