import Brewery.Proofs.Disk.Trail
import Brewery.Proofs.Script.Probing
import Brewery.Proofs.Session.Footprint
import Brewery.Proofs.Session.Freshness

/-!
Named files that do not get in each other's way. A build of a file asks the disk for a few paths
and writes the entries of its artifacts. When nothing that it looks at on the way of these paths is
an entry that another file's build writes, and no entry is written by two of them, every order of
the files leaves the same disk and the same counters, and each file fares as it would alone.
-/

namespace Brewery

namespace Counters

def plus (counters gain : Counters) : Counters :=
  ⟨counters.processed + gain.processed, counters.executed + gain.executed⟩

/-- What has been counted since. -/
def since (before after : Counters) : Counters :=
  ⟨after.processed - before.processed, after.executed - before.executed⟩

theorem since_plus (counters gain : Counters) : counters.since (counters.plus gain) = gain := by
  simp [since, plus]

theorem plus_right_comm (counters first second : Counters) :
    (counters.plus first).plus second = (counters.plus second).plus first := by
  simp [plus, Nat.add_right_comm]

end Counters

namespace Brewer

variable {brewer : Brewer} {source input path other : Path} {stage : Stage} {stages : List Stage}
  {carried : Option Text} {name : Text} {differ : Place → Prop} {left right start now : Progress}

/-- The paths that a build of a source asks the disk for: the source itself, and where its
includes may be. -/
inductive Asks (brewer : Brewer) (disk : Disk) (source : Path) : Path → Prop where
  | source : Asks brewer disk source source
  | probe {text : Text} {candidate : Path}
      (script : brewer.classifier.classify source = .macroScript)
      (read : disk.readText source = .ok text)
      (probed : brewer.expander.Probed disk text source candidate) :
      Asks brewer disk source candidate

-- Only a macro script takes in other files.
theorem Asks.plain {disk : Disk} (kind : brewer.classifier.classify source ≠ .macroScript)
    (asks : Asks brewer disk source path) : path = source := by
  cases asks with
  | source => rfl
  | probe script => exact absurd script kind

/-- The places that a build of a source looks at. -/
def Looks (brewer : Brewer) (disk : Disk) (source : Path) (place : Place) : Prop :=
  ∃ path, Asks brewer disk source path ∧ place ∈ disk.trailOf path

/-- The entries that a build of a source can write: those of its artifacts that are no
directories. -/
def targets (brewer : Brewer) (disk : Disk) (source : Path) : List Place :=
  ((source.artifacts (brewer.classifier.classify source).chain).filterMap disk.entryAt?).filter
    fun place => !disk.isDirectoryAt place

/-- How the build of a named file ends: with its last artifact, before it, or in an error. -/
def outcome (brewer : Brewer) (path : Path) (progress : Progress) : Except StageError Bool :=
  (brewer.runChain path true (brewer.classifier.classify path).chain path none progress).2

/-- Two sources of which neither build writes what the other looks at or writes. -/
structure Independent (brewer : Brewer) (disk : Disk) (path other : Path) : Prop where
  apart : ∀ place ∈ brewer.targets disk path, place ∉ brewer.targets disk other
  unseen : ∀ place ∈ brewer.targets disk path, ¬Looks brewer disk other place
  unseeing : ∀ place ∈ brewer.targets disk other, ¬Looks brewer disk path place

theorem Independent.symm {disk : Disk} (independent : Independent brewer disk path other) :
    Independent brewer disk other path where
  apart := fun place target shared => independent.apart place shared target
  unseen := independent.unseeing
  unseeing := independent.unseen

theorem mem_targets {disk : Disk} {place : Place} : place ∈ brewer.targets disk source ↔
    (∃ artifact ∈ source.artifacts (brewer.classifier.classify source).chain,
      disk.entryAt? artifact = some place) ∧ disk.isDirectoryAt place = false := by
  simp [targets, List.mem_filterMap]

section Hops

/-- Two runs of a chain that have come to the same input on disks that are alike. -/
structure Paired (differ : Place → Prop) (left right : Progress) (input : Path)
    (carried : Option Text) : Prop where
  alike : Disk.SameBut differ left.disk right.disk
  carries : Carries left.disk input carried
  carries' : Carries right.disk input carried
  given : inputText right.disk input carried = inputText left.disk input carried
  way : ∀ place ∈ Disk.trail left.disk Disk.linkLimit (left.disk.start input).1 input.folder,
    ¬differ place

/-- What is left when an artifact has been replaced and the session knows it. -/
def replaced (progress : Progress) (artifact : Path) (place : Place) (output : Text) : Progress :=
  { progress with
    disk := progress.disk.putFile place (.text output)
    session := (progress.session.recordWrite (progress.disk.putFile place (.text output))
      artifact).countProcessed }

/-- How one hop ends in both runs. -/
inductive PairCase (left right : Progress) (artifact : Path) :
    Progress × Hop → Progress × Hop → Prop where
  | ended (log log' : Log) (outcome : Hop) (ends : ∀ carried, outcome ≠ .passed carried) :
      PairCase left right artifact (left.tell log, outcome) (right.tell log', outcome)
  | wrote (log log' : Log) (place : Place) (output : Text)
      (entry : left.disk.entryAt? artifact = some place)
      (again : right.disk.entryAt? artifact = some place)
      (solid : left.disk.isDirectoryAt place = false) :
      PairCase left right artifact
        ((replaced left artifact place output).tell log, .passed (some output))
        ((replaced right artifact place output).tell log', .passed (some output))

theorem Paired.entryAt? (paired : Paired differ left right input carried)
    (named : input.fileName? = some name) (stage : Stage) :
    right.disk.entryAt? (input.artifact stage) = left.disk.entryAt? (input.artifact stage) := by
  have parts := Path.artifact_parts stage named
  have start : (left.disk.start (input.artifact stage)).1 = (left.disk.start input).1 :=
    Disk.start_place (by rw [parts])
  refine paired.alike.entryAt? (by rw [parts]) fun place member => paired.way place ?_
  rwa [start] at member

/-- A write is refused in both runs, or it replaces the same entry in both. -/
theorem Paired.replaceFile {text : Text} (paired : Paired differ left right input carried)
    (named : input.fileName? = some name) (stage : Stage)
    (given : inputText left.disk input carried = .ok (some text)) (output : Text) :
    (∃ fault fault',
        left.disk.replaceFile (input.artifact stage) output = (left.disk, .error fault) ∧
        right.disk.replaceFile (input.artifact stage) output = (right.disk, .error fault')) ∨
      ∃ place, left.disk.entryAt? (input.artifact stage) = some place ∧
        left.disk.isDirectoryAt place = false ∧
        left.disk.replaceFile (input.artifact stage) output =
          (left.disk.putFile place (.text output), .ok ()) ∧
        right.disk.replaceFile (input.artifact stage) output =
          (right.disk.putFile place (.text output), .ok ()) := by
  have refused_or_replaced {progress : Progress} (carries : Carries progress.disk input carried)
      (given : inputText progress.disk input carried = .ok (some text)) :
      (∃ fault, progress.disk.replaceFile (input.artifact stage) output =
          (progress.disk, .error fault)) ∨
        ∃ place, progress.disk.entryAt? (input.artifact stage) = some place ∧
          progress.disk.isDirectoryAt place = false ∧
          progress.disk.replaceFile (input.artifact stage) output =
            (progress.disk.putFile place (.text output), .ok ()) := by
    obtain ⟨before, dir, home, covers⟩ := inputText_home named carries given
    rw [← Disk.home?_artifact stage named] at home
    exact Disk.replaceFile_cases (Path.fileName?_artifact stage named) home covers output
  rcases refused_or_replaced paired.carries given with
    ⟨fault, refused⟩ | ⟨place, entry, solid, replaced⟩
  · rcases refused_or_replaced paired.carries' (paired.given.trans given) with
      ⟨fault', refused'⟩ | ⟨place, entry, solid, _⟩
    · exact Or.inl ⟨fault, fault', refused, refused'⟩
    · rw [paired.entryAt? named stage] at entry
      rw [paired.alike.directory] at solid
      have replaced := Disk.replaceFile_of_entry entry solid output
      exact absurd (congrArg Prod.snd (refused.symm.trans replaced)) (by simp)
  · refine Or.inr ⟨place, entry, solid, replaced, ?_⟩
    exact Disk.replaceFile_of_entry ((paired.entryAt? named stage).trans entry)
      ((paired.alike.directory place).trans solid) output

theorem hop_paired (source : Path) (paired : Paired differ left right input carried)
    (named : input.fileName? = some name)
    (made : ∀ text, inputText left.disk input carried = .ok (some text) →
      (brewer.transform right.disk stage text input).2 =
        (brewer.transform left.disk stage text input).2) :
    PairCase left right (input.artifact stage)
      (brewer.hop source true stage input carried left)
      (brewer.hop source true stage input carried right) := by
  unfold hop
  simp only [Bool.not_true, Bool.false_and, Bool.false_eq_true, if_false, paired.given]
  split
  · exact .ended _ _ _ (by simp)
  cases given : inputText left.disk input carried with
  | error error =>
      have ended : PairCase left right (input.artifact stage) _ _ :=
        .ended [] [] (.failed error) (by simp)
      rwa [Progress.tell_nil, Progress.tell_nil] at ended
  | ok text =>
      cases text with
      | none => exact .ended _ _ _ (by simp)
      | some text =>
          unfold make
          simp only
          have same := made text given
          cases first : brewer.transform left.disk stage text input with
          | mk log result =>
          cases second : brewer.transform right.disk stage text input with
          | mk log' result' =>
          rw [first, second] at same
          obtain rfl : result' = result := same
          cases result' with
          | error error => exact .ended _ _ _ (by simp)
          | ok output =>
              rcases paired.replaceFile named stage given output with
                ⟨fault, fault', refused, refused'⟩ | ⟨place, entry, solid, replaced, replaced'⟩
              · simp only [Artifacts.write, refused, refused']
                exact .ended _ _ _ (by simp)
              · simp only [Artifacts.write, replaced, replaced']
                have again := (paired.entryAt? named stage).trans entry
                exact .wrote _ _ place output entry again solid

/-- What is in hand after a write is what both disks hold there. -/
theorem Paired.next {place : Place} {output : Text} (log log' : Log)
    (paired : Paired differ left right input carried) (named : input.fileName? = some name)
    (entry : left.disk.entryAt? (input.artifact stage) = some place)
    (again : right.disk.entryAt? (input.artifact stage) = some place)
    (solid : left.disk.isDirectoryAt place = false) :
    Paired differ ((replaced left (input.artifact stage) place output).tell log)
      ((replaced right (input.artifact stage) place output).tell log') (input.artifact stage)
      (some output) where
  alike := paired.alike.putFile solid _
  carries := by
    intro text same
    cases same
    exact ⟨left.disk, place, entry, solid, rfl⟩
  carries' := by
    intro text same
    cases same
    exact ⟨right.disk, place, again, (paired.alike.directory place).trans solid, rfl⟩
  given := rfl
  way := by
    intro spot member
    have ways : Disk.NoNewWays left.disk (left.disk.putFile place (.text output)) :=
      .of_overlaid (.putFile solid _)
    have start : (left.disk.start (input.artifact stage)).1 = (left.disk.start input).1 :=
      Disk.start_place (by rw [Path.artifact_parts stage named])
    have member := Disk.trail_back ways _ _ _ member
    rw [Path.folder_artifact stage named] at member
    exact paired.way spot (start ▸ member)

end Hops

section Chains

/-- The runs of a chain go on in step. -/
theorem runChain_paired (pure : brewer.IsPure) (source : Path)
    (paired : Paired differ left right input carried) (named : input.fileName? = some name)
    (opening : ∀ stage ∈ stages.head?, ∀ text, inputText left.disk input carried = .ok (some text) →
      (brewer.transform right.disk stage text input).2 =
        (brewer.transform left.disk stage text input).2)
    (plain : .preprocess ∉ stages.tail) :
    (brewer.runChain source true stages input carried right).2 =
        (brewer.runChain source true stages input carried left).2 ∧
      Disk.SameBut differ (brewer.runChain source true stages input carried left).1.disk
        (brewer.runChain source true stages input carried right).1.disk ∧
      ∃ count, (brewer.runChain source true stages input carried left).1.session.counters =
          ⟨left.session.counters.processed + count, left.session.counters.executed⟩ ∧
        (brewer.runChain source true stages input carried right).1.session.counters =
          ⟨right.session.counters.processed + count, right.session.counters.executed⟩ := by
  induction stages generalizing left right input carried name with
  | nil => exact ⟨rfl, paired.alike, 0, rfl, rfl⟩
  | cons stage rest ih =>
      have ended := hop_paired source paired named (opening stage rfl)
      rw [runChain, runChain]
      generalize brewer.hop source true stage input carried left = here at ended ⊢
      generalize brewer.hop source true stage input carried right = there at ended ⊢
      cases ended with
      | ended log log' outcome ends =>
          cases outcome with
          | passed text => exact absurd rfl (ends text)
          | stopped => exact ⟨rfl, paired.alike, 0, rfl, rfl⟩
          | failed error => exact ⟨rfl, paired.alike, 0, rfl, rfl⟩
      | wrote log log' place output entry again solid =>
          have next := Path.fileName?_artifact stage named
          have later : .preprocess ∉ rest.tail := fun member => plain (List.mem_of_mem_tail member)
          have counted (progress : Progress) (log : Log) :
              ((replaced progress (input.artifact stage) place output).tell log).session.counters =
                ⟨progress.session.counters.processed + 1, progress.session.counters.executed⟩ :=
            Session.counters_recorded progress.session _ _
          -- Only the first stage can look further than at its input.
          have steady (following : Stage) (member : following ∈ rest.head?) (text : Text)
              (disk other : Disk) :
              (brewer.transform other following text (input.artifact stage)).2 =
                (brewer.transform disk following text (input.artifact stage)).2 := by
            refine transform_steady pure (fun same => ?_) _ _
            exact absurd (List.mem_of_mem_head? (same ▸ member)) plain
          obtain ⟨outcome, alike, count, grown, grown'⟩ :=
            ih (paired.next log log' named entry again solid) next
              (fun following member text _ => steady following member text _ _) later
          refine ⟨outcome, alike, count + 1, grown.trans ?_, grown'.trans ?_⟩
          · rw [counted, Nat.add_right_comm, Nat.add_assoc]
          · rw [counted, Nat.add_right_comm, Nat.add_assoc]

/-- The first stage of a source makes the same of it on disks that differ nowhere it looks. -/
theorem transform_unseen {text : Text} (pure : brewer.IsPure)
    (alike : Disk.SameBut differ left.disk right.disk)
    (unseen : ∀ place, Looks brewer left.disk source place → ¬differ place)
    (first : stage ∈ (brewer.classifier.classify source).chain.head?)
    (read : left.disk.readText source = .ok text) :
    (brewer.transform right.disk stage text source).2 =
      (brewer.transform left.disk stage text source).2 := by
  by_cases expands : stage = .preprocess
  · subst expands
    have script : brewer.classifier.classify source = .macroScript := by
      cases kind : brewer.classifier.classify source <;> simp_all [SourceKind.chain]
    have still : right.disk.canonical source = left.disk.canonical source :=
      alike.canonical fun place member => unseen place ⟨source, .source, member⟩
    have agree : ∀ candidate, brewer.expander.Probed left.disk text source candidate →
        right.disk.file? candidate = left.disk.file? candidate := fun candidate probed =>
      alike.file? fun place member => unseen place ⟨candidate, .probe script read probed, member⟩
    simp only [transform, Expander.expandText_of_probed still agree]
  · exact transform_steady pure (fun same => absurd same expands) _ _

/-- The builds of a file go on in step on disks that differ nowhere it looks. -/
theorem buildFile_unseen (pure : brewer.IsPure)
    (recognized : brewer.classifier.classify path ≠ .unrecognized)
    (alike : Disk.SameBut differ left.disk right.disk)
    (unseen : ∀ place, Looks brewer left.disk path place → ¬differ place) :
    brewer.outcome path right = brewer.outcome path left ∧
      Disk.SameBut differ (brewer.buildFile path left).disk (brewer.buildFile path right).disk ∧
      ∃ gain, (brewer.buildFile path left).session.counters = left.session.counters.plus gain ∧
        (brewer.buildFile path right).session.counters = right.session.counters.plus gain := by
  obtain ⟨name, named⟩ := classify_named recognized
  have seen : ∀ place ∈ left.disk.trailOf path, ¬differ place :=
    fun place member => unseen place ⟨path, .source, member⟩
  have reads : inputText right.disk path none = inputText left.disk path none := by
    simp only [inputText, alike.readText seen]
  have paired : Paired differ left right path none :=
    ⟨alike, carries_none _ _, carries_none _ _, reads,
      fun place member => seen place (Disk.trail_folder _ named member)⟩
  have opening : ∀ stage ∈ (brewer.classifier.classify path).chain.head?, ∀ text,
      inputText left.disk path none = .ok (some text) →
        (brewer.transform right.disk stage text path).2 =
          (brewer.transform left.disk stage text path).2 := by
    intro stage first text given
    obtain ⟨_, read⟩ := (inputText_eq_some given).resolve_left (by simp)
    exact transform_unseen pure alike unseen first read
  have plain : .preprocess ∉ (brewer.classifier.classify path).chain.tail := by
    cases brewer.classifier.classify path <;> decide
  obtain ⟨ends, onward, written, grown, grown'⟩ :=
    runChain_paired pure path paired named opening plain
  refine ⟨ends, ?_, ?_⟩
  · rwa [buildFile_disk, buildFile_disk]
  · refine ⟨⟨written, brewer.started path (brewer.outcome path left)⟩, ?_, ?_⟩
    · simp only [buildFile_counters, grown, outcome, Counters.plus]
    · simp only [buildFile_counters, grown', ends, outcome, Counters.plus]

end Chains

section Orders

/-- What a build of one file adds to the counters. -/
def gain (brewer : Brewer) (start : Progress) (path : Path) : Counters :=
  start.session.counters.since (brewer.buildFile path start).session.counters

/-- What is known of a build of several files when some are done: what each can write is as after
a build of it alone, everything else is as at the start, and the gains have been added up. -/
structure Underway (brewer : Brewer) (start : Progress) (done : List Path) (now : Progress) :
    Prop where
  covers : Disk.Overlaid start.disk now.disk
  built : ∀ path ∈ done, ∀ place ∈ brewer.targets start.disk path,
    now.disk.undated? place = (brewer.buildFile path start).disk.undated? place
  spared : ∀ place, (∀ path ∈ done, place ∉ brewer.targets start.disk path) →
    now.disk.undated? place = start.disk.undated? place
  counted : now.session.counters =
    done.foldl (fun counters path => counters.plus (brewer.gain start path)) start.session.counters

theorem Underway.refl (brewer : Brewer) (start : Progress) : Underway brewer start [] start where
  covers := Disk.Overlaid.refl _
  built := by simp
  spared := fun _ _ => rfl
  counted := rfl

variable {done : List Path}

/-- Off its targets a build changes nothing, also when others have been built before it. -/
theorem Underway.frame (underway : Underway brewer start done now) {place : Place}
    (elsewhere : place ∉ brewer.targets start.disk path) :
    (brewer.buildFile path now).disk.undated? place = now.disk.undated? place := by
  obtain ⟨count, rewrites⟩ := buildFile_rewrites brewer path now
  cases solid : start.disk.isDirectoryAt place with
  | false =>
      refine Disk.undated?_of_node? (rewrites.frame fun artifact member entry => elsewhere ?_)
      have ways := Disk.NoNewWays.of_overlaid underway.covers
      exact mem_targets.mpr ⟨⟨artifact, member, Disk.entryAt?_back ways entry⟩, solid⟩
  | true =>
      -- A directory is never replaced.
      rcases rewrites.overlaid.2 place with same | ⟨firm, _⟩
      · exact Disk.undated?_of_node? same
      · exact absurd ((underway.covers.directory place).trans solid) (by simp [firm])

/-- The next file is built as it would be alone. -/
theorem Underway.build (pure : brewer.IsPure) (underway : Underway brewer start done now)
    (recognized : brewer.classifier.classify path ≠ .unrecognized)
    (independent : ∀ other ∈ done, Independent brewer start.disk other path) :
    brewer.outcome path now = brewer.outcome path start ∧
      Underway brewer start (done ++ [path]) (brewer.buildFile path now) := by
  let differ (place : Place) : Prop := ∃ other ∈ done, place ∈ brewer.targets start.disk other
  have alike : Disk.SameBut differ start.disk now.disk := underway.covers.sameBut fun place same =>
    underway.spared place fun other member target => same ⟨other, member, target⟩
  have unseen : ∀ place, Looks brewer start.disk path place → ¬differ place := by
    rintro place looks ⟨other, member, target⟩
    exact (independent other member).unseen place target looks
  obtain ⟨outcome, onward, gain, grown, grown'⟩ :=
    buildFile_unseen pure recognized alike unseen
  obtain ⟨count, rewrites⟩ := buildFile_rewrites brewer path now
  refine ⟨outcome, underway.covers.trans rewrites.overlaid, ?_, ?_, ?_⟩
  · intro other member place target
    rcases List.mem_append.mp member with before | same
    · rw [underway.frame ((independent other before).apart place target)]
      exact underway.built other before place target
    · obtain rfl := List.mem_singleton.mp same
      refine onward.held place ?_
      rintro ⟨earlier, before, shared⟩
      exact (independent earlier before).apart place shared target
  · intro place elsewhere
    rw [underway.frame (elsewhere path (by simp))]
    exact underway.spared place fun other member => elsewhere other (by simp [member])
  · have gained : brewer.gain start path = gain := by
      rw [Brewer.gain, grown, Counters.since_plus]
    rw [grown', underway.counted, List.foldl_append, List.foldl_cons, List.foldl_nil, gained]

/-- A build of independent files, in the order in which they are named. -/
theorem underway_all (pure : brewer.IsPure) {files : List Path}
    (recognized : ∀ path ∈ files, brewer.classifier.classify path ≠ .unrecognized)
    (independent : files.Pairwise (Independent brewer start.disk)) :
    Underway brewer start files
      (files.foldl (fun progress path => brewer.buildFile path progress) start) := by
  induction files using List.reverseRecOn with
  | nil => exact Underway.refl brewer start
  | append_singleton done path ih =>
      obtain ⟨among, _, between⟩ := List.pairwise_append.mp independent
      have underway := ih (fun other member => recognized other (by simp [member])) among
      rw [List.foldl_append, List.foldl_cons, List.foldl_nil]
      exact (underway.build pure (recognized path (by simp)) fun other member =>
        between other member path List.mem_cons_self).2

/-- The artifacts of a file that is done are as after a build of it alone. -/
theorem Underway.artifact {artifact : Path} {place : Place}
    (underway : Underway brewer start done now) (member : path ∈ done)
    (made : artifact ∈ path.artifacts (brewer.classifier.classify path).chain)
    (entry : start.disk.entryAt? artifact = some place) :
    now.disk.undated? place = (brewer.buildFile path start).disk.undated? place := by
  cases solid : start.disk.isDirectoryAt place with
  | false =>
      have target := mem_targets.mpr ⟨⟨artifact, made, entry⟩, solid⟩
      exact underway.built path member place target
  | true =>
      have spared (other : Path) : place ∉ brewer.targets start.disk other :=
        fun target => absurd ((mem_targets.mp target).2.symm.trans solid) (by simp)
      rw [underway.spared place fun other _ => spared other,
        (Underway.refl brewer start).frame (spared path)]

/-- What is known of a build of several files settles the disk and the counters. -/
theorem Underway.unique {order : List Path} {later : Progress} (perm : order.Perm done)
    (underway : Underway brewer start done now) (other : Underway brewer start order later) :
    (∀ place, later.disk.undated? place = now.disk.undated? place) ∧
      later.session.counters = now.session.counters := by
  constructor
  · intro place
    by_cases target : ∃ path ∈ done, place ∈ brewer.targets start.disk path
    · obtain ⟨path, member, target⟩ := target
      rw [underway.built path member place target,
        other.built path (perm.mem_iff.mpr member) place target]
    · have spared : ∀ path ∈ done, place ∉ brewer.targets start.disk path :=
        fun path member hit => target ⟨path, member, hit⟩
      rw [underway.spared place spared,
        other.spared place fun path member => spared path (perm.mem_iff.mp member)]
  · rw [underway.counted, other.counted]
    exact perm.foldl_eq' (fun _ _ _ _ counters => Counters.plus_right_comm counters _ _) _

end Orders

/-- Files that do not get in each other's way can be named in any order: every file on the disk and
the counters come out the same, and the artifacts of each are those of a build of it alone, which
ends as it does among the others, whatever has failed before it. -/
theorem build_independent (pure : brewer.IsPure) {files : List Path}
    (recognized : ∀ path ∈ files, brewer.classifier.classify path ≠ .unrecognized)
    (independent : files.Pairwise (Independent brewer start.disk)) :
    ∀ order, order.Perm files →
      (brewer.build order start).2 = .ok () ∧
      (∀ place, (brewer.build order start).1.disk.undated? place =
        (brewer.build files start).1.disk.undated? place) ∧
      (brewer.build order start).1.session.counters =
        (brewer.build files start).1.session.counters ∧
      ∀ before path after, order = before ++ path :: after →
        (∀ artifact ∈ path.artifacts (brewer.classifier.classify path).chain, ∀ place,
          start.disk.entryAt? artifact = some place →
            (brewer.build order start).1.disk.undated? place =
              (brewer.build [path] start).1.disk.undated? place) ∧
        brewer.outcome path (brewer.build before start).1 = brewer.outcome path start := by
  intro order perm
  have known : ∀ path ∈ order, brewer.classifier.classify path ≠ .unrecognized :=
    fun path member => recognized path (perm.mem_iff.mp member)
  have paired : order.Pairwise (Independent brewer start.disk) :=
    (perm.pairwise_iff Independent.symm).mpr independent
  have whole := underway_all pure known paired
  obtain ⟨disk, counters⟩ := (underway_all pure recognized independent).unique perm whole
  rw [build_known known, build_known recognized]
  refine ⟨rfl, disk, counters, ?_⟩
  rintro before path after rfl
  have early : ∀ other ∈ before, brewer.classifier.classify other ≠ .unrecognized :=
    fun other member => known other (by simp [member])
  obtain ⟨among, _, between⟩ := List.pairwise_append.mp paired
  have self := known path (by simp)
  rw [build_known early, build_known (by simpa using self)]
  constructor
  · exact fun artifact made place entry => whole.artifact (by simp) made entry
  · exact ((underway_all pure early among).build pure self fun other member =>
      between other member path List.mem_cons_self).1

section Together

/-- A macro script without a line, and a script that is no text. -/
def mixedDisk : Disk where
  nodes := [(["a.cielo".toList], .file (.text []) 1), (["b.coffee".toList], .file (.raw [0xFF]) 1)]
  current := []
  clock := 1

theorem mixedDisk_independent :
    Independent verbatim mixedDisk (.ofString "/a.cielo") (.ofString "/b.coffee") := by
  have script : verbatim.targets mixedDisk (.ofString "/a.cielo") =
      [["a.coffee".toList], ["a.js".toList]] := by decide +kernel
  have broken : verbatim.targets mixedDisk (.ofString "/b.coffee") = [["b.js".toList]] := by
    decide +kernel
  refine ⟨?_, ?_, ?_⟩
  · rw [script, broken]
    decide
  · rintro place target ⟨path, asks, member⟩
    obtain rfl := asks.plain (by decide)
    have trail : mixedDisk.trailOf (.ofString "/b.coffee") = [[], ["b.coffee".toList]] := by
      decide +kernel
    rw [script] at target
    rw [trail] at member
    revert place
    decide
  · rintro place target ⟨path, asks, member⟩
    cases asks with
    | source =>
        have trail : mixedDisk.trailOf (.ofString "/a.cielo") = [[], ["a.cielo".toList]] := by
          decide +kernel
        rw [broken] at target
        rw [trail] at member
        revert place
        decide
    | probe _ read probed =>
        have empty : mixedDisk.readText (.ofString "/a.cielo") = .ok [] := by decide +kernel
        cases read.symm.trans empty
        exact absurd probed Expander.not_probed_empty

-- The script that cannot be read comes first, and takes nothing from the other.
theorem mixedDisk_together :
    (verbatim.build [.ofString "/b.coffee", .ofString "/a.cielo"]
        (.start mixedDisk .plain)).1.disk.undated? ["a.js".toList] =
      (verbatim.build [.ofString "/a.cielo"] (.start mixedDisk .plain)).1.disk.undated?
        ["a.js".toList] ∧
    (verbatim.build [.ofString "/b.coffee", .ofString "/a.cielo"]
        (.start mixedDisk .plain)).1.session.counters =
      (verbatim.build [.ofString "/a.cielo", .ofString "/b.coffee"]
        (.start mixedDisk .plain)).1.session.counters ∧
    verbatim.outcome (.ofString "/a.cielo")
        (verbatim.build [.ofString "/b.coffee"] (.start mixedDisk .plain)).1 =
      verbatim.outcome (.ofString "/a.cielo") (.start mixedDisk .plain) := by
  have known : ∀ path ∈ [Path.ofString "/a.cielo", .ofString "/b.coffee"],
      verbatim.classifier.classify path ≠ .unrecognized := by decide
  obtain ⟨_, _, counters, alone⟩ := @build_independent verbatim (.start mixedDisk .plain)
    verbatim_pure _ known (List.pairwise_pair.mpr mixedDisk_independent)
    [.ofString "/b.coffee", .ofString "/a.cielo"] (.swap _ _ _)
  obtain ⟨artifacts, outcome⟩ := alone [.ofString "/b.coffee"] (.ofString "/a.cielo") [] rfl
  exact ⟨artifacts (.ofString "/a.js") (by decide) _ (by decide +kernel), counters, outcome⟩

/-- A link with the name of an artifact to a directory that holds a script. -/
def linkedDisk : Disk where
  nodes := [(["d.coffee".toList], .file (.text "y".toList) 1),
    (["d.js".toList], .link "e".toList), (["e".toList], .directory 1),
    (["a.coffee".toList, "e".toList], .file (.text "x".toList) 1)]
  current := []
  clock := 1

/-- No path that a build of a source asks for is an artifact of another source. -/
def Unread (brewer : Brewer) (disk : Disk) (source other : Path) : Prop :=
  ∀ path, Asks brewer disk source path →
    ∀ artifact ∈ other.artifacts (brewer.classifier.classify other).chain,
      path.same artifact = false ∧
        ∀ place, disk.entryAt? artifact = some place → disk.locate path ≠ .ok place

-- The artifact replaces the link, and the way to the other script with it.
theorem linkedDisk_ordered :
    verbatim.IsPure ∧
      verbatim.classifier.classify (.ofString "/d.coffee") ≠ .unrecognized ∧
      verbatim.classifier.classify (.ofString "/d.js/a.coffee") ≠ .unrecognized ∧
      Unread verbatim linkedDisk (.ofString "/d.coffee") (.ofString "/d.js/a.coffee") ∧
      Unread verbatim linkedDisk (.ofString "/d.js/a.coffee") (.ofString "/d.coffee") ∧
      (∀ place ∈ verbatim.targets linkedDisk (.ofString "/d.coffee"),
        place ∉ verbatim.targets linkedDisk (.ofString "/d.js/a.coffee")) ∧
      (verbatim.build [.ofString "/d.coffee", .ofString "/d.js/a.coffee"]
          (.start linkedDisk .plain)).1.disk.contentsAt? ["a.js".toList, "e".toList] ≠
        (verbatim.build [.ofString "/d.js/a.coffee", .ofString "/d.coffee"]
          (.start linkedDisk .plain)).1.disk.contentsAt? ["a.js".toList, "e".toList] := by
  refine ⟨verbatim_pure, by decide, by decide, ?_, ?_, by decide +kernel, by decide +kernel⟩
  · intro path asks
    obtain rfl := asks.plain (by decide)
    decide +kernel
  · intro path asks
    obtain rfl := asks.plain (by decide)
    decide +kernel

end Together

end Brewer
end Brewery
