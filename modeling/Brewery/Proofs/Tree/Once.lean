import Brewery.Proofs.Session.Deeds
import Brewery.Proofs.Session.Effects
import Brewery.Proofs.Tree.Incremental
import Brewery.Proofs.Tree.Order

/-!
One pass writes nothing twice. The artifacts of two sources differ, but for a macro script and its
own intermediate script, which is listed later as a source itself. When the pass comes to it, the
intermediate script is the pass's own work and is left alone; or the script found it up to date, and
then the compiled script has been made after it and is up to date as well; or the script got no
further, and has compiled nothing.
-/

namespace Brewery

section Seats

/-- A path that spells a place in a directory that is reached without a link. -/
structure Seated (disk : Disk) (path : Path) (place : Place) : Prop where
  spelled : path = place.path
  proper : place.Proper
  inner : place ≠ []
  rooted : disk.Rooted place.tail

variable {disk after : Disk} {root path other : Path} {place spot : Place}

theorem Seated.entry (seated : Seated disk path place) : disk.entryAt? path = some place := by
  obtain ⟨rfl, proper, inner, rooted⟩ := seated
  cases place with
  | nil => exact absurd rfl inner
  | cons name dir => exact Disk.entryAt?_path rooted proper

theorem Seated.named (seated : Seated disk path place) : ∃ name, path.fileName? = some name := by
  obtain ⟨name, _, named, _⟩ := Disk.entryAt?_home seated.entry
  exact ⟨name, named⟩

theorem Seated.congr (seated : Seated disk path place)
    (directories : ∀ place, after.isDirectoryAt place = disk.isDirectoryAt place) :
    Seated after path place :=
  ⟨seated.spelled, seated.proper, seated.inner,
    fun above suffix => (directories above).trans (seated.rooted above suffix)⟩

theorem Seated.artifact {stage : Stage} (seated : Seated disk path place) (sound : disk.Sound)
    (entry : disk.entryAt? (path.artifact stage) = some spot) :
    Seated disk (path.artifact stage) spot := by
  obtain ⟨name, dir, named, _, home, rfl⟩ := Disk.entryAt?_home seated.entry
  obtain rfl := Disk.entryAt?_artifact named home entry
  refine ⟨?_, sound.proper_entry entry, by simp, seated.rooted⟩
  rw [seated.spelled]
  exact Place.artifact_path seated.proper stage

-- Two spellings of seated paths are one.
theorem Seated.same_eq (seated : Seated disk path place) (next : Seated disk other spot)
    (same : path.same other = true) : path = other := by
  rw [seated.spelled, next.spelled, Disk.entryAt?_same same seated.entry next.entry]

theorem Tree.Under.seated (under : Under disk root place spot) (sound : disk.Sound)
    (rooted : disk.Rooted place) : Seated disk spot.path spot := by
  induction under with
  | file held _ => exact ⟨rfl, sound.proper_at held, by simp, rooted⟩
  | inner held _ _ ih => exact ih (rooted.inner (Disk.isDirectoryAt_iff.mpr ⟨_, held⟩))

end Seats

namespace Brewer

/-- The artifacts that are written when files are visited in order. -/
def visitWrites (brewer : Brewer) : List Path → Progress → List Path
  | [], _ => []
  | path :: rest, progress => brewer.writes (.added path) progress ++
      brewer.visitWrites rest (brewer.handle (.added path) progress).1

/-- The artifacts that a pass writes, in order. -/
def passWrites (brewer : Brewer) (root : Path) (progress : Progress) : List Path :=
  let progress := progress.tell [.info "watch" "scanning" root.text]
  match Tree.files progress.disk root with
  | .error _ => []
  | .ok files => brewer.visitWrites files (progress.tell (Tree.foundLog root files))

/-- Whether a path is the intermediate script of a macro script. -/
def Intermediate (brewer : Brewer) (script path : Path) : Prop :=
  brewer.classifier.classify script = .macroScript ∧ path = script.artifact .preprocess

end Brewer

variable {brewer : Brewer} {before : Disk} {options : SessionOptions}

section Ledgers

/-- What a scan has done to a disk and a session that writes these artifacts: each was written
once, is still there as it was written, and nothing else has changed. -/
structure Ledger (before : Disk) (options : SessionOptions) (written : List Path) (disk : Disk)
    (session : Session) : Prop where
  options : session.options = options
  scanning : session.phase = .scanning
  sound : disk.Sound
  directories : ∀ place, disk.isDirectoryAt place = before.isDirectoryAt place
  clock : before.clock ≤ disk.clock
  kept : ∀ place, place.path ∉ written → disk.node? place = before.node? place
  stands : ∀ artifact ∈ written, ∃ place contents stamp, Seated disk artifact place ∧
    disk.node? place = some (.file contents stamp) ∧ before.clock < stamp ∧
    session.writtenAt? artifact = some stamp
  distinct : written.Pairwise fun earlier later => earlier.same later = false
  counted : session.counters.processed = written.length

variable {written : List Path} {disk : Disk} {session : Session} {artifact : Path} {place : Place}

theorem stamp?_of_file {contents : Contents} {stamp : Int} {path : Path}
    (seated : Seated disk path place) (held : disk.node? place = some (.file contents stamp)) :
    disk.stamp? path = some stamp := by
  rw [Disk.stamp?_of_entry seated.entry (by simp [held]), held]

theorem Ledger.put (ledger : Ledger before options written disk session)
    (seated : Seated disk artifact place) (fresh : artifact ∉ written)
    (solid : disk.isDirectoryAt place = false) (contents : Contents) :
    Ledger before options (written ++ [artifact]) (disk.putFile place contents)
      (session.recordWrite (disk.putFile place contents) artifact).countProcessed := by
  have directories := Disk.isDirectoryAt_putFile solid contents
  have put (other : Place) := @Disk.node?_putFile disk place (Disk.place_ne_nil solid) contents other
  have self := Disk.node?_putFile_self solid contents
  have again := seated.congr directories
  have stamped := stamp?_of_file again self
  have records := Session.writtenAt?_recordWrite stamped session
  obtain ⟨same, phase, counters⟩ :=
    Session.recordWrite_same session (disk.putFile place contents) artifact
  -- An artifact that was written before stands somewhere else.
  have apart {other : Path} (member : other ∈ written) : other.same artifact = false := by
    obtain ⟨spot, _, _, seat, _⟩ := ledger.stands other member
    by_contra hit
    exact fresh (seat.same_eq seated (by simpa using hit) ▸ member)
  constructor
  · exact same.trans ledger.options
  · exact phase.trans ledger.scanning
  · exact ledger.sound.putFile seated.proper contents
  · intro other
    exact (directories other).trans (ledger.directories other)
  · exact Int.le_trans ledger.clock (Int.le_of_lt (Int.lt_succ _))
  · intro other absent
    rw [List.mem_append, List.mem_singleton, not_or] at absent
    rw [put, if_neg, ledger.kept other absent.1]
    rintro rfl
    exact absent.2 seated.spelled.symm
  · intro other member
    rcases List.mem_append.mp member with old | new
    · obtain ⟨spot, kept, stamp, seat, held, later, recorded⟩ := ledger.stands other old
      have elsewhere : spot ≠ place := by
        rintro rfl
        exact fresh (seated.spelled.trans seat.spelled.symm ▸ old)
      refine ⟨spot, kept, stamp, seat.congr directories, ?_, later, ?_⟩
      · rw [put, if_neg elsewhere, held]
      · exact (records other).trans (by rw [apart old]; exact recorded)
    · rw [List.mem_singleton.mp new]
      refine ⟨place, contents, disk.clock + 1, again, self, Int.lt_add_one_of_le ledger.clock, ?_⟩
      exact (records artifact).trans (if_pos (Path.same_self artifact))
  · rw [List.pairwise_append]
    refine ⟨ledger.distinct, List.pairwise_singleton _ _, fun other member last new => ?_⟩
    rw [List.mem_singleton.mp new]
    exact apart member
  · rw [List.length_append, List.length_singleton, ← ledger.counted]
    exact congrArg (fun counters => counters.processed + 1) counters

end Ledgers

section Chains

variable {written : List Path} {source input : Path} {always : Bool} {stages : List Stage}
  {carried : Option Text} {progress : Progress} {place : Place}

-- What is up to date is there when its source is, and no force was asked for.
theorem stamp?_of_kept {disk : Disk} {session : Session} {artifact : Path} {made : Int}
    (stamped : disk.stamp? source = some made)
    (kept : session.needsRebuild disk source artifact = false) :
    session.options.force = false ∧ ∃ stamp, disk.stamp? artifact = some stamp := by
  unfold Session.needsRebuild at kept
  split at kept
  · exact absurd kept (by simp)
  next lazy =>
    simp only [Bool.or_eq_true, not_or, Bool.not_eq_true] at lazy
    rw [stamped] at kept
    cases found : disk.stamp? artifact with
    | none => simp [found] at kept
    | some stamp => exact ⟨lazy.1, stamp, rfl⟩

/-- A chain writes artifacts of its own, in their order. -/
theorem chainWrites_sublist (brewer : Brewer) (source : Path) (always : Bool) (stages : List Stage)
    (input : Path) (carried : Option Text) (progress : Progress) :
    (brewer.chainWrites source always stages input carried progress).Sublist
      (input.artifacts stages) := by
  induction stages generalizing input carried progress with
  | nil => exact .slnil
  | cons stage rest ih =>
      rw [Brewer.chainWrites, Path.artifacts]
      split
      · next next carried _ =>
          cases carried with
          | none => exact .cons _ (ih _ _ _)
          | some text => exact .cons_cons _ (ih _ _ _)
      · exact List.nil_sublist _

theorem Ledger.chain (ledger : Ledger before options written progress.disk progress.session)
    (seated : Seated progress.disk input place)
    (present : ∃ stamp, progress.disk.stamp? input = some stamp)
    (carries : Carries progress.disk input carried) (nodup : (input.artifacts stages).Nodup)
    (fresh : ∀ artifact ∈ brewer.chainWrites source always stages input carried progress,
      artifact ∉ written) :
    Ledger before options
      (written ++ brewer.chainWrites source always stages input carried progress)
      (brewer.runChain source always stages input carried progress).1.disk
      (brewer.runChain source always stages input carried progress).1.session := by
  induction stages generalizing input carried progress written place with
  | nil => simpa [Brewer.chainWrites, Brewer.runChain] using ledger
  | cons stage rest ih =>
      obtain ⟨name, named⟩ := seated.named
      have ended : Brewer.HopCase brewer source always stage input carried progress
          (brewer.hop source always stage input carried progress) := Brewer.hop_cases named carries
      obtain ⟨first, distinct⟩ := List.nodup_cons.mp nodup
      rw [Brewer.chainWrites] at fresh ⊢
      rw [Brewer.runChain]
      generalize brewer.hop source always stage input carried progress = result at ended fresh ⊢
      cases ended with
      | outside | unread | vanished | rejected | blocked => simpa using ledger
      | current log lazy kept =>
          obtain ⟨made, stamped⟩ := present
          obtain ⟨_, stamp, found⟩ := stamp?_of_kept stamped kept
          obtain ⟨spot, entry⟩ := Disk.entryAt?_of_stamp named found
          exact ih ledger (seated.artifact ledger.sound entry) ⟨stamp, found⟩
            (carries_none (progress.tell log).disk _) distinct fresh
      | replaced text output spot log read made entry solid meant =>
          have seat := seated.artifact ledger.sound entry
          simp only [Option.isSome_some, ↓reduceIte, List.mem_cons, forall_eq_or_imp] at fresh
          have put := ledger.put seat fresh.1 solid (.text output)
          have directories := Disk.isDirectoryAt_putFile solid (.text output)
          generalize same : Progress.tell _ log = next at fresh ⊢
          have disk : next.disk = progress.disk.putFile spot (.text output) := by
            rw [← same]; rfl
          have session : next.session = (progress.session.recordWrite
              (progress.disk.putFile spot (.text output)) (input.artifact stage)).countProcessed := by
            rw [← same]; rfl
          rw [← session, ← disk] at put
          rw [← disk] at directories
          have held : next.disk.node? spot =
              some (.file (.text output) (progress.disk.clock + 1)) := by
            rw [disk]
            exact Disk.node?_putFile_self solid _
          have stamped := stamp?_of_file (seat.congr directories) held
          have carries : Carries next.disk (input.artifact stage) (some output) := by
            intro held known
            cases known
            exact ⟨progress.disk, spot, entry, solid, disk⟩
          have onward := ih put (seat.congr directories) ⟨_, stamped⟩ carries distinct
            fun artifact later => by
              rw [List.mem_append, List.mem_singleton, not_or]
              refine ⟨fresh.2 artifact later, ?_⟩
              rintro rfl
              exact first ((chainWrites_sublist _ _ _ _ _ _ _).subset later)
          simpa using onward

-- By force nothing is compiled that was not expanded just before.
theorem chainWrites_led {script : Path} (named : ∃ name, script.fileName? = some name)
    (force : progress.session.options.force = true)
    (last : (script.artifact .preprocess).artifact .compileScript ∈
      brewer.chainWrites source always [.preprocess, .compileScript] script none progress) :
    script.artifact .preprocess ∈
      brewer.chainWrites source always [.preprocess, .compileScript] script none progress := by
  obtain ⟨name, named⟩ := named
  have ended : Brewer.HopCase brewer source always .preprocess script none progress
      (brewer.hop source always .preprocess script none progress) :=
    Brewer.hop_cases named (carries_none _ _)
  rw [Brewer.chainWrites] at last ⊢
  generalize brewer.hop source always .preprocess script none progress = result at ended last ⊢
  cases ended with
  | current log lazy kept => simp [Session.needsRebuild, force] at kept
  | replaced => exact List.mem_cons_self
  | outside | unread | vanished | rejected | blocked => exact absurd last List.not_mem_nil

-- A script that is up to date is not compiled.
theorem chainWrites_current {script : Path}
    (kept : progress.session.needsRebuild progress.disk script (script.artifact .compileScript) =
      false) : brewer.chainWrites source false [.compileScript] script carried progress = [] := by
  rw [Brewer.chainWrites]
  unfold Brewer.hop
  simp [kept, Brewer.chainWrites]

end Chains

section Scans

/-- Files that are listed for a pass. -/
structure Listed (brewer : Brewer) (before : Disk) (paths : List Path) : Prop where
  dated : ∀ path ∈ paths, ∃ place contents stamp, Seated before path place ∧
    before.node? place = some (.file contents stamp) ∧ stamp ≤ before.clock
  ordered : paths.Pairwise Tree.Precedes
  unshared : ∀ source ∈ paths, ∀ other ∈ paths, ∀ artifact,
    artifact ∈ source.artifacts (brewer.stages source) →
    artifact ∈ other.artifacts (brewer.stages other) →
    source = other ∨ brewer.Intermediate source other ∨ brewer.Intermediate other source

/-- A pass on its way: the files that it has seen, and what it has written for them. By force an
artifact is compiled only after it was expanded, as long as the expanded text is not visited. -/
structure Scan (brewer : Brewer) (before : Disk) (options : SessionOptions)
    (seen written : List Path) (progress : Progress) : Prop where
  ledger : Ledger before options written progress.disk progress.session
  owned : ∀ artifact ∈ written, ∃ source ∈ seen, artifact ∈ source.artifacts (brewer.stages source)
  led : options.force = true → ∀ script ∈ seen,
    brewer.stages script = [.preprocess, .compileScript] → script.artifact .preprocess ∉ seen →
    (script.artifact .preprocess).artifact .compileScript ∈ written →
    script.artifact .preprocess ∈ written

variable {paths seen rest written : List Path} {path : Path} {progress : Progress}

theorem Listed.fresh (listed : Listed brewer before (seen ++ path :: rest)) : path ∉ seen := by
  intro member
  obtain ⟨place, _, _, seated, _⟩ := listed.dated path (by simp)
  have precedes := (List.pairwise_append.mp listed.ordered).2.2 path member path List.mem_cons_self
  obtain ⟨spelled, proper, inner, _⟩ := seated
  cases place with
  | nil => exact inner rfl
  | cons name dir => exact (precedes name name dir proper proper spelled spelled).2 rfl

theorem Listed.first (listed : Listed brewer before (seen ++ path :: rest))
    (script : brewer.classifier.classify path = .macroScript) : path.artifact .preprocess ∉ seen := by
  intro member
  obtain ⟨place, _, _, seated, _⟩ := listed.dated path (by simp)
  obtain ⟨spot, _, _, seat, _⟩ := listed.dated _ (List.mem_append_left _ member)
  obtain ⟨name, dir, named, _, home, rfl⟩ := Disk.entryAt?_home seated.entry
  obtain rfl := Disk.entryAt?_artifact named home seat.entry
  have kind : SourceKind.ofPath path = .macroScript := by
    rcases Brewer.classify_cases brewer.classifier path with same | unknown
    · exact same.symm.trans script
    · exact absurd (script.symm.trans unknown) (by simp)
  exact Tree.script_precedes seated.proper seated.spelled kind seat.proper
    ((List.pairwise_append.mp listed.ordered).2.2 _ member path List.mem_cons_self)

theorem stages_of_script (script : brewer.classifier.classify path = .macroScript) :
    brewer.stages path = [.preprocess, .compileScript] := by
  rw [Brewer.stages, script]
  rfl

theorem chain_of_stages {stage : Stage} {further : List Stage}
    (shape : brewer.stages path = stage :: further) :
    (brewer.classifier.classify path).chain = stage :: further := by
  unfold Brewer.stages at shape
  split at shape
  · exact absurd shape (by simp)
  · exact shape

theorem chain_nodup (brewer : Brewer) (path : Path) :
    (path.artifacts (brewer.classifier.classify path).chain).Nodup := by
  have distinct := (List.nodup_cons.mp (artifacts_nodup brewer path)).2
  rw [Brewer.stages] at distinct
  split at distinct
  · next outside =>
      rw [outside.1]
      exact List.nodup_singleton _
  · exact distinct

-- Whatever a visit writes is an artifact of the stages that are really taken.
theorem visit_owned {artifact : Path} (member : artifact ∈ brewer.chainWrites path false
    (brewer.classifier.classify path).chain path none progress) :
    artifact ∈ path.artifacts (brewer.stages path) := by
  rw [Brewer.stages]
  split
  · next outside =>
      rw [outside.1] at member
      simp [SourceKind.chain, Brewer.chainWrites, Brewer.hop, outside.2] at member
  · exact (chainWrites_sublist _ _ _ _ _ _ _).subset member

/-- A visit writes nothing that was written before. -/
theorem Scan.fresh (scan : Scan brewer before options seen written progress)
    (listed : Listed brewer before (seen ++ path :: rest))
    (foreign : progress.session.isOwnWrite progress.disk path = false) :
    ∀ artifact ∈ brewer.chainWrites path false (brewer.classifier.classify path).chain path none
      (Brewer.noted path progress), artifact ∉ written := by
  intro artifact inside again
  have member := visit_owned inside
  obtain ⟨source, held, owned⟩ := scan.owned artifact again
  rcases listed.unshared source (List.mem_append_left _ held) path (by simp) artifact owned member
    with same | ⟨script, intermediate⟩ | ⟨script, intermediate⟩
  · exact listed.fresh (same ▸ held)
  · have double := stages_of_script script
    have made : path ∈ source.artifacts (brewer.stages source) := by
      rw [double, intermediate]
      exact List.mem_cons_self
    rcases artifact_stages made with none | ⟨_, _, single⟩
    · rw [none] at member
      exact absurd member List.not_mem_nil
    have chain := chain_of_stages single
    rw [single] at member
    obtain rfl := List.mem_singleton.mp member
    by_cases known : path ∈ written
    · obtain ⟨place, _, stamp, seat, kept, _, recorded⟩ := scan.ledger.stands path known
      simp [Session.isOwnWrite, recorded, stamp?_of_file seat kept] at foreign
    · have lazy : options.force = false := by
        by_contra force
        have expanded := scan.led (by simpa using force) source held double
          (intermediate ▸ listed.fresh) (intermediate ▸ again)
        exact known (intermediate ▸ expanded)
      obtain ⟨place, _, made, seated, found, dated⟩ := listed.dated path (by simp)
      have seat := seated.congr scan.ledger.directories
      have source := stamp?_of_file seat
        ((scan.ledger.kept place (seated.spelled ▸ known)).trans found)
      obtain ⟨spot, _, stamp, beside, kept, later, _⟩ := scan.ledger.stands _ again
      have current := stamp?_of_file beside kept
      have idle : (Brewer.noted path progress).session.needsRebuild (Brewer.noted path progress).disk
          path (path.artifact .compileScript) = false := by
        have lazy : progress.session.options.force = false := scan.ledger.options ▸ lazy
        simp only [Session.needsRebuild, Brewer.noted, Session.forgetRemoval, Session.scanComplete,
          lazy, scan.ledger.scanning, source, current]
        simp only [ne_eq, not_true_eq_false, decide_false, Bool.or_self, Bool.false_eq_true,
          ↓reduceIte, decide_eq_false_iff_not]
        omega
      rw [chain, chainWrites_current idle] at inside
      exact absurd inside List.not_mem_nil
  · exact listed.first script (intermediate ▸ held)

-- A script that comes first has had nothing compiled for it.
theorem Scan.uncompiled (scan : Scan brewer before options seen written progress)
    (listed : Listed brewer before (seen ++ path :: rest))
    (double : brewer.stages path = [.preprocess, .compileScript]) :
    (path.artifact .preprocess).artifact .compileScript ∉ written := by
  intro again
  have member : (path.artifact .preprocess).artifact .compileScript ∈
      path.artifacts (brewer.stages path) := by
    simp [double, Path.artifacts]
  obtain ⟨source, held, owned⟩ := scan.owned _ again
  rcases listed.unshared source (List.mem_append_left _ held) path (by simp) _ owned member
    with same | ⟨script, intermediate⟩ | ⟨script, intermediate⟩
  · exact listed.fresh (same ▸ held)
  · have made : path ∈ source.artifacts (brewer.stages source) := by
      rw [stages_of_script script, intermediate]
      exact List.mem_cons_self
    exact stages_artifact_head made (by rw [double]; rfl)
  · exact listed.first script (intermediate ▸ held)

/-- A visit that writes artifacts of the path, and compiles by force only what it expands. -/
theorem Scan.next (scan : Scan brewer before options seen written progress)
    (listed : Listed brewer before (seen ++ path :: rest)) {new : List Path} {after : Progress}
    (ledger : Ledger before options (written ++ new) after.disk after.session)
    (owned : ∀ artifact ∈ new, artifact ∈ path.artifacts (brewer.stages path))
    (led : options.force = true → brewer.stages path = [.preprocess, .compileScript] →
      (path.artifact .preprocess).artifact .compileScript ∈ new → path.artifact .preprocess ∈ new) :
    Scan brewer before options (seen ++ [path]) (written ++ new) after := by
  refine ⟨ledger, ?_, ?_⟩
  · intro artifact member
    rcases List.mem_append.mp member with old | made
    · obtain ⟨source, held, from'⟩ := scan.owned artifact old
      exact ⟨source, List.mem_append_left _ held, from'⟩
    · exact ⟨path, by simp, owned artifact made⟩
  · intro force script member double unseen compiled
    rw [List.mem_append, List.mem_singleton, not_or] at unseen
    rcases List.mem_append.mp member with held | here
    · rcases List.mem_append.mp compiled with old | made
      · exact List.mem_append_left _ (scan.led force script held double unseen.1 old)
      · have final : (script.artifact .preprocess).artifact .compileScript ∈
            script.artifacts (brewer.stages script) := by
          simp [double, Path.artifacts]
        rcases listed.unshared script (List.mem_append_left _ held) path (by simp) _ final
          (owned _ made) with same | ⟨_, intermediate⟩ | ⟨kind, intermediate⟩
        · exact absurd (same ▸ held) listed.fresh
        · exact absurd intermediate.symm unseen.2
        · exact absurd (intermediate ▸ held) (listed.first kind)
    · obtain rfl := List.mem_singleton.mp here
      rcases List.mem_append.mp compiled with old | made
      · exact absurd old (scan.uncompiled listed double)
      · exact List.mem_append_right _ (led force double made)

theorem Ledger.noted {disk : Disk} {session : Session}
    (ledger : Ledger before options written disk session) (path : Path) :
    Ledger before options written disk (session.forgetRemoval path) :=
  ⟨ledger.options, ledger.scanning, ledger.sound, ledger.directories, ledger.clock, ledger.kept,
    ledger.stands, ledger.distinct, ledger.counted⟩

-- A file that was there at the start has a stamp, whether it is rewritten or not.
theorem Ledger.stamped {disk : Disk} {session : Session} {place : Place} {contents : Contents}
    {made : Int} (ledger : Ledger before options written disk session)
    (seated : Seated before path place)
    (found : before.node? place = some (.file contents made)) :
    ∃ stamp, disk.stamp? path = some stamp := by
  by_cases known : path ∈ written
  · obtain ⟨spot, _, stamp, seat, held, _⟩ := ledger.stands path known
    exact ⟨stamp, stamp?_of_file seat held⟩
  · exact ⟨made, stamp?_of_file (seated.congr ledger.directories)
      ((ledger.kept place (seated.spelled ▸ known)).trans found)⟩

/-- One visit of a pass. -/
theorem Scan.present (scan : Scan brewer before options seen written progress)
    (listed : Listed brewer before (seen ++ path :: rest)) :
    Scan brewer before options (seen ++ [path]) (written ++ brewer.presentWrites path progress)
      (brewer.whenPresent path progress) := by
  have noted := scan.ledger.noted path
  have ended := Brewer.whenPresent_cases brewer path progress
  generalize brewer.whenPresent path progress = after at ended ⊢
  rw [Brewer.presentWrites]
  cases ended with
  | ignored unknown =>
      rw [if_pos (by simp [unknown])]
      exact scan.next listed ((List.append_nil written).symm ▸ noted) (by simp) (by simp)
  | own log recognized known =>
      rw [if_pos (by rw [known, Bool.or_true])]
      exact scan.next listed ((List.append_nil written).symm ▸ noted) (by simp) (by simp)
  | built log recognized foreign =>
      rw [if_neg (by simp [recognized, foreign])]
      obtain ⟨place, contents, made, seated, found, _⟩ := listed.dated path (by simp)
      have seat := seated.congr scan.ledger.directories
      have stamped := scan.ledger.stamped seated found
      have fresh := scan.fresh listed foreign
      have owned := @visit_owned brewer path (Brewer.noted path progress)
      refine scan.next listed ?_ (fun artifact => owned) ?_
      · have noted : Ledger before options written (Brewer.noted path progress).disk
          (Brewer.noted path progress).session := noted
        exact noted.chain seat stamped (carries_none _ _) (chain_nodup brewer path) fresh
      · intro force double compiled
        rw [chain_of_stages double] at compiled ⊢
        exact chainWrites_led seat.named (scan.ledger.options ▸ force) compiled

theorem Scan.step (scan : Scan brewer before options seen written progress)
    (listed : Listed brewer before (seen ++ path :: rest)) :
    Scan brewer before options (seen ++ [path])
      (written ++ brewer.writes (.added path) progress) (brewer.handle (.added path) progress).1 := by
  have heard (log : Log) : Scan brewer before options seen written (progress.tell log) :=
    ⟨scan.ledger, scan.owned, scan.led⟩
  rw [handle_scanning scan.ledger.scanning]
  exact (heard _).present listed

/-- All visits of a pass, and its end. -/
theorem Scan.run (scan : Scan brewer before options seen written progress)
    (listed : Listed brewer before (seen ++ rest)) : ∃ last,
    Scan brewer before options (seen ++ rest) (written ++ brewer.visitWrites rest progress) last ∧
      (brewer.handleAll (rest.map Event.added ++ [.ready]) progress).1.session.counters =
        last.session.counters := by
  induction rest generalizing seen written progress with
  | nil =>
      refine ⟨progress, by simpa [Brewer.visitWrites] using scan, ?_⟩
      have active : progress.session.phase ≠ .done := by simp [scan.ledger.scanning]
      have ready : (brewer.handle .ready progress).1.session.counters =
          progress.session.counters := by
        rw [Brewer.handle_active active]
        unfold Brewer.whenReady Session.markReady
        simp only
        split <;> split <;> rfl
      rw [List.map_nil, List.nil_append, handleAll_cons]
      split
      · exact ready
      · exact ready
  | cons path rest ih =>
      have next := scan.step listed
      have split : seen ++ path :: rest = seen ++ [path] ++ rest := by simp
      obtain ⟨last, done, same⟩ := ih next (split ▸ listed)
      refine ⟨last, ?_, ?_⟩
      · rw [split, Brewer.visitWrites, ← List.append_assoc]
        exact done
      · rw [List.map_cons, List.cons_append, handleAll_cons, handle_scanning scan.ledger.scanning]
        rw [handle_scanning scan.ledger.scanning] at same
        exact same

end Scans

/-- A pass over a tree of which no file is from the future, and in which no two sources share an
artifact but a macro script and its own intermediate script: whatever the stages do and whether
or not force is asked for, it writes no artifact twice, and it counts the artifacts it writes. -/
theorem pass_writes_once {root : Place} {disk : Disk} (sound : disk.Sound) (rooted : disk.Rooted root)
    (dated : ∀ spot contents stamp, Tree.Under disk root.path root spot →
      disk.node? spot = some (.file contents stamp) → stamp ≤ disk.clock)
    (unshared : ∀ spot other artifact, Tree.Under disk root.path root spot →
      Tree.Under disk root.path root other →
      artifact ∈ spot.path.artifacts (brewer.stages spot.path) →
      artifact ∈ other.path.artifacts (brewer.stages other.path) →
      spot = other ∨ brewer.Intermediate spot.path other.path ∨
        brewer.Intermediate other.path spot.path) :
    ∃ built, brewer.pass root.path (.start disk options) = (built, .ok ()) ∧
      (brewer.passWrites root.path (.start disk options)).Pairwise
        (fun earlier later => earlier.same later = false) ∧
      built.session.counters.processed =
        (brewer.passWrites root.path (.start disk options)).length := by
  obtain ⟨paths, found, member⟩ := Tree.mem_files sound rooted
  have listed : Listed brewer disk ([] ++ paths) := by
    refine ⟨?_, Tree.files_ordered sound rooted found, ?_⟩
    · intro path inside
      obtain ⟨spot, under, rfl⟩ := (member path).mp inside
      obtain ⟨contents, stamp, held⟩ := under.held
      exact ⟨spot, contents, stamp, under.seated sound rooted, held,
        dated spot contents stamp under held⟩
    · intro source first other second artifact made again
      obtain ⟨spot, under, rfl⟩ := (member source).mp first
      obtain ⟨next, beside, rfl⟩ := (member other).mp second
      rcases unshared spot next artifact under beside made again with same | intermediate
      · exact Or.inl (congrArg Place.path same)
      · exact Or.inr intermediate
  let started := (Progress.start disk options).tell [.info "watch" "scanning" root.path.text]
  have files : Tree.files started.disk root.path = .ok paths := found
  have scan : Scan brewer disk options [] [] (started.tell (Tree.foundLog root.path paths)) := by
    refine ⟨⟨rfl, rfl, sound, fun _ => rfl, Int.le_refl _, fun _ _ => rfl, ?_, .nil, rfl⟩, ?_, ?_⟩
    · exact fun _ none => absurd none List.not_mem_nil
    · exact fun _ none => absurd none List.not_mem_nil
    · exact fun _ _ none => absurd none List.not_mem_nil
  obtain ⟨last, done, counters⟩ := scan.run listed
  have written : brewer.passWrites root.path (.start disk options) =
      brewer.visitWrites paths (started.tell (Tree.foundLog root.path paths)) := by
    rw [Brewer.passWrites]
    simp only [started, files]
  refine ⟨(brewer.handleAll (paths.map Event.added ++ [.ready])
    (started.tell (Tree.foundLog root.path paths))).1, ?_, ?_, ?_⟩
  · rw [Brewer.pass]
    simp only [started, files]
  · rw [written]
    exact done.ledger.distinct
  · rw [written, counters]
    exact done.ledger.counted

section Half

open Brewer (verbatim)

/-- A macro script whose expanded text is there and whose compiled script is not. -/
def halfBrewed : Disk :=
  ⟨[(["a.cielo".toList], .file (.text []) 1), (["a.coffee".toList], .file (.text []) 2)], [], 2⟩

theorem halfBrewed_sound : halfBrewed.Sound := by
  have script : Disk.IsEntryName "a.cielo".toList :=
    ⟨by decide, by decide, by decide, by decide, by decide⟩
  have expanded : Disk.IsEntryName "a.coffee".toList :=
    ⟨by decide, by decide, by decide, by decide, by decide⟩
  refine ⟨by decide, fun place node member => ?_⟩
  simp only [halfBrewed, List.mem_cons, Prod.mk.injEq, List.not_mem_nil, or_false] at member
  rcases member with ⟨rfl, _⟩ | ⟨rfl, _⟩
  · exact .cons script fun _ inside => absurd inside List.not_mem_nil
  · exact .cons expanded fun _ inside => absurd inside List.not_mem_nil

theorem halfBrewed_files {spot : Place} (under : Tree.Under halfBrewed (Place.path []) [] spot) :
    (spot = ["a.cielo".toList] ∧ halfBrewed.node? spot = some (.file (.text []) 1)) ∨
      spot = ["a.coffee".toList] ∧ halfBrewed.node? spot = some (.file (.text []) 2) := by
  obtain ⟨contents, stamp, held⟩ := under.held
  have inner : spot ≠ [] := by
    rintro rfl
    exact absurd held (by simp [Disk.node?])
  have member := (halfBrewed_sound.mem_nodes inner).mpr held
  simp only [halfBrewed, List.mem_cons, Prod.mk.injEq, List.not_mem_nil, or_false] at member
  rcases member with ⟨rfl, _⟩ | ⟨rfl, _⟩
  · exact Or.inl ⟨rfl, rfl⟩
  · exact Or.inr ⟨rfl, rfl⟩

theorem halfBrewed_once : ∃ built,
    verbatim.pass (Place.path []) (.start halfBrewed { SessionOptions.plain with force := true }) =
      (built, .ok ()) ∧
    (verbatim.passWrites (Place.path []) (.start halfBrewed
      { SessionOptions.plain with force := true })).Pairwise
        (fun earlier later => earlier.same later = false) ∧
    built.session.counters.processed = (verbatim.passWrites (Place.path []) (.start halfBrewed
      { SessionOptions.plain with force := true })).length := by
  have intermediate : verbatim.Intermediate (Place.path ["a.cielo".toList])
      (Place.path ["a.coffee".toList]) := by
    constructor <;> decide
  apply pass_writes_once halfBrewed_sound
  · intro above suffix
    rw [List.suffix_nil.mp suffix]
    rfl
  · intro spot contents stamp under held
    rcases halfBrewed_files under with ⟨_, file⟩ | ⟨_, file⟩
    · cases file.symm.trans held
      decide
    · cases file.symm.trans held
      decide
  · intro spot other _ first second _ _
    rcases halfBrewed_files first with ⟨rfl, _⟩ | ⟨rfl, _⟩
    · rcases halfBrewed_files second with ⟨rfl, _⟩ | ⟨rfl, _⟩
      · exact Or.inl rfl
      · exact Or.inr (Or.inl intermediate)
    · rcases halfBrewed_files second with ⟨rfl, _⟩ | ⟨rfl, _⟩
      · exact Or.inr (Or.inr intermediate)
      · exact Or.inl rfl

end Half

end Brewery
