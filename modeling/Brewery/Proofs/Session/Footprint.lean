import Brewery.Proofs.Session.Cases
import Brewery.Proofs.Session.Memory

/-!
The footprint of an event. Whatever the disk, the session and the event: what is added or
changed can only have artifacts of its own chain replaced, each as a whole, and each is
counted; what is removed can only take the artifact of its first stage with it; and a path
that is not brewed leaves the disk alone.
-/

namespace Brewery

/-- A path that no session brews: hidden, of no kind, of a kind that is switched off, or a data
literal outside the stores. -/
def Brewer.Inert (brewer : Brewer) (path : Path) : Prop :=
  path.isExcluded brewer.root = true ∨ SourceKind.ofPath path = .unrecognized ∨
    SourceKind.ofPath path ∉ brewer.classifier.enabled ∨
    SourceKind.ofPath path = .dataLiteral ∧ brewer.inStores path = false

/-- The rewriting of a chain, from its first input on. Every artifact is left as it is or
replaced by the whole output of its stage on the text that its input has at that moment; the
number is how many are replaced. -/
inductive Rewrites (brewer : Brewer) : List Stage → Path → Disk → Disk → Nat → Prop where
  | leave {stages : List Stage} {input : Path} {disk : Disk} :
      Rewrites brewer stages input disk disk 0
  | pass {stage : Stage} {rest : List Stage} {input : Path} {disk after : Disk} {count : Nat}
      (onward : Rewrites brewer rest (input.artifact stage) disk after count) :
      Rewrites brewer (stage :: rest) input disk after count
  | replace {stage : Stage} {rest : List Stage} {input : Path} {disk after : Disk} {count : Nat}
      {text output : Text} {place : Place} (read : disk.readText input = .ok text)
      (made : (brewer.transform disk stage text input).2 = .ok output)
      (entry : disk.entryAt? (input.artifact stage) = some place)
      (solid : disk.isDirectoryAt place = false)
      (onward : Rewrites brewer rest (input.artifact stage)
        (disk.putFile place (.text output)) after count) :
      Rewrites brewer (stage :: rest) input disk after (count + 1)

namespace Rewrites

variable {brewer : Brewer} {stages : List Stage} {input : Path} {before after : Disk} {count : Nat}

theorem overlaid (rewrites : Rewrites brewer stages input before after count) :
    Disk.Overlaid before after := by
  induction rewrites with
  | leave => exact Disk.Overlaid.refl _
  | pass _ ih => exact ih
  | replace _ _ _ solid _ ih => exact (Disk.Overlaid.putFile solid _).trans ih

-- The clock tells the artifacts that are replaced from those that are left.
theorem clock (rewrites : Rewrites brewer stages input before after count) :
    after.clock = before.clock + count := by
  induction rewrites with
  | leave => simp
  | pass _ ih => exact ih
  | replace _ _ _ _ _ ih =>
      rw [ih]
      simp only [Disk.putFile]
      omega

/-- Only the entries of the artifacts change. Where they are is decided before the first of
them is written. -/
theorem frame (rewrites : Rewrites brewer stages input before after count) {place : Place}
    (elsewhere : ∀ artifact ∈ input.artifacts stages, before.entryAt? artifact ≠ some place) :
    after.node? place = before.node? place := by
  induction rewrites with
  | leave => rfl
  | pass _ ih => exact ih fun artifact member => elsewhere artifact (List.mem_cons_of_mem _ member)
  | @replace stage rest input disk after count text output spot _ _ entry solid _ ih =>
      have ways := Disk.NoNewWays.of_overlaid (Disk.Overlaid.putFile solid (.text output))
      have different : place ≠ spot := by
        rintro rfl
        exact elsewhere _ List.mem_cons_self entry
      rw [ih fun artifact member found =>
        elsewhere artifact (List.mem_cons_of_mem _ member) (Disk.entryAt?_back ways found)]
      rw [Disk.node?_putFile (Disk.place_ne_nil solid), if_neg different]

end Rewrites

namespace Brewer

variable {brewer : Brewer}

-- The number that a chain counts is the number of artifacts it replaces, also when it ends in
-- a failure.
theorem chain_rewrites {source : Path} {always : Bool} {stages : List Stage} {input : Path}
    {disk after : Disk} {session later : Session}
    (chain : ChainCase brewer source always stages input disk session after later) :
    ∃ count, Rewrites brewer stages input disk after count ∧
      later.counters = ⟨session.counters.processed + count, session.counters.executed⟩ := by
  induction chain with
  | finished => exact ⟨0, .leave, rfl⟩
  | outside => exact ⟨0, .leave, rfl⟩
  | stuck => exact ⟨0, .leave, rfl⟩
  | current _ _ _ ih =>
      obtain ⟨count, rewrites, counted⟩ := ih
      exact ⟨count, .pass rewrites, counted⟩
  | @replaced _ _ _ _ _ session _ _ _ _ read made entry solid _ _ ih =>
      obtain ⟨count, rewrites, counted⟩ := ih
      refine ⟨count + 1, .replace read made entry solid rewrites, ?_⟩
      rw [counted, Session.counters_recorded, Nat.add_assoc, Nat.add_comm 1]

theorem whenPresent_rewrites (brewer : Brewer) (path : Path) (progress : Progress) :
    ∃ count, Rewrites brewer (brewer.classifier.classify path).chain path progress.disk
        (brewer.whenPresent path progress).disk count ∧
      (brewer.whenPresent path progress).session.counters =
        ⟨progress.session.counters.processed + count, progress.session.counters.executed⟩ := by
  have ended := whenPresent_cases brewer path progress
  generalize brewer.whenPresent path progress = after at ended ⊢
  cases ended with
  | ignored => exact ⟨0, .leave, rfl⟩
  | own => exact ⟨0, .leave, rfl⟩
  | built log recognized foreign =>
      obtain ⟨name, named⟩ := classify_named recognized
      have chain := runChain_cases brewer path false (brewer.classifier.classify path).chain named
        (carries_none (noted path progress).disk path)
      obtain ⟨count, rewrites, counted⟩ := chain_rewrites chain
      exact ⟨count, rewrites, counted⟩

/-- A removal leaves the disk alone or takes the artifact of the first stage, and no other. -/
theorem whenGone_erases (brewer : Brewer) (path : Path) (progress : Progress) :
    (brewer.whenGone path progress).session.counters = progress.session.counters ∧
      ((brewer.whenGone path progress).disk = progress.disk ∨ ∃ target place,
        path.cascadeTarget? (brewer.classifier.classify path) = some target ∧
        progress.disk.entryAt? target = some place ∧ progress.disk.isDirectoryAt place = false ∧
        (brewer.whenGone path progress).disk = progress.disk.erase place) := by
  have ended := whenGone_cases brewer path progress
  generalize brewer.whenGone path progress = after at ended ⊢
  cases ended with
  | own => exact ⟨rfl, Or.inl rfl⟩
  | alone => exact ⟨rfl, Or.inl rfl⟩
  | kept => exact ⟨rfl, Or.inl rfl⟩
  | erased target place log foreign meant cascades entry held solid =>
      exact ⟨rfl, Or.inr ⟨target, place, cascades, entry, solid, rfl⟩⟩

theorem inert_cases {path : Path} (inert : brewer.Inert path) :
    brewer.classifier.classify path = .unrecognized ∨
      brewer.classifier.classify path = .dataLiteral ∧ brewer.inStores path = false := by
  unfold Classifier.classify
  simp only
  split
  · next active =>
      simp only [Bool.and_eq_true, Bool.not_eq_true', decide_eq_true_eq, List.elem_eq_mem] at active
      rcases inert with hidden | unknown | disabled | outside
      · exact absurd (hidden.symm.trans active.1.1) (by simp)
      · exact absurd unknown active.1.2
      · exact absurd active.2 disabled
      · exact Or.inr outside
  · exact Or.inl rfl

theorem whenPresent_inert {path : Path} (inert : brewer.Inert path) (progress : Progress) :
    (brewer.whenPresent path progress).disk = progress.disk := by
  have ended := whenPresent_cases brewer path progress
  generalize brewer.whenPresent path progress = after at ended ⊢
  cases ended with
  | ignored => rfl
  | own => rfl
  | built log recognized foreign =>
      obtain ⟨kind, out⟩ := (inert_cases inert).resolve_left recognized
      simp [kind, SourceKind.chain, runChain, hop, out, noted]

theorem whenGone_inert {path : Path} (inert : brewer.Inert path) (progress : Progress) :
    (brewer.whenGone path progress).disk = progress.disk := by
  have ended := whenGone_cases brewer path progress
  generalize brewer.whenGone path progress = after at ended ⊢
  cases ended with
  | own => rfl
  | alone => rfl
  | kept => rfl
  | erased target place log foreign meant cascades =>
      rcases inert_cases inert with unknown | outside
      · simp [unknown, Path.cascadeTarget?, SourceKind.chain] at cascades
      · exact absurd outside meant

section Building

theorem execute_disk (brewer : Brewer) (artifact : Path) (progress : Progress) :
    (brewer.execute artifact progress).disk = progress.disk := by
  unfold execute
  split <;> rfl

-- Running the script that was built, and telling of a failure, leave the disk alone.
theorem buildFile_disk (brewer : Brewer) (path : Path) (progress : Progress) :
    (brewer.buildFile path progress).disk = (brewer.runChain path true
      (brewer.classifier.classify path).chain path none progress).1.disk := by
  simp only [buildFile]
  split
  · next ends =>
      rw [ends]
      split
      · exact execute_disk _ _ _
      · rfl
  · next ends => rw [ends]
  · next after error ends =>
      obtain ⟨log, told⟩ := reportFailure_eq brewer path error after
      rw [ends, told, Progress.tell_disk]

theorem buildFile_rewrites (brewer : Brewer) (path : Path) (progress : Progress) :
    ∃ count, Rewrites brewer (brewer.classifier.classify path).chain path progress.disk
      (brewer.buildFile path progress).disk count := by
  rw [buildFile_disk]
  by_cases unknown : brewer.classifier.classify path = .unrecognized
  · rw [unknown]
    exact ⟨0, .leave⟩
  · obtain ⟨name, named⟩ := classify_named unknown
    obtain ⟨count, rewrites, _⟩ :=
      chain_rewrites (runChain_cases brewer path true _ named (carries_none progress.disk path))
    exact ⟨count, rewrites⟩

/-- How many scripts a build starts when its chain ends so. -/
def started (brewer : Brewer) (path : Path) : Except StageError Bool → Nat
  | .ok true =>
      if brewer.classifier.classify path = .macroScript && brewer.runner.isSome then 1 else 0
  | _ => 0

theorem buildFile_counters (brewer : Brewer) (path : Path) (progress : Progress) :
    (brewer.buildFile path progress).session.counters =
      let ended :=
        brewer.runChain path true (brewer.classifier.classify path).chain path none progress
      ⟨ended.1.session.counters.processed,
        ended.1.session.counters.executed + brewer.started path ended.2⟩ := by
  simp only [buildFile]
  split
  · next ends =>
      rw [ends]
      split
      · next script =>
          unfold execute
          split
          · next none => simp [started, none]
          · next argv runner => simp [started, script, runner, Session.countExecuted]
      · next other => simp [started, other]
  · next ends =>
      rw [ends]
      rfl
  · next after error ends =>
      obtain ⟨log, told⟩ := reportFailure_eq brewer path error after
      rw [ends, told]
      rfl

theorem buildFile_processed (brewer : Brewer) (path : Path) (progress : Progress) :
    (brewer.buildFile path progress).session.counters.processed = (brewer.runChain path true
      (brewer.classifier.classify path).chain path none progress).1.session.counters.processed := by
  rw [buildFile_counters]

theorem build_known {files : List Path}
    (known : ∀ path ∈ files, brewer.classifier.classify path ≠ .unrecognized)
    (progress : Progress) :
    brewer.build files progress =
      (files.foldl (fun progress path => brewer.buildFile path progress) progress, .ok ()) := by
  have all : files.find? (fun path => brewer.classifier.classify path = .unrecognized) = none := by
    simpa [List.find?_eq_none] using known
  rw [Brewer.build, all]

end Building

theorem handle_done {progress : Progress} (done : progress.session.phase = .done) (event : Event) :
    brewer.handle event progress = (progress, .stop) := by
  simp [handle, done]

-- An event that has a path is logged and passed on.
theorem handle_active {progress : Progress} (active : progress.session.phase ≠ .done) :
    ∀ event, (brewer.handle event progress).1 = match event with
      | .ready => (brewer.whenReady progress).1
      | .removed path => brewer.whenGone path
          (progress.tell [.debug "brew" event.label (brewer.short path)])
      | .added path => brewer.whenPresent path
          (progress.tell [.debug "brew" event.label (brewer.short path)])
      | .changed path => brewer.whenPresent path
          (progress.tell [.debug "brew" event.label (brewer.short path)]) := by
  intro event
  cases event <;> simp [handle, active, Event.path?]

theorem whenReady_disk (brewer : Brewer) (progress : Progress) :
    (brewer.whenReady progress).1.disk = progress.disk := by
  unfold whenReady
  simp only
  split <;> rfl

theorem handle_present (brewer : Brewer) {path : Path} {event : Event}
    (present : event = .added path ∨ event = .changed path) (progress : Progress) :
    ∃ count, Rewrites brewer (brewer.classifier.classify path).chain path progress.disk
        (brewer.handle event progress).1.disk count ∧
      (brewer.handle event progress).1.session.counters =
        ⟨progress.session.counters.processed + count, progress.session.counters.executed⟩ := by
  by_cases done : progress.session.phase = .done
  · rw [handle_done done]
    exact ⟨0, .leave, rfl⟩
  · rw [handle_active done]
    rcases present with rfl | rfl
    · exact whenPresent_rewrites brewer path (progress.tell _)
    · exact whenPresent_rewrites brewer path (progress.tell _)

theorem handle_added (brewer : Brewer) (path : Path) (progress : Progress) :
    ∃ count, Rewrites brewer (brewer.classifier.classify path).chain path progress.disk
        (brewer.handle (.added path) progress).1.disk count ∧
      (brewer.handle (.added path) progress).1.session.counters =
        ⟨progress.session.counters.processed + count, progress.session.counters.executed⟩ :=
  handle_present brewer (Or.inl rfl) progress

theorem handle_removed (brewer : Brewer) (path : Path) (progress : Progress) :
    (brewer.handle (.removed path) progress).1.session.counters = progress.session.counters ∧
      ((brewer.handle (.removed path) progress).1.disk = progress.disk ∨ ∃ target place,
        path.cascadeTarget? (brewer.classifier.classify path) = some target ∧
        progress.disk.entryAt? target = some place ∧ progress.disk.isDirectoryAt place = false ∧
        (brewer.handle (.removed path) progress).1.disk = progress.disk.erase place) := by
  by_cases done : progress.session.phase = .done
  · rw [handle_done done]
    exact ⟨rfl, Or.inl rfl⟩
  · rw [handle_active done]
    exact whenGone_erases brewer path (progress.tell _)

theorem handle_inert {path : Path} {event : Event} (about : event.path? = some path)
    (inert : brewer.Inert path) (progress : Progress) :
    (brewer.handle event progress).1.disk = progress.disk := by
  by_cases done : progress.session.phase = .done
  · rw [handle_done done]
  · rw [handle_active done]
    cases event with
    | ready => exact absurd about (by simp [Event.path?])
    | added other =>
        cases about
        exact whenPresent_inert inert (progress.tell _)
    | changed other =>
        cases about
        exact whenPresent_inert inert (progress.tell _)
    | removed other =>
        cases about
        exact whenGone_inert inert (progress.tell _)

/-- What an event may do to the disk and to the counters, whatever the session has been through
before it. -/
theorem handle_footprint (brewer : Brewer) (event : Event) (progress : Progress) :
    (progress.session.phase = .done → brewer.handle event progress = (progress, .stop)) ∧
    (event = .ready → (brewer.handle event progress).1.disk = progress.disk) ∧
    (∀ path, event = .added path ∨ event = .changed path →
      (∀ place, progress.disk.node? place ≠ none →
        (brewer.handle event progress).1.disk.node? place ≠ none) ∧
      (∀ place, (∀ artifact ∈ path.artifacts (brewer.classifier.classify path).chain,
          progress.disk.entryAt? artifact ≠ some place) →
        (brewer.handle event progress).1.disk.node? place = progress.disk.node? place) ∧
      ∃ count, Rewrites brewer (brewer.classifier.classify path).chain path progress.disk
          (brewer.handle event progress).1.disk count ∧
        (brewer.handle event progress).1.session.counters =
          ⟨progress.session.counters.processed + count, progress.session.counters.executed⟩) ∧
    (∀ path, event = .removed path →
      (brewer.handle event progress).1.session.counters = progress.session.counters ∧
      ((brewer.handle event progress).1.disk = progress.disk ∨ ∃ target place,
        path.cascadeTarget? (brewer.classifier.classify path) = some target ∧
        progress.disk.entryAt? target = some place ∧ progress.disk.isDirectoryAt place = false ∧
        (brewer.handle event progress).1.disk = progress.disk.erase place)) ∧
    (∀ path, event.path? = some path → brewer.Inert path →
      (brewer.handle event progress).1.disk = progress.disk) := by
  refine ⟨fun done => handle_done done event, ?_, ?_, ?_, ?_⟩
  · rintro rfl
    by_cases done : progress.session.phase = .done
    · rw [handle_done done]
    · rw [handle_active done]
      exact whenReady_disk brewer progress
  · intro path present
    obtain ⟨count, rewrites, counted⟩ := handle_present brewer present progress
    exact ⟨fun place held => rewrites.overlaid.keeps held,
      fun place elsewhere => rewrites.frame elsewhere, count, rewrites, counted⟩
  · rintro path rfl
    exact handle_removed brewer path progress
  · intro path about inert
    exact handle_inert about inert progress

end Brewer
end Brewery
