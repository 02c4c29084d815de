import Brewery.Proofs.Session.Footprint

/-!
What a session does when it reacts: the artifacts that it writes and the one that it takes away.
A removal of its own is remembered until the path is written again or spoken of, whatever is
said of it; and a path that is gone takes another along unless its removal is remembered.
-/

namespace Brewery.Brewer

/-- The artifacts that a chain writes, in order. -/
def chainWrites (brewer : Brewer) (source : Path) (always : Bool) :
    List Stage → Path → Option Text → Progress → List Path
  | [], _, _, _ => []
  | stage :: rest, input, carried, progress =>
      match brewer.hop source always stage input carried progress with
      | (progress, .passed carried) =>
          let later := brewer.chainWrites source always rest (input.artifact stage) carried progress
          if carried.isSome then input.artifact stage :: later else later
      | _ => []

/-- The artifacts that a session writes when a path is there. -/
def presentWrites (brewer : Brewer) (path : Path) (progress : Progress) : List Path :=
  let known := noted path progress
  let kind := brewer.classifier.classify path
  if kind = .unrecognized || known.session.isOwnWrite progress.disk path then []
  else brewer.chainWrites path false kind.chain path none known

/-- The artifact that a path takes along when it goes, if there is one to be taken. -/
def taken? (brewer : Brewer) (disk : Disk) (path : Path) : Option Path :=
  let kind := brewer.classifier.classify path
  if kind = .dataLiteral && !brewer.inStores path then none
  else (path.cascadeTarget? kind).filter fun target => (disk.removeFile target).isOk

/-- The artifacts that a reaction writes. -/
def writes (brewer : Brewer) (event : Event) (progress : Progress) : List Path :=
  match event with
  | .ready => []
  | .removed _ => []
  | .added path => brewer.presentWrites path
      (progress.tell [.debug "brew" event.label (brewer.short path)])
  | .changed path => brewer.presentWrites path
      (progress.tell [.debug "brew" event.label (brewer.short path)])

/-- The artifacts that a reaction takes away. -/
def deletes (brewer : Brewer) (event : Event) (progress : Progress) : List Path :=
  match event with
  | .removed path =>
      if progress.session.isOwnRemoval path then []
      else (brewer.taken? progress.disk path).toList
  | _ => []

variable {brewer : Brewer}

-- Only a removal that is not the session's own takes anything away, and then it is one artifact.
theorem mem_deletes {event : Event} {progress : Progress} {target : Path}
    (member : target ∈ brewer.deletes event progress) : ∃ spoken, event = .removed spoken ∧
      progress.session.isOwnRemoval spoken = false ∧
      brewer.taken? progress.disk spoken = some target ∧
      brewer.writes event progress = [] ∧ brewer.deletes event progress = [target] := by
  cases event with
  | removed spoken =>
      cases known : progress.session.isOwnRemoval spoken with
      | true => simp [deletes, known] at member
      | false =>
          have taken : brewer.taken? progress.disk spoken = some target := by
            simpa [deletes, known] using member
          exact ⟨spoken, rfl, known, taken, rfl, by simp [deletes, known, taken]⟩
  | _ => exact absurd member List.not_mem_nil

section Taken

variable {disk : Disk} {path target : Path}

theorem taken?_alone (none : (brewer.classifier.classify path = .dataLiteral ∧
    brewer.inStores path = false) ∨ path.cascadeTarget? (brewer.classifier.classify path) = none) :
    brewer.taken? disk path = Option.none := by
  rcases none with ⟨data, out⟩ | none
  · simp [taken?, data, out]
  · simp [taken?, none]

theorem taken?_kept {fault : Fault}
    (cascades : path.cascadeTarget? (brewer.classifier.classify path) = some target)
    (refused : disk.removeFile target = .error fault) : brewer.taken? disk path = none := by
  simp [taken?, cascades, refused, Except.isOk, Except.toBool]

theorem taken?_erased {place : Place}
    (meant : ¬(brewer.classifier.classify path = .dataLiteral ∧ brewer.inStores path = false))
    (cascades : path.cascadeTarget? (brewer.classifier.classify path) = some target)
    (entry : disk.entryAt? target = some place) (held : ∃ node, disk.node? place = some node)
    (solid : disk.isDirectoryAt place = false) : brewer.taken? disk path = some target := by
  simp [taken?, meant, cascades, Disk.removeFile_of_solid entry held solid, Except.isOk,
    Except.toBool]

end Taken

/-- A session that is to watch, and has not ended. -/
def Awake (session : Session) : Prop := session.options.watch = true ∧ session.phase ≠ .done

theorem ChainCase.awake {source input : Path} {always : Bool} {stages : List Stage}
    {disk after : Disk} {session later : Session} (awake : Awake session)
    (chain : ChainCase brewer source always stages input disk session after later) :
    Awake later := by
  induction chain with
  | finished => exact awake
  | outside => exact awake
  | stuck => exact awake
  | current _ _ _ ih => exact ih awake
  | @replaced _ _ _ _ _ session _ _ _ _ _ _ _ _ _ _ ih =>
      apply ih
      obtain ⟨options, phase, _⟩ := Session.recordWrite_same session _ _
      exact ⟨(congrArg SessionOptions.watch options).trans awake.1, phase.trans_ne awake.2⟩

-- Nothing that is told to a session ends it: it starts to watch when the first pass is over.
theorem handle_awake {progress : Progress} (awake : Awake progress.session) (event : Event) :
    Awake (brewer.handle event progress).1.session := by
  have present (path : Path) (log : Log) :
      Awake (brewer.whenPresent path (progress.tell log)).session := by
    have ended := whenPresent_cases brewer path (progress.tell log)
    generalize brewer.whenPresent path (progress.tell log) = after at ended ⊢
    cases ended with
    | ignored => exact awake
    | own => exact awake
    | built _ recognized _ =>
        obtain ⟨name, named⟩ := classify_named recognized
        have chain := runChain_cases brewer path false (brewer.classifier.classify path).chain named
          (carries_none (noted path (progress.tell log)).disk path)
        have noted : Awake (noted path (progress.tell log)).session := awake
        exact chain.awake noted
  rw [handle_active awake.2]
  cases event with
  | added path => exact present path _
  | changed path => exact present path _
  | removed path =>
      simp only
      have ended := whenGone_cases brewer path
        (progress.tell [.debug "brew" (Event.removed path).label (brewer.short path)])
      generalize brewer.whenGone path _ = after at ended ⊢
      cases ended <;> exact awake
  | ready =>
      have kept : Awake progress.session.markReady := by
        unfold Session.markReady
        split
        · exact ⟨awake.1, by simp [awake.1]⟩
        · exact awake
      simp only [whenReady]
      split <;> exact kept

-- An artifact counts as passed on with a text exactly when it was written, and then the session
-- records it with the stamp that it has after the hop. Nothing else is remembered of a hop.
theorem hop_session (brewer : Brewer) (source : Path) (always : Bool) (stage : Stage)
    (input : Path) (carried : Option Text) (progress : Progress) :
    (brewer.hop source always stage input carried progress).1.session =
      match (brewer.hop source always stage input carried progress).2 with
      | .passed (some _) => (progress.session.recordWrite
          (brewer.hop source always stage input carried progress).1.disk
          (input.artifact stage)).countProcessed
      | _ => progress.session := by
  unfold hop make
  simp only
  split
  · rfl
  split
  · rfl
  split
  · rfl
  · rfl
  split
  · rfl
  split
  · rfl
  · rfl

theorem hop_remembers (brewer : Brewer) (source : Path) (always : Bool) (stage : Stage)
    (input : Path) (carried : Option Text) (progress : Progress) (path : Path) :
    (brewer.hop source always stage input carried progress).1.session.isOwnRemoval path =
      match (brewer.hop source always stage input carried progress).2 with
      | .passed (some _) =>
          progress.session.isOwnRemoval path && !path.same (input.artifact stage)
      | _ => progress.session.isOwnRemoval path := by
  rw [hop_session]
  generalize brewer.hop source always stage input carried progress = result
  obtain ⟨after, outcome⟩ := result
  cases outcome with
  | passed carried =>
      cases carried with
      | none => rfl
      | some text => exact Session.isOwnRemoval_recordWrite _ _ _ _
  | stopped => rfl
  | failed error => rfl

theorem runChain_remembers (brewer : Brewer) (source : Path) (always : Bool) (stages : List Stage)
    (input : Path) (carried : Option Text) (progress : Progress) (path : Path) :
    (brewer.runChain source always stages input carried progress).1.session.isOwnRemoval path =
      (progress.session.isOwnRemoval path &&
        !(brewer.chainWrites source always stages input carried progress).any path.same) := by
  induction stages generalizing input carried progress with
  | nil => simp [runChain, chainWrites]
  | cons stage rest ih =>
      have first := hop_remembers brewer source always stage input carried progress path
      rw [runChain, chainWrites]
      generalize brewer.hop source always stage input carried progress = result at first ⊢
      obtain ⟨next, outcome⟩ := result
      cases outcome with
      | passed carried =>
          simp only [ih]
          cases carried with
          | none => simp only [first]; rfl
          | some text => simp only [first]; simp [Bool.and_assoc]
      | stopped => simpa using first
      | failed error => simpa using first

theorem whenPresent_remembers (brewer : Brewer) (spoken : Path) (progress : Progress) (path : Path) :
    (brewer.whenPresent spoken progress).session.isOwnRemoval path =
      (progress.session.isOwnRemoval path && !path.same spoken &&
        !(brewer.presentWrites spoken progress).any path.same) := by
  have forgotten : (noted spoken progress).session.isOwnRemoval path =
      (progress.session.isOwnRemoval path && !path.same spoken) :=
    Session.isOwnRemoval_forgetRemoval _ _ _
  have ended := whenPresent_cases brewer spoken progress
  generalize brewer.whenPresent spoken progress = after at ended ⊢
  rw [presentWrites]
  cases ended with
  | ignored unknown => simp [unknown, forgotten]
  | own log recognized known =>
      rw [if_pos (by rw [known, Bool.or_true])]
      simp [forgotten]
  | built log recognized foreign =>
      rw [if_neg (by simp [recognized, foreign])]
      simp [runChain_remembers, forgotten]

/-- A removal that is remembered is told of, and nothing else happens. -/
theorem whenGone_own {spoken : Path} {progress : Progress}
    (known : progress.session.isOwnRemoval spoken = true) :
    (brewer.whenGone spoken progress).disk = progress.disk ∧
      ∀ path, (brewer.whenGone spoken progress).session.isOwnRemoval path =
        (progress.session.isOwnRemoval path && !path.same spoken) := by
  rw [whenGone, if_pos known]
  exact ⟨rfl, Session.isOwnRemoval_forgetRemoval _ _⟩

/-- Any other path that is gone takes along what goes with it, and this is remembered. -/
theorem whenGone_foreign {spoken : Path} {progress : Progress}
    (foreign : progress.session.isOwnRemoval spoken = false) :
    ((brewer.whenGone spoken progress).disk = progress.disk ↔
      brewer.taken? progress.disk spoken = none) ∧
    ∀ path, (brewer.whenGone spoken progress).session.isOwnRemoval path =
      ((brewer.taken? progress.disk spoken).any path.same ||
        progress.session.isOwnRemoval path) := by
  have ended := whenGone_cases brewer spoken progress
  generalize brewer.whenGone spoken progress = after at ended ⊢
  cases ended with
  | own log known => exact absurd (known.symm.trans foreign) (by simp)
  | alone _ none =>
      rw [taken?_alone none]
      exact ⟨iff_of_true rfl rfl, fun path => rfl⟩
  | kept target fault log _ meant cascades refused =>
      rw [taken?_kept cascades refused]
      exact ⟨iff_of_true rfl rfl, fun path => rfl⟩
  | erased target place log _ meant cascades entry held solid =>
      rw [taken?_erased meant cascades entry held solid]
      refine ⟨iff_of_false (Disk.erase_ne held solid) (by simp), fun path => ?_⟩
      exact Session.isOwnRemoval_recordRemoval _ _ _

theorem handle_gone {progress : Progress} (active : progress.session.phase ≠ .done) (path : Path) :
    ∃ log, (brewer.handle (.removed path) progress).1 =
      brewer.whenGone path (progress.tell log) :=
  ⟨_, handle_active active (.removed path)⟩

/-- What a session remembers of removals after a reaction: what it took away just now, and what
it remembered already unless the event spoke of it or it was written. -/
theorem handle_remembers {progress : Progress} (active : progress.session.phase ≠ .done)
    (event : Event) (path : Path) :
    (brewer.handle event progress).1.session.isOwnRemoval path =
      ((brewer.deletes event progress).any path.same ||
        progress.session.isOwnRemoval path && !event.path?.any path.same &&
          !(brewer.writes event progress).any path.same) := by
  cases event with
  | ready =>
      rw [handle_active active]
      have same : (brewer.whenReady progress).1.session.isOwnRemoval path =
          progress.session.isOwnRemoval path := by
        unfold whenReady Session.markReady
        simp only
        split <;> split <;> rfl
      simp [same, deletes, writes, Event.path?]
  | added spoken =>
      rw [handle_active active, whenPresent_remembers]
      simp [deletes, writes, Event.path?]
  | changed spoken =>
      rw [handle_active active, whenPresent_remembers]
      simp [deletes, writes, Event.path?]
  | removed spoken =>
      obtain ⟨log, gone⟩ := @handle_gone brewer progress active spoken
      rw [gone]
      simp only [writes, deletes, Event.path?, Option.any_some, List.any_nil, Bool.not_false,
        Bool.and_true]
      cases known : progress.session.isOwnRemoval spoken with
      | true =>
          have own := @whenGone_own brewer spoken (progress.tell log) known
          rw [own.2]
          simp
      | false =>
          have foreign := @whenGone_foreign brewer spoken (progress.tell log) known
          rw [foreign.2, Progress.tell_disk, Progress.tell_session]
          have silent : progress.session.isOwnRemoval path =
              (progress.session.isOwnRemoval path && !path.same spoken) := by
            cases same : path.same spoken with
            | false => simp
            | true =>
                rw [Session.isOwnRemoval, show path.same = spoken.same from
                  funext (Path.same_congr same)]
                simpa [Session.isOwnRemoval] using known
          rw [← silent]
          cases brewer.taken? progress.disk spoken <;> simp

/-- A removal leaves the disk as it is when the session remembers it for its own, or when there is
nothing to take along. -/
theorem handle_removed_spares_iff {progress : Progress} (active : progress.session.phase ≠ .done)
    (path : Path) : (brewer.handle (.removed path) progress).1.disk = progress.disk ↔
      progress.session.isOwnRemoval path = true ∨ brewer.taken? progress.disk path = none := by
  obtain ⟨log, gone⟩ := @handle_gone brewer progress active path
  rw [gone]
  cases known : progress.session.isOwnRemoval path with
  | true =>
      have own := @whenGone_own brewer path (progress.tell log) known
      exact iff_of_true own.1 (Or.inl rfl)
  | false =>
      have foreign := @whenGone_foreign brewer path (progress.tell log) known
      simpa using foreign.1

end Brewery.Brewer
