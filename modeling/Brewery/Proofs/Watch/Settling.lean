import Brewery.Proofs.Watch.Queue

/-!
No update is lost. At every moment each artifact is fresh, or the session has still to be told
of its input: an addition that is in the queue, with no removal of the same path behind it. A
removal that comes late may take a fresh artifact away, but then such an addition is on its way.
So when the queue is empty, everything is fresh.
-/

namespace Brewery

/-- Every artifact of every source is fresh, and a source that is gone has taken the artifact of
its first stage with it. -/
def Settled (brewer : Brewer) (sources : Path → Prop) (disk : Disk) : Prop :=
  ∀ source, sources source →
    (∀ hop ∈ hops (brewer.stages source) source, Fresh brewer disk hop.1 hop.2) ∧
      (disk.holds source = false → ∀ stage rest, brewer.stages source = stage :: rest →
        disk.holds (source.artifact stage) = false)

namespace Watch

/-- A hop that the session would not look at, if it were told of its input now, is fresh. -/
def Skippable (brewer : Brewer) (watch : Watch) (hop : Stage × Path) : Prop :=
  brewer.classifier.classify hop.2 = .unrecognized ∨
      watch.progress.session.isOwnWrite watch.progress.disk hop.2 = true →
    Fresh brewer watch.progress.disk hop.1 hop.2

/-- A hop is fresh and no removal threatens it, or the session will be told of its input. -/
def Announced (brewer : Brewer) (watch : Watch) (hop : Stage × Path) : Prop :=
  watch.progress.disk.nodeAt? hop.2 ≠ none →
    Fresh brewer watch.progress.disk hop.1 hop.2 ∧ .removed hop.2 ∉ watch.queue ∨
      Pending hop.2 watch.queue

/-- A source that is gone has taken its first artifact along, or will be told to be gone. -/
def Cleared (brewer : Brewer) (watch : Watch) (source : Path) : Prop :=
  watch.progress.disk.nodeAt? source = none →
    (∀ stage rest, brewer.stages source = stage :: rest →
      watch.progress.disk.nodeAt? (source.artifact stage) = none) ∨ .removed source ∈ watch.queue

structure Sound (brewer : Brewer) (sources : Path → Prop) (watch : Watch) : Prop where
  laid : Laid brewer sources watch.progress.disk
  phase : watch.progress.session.phase = .watching
  knows : watch.progress.session.Knows (IsArtifact brewer sources)
  includes : IncludesNothing brewer sources watch.progress.disk
  told : ∀ event ∈ watch.queue, ∃ path, event.path? = some path ∧ Family brewer sources path
  skippable : ∀ source, sources source → ∀ hop ∈ hops (brewer.stages source) source,
    Skippable brewer watch hop
  announced : ∀ source, sources source → ∀ hop ∈ hops (brewer.stages source) source,
    Announced brewer watch hop
  cleared : ∀ source, sources source → Cleared brewer watch source

variable {brewer : Brewer} {sources : Path → Prop} {watch : Watch}

section Users

variable {path source : Path} {event : Event} {node : Option Node} {after : Disk}

/-- A source that the user has changed, and the event that tells of it. -/
structure Edit (brewer : Brewer) (sources : Path → Prop) (watch : Watch) (path : Path)
    (event : Event) (node : Option Node) (after : Disk) : Prop where
  source : sources path
  sets : Sets brewer sources watch.progress.disk path node after
  about : event.path? = some path
  there : node ≠ none → Tells event path
  gone : node = none → event = .removed path
  includes : IncludesNothing brewer sources after

/-- The event about a change comes to the end of the queue. -/
def tell (watch : Watch) (event : Event) (after : Disk) : Watch :=
  ⟨{ watch.progress with disk := after }, watch.queue ++ [event]⟩

theorem Edit.silent {other : Path} (edit : Edit brewer sources watch path event node after)
    (different : other ≠ path) : .removed other ∉ [event] := by
  intro member
  have about := edit.about
  rw [← List.mem_singleton.mp member] at about
  exact different (Option.some.inj about)

theorem Edit.same (edit : Edit brewer sources watch path event node after)
    (laid : Laid brewer sources watch.progress.disk) (held : sources source) {hop : Stage × Path}
    (member : hop ∈ hops (brewer.stages source) source) (different : hop.2 ≠ path) :
    after.nodeAt? hop.2 = watch.progress.disk.nodeAt? hop.2 ∧
      after.nodeAt? (hop.2.artifact hop.1) =
        watch.progress.disk.nodeAt? (hop.2.artifact hop.1) := by
  obtain ⟨family, output⟩ := hops_family held member
  constructor
  · exact edit.sets.elsewhere _ family different
  · apply edit.sets.elsewhere _ output
    exact laid.apart path source _ edit.source held (mem_hops member).2

theorem Edit.skippable (pure : brewer.IsPure) (sound : Sound brewer sources watch)
    (edit : Edit brewer sources watch path event node after) (held : sources source)
    {hop : Stage × Path} (member : hop ∈ hops (brewer.stages source) source) :
    Skippable brewer (watch.tell event after) hop := by
  intro known
  by_cases here : hop.2 = path
  · rw [here] at known
    have first := hops_source sound.laid.toLayout held member (here ▸ edit.source)
    rcases known with unknown | own
    · rw [← here, first] at unknown
      exact absurd unknown (hops_recognized member)
    · have foreign := foreign_source sound.laid sound.knows edit.source after
      exact absurd (own.symm.trans foreign.1) (by simp)
  · obtain ⟨input, output⟩ := edit.same sound.laid held member here
    have stamp := sound.laid.stamp?_congr edit.sets.laid (hops_family held member).1 input
    apply Fresh.congr pure sound.laid edit.sets.laid sound.includes held member input output
    apply sound.skippable source held hop member
    exact known.imp id fun own => (isOwnWrite_congr rfl stamp).symm.trans own

theorem Edit.announced (pure : brewer.IsPure) (sound : Sound brewer sources watch)
    (edit : Edit brewer sources watch path event node after) (held : sources source)
    {hop : Stage × Path} (member : hop ∈ hops (brewer.stages source) source) :
    Announced brewer (watch.tell event after) hop := by
  intro present
  by_cases here : hop.2 = path
  · right
    have tells : Tells event hop.2 := by
      rw [here]
      apply edit.there
      rw [← edit.sets.here, ← here]
      exact present
    refine .of_mem List.mem_cons_self tells fun gone => ?_
    rcases tells with rfl | rfl
    · exact absurd (List.mem_singleton.mp gone) (by simp)
    · exact absurd (List.mem_singleton.mp gone) (by simp)
  · obtain ⟨input, output⟩ := edit.same sound.laid held member here
    have before : watch.progress.disk.nodeAt? hop.2 ≠ none := fun none => present (input.trans none)
    rcases sound.announced source held hop member before with ⟨fresh, quiet⟩ | pending
    · left
      constructor
      · exact fresh.congr pure sound.laid edit.sets.laid sound.includes held member input output
      · intro late
        rcases List.mem_append.mp late with old | last
        · exact quiet old
        · exact edit.silent here last
    · exact Or.inr (pending.append (edit.silent here))

theorem Edit.cleared (sound : Sound brewer sources watch)
    (edit : Edit brewer sources watch path event node after) (held : sources source) :
    Cleared brewer (watch.tell event after) source := by
  intro absent
  by_cases here : source = path
  · subst here
    have none : node = none := edit.sets.here.symm.trans absent
    exact Or.inr (List.mem_append_right _ (edit.gone none ▸ List.mem_cons_self))
  · have before := (edit.sets.elsewhere source (.of_source held) here).symm.trans absent
    rcases sound.cleared source held before with vacant | late
    · left
      intro stage rest shape
      have member : source.artifact stage ∈ source.artifacts (brewer.stages source) := by
        rw [shape]
        exact List.mem_cons_self
      have away := sound.laid.apart path source _ edit.source held member
      exact (edit.sets.elsewhere _ (.of_artifact held member) away).trans (vacant stage rest shape)
    · exact Or.inr (List.mem_append_left _ late)

theorem sound_user (pure : brewer.IsPure) (sound : Sound brewer sources watch)
    (edit : Edit brewer sources watch path event node after) :
    Sound brewer sources (watch.tell event after) where
  laid := edit.sets.laid
  phase := sound.phase
  knows := sound.knows
  includes := edit.includes
  told := by
    intro other member
    rcases List.mem_append.mp member with before | last
    · exact sound.told other before
    · rw [List.mem_singleton.mp last]
      exact ⟨path, edit.about, .of_source edit.source⟩
  skippable := fun _ held _ member => edit.skippable pure sound held member
  announced := fun _ held _ member => edit.announced pure sound held member
  cleared := fun _ held => edit.cleared sound held

end Users

section Echoes

variable {path : Path} {rest : List Event} {after : Progress}

/-- The rest of the queue stays, and what a reaction has done comes after it. -/
def echo (watch : Watch) (rest : List Event) (path : Path) (brewer : Brewer) (after : Progress) :
    Watch :=
  ⟨after, rest ++ reports watch.progress.disk after.disk (path.artifacts (brewer.stages path))⟩

theorem echo_told {event : Event} (sound : Sound brewer sources watch)
    (shape : watch.queue = event :: rest) (family : Family brewer sources path) :
    ∀ other ∈ (watch.echo rest path brewer after).queue,
      ∃ place, other.path? = some place ∧ Family brewer sources place := by
  intro other member
  rcases List.mem_append.mp member with before | echo
  · exact sound.told other (shape ▸ List.mem_cons_of_mem _ before)
  · obtain ⟨artifact, inside, told⟩ := mem_reports echo
    refine ⟨artifact, ?_, family.further inside⟩
    rcases told with ⟨rfl, _⟩ | ⟨rfl, _⟩ <;> rfl

-- What is there is not reported to be gone.
theorem echo_quiet {other : Path} (laid : Laid brewer sources after.disk)
    (family : Family brewer sources other) (present : after.disk.nodeAt? other ≠ none) :
    .removed other ∉ reports watch.progress.disk after.disk (path.artifacts (brewer.stages path)) :=
  reports_present (laid.stamp?_isSome family present)

end Echoes

section Present

variable {path source : Path} {after : Disk} {later : Session}

/-- A chain that has been run for its own path has made its first artifact fresh. -/
theorem first_fresh {session : Session} {disk : Disk}
    (chained : Chained brewer sources false (brewer.stages path) path disk session after later)
    (eager : session.scanComplete = true) {hop : Stage × Path}
    (member : hop ∈ hops (brewer.stages source) source) (here : hop.2 = path)
    (recognized : brewer.classifier.classify path ≠ .unrecognized) :
    Fresh brewer after hop.1 hop.2 := by
  subst here
  have mine := (hops_own member).resolve_right recognized
  have nodup := artifacts_nodup brewer hop.2
  cases shape : brewer.stages hop.2 with
  | nil =>
      rw [shape] at mine
      exact absurd mine (by simp [hops])
  | cons stage rest =>
      rw [shape] at mine nodup
      rcases List.mem_cons.mp mine with same | further
      · have first : hop.1 = stage := congrArg Prod.fst same
        rw [first]
        rcases chained.first stage rest shape with fresh | ⟨_, kept⟩
        · exact fresh
        · rw [Session.needsRebuild, eager, Bool.or_true, if_pos rfl] at kept
          exact absurd kept (by simp)
      · exact absurd (mem_hops further).1 (List.nodup_cons.mp nodup).1

-- What the session did itself needs no chain: it is as fresh as a chain would make it.
theorem present_chained (pure : brewer.IsPure) (sound : Sound brewer sources watch)
    (family : Family brewer sources path) :
    Chained brewer sources false (brewer.stages path) path watch.progress.disk
      (watch.progress.session.forgetRemoval path) (brewer.whenPresent path watch.progress).disk
      (brewer.whenPresent path watch.progress).session := by
  rcases present_chain brewer path watch.progress with ⟨known, disk, session⟩ | chain
  · rw [disk, session]
    refine .untouched sound.laid fun stage rest shape => ?_
    obtain ⟨source, held, member⟩ := hops_of_stages family shape
    exact sound.skippable source held (stage, path) member known
  · exact chain_effect pure chain sound.laid (orderly_stages sound.includes family)

/-- A reaction to an addition or a change. -/
structure Present (brewer : Brewer) (sources : Path → Prop) (watch : Watch) (event : Event)
    (rest : List Event) (path : Path) (after : Progress) : Prop where
  shape : watch.queue = event :: rest
  tells : Tells event path
  family : Family brewer sources path
  chained : Chained brewer sources false (brewer.stages path) path watch.progress.disk
    (watch.progress.session.forgetRemoval path) after.disk after.session

variable {event : Event} {rest : List Event} {next : Progress} {hop : Stage × Path}

theorem Present.stays_fresh (pure : brewer.IsPure) (sound : Sound brewer sources watch)
    (present : Present brewer sources watch event rest path next) (held : sources source)
    (member : hop ∈ hops (brewer.stages source) source)
    (fresh : Fresh brewer watch.progress.disk hop.1 hop.2) : Fresh brewer next.disk hop.1 hop.2 :=
  present.chained.stays_fresh pure sound.laid sound.includes present.family held member fresh

theorem Present.skippable (pure : brewer.IsPure) (sound : Sound brewer sources watch)
    (present : Present brewer sources watch event rest path next) (held : sources source)
    (member : hop ∈ hops (brewer.stages source) source) :
    Skippable brewer (watch.echo rest path brewer next) hop := by
  intro known
  have before := sound.skippable source held hop member
  rcases known with unknown | own
  · exact present.stays_fresh pure sound held member (before (Or.inl unknown))
  · exact present.chained.own_fresh pure sound.laid sound.includes present.family held member
      (fun own => before (Or.inr own)) own

-- The addition that was pending is the one that is handled now.
theorem Present.handled_fresh (pure : brewer.IsPure) (sound : Sound brewer sources watch)
    (present : Present brewer sources watch event rest path next) (held : sources source)
    (member : hop ∈ hops (brewer.stages source) source) (tells : Tells event hop.2) :
    Fresh brewer next.disk hop.1 hop.2 := by
  have eager : (watch.progress.session.forgetRemoval path).scanComplete = true := by
    simp [Session.scanComplete, Session.forgetRemoval, sound.phase]
  have here : hop.2 = path := by
    rcases present.tells with rfl | rfl <;> rcases tells with again | again <;> cases again <;> rfl
  by_cases unknown : brewer.classifier.classify path = .unrecognized
  · apply present.stays_fresh pure sound held member
    exact sound.skippable source held hop member (Or.inl (here ▸ unknown))
  · exact first_fresh present.chained eager member here unknown

-- An input that the chain has written is reported.
theorem Present.written_pending (sound : Sound brewer sources watch)
    (present : Present brewer sources watch event rest path next)
    (family : Family brewer sources hop.2) (there : next.disk.nodeAt? hop.2 ≠ none)
    (changed : next.disk.nodeAt? hop.2 ≠ watch.progress.disk.nodeAt? hop.2) :
    Pending hop.2 (watch.echo rest path brewer next).queue := by
  have inside : hop.2 ∈ path.artifacts (brewer.stages path) := by
    by_contra outside
    exact changed (present.chained.elsewhere hop.2 family outside).1
  rcases present.chained.written hop.2 inside with ⟨still, _⟩ | ⟨contents, stamp, node, dated⟩
  · exact absurd still changed
  · have stamped : next.disk.stamp? hop.2 = some stamp := by
      rw [present.chained.laid.stamp?_eq family, node]
    have new : watch.progress.disk.stamp? hop.2 ≠ some stamp := by
      intro old
      have bound := sound.laid.stamp?_le family old
      omega
    exact .of_mem (reports_written inside stamped new) (Or.inl rfl)
      (echo_quiet present.chained.laid family there)

theorem Present.announced (pure : brewer.IsPure) (sound : Sound brewer sources watch)
    (present : Present brewer sources watch event rest path next) (held : sources source)
    (member : hop ∈ hops (brewer.stages source) source) :
    Announced brewer (watch.echo rest path brewer next) hop := by
  intro there
  obtain ⟨family, _⟩ := hops_family held member
  have quiet : .removed hop.2 ∉ reports watch.progress.disk next.disk
      (path.artifacts (brewer.stages path)) := echo_quiet present.chained.laid family there
  by_cases same : next.disk.nodeAt? hop.2 = watch.progress.disk.nodeAt? hop.2
  · have silent (early : .removed hop.2 ∉ rest) :
        .removed hop.2 ∉ (watch.echo rest path brewer next).queue := by
      intro late
      rcases List.mem_append.mp late with old | echo
      · exact early old
      · exact quiet echo
    have before : watch.progress.disk.nodeAt? hop.2 ≠ none := fun none => there (same.trans none)
    have announced := sound.announced source held hop member before
    rw [present.shape] at announced
    rcases announced with ⟨fresh, early⟩ | pending
    · left
      constructor
      · exact present.stays_fresh pure sound held member fresh
      · exact silent fun late => early (List.mem_cons_of_mem _ late)
    · rcases pending.pop with ⟨tells, early⟩ | pending
      · exact Or.inl ⟨present.handled_fresh pure sound held member tells, silent early⟩
      · exact Or.inr (pending.append quiet)
  · exact Or.inr (present.written_pending sound family there same)

theorem Present.cleared (sound : Sound brewer sources watch)
    (present : Present brewer sources watch event rest path next) (held : sources source) :
    Cleared brewer (watch.echo rest path brewer next) source := by
  intro absent
  have untouched := source_untouched sound.laid.toLayout held present.family
  have before := (present.chained.elsewhere source (.of_source held) untouched).1.symm.trans absent
  have cleared := sound.cleared source held before
  rw [present.shape] at cleared
  rcases cleared with vacant | late
  · left
    intro stage others chain
    have member : (stage, source) ∈ hops (brewer.stages source) source := by
      rw [chain]
      exact List.mem_cons_self
    rcases hops_apart sound.laid.toLayout held member present.family with mine | ⟨_, output⟩
    · have here : source = path := (List.mem_cons.mp (mem_hops mine).1).resolve_right untouched
      subst here
      exact (present.chained.absent before stage others chain).trans (vacant stage others chain)
    · exact (present.chained.elsewhere _ (hops_family held member).2 output).1.trans
        (vacant stage others chain)
  · right
    rcases List.mem_cons.mp late with now | later
    · rcases present.tells with rfl | rfl <;> exact absurd now (by simp)
    · exact List.mem_append_left _ later

theorem sound_present (pure : brewer.IsPure) (sound : Sound brewer sources watch)
    (present : Present brewer sources watch event rest path next) :
    Sound brewer sources (watch.echo rest path brewer next) where
  laid := present.chained.laid
  phase := present.chained.phase.trans sound.phase
  knows := present.chained.artifacts_known present.family (sound.knows.forgetRemoval path)
  includes := present.chained.includes sound.laid sound.includes present.family
  told := echo_told sound present.shape present.family
  skippable := fun _ held _ member => present.skippable pure sound held member
  announced := fun _ held _ member => present.announced pure sound held member
  cleared := fun _ held => present.cleared sound held

end Present

section Gone

variable {path : Path} {after : Disk} {later : Session}

/-- What a removal leaves behind. Nothing is new, and if an artifact is gone, nothing is known
any more of the path that it was made of. -/
structure Lessened (brewer : Brewer) (sources : Path → Prop) (path : Path) (disk : Disk)
    (session : Session) (after : Disk) (later : Session) : Prop where
  laid : Laid brewer sources after
  phase : later.phase = session.phase
  knows : session.Knows (IsArtifact brewer sources) → later.Knows (IsArtifact brewer sources)
  nodes : ∀ other, Family brewer sources other → after.nodeAt? other = disk.nodeAt? other ∨
    after.nodeAt? other = none ∧ later.writtenAt? path = none ∧
      ∃ stage rest, brewer.stages path = stage :: rest ∧ other = path.artifact stage
  records : ∀ other stamp, later.writtenAt? other = some stamp →
    session.writtenAt? other = some stamp
  takes : session.isOwnRemoval path = false → ∀ stage rest, brewer.stages path = stage :: rest →
    after.nodeAt? (path.artifact stage) = none

theorem gone_lessened (laid : Laid brewer sources watch.progress.disk)
    (family : Family brewer sources path) :
    Lessened brewer sources path watch.progress.disk watch.progress.session
      (brewer.whenGone path watch.progress).disk (brewer.whenGone path watch.progress).session := by
  have forget (other : Path) (stamp : Int)
      (known : (watch.progress.session.forgetWrite path).writtenAt? other = some stamp) :
      watch.progress.session.writtenAt? other = some stamp := by
    rw [Session.writtenAt?_forgetWrite] at known
    split at known
    · exact absurd known (by simp)
    · exact known
  rcases gone_effect laid family with ⟨own, disk, session⟩ | ⟨vacant, disk, session⟩ |
    ⟨stage, rest, shape, sets, session⟩
  · rw [disk, session]
    refine ⟨laid, rfl, fun knows => knows.forgetRemoval path, fun _ _ => Or.inl rfl,
      fun _ _ known => known, fun foreign => ?_⟩
    exact absurd (own.symm.trans foreign) (by simp)
  · rw [disk, session]
    exact ⟨laid, rfl, fun knows => knows.forgetWrite path, fun _ _ => Or.inl rfl, forget,
      fun _ => vacant⟩
  · rw [session]
    have output : IsArtifact brewer sources (path.artifact stage) := by
      have member : path.artifact stage ∈ path.artifacts (brewer.stages path) := by
        rw [shape]
        exact List.mem_cons_self
      obtain ⟨owner, held, rfl | inside⟩ := family
      · exact ⟨path, held, member⟩
      · exact ⟨owner, held, artifacts_owned inside member⟩
    have older (other : Path) (stamp : Int) (known : ((watch.progress.session.forgetWrite
        path).recordRemoval (path.artifact stage)).writtenAt? other = some stamp) :
        (watch.progress.session.forgetWrite path).writtenAt? other = some stamp := by
      rw [Session.writtenAt?_recordRemoval] at known
      split at known
      · exact absurd known (by simp)
      · exact known
    refine ⟨sets.laid, rfl, fun knows => (knows.forgetWrite path).recordRemoval output, ?_,
      fun other stamp known => forget other stamp (older other stamp known), ?_⟩
    · intro other member
      by_cases here : other = path.artifact stage
      · refine Or.inr ⟨here ▸ sets.here, ?_, stage, rest, shape, here⟩
        cases known : ((watch.progress.session.forgetWrite path).recordRemoval
            (path.artifact stage)).writtenAt? path with
        | none => rfl
        | some stamp =>
            have old := older path stamp known
            rw [Session.writtenAt?_forgetWrite, if_pos path.same_self] at old
            exact absurd old (by simp)
      · exact Or.inl (sets.elsewhere other member here)
    · intro _ first others again
      rw [shape] at again
      cases again
      exact sets.here

-- The hop whose artifact a removal takes away is the one that starts from the removed path.
theorem hop_taken (layout : Layout brewer sources disk) {source : Path} (held : sources source)
    {hop : Stage × Path} (member : hop ∈ hops (brewer.stages source) source)
    (family : Family brewer sources path) {stage : Stage} {rest : List Stage}
    (shape : brewer.stages path = stage :: rest)
    (taken : hop.2.artifact hop.1 = path.artifact stage) : hop.2 = path := by
  have nodup := artifacts_nodup brewer path
  rw [shape] at nodup
  rcases hops_apart layout held member family with mine | ⟨_, output⟩
  · rw [shape] at mine
    rcases List.mem_cons.mp mine with same | further
    · exact congrArg Prod.snd same
    · have deeper := (mem_hops further).2
      rw [taken] at deeper
      exact absurd deeper (List.nodup_cons.mp (List.nodup_cons.mp nodup).2).1
  · rw [taken, shape] at output
    exact absurd List.mem_cons_self output

/-- A reaction to a removal. -/
structure Gone (brewer : Brewer) (sources : Path → Prop) (watch : Watch) (rest : List Event)
    (path : Path) (after : Progress) : Prop where
  shape : watch.queue = .removed path :: rest
  family : Family brewer sources path
  lessened : Lessened brewer sources path watch.progress.disk watch.progress.session
    after.disk after.session

variable {source : Path} {rest : List Event} {next : Progress} {hop : Stage × Path}

theorem Gone.includes (sound : Sound brewer sources watch)
    (gone : Gone brewer sources watch rest path next) : IncludesNothing brewer sources next.disk := by
  intro source text held kind read
  rcases gone.lessened.nodes source (.of_source held) with same | ⟨none, _⟩
  · rw [sound.laid.readText_congr gone.lessened.laid (.of_source held) same] at read
    exact sound.includes source text held kind read
  · rw [gone.lessened.laid.readText_eq (.of_source held), none] at read
    exact absurd read (by simp)

theorem Gone.own_before (sound : Sound brewer sources watch)
    (gone : Gone brewer sources watch rest path next) (family : Family brewer sources hop.2)
    (same : next.disk.nodeAt? hop.2 = watch.progress.disk.nodeAt? hop.2)
    (own : next.session.isOwnWrite next.disk hop.2 = true) :
    watch.progress.session.isOwnWrite watch.progress.disk hop.2 = true := by
  have dated := sound.laid.stamp?_congr gone.lessened.laid family same
  cases record : next.session.writtenAt? hop.2 with
  | none => simp [Session.isOwnWrite, record] at own
  | some stamp =>
      have old := gone.lessened.records hop.2 stamp record
      exact (isOwnWrite_congr (record.trans old.symm) dated).symm.trans own

theorem Gone.skippable (pure : brewer.IsPure) (sound : Sound brewer sources watch)
    (gone : Gone brewer sources watch rest path next) (held : sources source)
    (member : hop ∈ hops (brewer.stages source) source) :
    Skippable brewer (watch.echo rest path brewer next) hop := by
  intro known
  obtain ⟨first, second⟩ := hops_family held member
  rcases gone.lessened.nodes hop.2 first with input | ⟨none, _⟩
  · rcases gone.lessened.nodes _ second with output | ⟨_, forgotten, stage, others, chain, taken⟩
    · apply Fresh.congr pure sound.laid gone.lessened.laid sound.includes held member input output
      apply sound.skippable source held hop member
      exact known.imp id fun own => gone.own_before sound first input own
    · have here := hop_taken sound.laid.toLayout held member gone.family chain taken
      rcases known with unknown | own
      · exact absurd (here ▸ unknown) (stages_recognized chain)
      · rw [here] at own
        simp [echo, Session.isOwnWrite, forgotten] at own
  · intro text output read _
    have unread : next.disk.readText hop.2 = .ok text := read
    rw [gone.lessened.laid.readText_eq first, none] at unread
    exact absurd unread (by simp)

theorem Gone.announced (pure : brewer.IsPure) (sound : Sound brewer sources watch)
    (gone : Gone brewer sources watch rest path next) (held : sources source)
    (member : hop ∈ hops (brewer.stages source) source) :
    Announced brewer (watch.echo rest path brewer next) hop := by
  intro present
  obtain ⟨first, second⟩ := hops_family held member
  have input := (gone.lessened.nodes hop.2 first).resolve_right fun taken => present taken.1
  have before : watch.progress.disk.nodeAt? hop.2 ≠ none := fun none => present (input.trans none)
  have quiet : .removed hop.2 ∉ reports watch.progress.disk next.disk
      (path.artifacts (brewer.stages path)) := echo_quiet gone.lessened.laid first present
  have announced := sound.announced source held hop member before
  rw [gone.shape] at announced
  rcases announced with ⟨fresh, silent⟩ | pending
  · left
    constructor
    · rcases gone.lessened.nodes _ second with output | ⟨_, _, stage, others, chain, taken⟩
      · exact fresh.congr pure sound.laid gone.lessened.laid sound.includes held member input output
      · have here := hop_taken sound.laid.toLayout held member gone.family chain taken
        exact absurd List.mem_cons_self (here ▸ silent)
    · intro late
      rcases List.mem_append.mp late with old | echo
      · exact silent (List.mem_cons_of_mem _ old)
      · exact quiet echo
  · rcases pending.pop with ⟨tells, _⟩ | pending
    · rcases tells with tells | tells <;> exact absurd tells (by simp)
    · exact Or.inr (pending.append quiet)

theorem Gone.cleared (sound : Sound brewer sources watch)
    (gone : Gone brewer sources watch rest path next) (held : sources source) :
    Cleared brewer (watch.echo rest path brewer next) source := by
  intro absent
  have untouched := source_untouched sound.laid.toLayout held gone.family
  have before : watch.progress.disk.nodeAt? source = none := by
    rcases gone.lessened.nodes source (.of_source held) with same | ⟨_, _, stage, others, chain, taken⟩
    · exact same.symm.trans absent
    · rw [taken, chain] at untouched
      exact absurd List.mem_cons_self untouched
  have cleared := sound.cleared source held before
  rw [gone.shape] at cleared
  rcases cleared with vacant | late
  · left
    intro stage others chain
    have member : (stage, source) ∈ hops (brewer.stages source) source := by
      rw [chain]
      exact List.mem_cons_self
    rcases gone.lessened.nodes _ (hops_family held member).2 with same | ⟨none, _⟩
    · exact same.trans (vacant stage others chain)
    · exact none
  · rcases List.mem_cons.mp late with now | later
    · have here : source = path := Event.removed.inj now
      subst here
      exact Or.inl (gone.lessened.takes (foreign_source sound.laid sound.knows held next.disk).2)
    · exact Or.inr (List.mem_append_left _ later)

theorem sound_gone (pure : brewer.IsPure) (sound : Sound brewer sources watch)
    (gone : Gone brewer sources watch rest path next) :
    Sound brewer sources (watch.echo rest path brewer next) where
  laid := gone.lessened.laid
  phase := gone.lessened.phase.trans sound.phase
  knows := gone.lessened.knows sound.knows
  includes := gone.includes sound
  told := echo_told sound gone.shape gone.family
  skippable := fun _ held _ member => gone.skippable pure sound held member
  announced := fun _ held _ member => gone.announced pure sound held member
  cleared := fun _ held => gone.cleared sound held

end Gone

section Runs

variable {disk : Disk} {options : SessionOptions}

theorem sound_start (layout : Layout brewer sources disk)
    (vacant : ∀ path, Family brewer sources path → disk.nodeAt? path = none)
    (watching : options.watch = true) : Sound brewer sources (start brewer disk options) := by
  have same : (start brewer disk options).progress.disk = disk ∧
      (start brewer disk options).progress.session =
        { Session.start options with phase := .watching } := by
    simp [start, Brewer.handle, Brewer.whenReady, Progress.start, Session.start, Session.markReady,
      watching, Event.path?]
  have queue : (start brewer disk options).queue = [] := rfl
  have laid : Laid brewer sources (start brewer disk options).progress.disk := by
    rw [same.1]
    refine ⟨layout, fun path node family held => ?_⟩
    rw [vacant path family] at held
    exact absurd held (by simp)
  have none {path : Path} (family : Family brewer sources path) :
      (start brewer disk options).progress.disk.nodeAt? path = none := by
    rw [same.1]
    exact vacant path family
  have unread {path : Path} (family : Family brewer sources path) (text : Text) :
      (start brewer disk options).progress.disk.readText path ≠ .ok text := by
    rw [laid.readText_eq family, none family]
    simp
  constructor
  · exact laid
  · rw [same.2]
  · rw [same.2]
    exact ⟨fun _ member => absurd member List.not_mem_nil, fun _ member => absurd member List.not_mem_nil⟩
  · intro source text held _ read
    exact absurd read (unread (.of_source held) text)
  · intro event member
    rw [queue] at member
    exact absurd member List.not_mem_nil
  · intro source held hop member _ text output read
    exact absurd read (unread (hops_family held member).1 text)
  · intro source held hop member present
    exact absurd (none (hops_family held member).1) present
  · intro source held _
    refine Or.inl fun stage rest shape => none (.of_artifact held ?_)
    rw [shape]
    exact List.mem_cons_self

theorem Sound.log (sound : Sound brewer sources watch) (log : Log) :
    Sound brewer sources ⟨watch.progress.tell log, watch.queue⟩ :=
  ⟨sound.laid, sound.phase, sound.knows, sound.includes, sound.told, sound.skippable,
    sound.announced, sound.cleared⟩

theorem sound_react (pure : brewer.IsPure) (sound : Sound brewer sources watch)
    (busy : watch.queue ≠ []) : Sound brewer sources (watch.react brewer) := by
  obtain ⟨event, rest, shape⟩ := List.exists_cons_of_ne_nil busy
  obtain ⟨path, about, family⟩ := sound.told event (shape ▸ List.mem_cons_self)
  have active : watch.progress.session.phase ≠ .done := by simp [sound.phase]
  have told := sound.log [.debug "brew" event.label (brewer.short path)]
  rw [react, shape]
  simp only [artifacts, about]
  rw [Brewer.handle_active active]
  cases event with
  | ready => exact absurd about (by simp [Event.path?])
  | added other =>
      cases about
      have next := sound_present pure told ⟨shape, Or.inl rfl, family, present_chained pure told family⟩
      exact next
  | changed other =>
      cases about
      have next := sound_present pure told ⟨shape, Or.inr rfl, family, present_chained pure told family⟩
      exact next
  | removed other =>
      cases about
      have next := sound_gone pure told ⟨shape, family, gone_lessened told.laid family⟩
      exact next

theorem sound_step {after : Watch} (pure : brewer.IsPure) (sound : Sound brewer sources watch)
    (step : Step brewer sources watch after) : Sound brewer sources after := by
  cases step with
  | @write disk path contents event source told free written =>
      have family : Family brewer sources path := .of_source source
      obtain ⟨place, entry⟩ := sound.laid.entry path family
      rw [Disk.overwrite_of_entry entry (sound.laid.firm family entry)
        (sound.laid.solid family entry)] at written
      cases written
      have sets := sound.laid.put family entry contents
      have about : event.path? = some path := by
        rcases told with rfl | rfl <;> rfl
      refine sound_user pure sound ⟨source, sets, about, fun _ => told, by simp, ?_⟩
      refine sets.includes sound.laid (fun text stamp same _ kind => ?_) sound.includes
      cases same
      exact free kind text rfl
  | @delete disk path source removed =>
      have family : Family brewer sources path := .of_source source
      obtain ⟨place, entry, _, _, rfl⟩ := Disk.removeFile_eq_ok removed
      have sets := sound.laid.erase family entry
      have includes := sets.includes sound.laid (by simp) sound.includes
      exact sound_user pure sound ⟨source, sets, rfl, by simp, fun _ => rfl, includes⟩
  | react busy => exact sound_react pure sound busy

theorem sound_run (pure : brewer.IsPure) (layout : Layout brewer sources disk)
    (vacant : ∀ path, Family brewer sources path → disk.nodeAt? path = none)
    (watching : options.watch = true)
    (run : Relation.ReflTransGen (Step brewer sources) (start brewer disk options) watch) :
    Sound brewer sources watch := by
  induction run with
  | refl => exact sound_start layout vacant watching
  | tail _ step ih => exact sound_step pure ih step

theorem Sound.settled (sound : Sound brewer sources watch) (idle : watch.queue = []) :
    Settled brewer sources watch.progress.disk := by
  intro source held
  constructor
  · intro hop member
    obtain ⟨family, _⟩ := hops_family held member
    by_cases absent : watch.progress.disk.nodeAt? hop.2 = none
    · intro text output read _
      rw [sound.laid.readText_eq family, absent] at read
      exact absurd read (by simp)
    · rcases sound.announced source held hop member absent with ⟨fresh, _⟩ | pending
      · exact fresh
      · obtain ⟨before, event, after, shape, _⟩ := pending
        rw [idle] at shape
        exact absurd shape.symm (by simp)
  · intro absent stage rest shape
    have member : source.artifact stage ∈ source.artifacts (brewer.stages source) := by
      rw [shape]
      exact List.mem_cons_self
    rw [sound.laid.holds_eq (.of_source held), Option.isSome_eq_false_iff, Option.isNone_iff_eq_none]
      at absent
    rw [sound.laid.holds_eq (.of_artifact held member), Option.isSome_eq_false_iff,
      Option.isNone_iff_eq_none]
    rcases sound.cleared source held absent with vacant | late
    · exact vacant stage rest shape
    · rw [idle] at late
      exact absurd late List.not_mem_nil

/-- From wherever users and session have got to, the session comes to the end of its queue when
it is left alone, and at the end of the queue nothing is out of date. -/
theorem watch_settles (pure : brewer.IsPure) (layout : Layout brewer sources disk)
    (vacant : ∀ path, Family brewer sources path → disk.nodeAt? path = none)
    (watching : options.watch = true)
    (run : Relation.ReflTransGen (Step brewer sources) (start brewer disk options) watch) :
    (∃ count, ((react brewer)^[count] watch).queue = []) ∧
      (watch.queue = [] → Settled brewer sources watch.progress.disk) :=
  ⟨drains brewer watch, (sound_run pure layout vacant watching run).settled⟩

end Runs

section Lone

open Brewer (verbatim verbatim_pure)

/-- A session that has just been told of its first file. -/
def edited : Watch where
  progress :=
    { (start verbatim ⟨[], [], 0⟩ { SessionOptions.plain with watch := true }).progress with
      disk := loneDisk }
  queue := [.added (Path.ofString "/a.cielo")]

theorem edited_step : Step verbatim lone
    (start verbatim ⟨[], [], 0⟩ { SessionOptions.plain with watch := true }) edited := by
  obtain ⟨name, named, entry⟩ := lone_entry ⟨[], [], 0⟩ (.of_source rfl)
  have same : name = "a.cielo".toList := Option.some.inj (named.symm.trans (by decide))
  subst same
  have vacant : (⟨[], [], 0⟩ : Disk).node? ["a.cielo".toList] = none := rfl
  have written : (⟨[], [], 0⟩ : Disk).overwrite (Path.ofString "/a.cielo") (.text []) =
      .ok loneDisk :=
    Disk.overwrite_of_entry entry (fun _ held => absurd (vacant.symm.trans held) (Option.some_ne_none _).symm)
      rfl (.text [])
  refine .write rfl (Or.inl rfl) (fun _ text same => ?_) written
  cases same
  exact includeFree_empty _

theorem edited_settles : (∃ count, ((react verbatim)^[count] edited).queue = []) ∧
    (edited.queue = [] → Settled verbatim lone edited.progress.disk) := by
  refine watch_settles verbatim_pure (lone_layout _) ?_ rfl (.single edited_step)
  intro path family
  obtain ⟨name, _, entry⟩ := lone_entry ⟨[], [], 0⟩ family
  rw [Laid.nodeAt?_eq entry]
  rfl

end Lone

end Watch
end Brewery
