import Brewery.Proofs.Session.Deeds
import Brewery.Proofs.Session.Layout

/-!
What a session takes for its own doing. It writes artifacts and takes artifacts away, and the
disk reports both to it like the work of others. The report of a removal is dropped when the
session is waiting for it; the report of a file that is there is dropped when the file still has
the stamp of the session's last write. Both records are kept path by path, from all that the
session does and is told, so what it drops can be read off its past, whatever others do to the
disk in between.
-/

namespace Brewery

/-- What happens in a session that bears on what it remembers: it is told of a path, it writes an
artifact and finds this stamp on it, or it takes an artifact away. -/
inductive Act where
  | told (event : Event)
  | wrote (artifact : Path) (stamp : Option Int)
  | took (artifact : Path)

namespace Act

def writes (path : Path) : Act → Bool
  | .wrote artifact _ => path.same artifact
  | _ => false

def takes (path : Path) : Act → Bool
  | .took artifact => path.same artifact
  | _ => false

/-- Whether a write has left a stamp that can be read. -/
def readable : Act → Bool
  | .wrote _ stamp => stamp.isSome
  | _ => true

/-- Whether the session is told anything of a path. -/
def mentions (path : Path) : Act → Bool
  | .told event => event.path?.any path.same
  | _ => false

/-- Whether the session is told that a path is gone. -/
def buries (path : Path) : Act → Bool
  | .told (.removed gone) => path.same gone
  | _ => false

/-- The stamp of the last write to a path, the latest act first, unless the path was taken away or
said to be gone since. A write that left no stamp to be read counts for nothing. -/
def lastWrite? (path : Path) : List Act → Option Int
  | [] => none
  | .wrote artifact (some stamp) :: earlier =>
      if path.same artifact then some stamp else lastWrite? path earlier
  | act :: earlier =>
      if act.takes path || act.buries path then none else lastWrite? path earlier

/-- Whether a path was taken away, the latest act first, and neither written nor mentioned since. -/
def awaited (path : Path) : List Act → Bool
  | [] => false
  | act :: earlier =>
      act.takes path || awaited path earlier && !act.writes path && !act.mentions path

variable {path : Path} {acts : List Act}

-- A path that was taken away has no write that counts until it is written again.
theorem lastWrite?_awaited (waiting : awaited path acts = true) : lastWrite? path acts = none := by
  induction acts with
  | nil => rfl
  | cons act earlier ih =>
      cases act with
      | took artifact =>
          cases same : path.same artifact with
          | true => simp [lastWrite?, takes, same]
          | false =>
              have before : awaited path earlier = true := by
                simpa [awaited, takes, writes, mentions, same] using waiting
              simp [lastWrite?, ih before]
      | told event =>
          have before : awaited path earlier = true := by
            simp only [awaited, takes, writes, Bool.false_or, Bool.and_eq_true] at waiting
            exact waiting.1.1
          simp [lastWrite?, ih before]
      | wrote artifact stamp =>
          simp only [awaited, takes, writes, Bool.false_or, Bool.and_eq_true,
            Bool.not_eq_true'] at waiting
          cases stamp with
          | none => simp [lastWrite?, ih waiting.1.1]
          | some stamp => simp [lastWrite?, waiting.1.2, ih waiting.1.1]

/-- What is awaited was taken away, and nothing of it has been written or mentioned since. -/
theorem split_of_awaited (waiting : awaited path acts = true) :
    ∃ later artifact earlier, acts = later ++ .took artifact :: earlier ∧
      path.same artifact = true ∧
      ∀ act ∈ later, act.writes path = false ∧ act.mentions path = false := by
  induction acts with
  | nil => exact absurd waiting (by simp [awaited])
  | cons act earlier ih =>
      simp only [awaited, Bool.or_eq_true, Bool.and_eq_true, Bool.not_eq_true'] at waiting
      rcases waiting with taken | ⟨⟨before, unwritten⟩, silent⟩
      · cases act with
        | took artifact => exact ⟨[], artifact, earlier, rfl, taken, by simp⟩
        | told event => exact absurd taken (by simp [takes])
        | wrote artifact stamp => exact absurd taken (by simp [takes])
      · obtain ⟨later, artifact, first, rfl, same, since⟩ := ih before
        exact ⟨act :: later, artifact, first, rfl, same,
          List.forall_mem_cons.mpr ⟨⟨unwritten, silent⟩, since⟩⟩

/-- A last write that counts is the last write, if every write has left a stamp. -/
theorem split_of_lastWrite? {stamp : Int} (readable : ∀ act ∈ acts, act.readable = true)
    (last : lastWrite? path acts = some stamp) :
    ∃ later artifact earlier, acts = later ++ .wrote artifact (some stamp) :: earlier ∧
      path.same artifact = true ∧
      ∀ act ∈ later, act.writes path = false ∧ act.takes path = false ∧
        act.buries path = false := by
  induction acts with
  | nil => exact absurd last (by simp [lastWrite?])
  | cons act earlier ih =>
      have ih := ih fun other member => readable other (List.mem_cons_of_mem _ member)
      -- An act that is not about the path leaves the last write where it was.
      have onward (unwritten : act.writes path = false) (kept : act.takes path = false)
          (unburied : act.buries path = false) (before : lastWrite? path earlier = some stamp) :
          ∃ later artifact first, act :: earlier = later ++ .wrote artifact (some stamp) :: first ∧
            path.same artifact = true ∧
            ∀ act ∈ later, act.writes path = false ∧ act.takes path = false ∧
              act.buries path = false := by
        obtain ⟨later, artifact, first, rfl, same, since⟩ := ih before
        exact ⟨act :: later, artifact, first, rfl, same,
          List.forall_mem_cons.mpr ⟨⟨unwritten, kept, unburied⟩, since⟩⟩
      cases act with
      | wrote artifact found =>
          cases found with
          | none => exact absurd (readable _ List.mem_cons_self) (by simp [Act.readable])
          | some found =>
              cases same : path.same artifact with
              | true =>
                  have now : found = stamp := by simpa [lastWrite?, same] using last
                  exact ⟨[], artifact, earlier, by rw [now]; rfl, same, by simp⟩
              | false =>
                  exact onward same rfl rfl (by simpa [lastWrite?, same] using last)
      | took artifact =>
          have other : path.same artifact = false := by
            cases same : path.same artifact with
            | false => rfl
            | true => simp [lastWrite?, takes, same] at last
          exact onward rfl other rfl (by simpa [lastWrite?, takes, buries, other] using last)
      | told event =>
          cases gone : buries path (.told event) with
          | true => simp [lastWrite?, gone] at last
          | false => exact onward rfl rfl gone (by simpa [lastWrite?, takes, gone] using last)

end Act

/-- A session that remembers what its acts, the latest first, have left to remember. -/
def Session.Recalls (acts : List Act) (session : Session) : Prop :=
  ∀ path, session.writtenAt? path = Act.lastWrite? path acts ∧
    session.isOwnRemoval path = Act.awaited path acts

namespace Session.Recalls

variable {session : Session} {acts : List Act}

theorem wrote (recalls : session.Recalls acts) (disk : Disk) (artifact : Path) :
    (session.recordWrite disk artifact).Recalls (.wrote artifact (disk.stamp? artifact) :: acts) := by
  intro path
  have removals := isOwnRemoval_recordWrite session disk artifact path
  rw [(recalls path).2] at removals
  refine ⟨?_, by simpa [Act.awaited, Act.takes, Act.writes, Act.mentions] using removals⟩
  cases stamped : disk.stamp? artifact with
  | some stamp =>
      rw [writtenAt?_recordWrite stamped, Act.lastWrite?, (recalls path).1]
  | none =>
      have same : (session.recordWrite disk artifact).writtenAt? path = session.writtenAt? path := by
        simp [recordWrite, stamped, writtenAt?]
      rw [same, (recalls path).1]
      simp [Act.lastWrite?, Act.takes, Act.buries]

theorem took (recalls : session.Recalls acts) (artifact : Path) :
    (session.recordRemoval artifact).Recalls (.took artifact :: acts) := by
  intro path
  rw [writtenAt?_recordRemoval, isOwnRemoval_recordRemoval, (recalls path).1, (recalls path).2]
  simp [Act.lastWrite?, Act.awaited, Act.takes, Act.writes, Act.mentions, Act.buries]

theorem present (recalls : session.Recalls acts) {spoken : Path} {event : Event}
    (present : event = .added spoken ∨ event = .changed spoken) :
    (session.forgetRemoval spoken).Recalls (.told event :: acts) := by
  intro path
  rw [isOwnRemoval_forgetRemoval, (recalls path).2]
  refine ⟨(recalls path).1.trans ?_, ?_⟩
  · rcases present with rfl | rfl <;> simp [Act.lastWrite?, Act.takes, Act.buries]
  · rcases present with rfl | rfl <;>
      simp [Act.awaited, Act.takes, Act.writes, Act.mentions, Event.path?]

-- The report that was waited for says nothing of writes: none counts any more.
theorem reported (recalls : session.Recalls acts) {gone : Path}
    (own : session.isOwnRemoval gone = true) :
    (session.forgetRemoval gone).Recalls (.told (.removed gone) :: acts) := by
  intro path
  rw [isOwnRemoval_forgetRemoval]
  refine ⟨?_, ?_⟩
  · refine (recalls path).1.trans ?_
    cases same : path.same gone with
    | false => simp [Act.lastWrite?, Act.takes, Act.buries, same]
    | true =>
        have waiting : Act.awaited path acts = true := by
          rw [← (recalls path).2, isOwnRemoval, show path.same = gone.same from
            funext (Path.same_congr same)]
          exact own
        simp [Act.lastWrite?, Act.buries, same, Act.lastWrite?_awaited waiting]
  · rw [(recalls path).2]
    simp [Act.awaited, Act.takes, Act.writes, Act.mentions, Event.path?]

theorem gone (recalls : session.Recalls acts) {gone : Path}
    (foreign : session.isOwnRemoval gone = false) :
    (session.forgetWrite gone).Recalls (.told (.removed gone) :: acts) := by
  intro path
  rw [writtenAt?_forgetWrite, (recalls path).1]
  refine ⟨by simp [Act.lastWrite?, Act.takes, Act.buries], ?_⟩
  refine (recalls path).2.trans ?_
  cases same : path.same gone with
  | false => simp [Act.awaited, Act.takes, Act.writes, Act.mentions, Event.path?, same]
  | true =>
      have silent : Act.awaited path acts = false := by
        rw [← (recalls path).2, isOwnRemoval, show path.same = gone.same from
          funext (Path.same_congr same)]
        exact foreign
      simp [Act.awaited, Act.takes, silent]

end Session.Recalls

namespace Brewer

/-- The writes of a chain, in order, each with the stamp that it left. -/
def chainActs (brewer : Brewer) (source : Path) (always : Bool) :
    List Stage → Path → Option Text → Progress → List Act
  | [], _, _, _ => []
  | stage :: rest, input, carried, progress =>
      let artifact := input.artifact stage
      match brewer.hop source always stage input carried progress with
      | (progress, .passed (some text)) =>
          .wrote artifact (progress.disk.stamp? artifact) ::
            brewer.chainActs source always rest artifact (some text) progress
      | (progress, .passed none) =>
          brewer.chainActs source always rest artifact none progress
      | _ => []

/-- The writes of a session when a path is there. -/
def presentActs (brewer : Brewer) (path : Path) (progress : Progress) : List Act :=
  let known := noted path progress
  let kind := brewer.classifier.classify path
  if kind = .unrecognized || known.session.isOwnWrite progress.disk path then []
  else brewer.chainActs path false kind.chain path none known

/-- What happens when a session is told of an event, in order. One that is done does not listen. -/
def acts (brewer : Brewer) (event : Event) (progress : Progress) : List Act :=
  if progress.session.phase = .done then []
  else
    .told event :: match event with
      | .ready => []
      | .removed _ => (brewer.deletes event progress).map .took
      | .added path => brewer.presentActs path
          (progress.tell [.debug "brew" event.label (brewer.short path)])
      | .changed path => brewer.presentActs path
          (progress.tell [.debug "brew" event.label (brewer.short path)])

/-- The writes of a session that builds named files, in order. -/
def buildActs (brewer : Brewer) : List Path → Progress → List Act
  | [], _ => []
  | path :: rest, progress =>
      brewer.chainActs path true (brewer.classifier.classify path).chain path none progress ++
        brewer.buildActs rest (brewer.buildFile path progress)

/-- What a session says of an event that is its own doing. -/
def ownWord : Event → String
  | .removed _ => "own removal"
  | _ => "own artifact"

/-- Whether a session drops an event: that the event is its own doing is all it has to say. -/
def Drops (brewer : Brewer) (event : Event) (progress : Progress) : Prop :=
  ∃ path, event.path? = some path ∧ (brewer.handle event progress).1.log = progress.log ++
    [.debug "brew" event.label (brewer.short path), .debug "brew" (ownWord event) (brewer.short path)]

/-- A session from its start on, with all that happened in it, the latest first: events, builds of
named files, an end from outside, and between them any changes to the disk by others. -/
inductive Past (brewer : Brewer) : List Act → Progress → Prop where
  | start (disk : Disk) (options : SessionOptions) : Past brewer [] (.start disk options)
  | change {acts : List Act} {progress : Progress} (past : Past brewer acts progress)
      (after : Disk) : Past brewer acts { progress with disk := after }
  | handle {acts : List Act} {progress : Progress} (past : Past brewer acts progress)
      (event : Event) :
      Past brewer ((brewer.acts event progress).reverse ++ acts) (brewer.handle event progress).1
  | build {acts : List Act} {progress : Progress} (past : Past brewer acts progress)
      {files : List Path}
      (known : ∀ path ∈ files, brewer.classifier.classify path ≠ .unrecognized) :
      Past brewer ((brewer.buildActs files progress).reverse ++ acts)
        (brewer.build files progress).1
  | refuse {acts : List Act} {progress : Progress} (past : Past brewer acts progress)
      {files : List Path} {path : Path} (member : path ∈ files)
      (unknown : brewer.classifier.classify path = .unrecognized) :
      Past brewer acts (brewer.build files progress).1
  | interrupt {acts : List Act} {progress : Progress} (past : Past brewer acts progress) :
      Past brewer acts (interrupt progress)

variable {brewer : Brewer} {acts : List Act} {progress : Progress} {path : Path} {event : Event}

section Recalling

theorem runChain_recalls (source : Path) (always : Bool) (stages : List Stage) (input : Path)
    (carried : Option Text) (recalls : progress.session.Recalls acts) :
    (brewer.runChain source always stages input carried progress).1.session.Recalls
      ((brewer.chainActs source always stages input carried progress).reverse ++ acts) := by
  induction stages generalizing input carried progress acts with
  | nil => exact recalls
  | cons stage rest ih =>
      have session := hop_session brewer source always stage input carried progress
      rw [runChain, chainActs]
      generalize brewer.hop source always stage input carried progress = result at session ⊢
      obtain ⟨next, outcome⟩ := result
      cases outcome with
      | passed carried =>
          cases carried with
          | none => exact ih _ _ (session ▸ recalls)
          | some text =>
              have wrote : next.session.Recalls
                  (.wrote (input.artifact stage) (next.disk.stamp? (input.artifact stage)) :: acts) :=
                session ▸ recalls.wrote next.disk (input.artifact stage)
              have later := ih (input.artifact stage) (some text) wrote
              simpa using later
      | stopped => exact session ▸ recalls
      | failed error => exact session ▸ recalls

theorem whenPresent_recalls (present : event = .added path ∨ event = .changed path)
    (recalls : progress.session.Recalls acts) :
    (brewer.whenPresent path progress).session.Recalls
      ((brewer.presentActs path progress).reverse ++ .told event :: acts) := by
  have told := recalls.present present
  have ended := whenPresent_cases brewer path progress
  generalize brewer.whenPresent path progress = after at ended ⊢
  rw [presentActs]
  cases ended with
  | ignored unknown =>
      rw [if_pos (by simp [unknown])]
      exact told
  | own log recognized known =>
      rw [if_pos (by rw [known, Bool.or_true])]
      exact told
  | built log recognized foreign =>
      rw [if_neg (by simp [recognized, foreign])]
      have known : (noted path progress).session.Recalls (.told event :: acts) := told
      exact runChain_recalls path false (brewer.classifier.classify path).chain path none known

theorem whenGone_recalls (recalls : progress.session.Recalls acts) :
    (brewer.whenGone path progress).session.Recalls
      (((brewer.deletes (.removed path) progress).map .took).reverse ++
        .told (.removed path) :: acts) := by
  have ended := whenGone_cases brewer path progress
  generalize brewer.whenGone path progress = after at ended ⊢
  cases ended with
  | own log known =>
      rw [deletes, if_pos known]
      exact recalls.reported known
  | alone foreign none =>
      simpa [deletes, foreign, taken?_alone none] using recalls.gone foreign
  | kept target fault log foreign meant cascades refused =>
      simpa [deletes, foreign, taken?_kept cascades refused] using recalls.gone foreign
  | erased target place log foreign meant cascades entry held solid =>
      simpa [deletes, foreign, taken?_erased meant cascades entry held solid] using
        (recalls.gone foreign).took target

theorem whenReady_recalls (recalls : progress.session.Recalls acts) :
    (brewer.whenReady progress).1.session.Recalls (.told .ready :: acts) := by
  have told : progress.session.Recalls (.told .ready :: acts) := fun path =>
    ⟨(recalls path).1.trans (by simp [Act.lastWrite?, Act.takes, Act.buries]),
      (recalls path).2.trans (by
        simp [Act.awaited, Act.takes, Act.writes, Act.mentions, Event.path?])⟩
  unfold whenReady Session.markReady
  simp only
  split
  · split <;> exact told
  · split <;> exact told

theorem handle_recalls (event : Event) (recalls : progress.session.Recalls acts) :
    (brewer.handle event progress).1.session.Recalls
      ((brewer.acts event progress).reverse ++ acts) := by
  by_cases done : progress.session.phase = .done
  · rw [handle_done done, show brewer.acts event progress = [] from if_pos done]
    exact recalls
  rw [handle_active done]
  unfold Brewer.acts
  rw [if_neg done]
  have heard (log : Log) : (progress.tell log).session.Recalls acts := recalls
  cases event with
  | ready => exact whenReady_recalls recalls
  | added path =>
      simpa using whenPresent_recalls (Or.inl rfl) (heard _)
  | changed path =>
      simpa using whenPresent_recalls (Or.inr rfl) (heard _)
  | removed path =>
      have gone := @whenGone_recalls brewer acts
        (progress.tell [.debug "brew" (Event.removed path).label (brewer.short path)]) path (heard _)
      simpa [deletes, taken?] using gone

theorem buildFile_recalls (recalls : progress.session.Recalls acts) :
    (brewer.buildFile path progress).session.Recalls
      ((brewer.chainActs path true (brewer.classifier.classify path).chain path none
        progress).reverse ++ acts) := by
  have built := @runChain_recalls brewer acts progress path true
    (brewer.classifier.classify path).chain path none recalls
  unfold buildFile
  simp only
  split
  · next passed =>
      rw [passed] at built
      split
      · unfold execute
        split <;> exact built
      · exact built
  · next passed =>
      rw [passed] at built
      exact built
  · next failed =>
      rw [failed] at built
      obtain ⟨log, told⟩ := reportFailure_eq brewer path _ _
      rw [told]
      exact built

theorem build_recalls {files : List Path} (recalls : progress.session.Recalls acts)
    (known : ∀ path ∈ files, brewer.classifier.classify path ≠ .unrecognized) :
    (brewer.build files progress).1.session.Recalls
      ((brewer.buildActs files progress).reverse ++ acts) := by
  rw [build_known known]
  clear known
  induction files generalizing progress acts with
  | nil => exact recalls
  | cons path rest ih =>
      have later := ih (@buildFile_recalls brewer acts progress path recalls)
      simpa [buildActs] using later

theorem Past.recalls (past : Past brewer acts progress) : progress.session.Recalls acts := by
  induction past with
  | start disk options => exact fun path => ⟨rfl, rfl⟩
  | change _ _ ih => exact ih
  | handle _ event ih => exact handle_recalls event ih
  | build _ known ih => exact build_recalls ih known
  | @refuse _ progress _ files path member unknown ih =>
      have found : ∃ first, files.find?
          (fun path => brewer.classifier.classify path = .unrecognized) = some first := by
        rw [← Option.isSome_iff_exists, List.find?_isSome]
        exact ⟨path, member, by simpa using unknown⟩
      obtain ⟨first, found⟩ := found
      rw [Brewer.build, found]
      exact ih
  | interrupt _ ih => exact ih

end Recalling

section Dropping

-- A hop that does not fail has always something else to say.
theorem hop_last (source : Path) (always : Bool) (stage : Stage) (input : Path)
    (carried : Option Text) (progress : Progress) (detail : Text)
    (sound : ∀ error, (brewer.hop source always stage input carried progress).2 ≠ .failed error) :
    (brewer.hop source always stage input carried progress).1.log.getLast? ≠
      some (.debug "brew" "own artifact" detail) := by
  revert sound
  unfold hop make
  simp only
  split
  · simp [Progress.tell, LogEntry.info, LogEntry.debug]
  split
  · simp [Progress.tell, LogEntry.debug, LogEntry.tagged]
  split
  · simp
  · simp [Progress.tell, LogEntry.debug, LogEntry.tagged]
  split
  · simp
  split
  · next refused =>
      unfold Artifacts.write at refused
      split at refused
      · simp at refused
      · simp only [Prod.mk.injEq] at refused
        obtain ⟨_, rfl, _⟩ := refused
        simp [Progress.tell, Artifacts.refusal, LogEntry.error, LogEntry.debug]
  · simp [Progress.tell, LogEntry.info, LogEntry.debug]

theorem runChain_last (source : Path) (always : Bool) {stages : List Stage} (staged : stages ≠ [])
    (input : Path) (carried : Option Text) (progress : Progress) (detail : Text) {answer : Bool}
    (passed : (brewer.runChain source always stages input carried progress).2 = .ok answer) :
    (brewer.runChain source always stages input carried progress).1.log.getLast? ≠
      some (.debug "brew" "own artifact" detail) := by
  induction stages generalizing input carried progress with
  | nil => exact absurd rfl staged
  | cons stage rest ih =>
      have last := @hop_last brewer source always stage input carried progress detail
      rw [runChain] at passed ⊢
      generalize brewer.hop source always stage input carried progress = result at last passed ⊢
      obtain ⟨next, outcome⟩ := result
      cases outcome with
      | passed carried =>
          cases rest with
          | nil => exact last (by simp)
          | cons second rest => exact ih (by simp) _ _ _ passed
      | stopped => exact last (by simp)
      | failed error => simp at passed

theorem whenPresent_speaks (recognized : brewer.classifier.classify path ≠ .unrecognized)
    (foreign : progress.session.isOwnWrite progress.disk path = false) (detail : Text) :
    (brewer.whenPresent path progress).log ≠
      progress.log ++ [.debug "brew" "own artifact" detail] := by
  have chained : (brewer.classifier.classify path).chain ≠ [] := by
    revert recognized
    cases brewer.classifier.classify path <;> simp [SourceKind.chain]
  have last := @runChain_last brewer path false _ chained path none (noted path progress) detail
  have foreign : (noted path progress).session.isOwnWrite progress.disk path = false := foreign
  unfold whenPresent
  simp only
  rw [if_neg recognized, if_neg (by simpa [noted] using foreign)]
  split
  · next ended answer passed =>
      have after : brewer.runChain path false (brewer.classifier.classify path).chain path none
        (noted path progress) = (ended, .ok answer) := passed
      rw [after] at last
      intro same
      exact last rfl (by simp [same])
  · unfold reportFailure
    simp only
    intro same
    have same := congrArg List.getLast? same
    revert same
    split <;> simp [Progress.tell, LogEntry.error, LogEntry.debug, LogEntry.tagged]

theorem whenGone_speaks (foreign : progress.session.isOwnRemoval path = false) (detail : Text) :
    (brewer.whenGone path progress).log ≠
      progress.log ++ [.debug "brew" "own removal" detail] := by
  unfold whenGone
  simp only [foreign]
  split
  · next own => exact absurd own (by simp)
  split
  · simp
  split
  · simp
  unfold cascade
  simp only
  split
  · simp [Progress.tell, LogEntry.info, LogEntry.debug]
  · simp [Progress.tell, LogEntry.debug, LogEntry.tagged]
  · next refused =>
      unfold Artifacts.remove at refused
      split at refused
      · simp at refused
      · simp at refused
      · simp only [Prod.mk.injEq] at refused
        obtain ⟨_, rfl, _⟩ := refused
        simp [Progress.tell, Artifacts.refusal, LogEntry.error, LogEntry.debug]

theorem drops_iff (about : event.path? = some path) :
    brewer.Drops event progress ↔ (brewer.handle event progress).1.log =
      (progress.tell [.debug "brew" event.label (brewer.short path)]).log ++
        [.debug "brew" (ownWord event) (brewer.short path)] := by
  simp [Drops, about, Progress.tell]

theorem drops_active (drops : brewer.Drops event progress) : progress.session.phase ≠ .done := by
  intro done
  obtain ⟨_, _, same⟩ := drops
  rw [handle_done done] at same
  simp at same

/-- The report of a removal is dropped when the session waits for it, and only then. -/
theorem drops_removed_iff : brewer.Drops (.removed path) progress ↔
    progress.session.phase ≠ .done ∧ progress.session.isOwnRemoval path = true := by
  by_cases done : progress.session.phase = .done
  · exact iff_of_false (fun drops => drops_active drops done) (fun own => own.1 done)
  rw [drops_iff rfl, handle_active done]
  cases own : progress.session.isOwnRemoval path with
  | true => simp [whenGone, own, Progress.tell, ownWord, done]
  | false =>
      simp only [Bool.false_eq_true, and_false, iff_false]
      have heard : (progress.tell [.debug "brew" (Event.removed path).label
        (brewer.short path)]).session.isOwnRemoval path = false := own
      exact whenGone_speaks heard (brewer.short path)

/-- The report that a path is there is dropped when the path is of a kind that is brewed and is
still as the session wrote it, and only then. -/
theorem drops_present_iff (present : event = .added path ∨ event = .changed path) :
    brewer.Drops event progress ↔ progress.session.phase ≠ .done ∧
      brewer.classifier.classify path ≠ .unrecognized ∧
      progress.session.isOwnWrite progress.disk path = true := by
  by_cases done : progress.session.phase = .done
  · exact iff_of_false (fun drops => drops_active drops done) (fun own => own.1 done)
  have about : event.path? = some path := by
    rcases present with rfl | rfl <;> rfl
  have word : ownWord event = "own artifact" := by
    rcases present with rfl | rfl <;> rfl
  have met : (brewer.handle event progress).1 = brewer.whenPresent path
      (progress.tell [.debug "brew" event.label (brewer.short path)]) := by
    rw [handle_active done]
    rcases present with rfl | rfl <;> rfl
  rw [drops_iff about, met, word]
  generalize told : progress.tell [.debug "brew" event.label (brewer.short path)] = heard
  have same : heard.session.isOwnWrite heard.disk path =
      progress.session.isOwnWrite progress.disk path := by rw [← told]; rfl
  by_cases recognized : brewer.classifier.classify path = .unrecognized
  · simp [whenPresent, recognized]
  cases own : progress.session.isOwnWrite progress.disk path with
  | true =>
      have known : (heard.session.forgetRemoval path).isOwnWrite heard.disk path = true :=
        same.trans own
      simp [whenPresent, recognized, known, done, Progress.tell]
  | false =>
      have speaks := whenPresent_speaks recognized (same.trans own) (brewer.short path)
      simpa [done, recognized] using speaks

end Dropping

/-- Whatever happens to a session and to its disk: no path is remembered both as written and as
taken away. A removal is dropped only if the session took the path away and has neither written it
nor been told of it since. An addition or a change is dropped only if the path has the stamp that
the session's last write left on it, and since then the session has neither taken it away nor been
told that it is gone. -/
theorem dropped_own (past : Past brewer acts progress)
    (readable : ∀ act ∈ acts, act.readable = true) :
    (∀ path, ¬((progress.session.writtenAt? path).isSome = true ∧
      progress.session.isOwnRemoval path = true)) ∧
    (∀ path, brewer.Drops (.removed path) progress →
      ∃ later artifact earlier, acts = later ++ .took artifact :: earlier ∧
        path.same artifact = true ∧
        ∀ act ∈ later, act.writes path = false ∧ act.mentions path = false) ∧
    (∀ path event, event = .added path ∨ event = .changed path → brewer.Drops event progress →
      ∃ later artifact stamp earlier, acts = later ++ .wrote artifact (some stamp) :: earlier ∧
        path.same artifact = true ∧ progress.disk.stamp? path = some stamp ∧
        ∀ act ∈ later, act.writes path = false ∧ act.takes path = false ∧
          act.buries path = false) := by
  have recalls := past.recalls
  refine ⟨?_, ?_, ?_⟩
  · rintro path ⟨written, removed⟩
    rw [(recalls path).2] at removed
    rw [(recalls path).1, Act.lastWrite?_awaited removed] at written
    exact absurd written (by simp)
  · intro path drops
    have own := (drops_removed_iff.mp drops).2
    rw [(recalls path).2] at own
    exact Act.split_of_awaited own
  · intro path event present drops
    have own := ((drops_present_iff present).mp drops).2.2
    unfold Session.isOwnWrite at own
    split at own
    · next recorded current written stamped =>
        have same : recorded = current := by simpa using own
        rw [(recalls path).1] at written
        obtain ⟨later, artifact, earlier, split, spelled, since⟩ :=
          Act.split_of_lastWrite? readable written
        exact ⟨later, artifact, recorded, earlier, split, spelled, same ▸ stamped, since⟩
    · exact absurd own (by simp)

section Echo

/-- A compiled script whose source has just been deleted. -/
def orphanedScript : Disk := ⟨[(["a.js".toList], .file (.text []) 1)], [], 1⟩

/-- A session that has been told so. -/
def orphanCleared : Progress :=
  (verbatim.handle (.removed (Path.ofString "/a.coffee"))
    (.start orphanedScript { SessionOptions.plain with watch := true })).1

/-- The compiled script was taken away with its source, and when this is reported the session drops
the report. -/
theorem orphan_echo_dropped : ∃ acts, Past verbatim acts orphanCleared ∧
    verbatim.Drops (.removed (Path.ofString "/a.js")) orphanCleared ∧
    ∃ later artifact earlier, acts = later ++ .took artifact :: earlier ∧
      (Path.ofString "/a.js").same artifact = true ∧
      ∀ act ∈ later, act.writes (Path.ofString "/a.js") = false ∧
        act.mentions (Path.ofString "/a.js") = false := by
  have started : Past verbatim [] (.start orphanedScript { SessionOptions.plain with watch := true }) :=
    .start _ _
  have cleared := started.handle (.removed (Path.ofString "/a.coffee"))
  have drops : verbatim.Drops (.removed (Path.ofString "/a.js")) orphanCleared :=
    drops_removed_iff.mpr (by decide +kernel)
  exact ⟨_, cleared, drops, (dropped_own cleared (by decide +kernel)).2.1 _ drops⟩

end Echo

end Brewer
end Brewery
