import Brewery.Proofs.Session.Deeds
import Brewery.Proofs.Watch.Queue

/-!
Echoes. Whatever a session does to the disk is told to it like the work of others, in the order
in which it happened, so the report of a removal of its own comes when other events have been
handled. The report takes nothing along as long as the session remembers the removal. Each
report of the same path, even an old one that it is there, uses up what is remembered, and so
does a new artifact in its place; a user who writes and deletes scripts faster than the session
reacts can bring this about, and one who waits for it cannot.
-/

namespace Brewery.Watch

/-- A reaction: what it was to, and what the session wrote and took away. -/
structure Deed where
  event : Event
  written : List Path
  deleted : List Path

namespace Deed

def of (brewer : Brewer) (event : Event) (progress : Progress) : Deed :=
  ⟨event, brewer.writes event progress, brewer.deletes event progress⟩

/-- What the session will be told of its reaction. -/
def echo (deed : Deed) : List Event :=
  deed.written.map .added ++ deed.deleted.map .removed

def concerns (path : Path) (deed : Deed) : Bool := deed.event.path?.any path.same

end Deed

/-- Whether a session that has done these deeds, the latest first, has taken a path away and
since then neither written it nor been told anything of it. -/
def Remembered (path : Path) : List Deed → Bool
  | [] => false
  | deed :: earlier => deed.deleted.any path.same ||
      (Remembered path earlier && !deed.concerns path && !deed.written.any path.same)

/-- A session that has found the files of its tree and will be told of them first. -/
def opening (disk : Disk) (options : SessionOptions) (files : List Path) : Watch :=
  ⟨.start disk options, files.map .added ++ [.ready]⟩

/-- What can happen from the opening on: the user writes or deletes a macro script, or the session
takes the next event of the queue. A patient user acts only when the queue is empty. -/
inductive Course (brewer : Brewer) (patient : Bool) (disk : Disk) (options : SessionOptions)
    (files : List Path) : List Deed → Watch → Prop where
  | start : Course brewer patient disk options files [] (opening disk options files)
  | write {deeds : List Deed} {watch : Watch} {after : Disk} {path : Path} {contents : Contents}
      {event : Event} (course : Course brewer patient disk options files deeds watch)
      (turn : patient = true → watch.queue = [])
      (script : SourceKind.ofPath path = .macroScript) (told : Tells event path)
      (written : watch.progress.disk.overwrite path contents = .ok after) :
      Course brewer patient disk options files deeds
        ⟨{ watch.progress with disk := after }, watch.queue ++ [event]⟩
  | delete {deeds : List Deed} {watch : Watch} {after : Disk} {path : Path}
      (course : Course brewer patient disk options files deeds watch)
      (turn : patient = true → watch.queue = [])
      (script : SourceKind.ofPath path = .macroScript)
      (removed : watch.progress.disk.removeFile path = .ok after) :
      Course brewer patient disk options files deeds
        ⟨{ watch.progress with disk := after }, watch.queue ++ [.removed path]⟩
  | react {deeds : List Deed} {progress : Progress} {event : Event} {rest : List Event}
      (course : Course brewer patient disk options files deeds ⟨progress, event :: rest⟩) :
      Course brewer patient disk options files (Deed.of brewer event progress :: deeds)
        ⟨(brewer.handle event progress).1, rest ++ (Deed.of brewer event progress).echo⟩

variable {brewer : Brewer} {patient : Bool} {disk : Disk} {options : SessionOptions}
  {files : List Path} {deeds : List Deed} {watch : Watch} {path : Path}

theorem mem_echo {deed : Deed} (told : .removed path ∈ deed.echo) : path ∈ deed.deleted := by
  rcases List.mem_append.mp told with written | deleted
  · obtain ⟨_, _, same⟩ := List.mem_map.mp written
    exact absurd same (by simp)
  · obtain ⟨_, member, same⟩ := List.mem_map.mp deleted
    exact Event.removed.inj same ▸ member

theorem opening_quiet : .removed path ∉ (opening disk options files).queue := by
  intro told
  rcases List.mem_append.mp told with found | ready
  · obtain ⟨_, _, same⟩ := List.mem_map.mp found
    exact absurd same (by simp)
  · exact absurd (List.mem_singleton.mp ready) (by simp)

theorem Course.awake (course : Course brewer patient disk options files deeds watch)
    (watching : options.watch = true) : Brewer.Awake watch.progress.session := by
  induction course with
  | start => exact ⟨watching, by simp [opening, Progress.start, Session.start]⟩
  | write _ _ _ _ _ ih => exact ih
  | delete _ _ _ _ ih => exact ih
  | react _ ih => exact Brewer.handle_awake ih _

/-- What the session remembers is what it has done and not heard of since. -/
theorem Course.remembers (course : Course brewer patient disk options files deeds watch)
    (watching : options.watch = true) (path : Path) : watch.progress.session.isOwnRemoval path = Remembered path deeds := by
  induction course with
  | start => rfl
  | write _ _ _ _ _ ih => exact ih
  | delete _ _ _ _ ih => exact ih
  | @react deeds progress event rest course ih =>
      rw [Brewer.handle_remembers (course.awake watching).2, ih]
      rfl

/-- A removal is told of when the user has deleted a macro script or the session has taken an
artifact away. -/
theorem Course.reported (course : Course brewer patient disk options files deeds watch)
    (told : .removed path ∈ watch.queue) :
    SourceKind.ofPath path = .macroScript ∨ ∃ deed ∈ deeds, path ∈ deed.deleted := by
  induction course with
  | start => exact absurd told opening_quiet
  | write _ _ _ tells _ ih =>
      rcases List.mem_append.mp told with waiting | new
      · exact ih waiting
      · rcases tells with rfl | rfl
        · exact absurd (List.mem_singleton.mp new) (by simp)
        · exact absurd (List.mem_singleton.mp new) (by simp)
  | delete _ _ script _ ih =>
      rcases List.mem_append.mp told with waiting | new
      · exact ih waiting
      · exact Or.inl (Event.removed.inj (List.mem_singleton.mp new) ▸ script)
  | react _ ih =>
      rcases List.mem_append.mp told with waiting | new
      · rcases ih (List.mem_cons_of_mem _ waiting) with script | ⟨deed, member, deleted⟩
        · exact Or.inl script
        · exact Or.inr ⟨deed, List.mem_cons_of_mem _ member, deleted⟩
      · exact Or.inr ⟨_, List.mem_cons_self, mem_echo new⟩

/-- When the session comes to the report of a path that no user deletes, it was the session that
took it away, and the report takes nothing along exactly when the session still remembers this,
or when there is nothing to take. -/
theorem echo_spares_iff {progress : Progress} {rest : List Event}
    (course : Course brewer patient disk options files deeds ⟨progress, .removed path :: rest⟩)
    (watching : options.watch = true) (artifact : SourceKind.ofPath path ≠ .macroScript) :
    (∃ deed ∈ deeds, path ∈ deed.deleted) ∧
      ((brewer.handle (.removed path) progress).1.disk = progress.disk ↔
        Remembered path deeds = true ∨ brewer.taken? progress.disk path = none) := by
  refine ⟨(course.reported List.mem_cons_self).resolve_left artifact, ?_⟩
  rw [Brewer.handle_removed_spares_iff (course.awake watching).2, course.remembers watching path]

section Lone

open Brewer (verbatim)

/-- A script and all that was made of it. -/
def brewedScript : Disk :=
  ⟨[(["a.cielo".toList], .file (.text []) 1), (["a.coffee".toList], .file (.text []) 1),
    (["a.js".toList], .file (.text []) 1)], [], 1⟩

theorem Course.queued {event : Event} {rest : List Event}
    (course : Course brewer patient disk options files deeds watch)
    (queue : watch.queue = event :: rest) :
    Course brewer patient disk options files deeds ⟨watch.progress, event :: rest⟩ :=
  queue ▸ course

/-- The script is deleted, the session takes the expanded text away, and when it is told of this
it leaves the compiled script where it is. -/
theorem deletedScript_spared : ∃ deeds progress,
    Course verbatim false brewedScript { SessionOptions.plain with watch := true } [] deeds
        ⟨progress, [.removed (Path.ofString "/a.coffee")]⟩ ∧
      (verbatim.handle (.removed (Path.ofString "/a.coffee")) progress).1.disk = progress.disk := by
  have deleted : brewedScript.removeFile (Path.ofString "/a.cielo") =
      .ok (brewedScript.erase ["a.cielo".toList]) := by rfl
  have opened : Course verbatim false brewedScript { SessionOptions.plain with watch := true } []
      [] _ := .delete .start (by simp) (by decide) deleted
  have cascaded := (opened.react.queued rfl).react
  have echoed := @Course.queued _ _ _ _ _ _ _ (.removed (Path.ofString "/a.coffee")) [] cascaded
    (by decide +kernel)
  have spares := (echo_spares_iff echoed rfl (by decide)).2
  exact ⟨_, _, echoed, spares.mpr (Or.inl (by decide +kernel))⟩

end Lone

section Patience

-- A macro script takes its first artifact along and nothing else.
theorem taken?_script {target : Path} (script : SourceKind.ofPath path = .macroScript)
    (taken : brewer.taken? disk path = some target) : target = path.artifact .preprocess := by
  rcases Brewer.classify_cases brewer.classifier path with recognized | ignored
  · rw [script] at recognized
    simp [Brewer.taken?, recognized, Path.cascadeTarget?, SourceKind.chain, Option.filter_eq_some_iff]
      at taken
    exact taken.1.symm
  · simp [Brewer.taken?, ignored, Path.cascadeTarget?, SourceKind.chain] at taken

/-- A removal is alone in the queue, and unless it is that of a script the session remembers it
for its own. -/
def Attentive (watch : Watch) : Prop :=
  ∀ path, .removed path ∈ watch.queue → watch.queue = [.removed path] ∧
    (SourceKind.ofPath path = .macroScript ∨ watch.progress.session.isOwnRemoval path = true)

theorem Course.attentive (course : Course brewer true disk options files deeds watch)
    (watching : options.watch = true) : watch.Attentive := by
  induction course with
  | start => exact fun path told => absurd told opening_quiet
  | write _ turn _ tells _ _ =>
      intro path told
      rw [turn rfl, List.nil_append] at told
      rcases tells with rfl | rfl
      · exact absurd (List.mem_singleton.mp told) (by simp)
      · exact absurd (List.mem_singleton.mp told) (by simp)
  | delete _ turn script _ _ =>
      intro path told
      rw [turn rfl, List.nil_append] at told ⊢
      obtain rfl := Event.removed.inj (List.mem_singleton.mp told)
      exact ⟨rfl, Or.inl script⟩
  | @react deeds progress event rest course ih =>
      intro path told
      -- A removal that is still waiting would have had the queue for itself.
      rcases List.mem_append.mp told with waiting | new
      · obtain ⟨_, none⟩ := List.cons.inj (ih path (List.mem_cons_of_mem _ waiting)).1
        rw [none] at waiting
        exact absurd waiting List.not_mem_nil
      · have gone := mem_echo new
        obtain ⟨spoken, rfl, _, _, writes, deletes⟩ := Brewer.mem_deletes gone
        obtain ⟨_, rfl⟩ := List.cons.inj (ih spoken List.mem_cons_self).1
        refine ⟨by simp [Deed.echo, Deed.of, writes, deletes], Or.inr ?_⟩
        rw [Brewer.handle_remembers (course.awake watching).2, deletes]
        simp [Path.same_self]

/-- A user who waits for the session loses no compiled script: all that the session ever takes
away is the first artifact of a script that was deleted. -/
theorem Course.spares_compiled (course : Course brewer true disk options files deeds watch)
    (watching : options.watch = true) {deed : Deed} (done : deed ∈ deeds) {target : Path}
    (deleted : target ∈ deed.deleted) :
    ∃ script, deed.event = .removed script ∧ SourceKind.ofPath script = .macroScript ∧
      target = script.artifact .preprocess := by
  induction course with
  | start => exact absurd done List.not_mem_nil
  | write _ _ _ _ _ ih => exact ih done
  | delete _ _ _ _ ih => exact ih done
  | @react deeds progress event rest course ih =>
      rcases List.mem_cons.mp done with rfl | earlier
      · obtain ⟨script, rfl, foreign, taken, _⟩ := Brewer.mem_deletes deleted
        have own := (course.attentive watching script List.mem_cons_self).2
        have kind := own.resolve_right (by simp [foreign])
        exact ⟨script, rfl, kind, taken?_script kind taken⟩
      · exact ih earlier

end Patience

end Brewery.Watch
