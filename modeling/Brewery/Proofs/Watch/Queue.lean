import Brewery.Proofs.Session.Effects
import Brewery.Proofs.Session.Footprint
import Mathlib

/-!
A watched tree: a session, and the events that it has not seen yet, in the order in which they
happened. The user writes and deletes sources at any moment, and the session takes one event at
a time; whatever it does to the disk is told to it in its turn. Left alone the session comes to
the end of the queue, because an artifact is closer to the end of its chain than its source.
-/

namespace Brewery

structure Watch where
  progress : Progress
  queue : List Event

namespace Watch

-- The echo of a reaction: the artifacts that were written and those that went, in order.
def reports (before after : Disk) (artifacts : List Path) : List Event :=
  artifacts.filterMap fun artifact =>
    if after.stamp? artifact = before.stamp? artifact then none
    else if (after.stamp? artifact).isSome then some (.added artifact)
    else some (.removed artifact)

def artifacts (brewer : Brewer) (event : Event) : List Path :=
  match event.path? with
  | some path => path.artifacts (brewer.stages path)
  | none => []

def react (brewer : Brewer) (watch : Watch) : Watch :=
  match watch.queue with
  | [] => watch
  | event :: rest =>
      let after := (brewer.handle event watch.progress).1
      ⟨after, rest ++ reports watch.progress.disk after.disk (artifacts brewer event)⟩

def start (brewer : Brewer) (disk : Disk) (options : SessionOptions) : Watch :=
  ⟨(brewer.handle .ready (Progress.start disk options)).1, []⟩

/-- An event that says that a path is there. -/
def Tells (event : Event) (path : Path) : Prop := event = .added path ∨ event = .changed path

inductive Step (brewer : Brewer) (sources : Path → Prop) : Watch → Watch → Prop where
  | write {watch : Watch} {disk : Disk} {path : Path} {contents : Contents} {event : Event}
      (source : sources path) (told : Tells event path)
      (free : brewer.classifier.classify path = .macroScript →
        ∀ text, contents = .text text → IncludeFree path text)
      (written : watch.progress.disk.overwrite path contents = .ok disk) :
      Step brewer sources watch ⟨{ watch.progress with disk := disk }, watch.queue ++ [event]⟩
  | delete {watch : Watch} {disk : Disk} {path : Path} (source : sources path)
      (removed : watch.progress.disk.removeFile path = .ok disk) :
      Step brewer sources watch
        ⟨{ watch.progress with disk := disk }, watch.queue ++ [.removed path]⟩
  | react {watch : Watch} (busy : watch.queue ≠ []) :
      Step brewer sources watch (watch.react brewer)

section Reports

variable {before after : Disk} {paths : List Path} {path : Path}

theorem mem_reports {event : Event} (member : event ∈ reports before after paths) :
    ∃ path ∈ paths, (event = .added path ∧ (after.stamp? path).isSome = true) ∨
      (event = .removed path ∧ after.stamp? path = none) := by
  obtain ⟨path, inside, told⟩ := List.mem_filterMap.mp member
  refine ⟨path, inside, ?_⟩
  split at told
  · exact absurd told (by simp)
  split at told
  · next here => exact Or.inl ⟨(Option.some.inj told).symm, here⟩
  · next gone => exact Or.inr ⟨(Option.some.inj told).symm, by simpa using gone⟩

theorem reports_written {stamp : Int} (inside : path ∈ paths) (here : after.stamp? path = some stamp)
    (new : before.stamp? path ≠ some stamp) : .added path ∈ reports before after paths := by
  refine List.mem_filterMap.mpr ⟨path, inside, ?_⟩
  have changed : after.stamp? path ≠ before.stamp? path := by
    intro same
    exact new (same.symm.trans here)
  rw [if_neg changed, if_pos (by simp [here])]

theorem reports_present (here : (after.stamp? path).isSome = true) :
    .removed path ∉ reports before after paths := by
  intro member
  obtain ⟨other, _, ⟨told, _⟩ | ⟨told, gone⟩⟩ := mem_reports member
  · exact absurd told (by simp)
  · cases told
    rw [gone] at here
    exact absurd here (by simp)

end Reports

section Draining

variable {brewer : Brewer}

/-- How many reactions an event can be worth, counted generously. -/
def weight (brewer : Brewer) (event : Event) : Nat :=
  match event.path? with
  | some path => 2 ^ (brewer.stages path).length
  | none => 1

def load (brewer : Brewer) (queue : List Event) : Nat := (queue.map (weight brewer)).sum

theorem reports_load (before after : Disk) (paths : List Path) :
    load brewer (reports before after paths) ≤
      (paths.map fun path => 2 ^ (brewer.stages path).length).sum := by
  induction paths with
  | nil => exact Nat.le_refl _
  | cons path rest ih =>
      have split : reports before after (path :: rest) = reports before after [path] ++
          reports before after rest := by
        simp only [reports, List.filterMap_cons, List.filterMap_nil]
        split <;> rfl
      have first : load brewer (reports before after [path]) ≤ 2 ^ (brewer.stages path).length := by
        simp only [reports, List.filterMap_cons, List.filterMap_nil]
        by_cases same : after.stamp? path = before.stamp? path
        · simp [same, load]
        · by_cases here : (after.stamp? path).isSome = true
          · simp [same, here, load, weight, Event.path?]
          · simp [same, here, load, weight, Event.path?]
      rw [split, load, List.map_append, List.sum_append, List.map_cons, List.sum_cons]
      exact Nat.add_le_add first ih

-- Along a chain the weights of the artifacts do not add up to the weight of the source.
theorem artifacts_load (brewer : Brewer) (path : Path) :
    ((path.artifacts (brewer.stages path)).map fun artifact =>
      2 ^ (brewer.stages artifact).length).sum < 2 ^ (brewer.stages path).length := by
  rcases stages_shape brewer path with none | ⟨stage, final, single⟩ | double
  · simp [none, Path.artifacts]
  · obtain ⟨name, named⟩ := stages_named single
    rcases stages_artifact brewer stage named with none | ⟨first, _⟩
    · simp [single, Path.artifacts, none]
    · exact absurd first final
  · obtain ⟨name, named⟩ := stages_named double
    have next := Path.fileName?_artifact .preprocess named
    have last : brewer.stages ((path.artifact .preprocess).artifact .compileScript) = [] := by
      rcases stages_artifact brewer .compileScript next with none | ⟨first, _⟩
      · exact none
      · exact absurd first (by simp)
    rcases stages_artifact brewer .preprocess named with none | ⟨_, chain⟩
    · simp [double, Path.artifacts, none, last]
    · simp [double, Path.artifacts, chain, last]

theorem react_load {watch : Watch} (busy : watch.queue ≠ []) :
    load brewer (watch.react brewer).queue < load brewer watch.queue := by
  obtain ⟨event, rest, shape⟩ := List.exists_cons_of_ne_nil busy
  have echo : load brewer (reports watch.progress.disk
      (brewer.handle event watch.progress).1.disk (artifacts brewer event)) <
        weight brewer event := by
    refine Nat.lt_of_le_of_lt (reports_load _ _ _) ?_
    unfold artifacts weight
    cases event.path? with
    | none => exact Nat.one_pos
    | some path => exact artifacts_load brewer path
  simp only [react, shape, load, List.map_append, List.sum_append, List.map_cons, List.sum_cons]
  simp only [load] at echo
  omega

/-- Without further work of the user the session comes to the end of the queue. -/
theorem drains (brewer : Brewer) (watch : Watch) : ∃ count, ((react brewer)^[count] watch).queue = [] := by
  induction bound : load brewer watch.queue using Nat.strongRecOn generalizing watch with
  | ind bound ih =>
      by_cases idle : watch.queue = []
      · exact ⟨0, idle⟩
      · subst bound
        obtain ⟨count, empty⟩ := ih _ (react_load idle) (watch.react brewer) rfl
        exact ⟨count + 1, empty⟩

end Draining

section Pending

/-- A path that the session will still be told of, and not be told gone after that. -/
def Pending (path : Path) (queue : List Event) : Prop :=
  ∃ before event after, queue = before ++ event :: after ∧ Tells event path ∧
    .removed path ∉ after

variable {path : Path} {queue more rest : List Event} {event : Event}

theorem Pending.of_mem (member : event ∈ more) (tells : Tells event path)
    (kept : .removed path ∉ more) : Pending path (queue ++ more) := by
  obtain ⟨before, after, shape⟩ := List.append_of_mem member
  refine ⟨queue ++ before, event, after, by rw [shape, List.append_assoc], tells, fun gone => ?_⟩
  apply kept
  rw [shape]
  exact List.mem_append_right _ (List.mem_cons_of_mem _ gone)

theorem Pending.append (pending : Pending path queue) (kept : .removed path ∉ more) :
    Pending path (queue ++ more) := by
  obtain ⟨before, event, after, shape, tells, later⟩ := pending
  refine ⟨before, event, after ++ more, by rw [shape, List.append_assoc, List.cons_append], tells, ?_⟩
  intro gone
  rcases List.mem_append.mp gone with first | second
  · exact later first
  · exact kept second

-- What is pending is told now, or it is pending still.
theorem Pending.pop (pending : Pending path (event :: rest)) :
    Tells event path ∧ .removed path ∉ rest ∨ Pending path rest := by
  obtain ⟨before, told, after, shape, tells, kept⟩ := pending
  cases before with
  | nil =>
      obtain ⟨rfl, rfl⟩ := List.cons.inj shape
      exact Or.inl ⟨tells, kept⟩
  | cons first others =>
      exact Or.inr ⟨others, told, after, (List.cons.inj shape).2, tells, kept⟩

end Pending
end Watch
end Brewery
