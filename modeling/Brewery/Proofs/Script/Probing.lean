import Brewery.Proofs.Script.Cycle

/-!
What an expansion asks of the disk. It asks whether candidates for an include target are files,
one after the other until one is, and it asks nothing else. So a disk on which every path that it
probes leads to the same file gives the same expansion.
-/

namespace Brewery.Expander

open Script

variable {expander : Expander} {disk other : Disk} {here : Standing} {text target : Text}
  {origin : Path}

/-- The candidates that are tried for an include target, up to the first that is a file. -/
def probes (expander : Expander) (disk : Disk) (origin : Path) (target : Text) : List Path :=
  let candidates := expander.candidates origin target
  candidates.take (candidates.findIdx disk.isFile + 1)

/-- A candidate that the expansion of a text tries somewhere. -/
def Probed (expander : Expander) (disk : Disk) (text : Text) (origin candidate : Path) : Prop :=
  ∃ here number directive indent target next rest, Reached expander disk text origin here ∧
    here.next? = some ⟨.inclusion number directive indent target, next, rest⟩ ∧
    candidate ∈ expander.probes disk here.origin target

-- There is nothing to take in a text without lines.
theorem not_probed_empty {candidate : Path} : ¬Probed expander disk [] origin candidate := by
  rintro ⟨here, number, directive, indent, target, next, rest, reached, taken, _⟩
  have lines : physicalLines [] = [] := by decide
  have done : (Standing.outset disk [] origin).next? = none := by
    rw [Standing.outset, lines]
    rfl
  rcases Relation.ReflTransGen.cases_head reached with rfl | ⟨there, step, _⟩
  · exact absurd (done.symm.trans taken) (by simp)
  · cases step with
    | pass next => exact absurd (done.symm.trans next) (by simp)
    | enter includes =>
        obtain ⟨taken, next⟩ := includes.next
        exact absurd (done.symm.trans next) (by simp)

theorem findInclude_of_probes
    (agree : ∀ candidate ∈ expander.probes disk origin target,
      other.file? candidate = disk.file? candidate) :
    expander.findInclude other origin target = expander.findInclude disk origin target := by
  unfold probes at agree
  unfold findInclude
  simp only at agree
  generalize expander.candidates origin target = candidates at agree ⊢
  induction candidates with
  | nil => rfl
  | cons first rest ih =>
      have same : other.file? first = disk.file? first := agree first (by simp)
      rw [List.findSome?_cons, List.findSome?_cons, same]
      cases found : disk.file? first with
      | some file => rfl
      | none =>
          have passed : disk.isFile first = false := by simp [Disk.isFile, found]
          refine ih fun candidate member => agree candidate ?_
          rw [List.findIdx_cons, passed, cond_false, List.take_succ_cons]
          exact List.mem_cons_of_mem _ member

/-- An item becomes the same lines where its directive leads to the same file and this file
becomes the same. -/
theorem Standing.expandItems_agree {taken : Taken} (next : here.next? = some taken)
    (probed : ∀ number directive indent target,
      taken.item = .inclusion number directive indent target →
        expander.findInclude other here.origin target =
          expander.findInclude disk here.origin target)
    (inner : ∀ number directive indent path place text,
      here.Includes expander disk number directive indent path place (.text text) →
        onStack here.stack place.path = false →
          (here.inside indent path place text).result expander other =
            (here.inside indent path place text).result expander disk) :
    expander.expandItems other here.stack here.origin [taken.item] =
      expander.expandItems disk here.stack here.origin [taken.item] := by
  obtain ⟨item, number, rest⟩ := taken
  cases item with
  | inclusion line directive indent target =>
      have same := probed line directive indent target rfl
      cases found : expander.findInclude disk here.origin target with
      | none =>
          rw [expandItems_inclusion, expandItems_inclusion, same]
          simp only [found]
      | some file =>
          obtain ⟨path, place, contents⟩ := file
          have includes : here.Includes expander disk line directive indent path place contents :=
            ⟨target, number, rest, next, found⟩
          have again : here.Includes expander other line directive indent path place contents :=
            ⟨target, number, rest, next, same.trans found⟩
          cases active : onStack here.stack place.path with
          | true => exact (again.again next active).trans (includes.again next active).symm
          | false =>
              cases contents with
              | raw bytes =>
                  exact (again.unreadable next active).trans (includes.unreadable next active).symm
              | text text =>
                  have entered := inner line directive indent path place text includes active
                  exact (again.entered next active).trans
                    (entered ▸ (includes.entered next active).symm)
  | unterminated => rw [expandItems, expandItems]
  | _ => rw [expandItems, expandItems_nil, expandItems, expandItems_nil]

/-- Wherever an expansion stands, the lines to come are the same on a disk on which each item that
it comes to becomes the same, if a file that it goes into does. -/
theorem Reached.result_congr
    (agree : ∀ here taken, Reached expander disk text origin here → here.next? = some taken →
      (∀ number directive indent path place raw,
        here.Includes expander disk number directive indent path place (.text raw) →
          onStack here.stack place.path = false →
            (here.inside indent path place raw).result expander other =
              (here.inside indent path place raw).result expander disk) →
      expander.expandItems other here.stack here.origin [taken.item] =
        expander.expandItems disk here.stack here.origin [taken.item])
    (reached : Reached expander disk text origin here) :
    here.result expander other = here.result expander disk := by
  induction here using (step_wellFounded expander disk).induction with
  | _ here ih =>
      cases next : here.next? with
      | none => rw [Standing.result_of_end next, Standing.result_of_end next]
      | some taken =>
          have single := agree here taken reached next
            fun number directive indent path place raw includes fresh =>
              have step : Step expander disk here (here.inside indent path place raw) :=
                .enter includes fresh
              ih _ step (reached.tail step)
          cases expands : expander.expandItems disk here.stack here.origin [taken.item] with
          | error fault =>
              rw [Standing.result_of_failing next expands,
                Standing.result_of_failing next (single.trans expands)]
          | ok out =>
              have step : Step expander disk here (here.past taken out) := .pass next expands
              rw [Standing.result_of_passing next expands,
                Standing.result_of_passing next (single.trans expands),
                ih _ step (reached.tail step)]

/-- Wherever an expansion stands, the lines to come are the same on a disk on which all that it
probes leads to the same files. -/
theorem Reached.result_of_probed
    (agree : ∀ candidate, Probed expander disk text origin candidate →
      other.file? candidate = disk.file? candidate)
    (reached : Reached expander disk text origin here) :
    here.result expander other = here.result expander disk := by
  refine reached.result_congr fun here taken reached next inner =>
    Standing.expandItems_agree next ?_ inner
  intro number directive indent target item
  refine findInclude_of_probes fun candidate member => agree candidate ?_
  refine ⟨here, number, directive, indent, target, taken.number, taken.rest, reached, ?_, member⟩
  rw [next, ← item]

/-- A text expands to the same text where its file is the same and all that is probed leads to the
same files. -/
theorem expandText_of_probed (stays : other.canonical origin = disk.canonical origin)
    (agree : ∀ candidate, Probed expander disk text origin candidate →
      other.file? candidate = disk.file? candidate) :
    expander.expandText other text origin = expander.expandText disk text origin := by
  have same : stackEntry other origin = stackEntry disk origin := by
    rw [stackEntry, stackEntry, stays]
  have whole := Reached.result_of_probed agree Relation.ReflTransGen.refl
  simp only [Standing.result, Standing.outset] at whole
  rw [expandText, expandText, expandLines, expandLines, same, itemsOf, whole]

end Brewery.Expander
