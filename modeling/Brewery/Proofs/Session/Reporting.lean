import Brewery.Session.Executor

/-!
Every script is reported once. `Accounted` balances the tasks that still run, what is under way and
what the sink has listed against what was started. It carries with it that the sink does not end
while a task may still tell: as long as one runs, a sender is held.
-/

namespace Brewery

theorem Execution.Possible.names {argv : List Text} {artifact : Path} {execution : Execution}
    (possible : Possible argv artifact execution) : execution.artifact = artifact := by
  cases possible with
  | unconfigured => rfl
  | answered answer => cases answer <;> rfl

theorem Execution.run_possible (disk : Disk) (argv : List Text) (artifact : Path) :
    Possible argv artifact (run disk argv artifact) := by
  cases argv with
  | nil => exact .unconfigured
  | cons program arguments => exact .answered _

namespace Executor

variable {argv : List Text} {acts more : List Act} {act : Act} {first executor after : Executor}

section Acts

@[simp] theorem spawned_append (acts more : List Act) :
    spawned (acts ++ more) = spawned acts ++ spawned more := by
  simp [spawned]

@[simp] theorem told_append (acts more : List Act) : told (acts ++ more) = told acts ++ told more := by
  simp [told]

theorem Run.trans (run : Run first acts executor) (further : Run executor more after) :
    Run first (acts ++ more) after := by
  induction further with
  | nil => rwa [List.append_nil]
  | next _ step ih =>
      rw [← List.append_assoc]
      exact .next ih step

theorem Run.cons (step : Step first act executor) (further : Run executor acts after) :
    Run first (act :: acts) after :=
  Run.trans (.next .nil step) further

end Acts

/-- What was started is running or was told of, and what was told is under way or listed. -/
structure Accounted (argv : List Text) (acts : List Act) (executor : Executor) : Prop where
  line : executor.argv = argv
  holds : executor.holds = true ↔ .finish ∉ acts
  heard : executor.outcomes ++ executor.channel = told acts
  tasks : (executor.running ++ (told acts).map Execution.artifact).Perm (spawned acts)
  possible : ∀ execution ∈ told acts, Execution.Possible argv execution.artifact execution
  ends : executor.listening = false → executor.senders = 0 ∧ executor.channel = []

namespace Accounted

theorem start (argv : List Text) : Accounted argv [] (start argv) where
  line := rfl
  holds := by simp [Executor.start]
  heard := rfl
  tasks := .refl []
  possible := by simp [told]
  ends := by simp [Executor.start]

/-- While a sender is held the sink goes on. -/
theorem listens (accounted : Accounted argv acts executor) (held : executor.senders ≠ 0) :
    executor.listening = true := by
  cases listening : executor.listening with
  | true => rfl
  | false => exact absurd (accounted.ends listening).1 held

theorem tell {before behind : List Path} {artifact : Path} {execution : Execution}
    (accounted : Accounted argv acts executor) (runs : executor.running = before ++ artifact :: behind)
    (possible : Execution.Possible executor.argv artifact execution) :
    Accounted argv (acts ++ [.tell execution])
      ({ executor with running := before ++ behind, leaving := executor.leaving + 1 }.send execution) := by
  have listening : executor.listening = true := accounted.listens (by simp [senders, runs])
  have names := possible.names
  subst names
  simp only [send, listening, if_true]
  constructor
  · exact accounted.line
  · simpa using accounted.holds
  · rw [told_append, ← accounted.heard, List.append_assoc]
    rfl
  · -- The artifact goes from those that run to those that are told of.
    have moved : (before ++ behind ++ ((told acts).map Execution.artifact ++ [execution.artifact])).Perm
        (executor.running ++ (told acts).map Execution.artifact) := by
      have last := List.perm_append_singleton execution.artifact
        (behind ++ (told acts).map Execution.artifact)
      simpa [runs] using last.append_left before
    simpa [told, spawned] using moved.trans accounted.tasks
  · intro other member
    rw [told_append, List.mem_append] at member
    rcases member with earlier | here
    · exact accounted.possible other earlier
    · obtain rfl : other = execution := by simpa [told] using here
      exact accounted.line ▸ possible
  · simp

/-- Where nothing is started and nothing told, only the sink and the senders have to be looked at. -/
theorem quiet (accounted : Accounted argv acts executor) (started : spawned [act] = [])
    (silent : told [act] = []) (line : after.argv = executor.argv)
    (holds : after.holds = true ↔ .finish ∉ acts ++ [act])
    (heard : after.outcomes ++ after.channel = executor.outcomes ++ executor.channel)
    (tasks : after.running = executor.running)
    (ends : after.listening = false → after.senders = 0 ∧ after.channel = []) :
    Accounted argv (acts ++ [act]) after where
  line := line.trans accounted.line
  holds := holds
  heard := by rw [heard, accounted.heard, told_append, silent, List.append_nil]
  tasks := by
    rw [tasks, told_append, silent, List.append_nil, spawned_append, started, List.append_nil]
    exact accounted.tasks
  possible := by
    rw [told_append, silent, List.append_nil]
    exact accounted.possible
  ends := ends

theorem step (accounted : Accounted argv acts executor) (step : Step executor act after) :
    Accounted argv (acts ++ [act]) after := by
  have holds := accounted.holds
  cases step with
  | spawn artifact held =>
      have listening := accounted.listens (by simp [senders, held])
      refine ⟨accounted.line, by simpa using holds, ?_, ?_, ?_, by simp [listening]⟩
      · simpa [told] using accounted.heard
      · have joined := accounted.tasks.append_right [artifact]
        rw [List.append_assoc] at joined
        simpa [told, spawned] using (List.perm_append_comm.append_left _).trans joined
      · simpa [told] using accounted.possible
  | tell _ _ runs possible => exact accounted.tell runs possible
  | leave others =>
      have listening := accounted.listens (by simp [senders, others])
      exact accounted.quiet rfl rfl rfl (by simpa using holds) rfl rfl (by simp [listening])
  | receive listens sent =>
      exact accounted.quiet rfl rfl rfl (by simpa using holds) (by simp [sent]) rfl (by simp [listens])
  | finish held =>
      have listening := accounted.listens (by simp [senders, held])
      exact accounted.quiet rfl rfl rfl (by simp) rfl rfl (by simp [listening])
  | stop listens empty alone =>
      exact accounted.quiet rfl rfl rfl (by simpa using holds) rfl rfl fun _ => ⟨alone, empty⟩

end Accounted

theorem Run.accounted (run : Run (start argv) acts executor) : Accounted argv acts executor := by
  induction run with
  | nil => exact .start argv
  | next _ step ih => exact ih.step step

section Ending

theorem returned?_eq_some_iff {outcomes : List Execution} : executor.returned? = some outcomes ↔
    executor.holds = false ∧ executor.listening = false ∧ executor.outcomes = outcomes := by
  cases holds : executor.holds <;> cases listening : executor.listening <;>
    simp [returned?, holds, listening]

/-- What is left to happen once nothing is started any more. -/
def weight (executor : Executor) : Nat :=
  3 * executor.running.length + executor.leaving + executor.channel.length +
    if executor.listening then 1 else 0

theorem Step.lighter (step : Step executor act after) (closed : executor.holds = false) :
    after.holds = false ∧ after.weight < executor.weight := by
  cases step with
  | spawn artifact held | finish held => exact absurd held (by simp [closed])
  | tell _ _ runs possible =>
      unfold send
      split <;> refine ⟨closed, ?_⟩ <;> simp [weight, runs] <;> omega
  | leave others => exact ⟨closed, by simp [weight, others]⟩
  | receive listens sent => exact ⟨closed, by simp [weight, sent]⟩
  | stop listens empty alone => exact ⟨closed, by simp [weight, listens]⟩

theorem Run.lighter (run : Run executor acts after) (closed : executor.holds = false) :
    after.holds = false ∧ after.weight + acts.length ≤ executor.weight := by
  induction run with
  | nil => exact ⟨closed, Nat.le_refl _⟩
  | next _ step ih =>
      obtain ⟨still, before⟩ := ih
      obtain ⟨last, less⟩ := step.lighter still
      refine ⟨last, ?_⟩
      rw [List.length_append, List.length_singleton]
      omega

/-- A sink that goes on has something to receive, or a sender to wait for, or an end. -/
theorem exists_step (listening : executor.listening = true) (closed : executor.holds = false) :
    ∃ act after, Step executor act after := by
  cases sent : executor.channel with
  | cons execution rest => exact ⟨_, _, .receive listening sent⟩
  | nil =>
      cases runs : executor.running with
      | cons artifact rest =>
          exact ⟨_, _, .tell [] _ runs (Execution.run_possible (.empty [] 0) _ artifact)⟩
      | nil =>
          cases leaving : executor.leaving with
          | succ others => exact ⟨_, _, .leave leaving⟩
          | zero => exact ⟨_, _, .stop listening sent (by simp [senders, closed, runs, leaving])⟩

end Ending

/-- Whatever is started, in whatever order the tasks tell and the sink receives: what finishing
returns has one outcome for every script that was started, in the order in which they were told, each
with its artifact; and once it is called, finishing returns after a bounded number of steps. -/
theorem run_reports (run : Run (start argv) acts executor) :
    (∀ outcomes, executor.returned? = some outcomes →
      (outcomes.map Execution.artifact).Perm (spawned acts) ∧ outcomes = told acts ∧
        ∀ execution ∈ outcomes, Execution.Possible argv execution.artifact execution) ∧
      (.finish ∈ acts →
        (executor.returned? = none → ∃ act after, Step executor act after) ∧
          ∀ more after, Run executor more after → more.length ≤ executor.weight) := by
  have accounted := run.accounted
  constructor
  · intro outcomes returned
    obtain ⟨_, listening, rfl⟩ := returned?_eq_some_iff.mp returned
    obtain ⟨alone, empty⟩ := accounted.ends listening
    have none : executor.running = [] := by
      rw [senders] at alone
      exact List.eq_nil_of_length_eq_zero (by omega)
    have all : executor.outcomes = told acts := by
      rw [← accounted.heard, empty, List.append_nil]
    have tasks := accounted.tasks
    rw [none, List.nil_append, ← all] at tasks
    exact ⟨tasks, all, all ▸ accounted.possible⟩
  · intro asked
    have closed : executor.holds = false := by
      rw [← Bool.not_eq_true, accounted.holds]
      exact not_not_intro asked
    refine ⟨fun waiting => exists_step ?_ closed, fun more after further => ?_⟩
    · rw [← Bool.not_eq_false]
      intro ended
      exact absurd (returned?_eq_some_iff.mpr ⟨closed, ended, rfl⟩) (by simp [waiting])
    · have bound := (further.lighter closed).2
      omega

section Runs

def firstScript : Path := .ofString "a.js"

def secondScript : Path := .ofString "b.js"

/-- Two tasks of one script and one of another. They tell before finishing is called and after it, and
not in the order in which they were started. -/
def crossed (first second third : Execution) : List Act :=
  [.spawn firstScript, .spawn secondScript, .tell second, .spawn firstScript, .finish, .tell third,
    .receive, .leave, .tell first, .receive, .leave, .leave, .receive, .stop]

theorem crossed_run {first second third : Execution}
    (one : Execution.Possible argv firstScript first)
    (two : Execution.Possible argv secondScript second)
    (three : Execution.Possible argv firstScript third) :
    Run (start argv) (crossed first second third)
      ⟨argv, false, [], 0, [], false, [second, third, first]⟩ :=
  .cons (.spawn _ rfl) <| .cons (.spawn _ rfl) <| .cons (.tell [firstScript] _ rfl two) <|
  .cons (.spawn _ rfl) <| .cons (.finish rfl) <| .cons (.tell [firstScript] _ rfl three) <|
  .cons (.receive rfl rfl) <| .cons (.leave rfl) <| .cons (.tell [] _ rfl one) <|
  .cons (.receive rfl rfl) <| .cons (.leave rfl) <| .cons (.leave rfl) <|
  .cons (.receive rfl rfl) <| .cons (.stop rfl rfl rfl) .nil

/-- Without a command line every task tells that there is none; with one, a script that cannot be
started is told of like those that are run. -/
theorem crossed_reports :
    (∃ executor, Run (start []) (crossed (.unconfigured firstScript) (.unconfigured secondScript)
        (.unconfigured firstScript)) executor ∧
      executor.returned? = some [.unconfigured secondScript, .unconfigured firstScript,
        .unconfigured firstScript] ∧
      [secondScript, firstScript, firstScript].Perm [firstScript, secondScript, firstScript]) ∧
      ∃ first second third executor, Run (start ["sh".toList]) (crossed first second third) executor ∧
        first.error.isSome = true ∧ second.succeeded = true ∧ third.code = some 3 ∧
        executor.returned? = some [second, third, first] ∧
        ([second, third, first].map Execution.artifact).Perm
          [firstScript, secondScript, firstScript] := by
  constructor
  · have run := crossed_run .unconfigured .unconfigured .unconfigured
    exact ⟨_, run, rfl, ((run_reports run).1 _ rfl).1⟩
  · have run := @crossed_run ["sh".toList] _ _ _ (.answered (.error .missing))
      (.answered (.ok (.exited 0 [] []))) (.answered (.ok (.exited 3 [] [])))
    exact ⟨_, _, _, _, run, rfl, by decide +kernel, rfl, rfl, ((run_reports run).1 _ rfl).1⟩

end Runs

section InTurn

/-- A task that tells, goes and is heard before any other does. -/
def inTurn (disk : Disk) (argv : List Text) (artifact : Path) : List Act :=
  [.tell (.run disk argv artifact), .leave, .receive]

theorem spawned_spawn (artifacts : List Path) : spawned (artifacts.map .spawn) = artifacts := by
  induction artifacts with
  | nil => rfl
  | cons artifact rest ih => exact congrArg (artifact :: ·) ih

theorem spawned_inTurn (disk : Disk) (argv : List Text) (artifacts : List Path) :
    spawned (artifacts.flatMap (inTurn disk argv)) = [] := by
  induction artifacts with
  | nil => rfl
  | cons artifact rest ih =>
      rw [List.flatMap_cons, spawned_append, ih]
      rfl

theorem run_spawn (held : executor.holds = true) (artifacts : List Path) :
    Run executor (artifacts.map .spawn)
      { executor with running := executor.running ++ artifacts } := by
  induction artifacts generalizing executor with
  | nil => simpa using Run.nil
  | cons artifact rest ih =>
      have further := @ih { executor with running := executor.running ++ [artifact] } held
      rw [List.append_assoc] at further
      exact .cons (.spawn artifact held) further

theorem run_inTurn (disk : Disk) (argv : List Text) (artifacts : List Path)
    (outcomes : List Execution) :
    Run ⟨argv, false, artifacts, 0, [], true, outcomes⟩ (artifacts.flatMap (inTurn disk argv))
      ⟨argv, false, [], 0, [], true, outcomes ++ artifacts.map (.run disk argv)⟩ := by
  induction artifacts generalizing outcomes with
  | nil => simpa using Run.nil
  | cons artifact rest ih =>
      have further := ih (outcomes ++ [.run disk argv artifact])
      rw [List.append_assoc] at further
      exact .cons (.tell [] _ rfl (Execution.run_possible disk argv artifact))
        (.cons (.leave rfl) (.cons (.receive rfl rfl) further))

end InTurn

end Executor

/-- What a session's scripts come to when they run one after the other is what its executor may
return. -/
theorem Brewer.finish_returned (brewer : Brewer) (progress : Progress) :
    ∃ acts executor, Executor.Run (.start (brewer.runner.getD [])) acts executor ∧
      Executor.spawned acts = progress.runs ∧
      executor.returned? = some (brewer.finish progress).executions := by
  have started := @Executor.run_spawn (.start (brewer.runner.getD [])) rfl progress.runs
  have drained := Executor.run_inTurn progress.disk (brewer.runner.getD []) progress.runs []
  refine ⟨_, _, started.trans (.cons (.finish rfl) (drained.next (.stop rfl rfl rfl))), ?_, rfl⟩
  have silent : Executor.spawned [.finish] = [] := rfl
  have ended : Executor.spawned [.stop] = [] := rfl
  rw [Executor.spawned_append, ← List.singleton_append, Executor.spawned_append, silent,
    Executor.spawned_append, ended, Executor.spawned_spawn, Executor.spawned_inTurn]
  simp

end Brewery
