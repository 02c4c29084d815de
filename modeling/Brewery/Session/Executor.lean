import Brewery.Session.Execution

/-!
Scripts that run beside the build. A script that is started is a task, which sends what became of it
over a channel; a sink lists what it receives, in order. The executor holds a sender of the channel
until it is told to finish, and every task holds one until it is over. The sink ends when nothing is
left in the channel and nobody holds a sender; what it has listed by then is what finishing returns.
-/

namespace Brewery

/-- What may become of a script that is run with a command line. -/
inductive Execution.Possible : List Text → Path → Execution → Prop where
  | unconfigured {artifact : Path} : Possible [] artifact (.unconfigured artifact)
  | answered {program : Text} {arguments : List Text} {artifact : Path}
      (answer : Except Fault Outcome) :
      Possible (program :: arguments) artifact (.answered program artifact answer)

structure Executor where
  argv : List Text
  /-- Whether the executor still has its own sender. -/
  holds : Bool
  /-- The artifacts of the tasks that have not told yet. -/
  running : List Path
  /-- How many tasks have told and not let go of their sender yet. -/
  leaving : Nat
  channel : List Execution
  /-- Whether the sink goes on. -/
  listening : Bool
  outcomes : List Execution

namespace Executor

inductive Act where
  | spawn (artifact : Path)
  | tell (execution : Execution)
  | leave
  | receive
  | finish
  | stop

def start (argv : List Text) : Executor := ⟨argv, true, [], 0, [], true, []⟩

def senders (executor : Executor) : Nat :=
  (if executor.holds then 1 else 0) + executor.running.length + executor.leaving

/-- Sends over the channel; when the sink has ended, nobody hears. -/
def send (executor : Executor) (execution : Execution) : Executor :=
  if executor.listening then { executor with channel := executor.channel ++ [execution] }
  else executor

/-- One thing that happens. Tasks tell in any order, at any time, and in the order in which they
tell the sink receives. -/
inductive Step (executor : Executor) : Act → Executor → Prop where
  | spawn (artifact : Path) (held : executor.holds = true) :
      Step executor (.spawn artifact) { executor with running := executor.running ++ [artifact] }
  | tell (before after : List Path) {artifact : Path} {execution : Execution}
      (runs : executor.running = before ++ artifact :: after)
      (possible : Execution.Possible executor.argv artifact execution) :
      Step executor (.tell execution)
        ({ executor with running := before ++ after, leaving := executor.leaving + 1 }.send execution)
  | leave {others : Nat} (told : executor.leaving = others + 1) :
      Step executor .leave { executor with leaving := others }
  | receive {execution : Execution} {rest : List Execution} (listens : executor.listening = true)
      (sent : executor.channel = execution :: rest) :
      Step executor .receive
        { executor with channel := rest, outcomes := executor.outcomes ++ [execution] }
  | finish (held : executor.holds = true) : Step executor .finish { executor with holds := false }
  | stop (listens : executor.listening = true) (empty : executor.channel = [])
      (alone : executor.senders = 0) : Step executor .stop { executor with listening := false }

/-- What happens one after the other. -/
inductive Run (first : Executor) : List Act → Executor → Prop where
  | nil : Run first [] first
  | next {acts : List Act} {act : Act} {executor after : Executor} (run : Run first acts executor)
      (step : Step executor act after) : Run first (acts ++ [act]) after

/-- What finishing returns, once it returns. -/
def returned? (executor : Executor) : Option (List Execution) :=
  if executor.holds || executor.listening then none else some executor.outcomes

/-- The artifacts that were given to be run. -/
def spawned (acts : List Act) : List Path :=
  acts.filterMap fun act => match act with
    | .spawn artifact => some artifact
    | _ => none

/-- What the tasks told. -/
def told (acts : List Act) : List Execution :=
  acts.filterMap fun act => match act with
    | .tell execution => some execution
    | _ => none

end Executor
end Brewery
