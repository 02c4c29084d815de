import Brewery.Session.Reaction

/-!
Running the scripts that a session has built. Nothing in a build waits for a script, so
scripts run when the building is over, and a script that fails is told of and stops nothing.
-/

namespace Brewery

/-- What became of one script. -/
structure Execution where
  artifact : Path
  /-- The exit code, if the script was started and not killed. -/
  code : Option Nat
  output : Text
  errors : Text
  /-- Why it could not be started. -/
  error : Option Text
  deriving DecidableEq

namespace Execution

def succeeded (execution : Execution) : Bool :=
  execution.error.isNone && execution.code = some 0

/-- A script that there is no command line for. -/
def unconfigured (artifact : Path) : Execution :=
  ⟨artifact, none, [], [], some "no execute command configured".toList⟩

/-- A script whose program could not be started, or has ended. -/
def answered (program : Text) (artifact : Path) : Except Fault Outcome → Execution
  | .error fault =>
      ⟨artifact, none, [], [],
        some ("cannot run ".toList ++ program ++ ": ".toList ++ fault.message)⟩
  | .ok outcome =>
      ⟨artifact, outcome.ending.code?, Text.Utf8.decodeLossy outcome.output,
        Text.Utf8.decodeLossy outcome.errors, none⟩

/-- Runs a script: its path is the last argument of the command line. -/
def run (disk : Disk) (argv : List Text) (artifact : Path) : Execution :=
  match argv with
  | [] => unconfigured artifact
  | program :: arguments =>
      answered program artifact (Command.run disk program (arguments ++ [artifact.text]) [])

def report (execution : Execution) : LogEntry :=
  let name := execution.artifact.displayName
  match execution.error with
  | some error => .error "exec" (name ++ ": ".toList ++ error)
  | none =>
      if execution.succeeded then .info "exec" "finished" name
      else
        let code := (execution.code.map Text.ofNat).getD "signal".toList
        .error "exec" (name ++ " exited with ".toList ++ code ++ ": ".toList ++
          Text.trim execution.errors)

end Execution

/-- How a session ends: what its scripts printed, and its last words. -/
structure Closing where
  counters : Counters
  executions : List Execution
  log : Log

namespace Closing

def output (closing : Closing) : Text := closing.executions.flatMap Execution.output

end Closing

namespace Brewer

/-- Runs what was started and sums up. -/
def finish (brewer : Brewer) (progress : Progress) : Closing :=
  let executions := progress.runs.map (Execution.run progress.disk (brewer.runner.getD []))
  let counters := progress.session.counters
  let total : Log := if progress.session.options.quiet then []
    else [.info "brew" "done" counters.text]
  ⟨counters, executions, executions.map Execution.report ++ total⟩

end Brewer
end Brewery
