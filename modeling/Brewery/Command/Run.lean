import Brewery.Command.Shell

/-!
Starting a program. A name without a slash is one of the tools or the shell; a name with a
slash is a path, and no file of the disk may be run.
-/

namespace Brewery.Command

def binDirectories : List Text := ["/bin/", "/usr/bin/"].map String.toList

/-- The tool a program name stands for. -/
def toolName (program : Text) : Text :=
  (binDirectories.findSome? fun directory => Text.dropPrefix? directory program).getD program

/-- Runs a program that is a tool or the shell. Shells may start shells, to a depth. -/
def runKnown (disk : Disk) : Nat → List Text → Bytes → Option Tool.Result
  | 0, _, _ => none
  | _ + 1, [], _ => none
  | bound + 1, program :: arguments, input =>
      let name := toolName program
      if name = "sh".toList then
        some (Shell.program disk (runKnown disk bound) program arguments input)
      else Tool.run? disk name arguments input

/-- Runs a command line on an input, or says why it cannot be started. -/
def run (disk : Disk) (program : Text) (arguments : List Text) (input : Bytes) :
    Except Fault Outcome :=
  if Char.ofNat 0 ∈ program || arguments.any fun argument => Char.ofNat 0 ∈ argument then
    .error .nulInArgument
  else match runKnown disk 8 (program :: arguments) input with
    | some result => .ok result.outcome
    | none =>
        if '/' ∈ program then
          match disk.locate ⟨program⟩ with
          | .ok _ => .error .denied
          | .error fault => .error fault
        else .error .missing

end Brewery.Command
