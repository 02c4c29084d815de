import Brewery.Disk.Lookup

/-!
What a program that has run leaves behind: how it ended and the bytes it wrote.
-/

namespace Brewery

abbrev Bytes := List UInt8

inductive Ending where
  | exited (code : Nat)
  | signalled (number : Nat)
  deriving DecidableEq

structure Outcome where
  ending : Ending
  output : Bytes
  errors : Bytes

namespace Ending

def signalNames : List (Nat × String) :=
  [(1, "SIGHUP"), (2, "SIGINT"), (3, "SIGQUIT"), (4, "SIGILL"), (5, "SIGTRAP"), (6, "SIGABRT"),
    (7, "SIGBUS"), (8, "SIGFPE"), (9, "SIGKILL"), (10, "SIGUSR1"), (11, "SIGSEGV"),
    (12, "SIGUSR2"), (13, "SIGPIPE"), (14, "SIGALRM"), (15, "SIGTERM")]

def text : Ending → Text
  | .exited code => "exit status: ".toList ++ Text.ofNat code
  | .signalled number =>
      let name := ((signalNames.find? fun entry => entry.1 = number).map Prod.snd).getD "unknown"
      "signal: ".toList ++ Text.ofNat number ++ " (".toList ++ name.toList ++ [')']

def code? : Ending → Option Nat
  | .exited code => some code
  | .signalled _ => none

/-- The status by which a shell knows an ending. -/
def status : Ending → Nat
  | .exited code => code
  | .signalled number => 128 + number

end Ending

namespace Outcome

def exited (code : Nat) (output : Text) (errors : Text) : Outcome :=
  ⟨.exited code, Text.Utf8.encode output, Text.Utf8.encode errors⟩

def succeeded (outcome : Outcome) : Bool := outcome.ending = .exited 0

end Outcome

/-- The wording of a fault without its number. -/
def Fault.shortMessage (fault : Fault) : Text :=
  match fault.message.reverse.dropWhile (· ≠ '(') with
  | _ :: _ :: before => before.reverse
  | _ => fault.message

end Brewery
