import Brewery.Command.Run
import Brewery.Log
import Brewery.Stage.Error

/-!
Compilers. A compiler is asked for the text that a source text becomes and answers with it
or with an error, and with what it has to log; it may look at the disk and never changes
it. A compiler of scripts is told the path of the source, a compiler of templates the name
under which the source is shown. A command line is made a compiler by feeding it the text
and taking what it prints.
-/

namespace Brewery

abbrev Compiler (Origin : Type) :=
  (disk : Disk) → (text : Text) → (origin : Origin) → Log × Except StageError Text

abbrev ScriptCompiler := Compiler Path

abbrev TemplateCompiler := Compiler Text

namespace Compiler

/-- A compiler that depends on nothing but the text and where it comes from. -/
def pure {Origin : Type} (compile : Text → Origin → Except StageError Text) : Compiler Origin :=
  fun _ text origin => ([], compile text origin)

def filePlaceholder : Text := "\x7bfile\x7d".toList

def namePlaceholder : Text := "\x7bname\x7d".toList

/-- An argument in which the placeholders stand for the source. -/
def fill (file name argument : Text) : Text :=
  Text.replace namePlaceholder name (Text.replace filePlaceholder file argument)

/-- What a run of a compiler says: its output, or an error that quotes its complaint. -/
def judge (command text : Text) (outcome : Outcome) : Except StageError Text :=
  if outcome.succeeded then .ok (Text.Utf8.decodeLossy outcome.output)
  else
    let complaint := Text.trim (Text.Utf8.decodeLossy outcome.errors)
    let message := if complaint.isEmpty then "exited with ".toList ++ outcome.ending.text
      else complaint
    .error (.compile command message text)

/-- Runs a command line on a text. The command is quoted as it was configured, with its
placeholders. -/
def runCommand (compiler : Text) (argv : List Text) (disk : Disk) (text file name : Text) :
    Log × Except StageError Text :=
  match argv with
  | [] => ([], .error (.notConfigured compiler))
  | program :: arguments =>
      let command := Text.joinWith [' '] argv
      let log := [.debug "compile" "running" (command ++ " < ".toList ++ name)]
      match Command.run disk program (arguments.map (fill file name)) (Text.Utf8.encode text) with
      | .error fault => (log, .error (.spawn command fault))
      | .ok outcome => (log, judge command text outcome)

def scriptCommand (argv : List Text) : ScriptCompiler := fun disk text source =>
  runCommand "script".toList argv disk text source.text source.displayName

def templateCommand (argv : List Text) : TemplateCompiler := fun disk text name =>
  runCommand "template".toList argv disk text name name

end Compiler
end Brewery
