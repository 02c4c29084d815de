import Brewery.Import.Prelude
import Brewery.Json5.Reader
import Brewery.Session.Artifacts
import Brewery.Session.Basic
import Brewery.Source.Artifact
import Brewery.Source.Classifier
import Brewery.Stage.Compiler

/-!
The chain of stages from a source to its last artifact. Each hop reads its input, makes the
artifact and hands the new text on, so the next hop need not read it again. A hop whose
artifact is up to date is passed over; a hop that cannot go on stops the chain, and what
the hops before it made stays.
-/

namespace Brewery

/-- What stays the same through a session. -/
structure Brewer where
  classifier : Classifier
  expander : Expander
  table : SymbolTable
  script : ScriptCompiler
  template : TemplateCompiler
  /-- Data literals are wrapped below this directory only. -/
  stores : Path
  /-- The command line that runs scripts, if they are to be run. -/
  runner : Option (List Text)

/-- What a session changes: the disk, what it knows and what it has told, and the scripts it
has started, in order. -/
structure Progress where
  disk : Disk
  session : Session
  log : Log
  runs : List Path

namespace Progress

def start (disk : Disk) (options : SessionOptions) : Progress :=
  ⟨disk, Session.start options, [], []⟩

def tell (progress : Progress) (entries : Log) : Progress :=
  { progress with log := progress.log ++ entries }

end Progress

namespace Brewer

def root (brewer : Brewer) : Path := brewer.classifier.root

def short (brewer : Brewer) (path : Path) : Text := path.shortFor brewer.root

def inStores (brewer : Brewer) (path : Path) : Bool := path.startsWith brewer.stores

/-- The output of a stage on a text. -/
def transform (brewer : Brewer) (disk : Disk) (stage : Stage) (text : Text) (input : Path) :
    Log × Except StageError Text :=
  match stage with
  | .preprocess =>
      match brewer.expander.expandText disk text input with
      | .error error => ([], .error (.expand error))
      | .ok expanded => (brewer.table.applyLog expanded, .ok (brewer.table.apply expanded))
  | .compileScript => brewer.script disk text input
  | .compileTemplate => brewer.template disk text input.displayName
  | .wrapData =>
      match Json5.exported? text input.exportName with
      | some module => ([], .ok module)
      | none => ([], .error (.data text))

/-- How a hop ends. -/
inductive Hop where
  /-- The chain goes on, with the text of the artifact if it was made just now. -/
  | passed (carried : Option Text)
  | stopped
  | failed (error : StageError)

/-- The text a hop starts from; none when the input has vanished. -/
def inputText (disk : Disk) (input : Path) : Option Text → Except StageError (Option Text)
  | some carried => .ok (some carried)
  | none =>
      match disk.readText input with
      | .ok text => .ok (some text)
      | .error .missing => .ok none
      | .error fault => .error (.read input fault)

/-- Makes the artifact of a stage from the text of its input. -/
def make (brewer : Brewer) (stage : Stage) (input : Path) (text : Text) (progress : Progress) :
    Progress × Hop :=
  let artifact := input.artifact stage
  match brewer.transform progress.disk stage text input with
  | (log, .error error) => (progress.tell log, .failed error)
  | (log, .ok output) =>
      match Artifacts.write progress.disk artifact output with
      | (disk, refusal, .error _) =>
          ({ progress with disk := disk }.tell (log ++ refusal), .stopped)
      | (disk, _, .ok ()) =>
          let told : LogEntry := .info "brew" stage.done
            (brewer.short input ++ " => ".toList ++ brewer.short artifact)
          ({ progress with
              disk := disk
              session := (progress.session.recordWrite disk artifact).countProcessed }.tell
            (log ++ [told]), .passed (some output))

/-- One stage of the chain of `source`. With `always` no artifact counts as up to date. -/
def hop (brewer : Brewer) (source : Path) (always : Bool) (stage : Stage) (input : Path)
    (carried : Option Text) (progress : Progress) : Progress × Hop :=
  let artifact := input.artifact stage
  if stage = .wrapData && !brewer.inStores source then
    (progress.tell [.info "brew" "skipped" (brewer.short source ++
      ": data literals are only wrapped inside ".toList ++ brewer.short brewer.stores)], .stopped)
  else if !always && !progress.session.needsRebuild progress.disk input artifact then
    (progress.tell [.debug "brew" "up to date" (brewer.short artifact)], .passed none)
  else match inputText progress.disk input carried with
    | .error error => (progress, .failed error)
    | .ok none => (progress.tell [.debug "brew" "vanished" (brewer.short input)], .stopped)
    | .ok (some text) => brewer.make stage input text progress

/-- Runs stages from an input on. Answers whether the last one was reached and passed. -/
def runChain (brewer : Brewer) (source : Path) (always : Bool) :
    List Stage → Path → Option Text → Progress → Progress × Except StageError Bool
  | [], _, _, progress => (progress, .ok true)
  | stage :: rest, input, carried, progress =>
      match brewer.hop source always stage input carried progress with
      | (progress, .passed carried) =>
          brewer.runChain source always rest (input.artifact stage) carried progress
      | (progress, .stopped) => (progress, .ok false)
      | (progress, .failed error) => (progress, .error error)

/-- Tells why a source was not built, and from which text. -/
def reportFailure (brewer : Brewer) (path : Path) (error : StageError) (progress : Progress) :
    Progress :=
  let headline : LogEntry := .error "brew" (brewer.short path ++ ": ".toList ++ error.message)
  match error.original? with
  | some original => progress.tell [headline, .debug "brew" "stage input" ('\n' :: original)]
  | none => progress.tell [headline]

end Brewer
end Brewery
