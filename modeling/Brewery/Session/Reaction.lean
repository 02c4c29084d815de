import Brewery.Session.Chain
import Brewery.Session.Event

/-!
How a session reacts. An added or changed source is built as far as it is stale; a removed
source takes the artifact of its first stage with it. Both leave alone what the session did
itself: its own artifacts are not sources that somebody changed, and its own removals do not
remove further. A session that is done reacts to nothing.
-/

namespace Brewery

/-- Whether a session goes on. -/
inductive Flow where
  | onward
  | stop
  deriving DecidableEq

/-- A named file that is of no kind that can be brewed. -/
inductive BuildError where
  | unknownFileType (path : Path)
  deriving DecidableEq

def BuildError.message : BuildError → Text
  | .unknownFileType path => "unknown file type: ".toList ++ path.text

namespace Brewer

/-- The end of the first pass. -/
def whenReady (brewer : Brewer) (progress : Progress) : Progress × Flow :=
  let progress := { progress with session := progress.session.markReady }
  match progress.session.phase with
  | .watching =>
      (progress.tell [.info "brew" "initial scan complete" (progress.session.counters.text ++
        "; watching ".toList ++ brewer.root.text)], .onward)
  | _ => (progress, .stop)

/-- A path is there, newly or in a new version. -/
def whenPresent (brewer : Brewer) (path : Path) (progress : Progress) : Progress :=
  let progress := { progress with session := progress.session.forgetRemoval path }
  let kind := brewer.classifier.classify path
  if kind = .unrecognized then progress
  else if progress.session.isOwnWrite progress.disk path then
    progress.tell [.debug "brew" "own artifact" (brewer.short path)]
  else match brewer.runChain path false kind.chain path none progress with
    | (progress, .ok _) => progress
    | (progress, .error error) => brewer.reportFailure path error progress

/-- Removes the artifact that goes with a source. -/
def cascade (brewer : Brewer) (target : Path) (progress : Progress) : Progress :=
  match Artifacts.remove progress.disk target with
  | (disk, _, .ok true) =>
      { progress with
        disk := disk
        session := progress.session.recordRemoval target }.tell
        [.info "brew" "removed" (brewer.short target)]
  | (disk, _, .ok false) =>
      { progress with disk := disk }.tell [.debug "brew" "already absent" (brewer.short target)]
  | (disk, refusal, .error _) => { progress with disk := disk }.tell refusal

/-- A path is gone. -/
def whenGone (brewer : Brewer) (path : Path) (progress : Progress) : Progress :=
  if progress.session.isOwnRemoval path then
    { progress with session := progress.session.forgetRemoval path }.tell
      [.debug "brew" "own removal" (brewer.short path)]
  else
    let progress := { progress with session := progress.session.forgetWrite path }
    let kind := brewer.classifier.classify path
    if kind = .dataLiteral && !brewer.inStores path then progress
    else match path.cascadeTarget? kind with
      | none => progress
      | some target => brewer.cascade target progress

/-- Reacts to one event. -/
def handle (brewer : Brewer) (event : Event) (progress : Progress) : Progress × Flow :=
  if progress.session.phase = .done then (progress, .stop)
  else
    let progress := match event.path? with
      | some path => progress.tell [.debug "brew" event.label (brewer.short path)]
      | none => progress
    match event with
    | .ready => brewer.whenReady progress
    | .removed path => (brewer.whenGone path progress, .onward)
    | .added path => (brewer.whenPresent path progress, .onward)
    | .changed path => (brewer.whenPresent path progress, .onward)

/-- Reacts to events in order, until one of them ends the session. -/
def handleAll (brewer : Brewer) : List Event → Progress → Progress × Flow
  | [], progress => (progress, .onward)
  | event :: rest, progress =>
      match brewer.handle event progress with
      | (progress, .onward) => brewer.handleAll rest progress
      | (progress, .stop) => (progress, .stop)

/-- Ends a session from outside. -/
def interrupt (progress : Progress) : Progress :=
  { progress.tell [.notice "brew" "interrupted"] with session := progress.session.finish }

/-- Starts a script that was just built, if scripts are to be run. -/
def execute (brewer : Brewer) (artifact : Path) (progress : Progress) : Progress :=
  match brewer.runner with
  | none => progress
  | some _ =>
      { progress with
        session := progress.session.countExecuted
        runs := progress.runs ++ [artifact] }.tell
        [.info "exec" "start" artifact.displayName]

/-- Builds one named file from its first stage to its last, stale or not. -/
def buildFile (brewer : Brewer) (path : Path) (progress : Progress) : Progress :=
  let kind := brewer.classifier.classify path
  match brewer.runChain path true kind.chain path none progress with
  | (progress, .ok true) =>
      if kind = .macroScript then brewer.execute (path.finalArtifact kind.chain) progress
      else progress
  | (progress, .ok false) => progress
  | (progress, .error error) => brewer.reportFailure path error progress

/-- Builds the named files in order. One of an unknown kind forbids the whole. -/
def build (brewer : Brewer) (files : List Path) (progress : Progress) :
    Progress × Except BuildError Unit :=
  match files.find? fun path => brewer.classifier.classify path = .unrecognized with
  | some path => (progress, .error (.unknownFileType path))
  | none => (files.foldl (fun progress path => brewer.buildFile path progress) progress, .ok ())

end Brewer
end Brewery
