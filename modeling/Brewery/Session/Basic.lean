import Brewery.Disk.Lookup

/-!
A session: one run of the brewer. It starts with a first pass over the tree; after that it
watches or is done. It knows the artifacts it wrote, each with the time stamp that the write
left, and those it removed, so that it can tell the echo of its own work from the work of
others. Paths are compared by their components.
-/

namespace Brewery

/-- What a session was asked for, once and for all. -/
structure SessionOptions where
  /-- Make every artifact anew, whatever the time stamps say. -/
  force : Bool
  quiet : Bool
  debug : Bool
  /-- Run scripts after they are built. -/
  execute : Bool
  /-- Go on after the first pass. -/
  watch : Bool
  deriving DecidableEq

inductive Phase where
  | scanning
  | watching
  | done
  deriving DecidableEq

structure Counters where
  /-- Artifacts written. -/
  processed : Nat
  /-- Scripts started. -/
  executed : Nat
  deriving DecidableEq

structure Session where
  options : SessionOptions
  phase : Phase
  counters : Counters
  written : List (Path × Int)
  removed : List Path

def SessionOptions.plain : SessionOptions := ⟨false, false, false, false, false⟩

def Phase.text : Phase → Text
  | .scanning => "scanning".toList
  | .watching => "watching".toList
  | .done => "done".toList

def Counters.text (counters : Counters) : Text :=
  Text.ofNat counters.processed ++ " processed, ".toList ++
    Text.ofNat counters.executed ++ " executed".toList

namespace Session

def start (options : SessionOptions) : Session := ⟨options, .scanning, ⟨0, 0⟩, [], []⟩

/-- Whether the first pass is over. -/
def scanComplete (session : Session) : Bool := session.phase ≠ .scanning

/-- The end of the first pass. In any later phase nothing happens. -/
def markReady (session : Session) : Session :=
  if session.phase = .scanning then
    { session with phase := if session.options.watch then .watching else .done }
  else session

def finish (session : Session) : Session := { session with phase := .done }

def countProcessed (session : Session) : Session :=
  { session with counters := { session.counters with processed := session.counters.processed + 1 } }

def countExecuted (session : Session) : Session :=
  { session with counters := { session.counters with executed := session.counters.executed + 1 } }

def without (path : Path) (paths : List Path) : List Path :=
  paths.filter fun other => !path.same other

def withoutEntry (path : Path) (entries : List (Path × Int)) : List (Path × Int) :=
  entries.filter fun entry => !path.same entry.1

/-- The stamp of the session's last write to a path, as far as it is known. -/
def writtenAt? (session : Session) (path : Path) : Option Int :=
  (session.written.find? fun entry => path.same entry.1).map Prod.snd

/-- Remembers an artifact that was just written. One whose stamp cannot be read leaves what
was known of the path as it is. -/
def recordWrite (session : Session) (disk : Disk) (path : Path) : Session :=
  let session := { session with removed := without path session.removed }
  match disk.stamp? path with
  | some stamp => { session with written := (path, stamp) :: withoutEntry path session.written }
  | none => session

/-- Remembers an artifact that was just removed, until its removal is reported. -/
def recordRemoval (session : Session) (path : Path) : Session :=
  { session with
    written := withoutEntry path session.written
    removed := path :: without path session.removed }

/-- Whether the removal of a path was the session's own and not yet reported. -/
def isOwnRemoval (session : Session) (path : Path) : Bool := session.removed.any path.same

def forgetRemoval (session : Session) (path : Path) : Session :=
  { session with removed := without path session.removed }

def forgetWrite (session : Session) (path : Path) : Session :=
  { session with written := withoutEntry path session.written }

/-- Whether a path is an artifact of this session that nobody has touched since. -/
def isOwnWrite (session : Session) (disk : Disk) (path : Path) : Bool :=
  match session.writtenAt? path, disk.stamp? path with
  | some recorded, some current => recorded = current
  | _, _ => false

/-- Whether an artifact has to be made from its source. After the first pass, or by force,
it always has; before that it has when it is missing or older than its source, and a source
that is gone asks for nothing. -/
def needsRebuild (session : Session) (disk : Disk) (source artifact : Path) : Bool :=
  if session.options.force || session.scanComplete then true
  else match disk.stamp? source, disk.stamp? artifact with
    | none, _ => false
    | some _, none => true
    | some made, some kept => kept < made

end Session
end Brewery
