import Brewery.Tree.Burst
import Brewery.Tree.Notice
import Brewery.Tree.Pass

/-!
Watching a tree. The watcher is started before the first pass, so that a change made during
the pass is told after it; a watcher that cannot be started ends everything. After the pass
the session is woken by whatever comes from outside. A removal counts at once and ends the
burst of its path; other events wait for their bursts to end, if there is a quiet time. The
session goes on until it stops itself, until nothing can come any more, or until it is
interrupted.
-/

namespace Brewery

/-- Why a watcher was not started. -/
inductive WatcherFault where
  | absent (reason : Text)
  | refused (reason : Text)
  deriving DecidableEq

/-- What a watching session is woken by. -/
inductive Signal where
  | noticed (notice : Notice)
  | trouble (reason : Text)
  /-- It is time to look for bursts that are over. -/
  | tick
  /-- Interruptions cannot be heard. -/
  | deaf (reason : Text)
  /-- The watcher has gone. -/
  | closed

/-- A signal, when it came, and what had become of the disk by then. -/
structure Arrival where
  moment : Nat
  meanwhile : Disk → Disk
  signal : Signal

/-- All that happens outside of a session while it lasts. After the last arrival the session
is interrupted, if it is not over by then. -/
structure Surroundings where
  fault : Option WatcherFault
  arrivals : List Arrival

namespace Surroundings

/-- Nothing goes wrong, and nothing happens until the interruption. -/
def still : Surroundings := ⟨none, []⟩

end Surroundings

def WatcherFault.error (root : Path) : WatcherFault → TreeError
  | .absent reason => .noWatcher reason
  | .refused reason => .notWatched root reason

/-- A session that has begun to watch, with the bursts that are not over. -/
structure Vigil where
  progress : Progress
  bursts : Bursts

namespace Vigil

/-- One event counts. -/
def handle (brewer : Brewer) (event : Event) (vigil : Vigil) : Vigil × Flow :=
  let (progress, flow) := brewer.handle event vigil.progress
  ({ vigil with progress := progress }, flow)

def dispatch (brewer : Brewer) (now : Nat) (vigil : Vigil) (event : Event) : Vigil × Flow :=
  match event with
  | .removed path => handle brewer event { vigil with bursts := vigil.bursts.remove path }
  | _ =>
      if vigil.bursts.isImmediate then handle brewer event vigil
      else ({ vigil with bursts := vigil.bursts.record now event }, .onward)

def dispatchAll (brewer : Brewer) (now : Nat) : List Event → Vigil → Vigil × Flow
  | [], vigil => (vigil, .onward)
  | event :: rest, vigil =>
      match dispatch brewer now vigil event with
      | (vigil, .onward) => dispatchAll brewer now rest vigil
      | (vigil, .stop) => (vigil, .stop)

def tell (vigil : Vigil) (entry : LogEntry) : Vigil :=
  { vigil with progress := vigil.progress.tell [entry] }

def wake (brewer : Brewer) (now : Nat) (vigil : Vigil) : Signal → Vigil × Flow
  | .noticed notice => dispatchAll brewer now (notice.events vigil.progress.disk) vigil
  | .trouble reason =>
      (vigil.tell (.error "watch" ("file watch error: ".toList ++ reason)), .onward)
  | .tick =>
      let (events, bursts) := vigil.bursts.take now
      let (progress, flow) := brewer.handleAll events vigil.progress
      (⟨progress, bursts⟩, flow)
  | .deaf reason =>
      (vigil.tell (.warn "watch" ("cannot listen for Ctrl-C: ".toList ++ reason)), .onward)
  | .closed => (vigil.tell (.warn "watch" "event channel closed".toList), .stop)

/-- How a session ends that is woken by one arrival after the other. -/
def attend (brewer : Brewer) : List Arrival → Vigil → Progress
  | [], vigil => Brewer.interrupt vigil.progress
  | arrival :: rest, vigil =>
      let progress := { vigil.progress with disk := arrival.meanwhile vigil.progress.disk }
      match wake brewer arrival.moment { vigil with progress := progress } arrival.signal with
      | (vigil, .onward) => attend brewer rest vigil
      | (vigil, .stop) => vigil.progress

end Vigil

namespace Brewer

/-- Starts the watcher, if the session is to watch. -/
def startWatcher (root : Path) (outside : Surroundings) (progress : Progress) :
    Progress × Except TreeError Unit :=
  if progress.session.options.watch then
    match outside.fault with
    | some fault => (progress, .error (fault.error root))
    | none => (progress.tell [.debug "watch" "watching" root.text], .ok ())
  else (progress, .ok ())

/-- Brews a tree once, and then as it changes if the session is to watch. -/
def drive (brewer : Brewer) (root : Path) (quiet : Nat) (outside : Surroundings)
    (progress : Progress) : Progress × Except TreeError Unit :=
  match startWatcher root outside progress with
  | (progress, .error error) => (progress, .error error)
  | (progress, .ok ()) =>
      match brewer.pass root progress with
      | (progress, .error error) => (progress, .error error)
      | (progress, .ok ()) =>
          if progress.session.phase = .watching then
            (Vigil.attend brewer outside.arrivals ⟨progress, Bursts.start quiet⟩, .ok ())
          else (progress, .ok ())

end Brewer
end Brewery
