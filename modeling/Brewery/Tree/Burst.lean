import Brewery.Session.Event

/-!
Bursts of events. An editor that saves a file causes several events for one path in short
order; they wait until the path has been quiet for a while and then count as one. A path
that was added during its burst counts as added, and bursts are released in the order of
their latest events.
-/

namespace Brewery

structure Burst where
  /-- When the latest event of the burst came. -/
  latest : Nat
  event : Event
  deriving DecidableEq

structure Bursts where
  /-- How long a path has to be quiet, in the unit of the moments. -/
  quiet : Nat
  waiting : List Burst

namespace Bursts

def start (quiet : Nat) : Bursts := ⟨quiet, []⟩

/-- Without a quiet time nothing needs to wait. -/
def isImmediate (bursts : Bursts) : Bool := bursts.quiet = 0

def concerns (path : Path) (burst : Burst) : Bool := burst.event.path?.any path.same

/-- The event of a burst after one more event. -/
def absorb (before after : Event) : Event :=
  match before with
  | .added _ => before
  | _ => after

/-- One more event at a moment. An event without a path never waits. -/
def record (bursts : Bursts) (now : Nat) (event : Event) : Bursts :=
  match event.path? with
  | none => bursts
  | some path =>
      if bursts.waiting.any (concerns path) then
        { bursts with waiting := bursts.waiting.map fun burst =>
            if concerns path burst then ⟨now, absorb burst.event event⟩ else burst }
      else { bursts with waiting := bursts.waiting ++ [⟨now, event⟩] }

/-- Drops the burst of a path. -/
def remove (bursts : Bursts) (path : Path) : Bursts :=
  { bursts with waiting := bursts.waiting.filter fun burst => !concerns path burst }

def isReady (bursts : Bursts) (now : Nat) (burst : Burst) : Bool :=
  burst.latest + bursts.quiet ≤ now

/-- The events of the bursts that are over, the longest quiet one first. -/
def take (bursts : Bursts) (now : Nat) : List Event × Bursts :=
  let ready := bursts.waiting.filter (bursts.isReady now)
  let ordered := ready.mergeSort fun left right => left.latest ≤ right.latest
  (ordered.map Burst.event,
    { bursts with waiting := bursts.waiting.filter fun burst => !bursts.isReady now burst })

def pending (bursts : Bursts) : Nat := bursts.waiting.length

def hasPending (bursts : Bursts) : Bool := !bursts.waiting.isEmpty

end Bursts
end Brewery
