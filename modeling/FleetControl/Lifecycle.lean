import FleetControl.Pass

/-!
# Life cycles of work items

Every work item is advanced by the same rules. A terminal item is left alone.
The item of a paused cluster only has its heartbeat refreshed. One that has
gone too long without progress is sent to its timeout state, whatever its
state would do. Any other takes one step of its state, and the result is stored
in full.
-/
namespace FleetControl

/-- What one step of a state decides. -/
inductive Decision (S : Type) where
  /-- Move on. Without a status or an error the old one stays. -/
  | move (target : S) (status : Option ItemStatus) (error : Option String)
  | stay
  deriving DecidableEq, Repr

namespace Decision

variable {S : Type}

def enter (target : S) (status : ItemStatus) : Decision S := move target (some status) none

def keepStatus (target : S) : Decision S := move target none none

def fail (target : S) (error : String) : Decision S := move target (some .failed) (some error)

end Decision

/-- What advancing an item did. -/
inductive Progress (S : Type) where
  /-- The item was in its terminal state. -/
  | skipped
  | paused
  | timedOut (source target : S)
  | transitioned (source target : S)
  | stayed
  deriving DecidableEq, Repr

/-- How the items of one kind live. -/
structure Lifecycle (k : ItemKind) where
  name : String
  lockPrefix : String
  /-- The states in which a pass picks items up. -/
  activeStates : List k.State
  /-- How long an item may go without progress. -/
  timeout : Outcome Span
  /-- The instant from which that time counts. -/
  timeoutBasis : Item k → Instant
  /-- The state to which an item without progress is sent. -/
  timeoutTarget : k.State → k.State
  timeoutMessage : Item k → String
  isPaused : Item k → Program Bool
  /-- What follows a stored timeout; gets the item as stored and its old state. -/
  onTimeout : Item k → k.State → Program Unit
  /-- The logic of the item's state. It gives the item back with its changes and
  may store the item on the way. -/
  step : Item k → Instant → Program (Item k × Decision k.State)

namespace Item

variable {k : ItemKind}

/-- Refresh the heartbeat. -/
def touch (i : Item k) (now : Instant) : Item k :=
  { i with header := { i.header with lastWorkedOn := now } }

/-- The item after a step has decided. -/
def afterStep (i : Item k) (now : Instant) : Decision k.State → Item k
  | .stay => i.touch now
  | .move target status error =>
      { i with
        state := target
        header := { i.header with
          lastWorkedOn := now
          stateStartTime := now
          status := status.or i.header.status
          errorMessage := error.or i.header.errorMessage } }

/-- The item after a timeout. -/
def afterTimeout (i : Item k) (now : Instant) (target : k.State) (message : String) : Item k :=
  { i with
    state := target
    header := { i.header with
      status := some .timeout
      errorMessage := some message
      stateStartTime := now
      lastWorkedOn := now } }

end Item

namespace Lifecycle

variable {k : ItemKind}

/-- The instant of the last successful step, the usual basis of timeouts. -/
def heartbeat (i : Item k) : Instant := i.header.lastWorkedOn

/-- Store an item without progress in its timeout state. What follows may fail;
the timeout stands. -/
def timeOut (l : Lifecycle k) (item : Item k) (now : Instant) : Program (Progress k.State) := do
  let target := l.timeoutTarget item.state
  let stored := item.afterTimeout now target (l.timeoutMessage item)
  ask (.updateItem k stored)
  let _ ← (l.onTimeout stored item.state).attempt
  pure (.timedOut item.state target)

/-- Run the step of the item's state and store the result. -/
def takeStep (l : Lifecycle k) (item : Item k) (now : Instant) : Program (Progress k.State) := do
  let (changed, step) ← l.step item now
  ask (.updateItem k (changed.afterStep now step))
  match step with
  | .stay => pure .stayed
  | .move target _ _ => pure (.transitioned item.state target)

/-- Advance an item by at most one step. -/
def advance (l : Lifecycle k) (id : ItemId) (now : Instant) : Program (Progress k.State) := do
  match ← ask (.getItem k id) with
  | none => Program.fail (.notFound k.label id)
  | some item =>
      if item.isTerminal then pure .skipped
      else if ← l.isPaused item then
        ask (.updateItem k (item.touch now))
        pure .paused
      else
        let limit ← Program.ofOutcome l.timeout
        if limit < now.since (l.timeoutBasis item) then l.timeOut item now
        else l.takeStep item now

/-- The controller that advances the items in active states. -/
def controller (l : Lifecycle k) : Controller where
  name := l.name
  lockPrefix := some l.lockPrefix
  candidates := ask (.listItems k l.activeStates)
  process id := do
    let now ← readClock
    let _ ← l.advance id now

end Lifecycle

end FleetControl
