import FleetControl.Simulation.Gate
import FleetControl.Lifecycle
import FleetControl.Time.Setting
import FleetControl.Workers

/-!
# Scripted controllers

Controllers and life cycles that do what a script says and note what they did,
and the running of all controllers over a stretch of time.
-/
namespace FleetControl.Simulation

/-- Raise a fault, if there is one. -/
def raiseFault : Option Fault → Program Unit
  | none => pure ()
  | some f => Program.done (.error f)

def note (topic : String) (fields : List String) : Program Unit :=
  Program.perform (.note ⟨topic, fields⟩)

/-- A controller with a fixed list of candidates and a fixed end for each. It
notes every item it is given. -/
def scriptedController (lockPrefix : Option String) (ids : List String) (listing : Option Fault)
    (ends : Table Fault) : Controller where
  name := "scripted"
  lockPrefix := lockPrefix
  candidates := do
    raiseFault listing
    pure ids
  process id := do
    note "process" [id]
    raiseFault (ends.get? id)

namespace Scene

/-- The notes left since they were last taken. -/
def takeNotes (s : Scene) : List Note × Scene :=
  (s.world.notes, s.withWorld { s.world with notes := [] })

/-- The names of the locks that are held. -/
def heldNames (s : Scene) : List String := s.world.locks.held.keys

/-- Make one pass of a controller. Gives its report, the items in the order in which it
processed them and the locks held afterwards. -/
def passRound (s : Scene) (c : Controller) :
    (Outcome PassReport × List String × List String) × Scene :=
  let (report, s) := s.run c.pass
  let (notes, s) := s.takeNotes
  ((report, notes.flatMap Note.fields, s.heldNames), s)

/-- Answer calls and, at every note, write down the locks that are held. -/
def watchLocks : Program.Handler (Scene × List String) := fun c (s, seen) =>
  let seen := match c with
    | .note _ => s.heldNames
    | _ => seen
  let (r, s) := answer c s
  (r, (s, seen))

/-- Run a body that ends with a fault, or not, under a lock. Gives the locks that
the body saw held. -/
def runLocked (s : Scene) (name : String) (fault : Option Fault) :
    (Outcome (Option (List String)) × Scene) :=
  let body : Program Unit := do
    note "inside" []
    raiseFault fault
  let (r, s, seen) := (exclusively name body).run watchLocks (s, [])
  (r.map fun ran => ran.map fun _ => seen, s.settle)

end Scene

/-! ## A scripted life cycle -/

/-- The instant from which the timeout of a walk counts. -/
inductive Basis where
  | lastWorkedOn
  | createdAt
  | stateStartTime
  deriving DecidableEq, Repr

/-- What a walk does throughout. -/
structure Walk where
  basis : Basis
  timeoutSecs : Int
  timeoutTarget : UpgradeState

/-- What a walk does at one turn. -/
structure Turn where
  paused : Bool
  pauseFault : Option Fault
  timeoutFault : Option Fault
  /-- Hosts to track before the step ends. -/
  track : List HostId
  stepFault : Option Fault
  step : Decision UpgradeState

namespace Walk

def basisOf (b : Basis) (event : UpgradeEvent) : Instant :=
  match b with
  | .lastWorkedOn => event.header.lastWorkedOn
  | .createdAt => event.header.createdAt
  | .stateStartTime => event.header.stateStartTime

/-- The life cycle of a walk at a turn. -/
def lifecycle (w : Walk) (t : Turn) : Lifecycle .upgrade where
  name := "walk"
  lockPrefix := "WALK"
  activeStates := [UpgradeState.init, .launching]
  timeout := Span.ofSetting w.timeoutSecs
  timeoutBasis := basisOf w.basis
  timeoutTarget _ := w.timeoutTarget
  timeoutMessage event := "timeout at state " ++ event.stateName
  isPaused _ := do
    raiseFault t.pauseFault
    pure t.paused
  onTimeout event source := do
    note "timeout" [Enumeration.name source, event.stateName]
    raiseFault t.timeoutFault
  step event _ := do
    note "step" []
    raiseFault t.stepFault
    pure (event.withHostIds (event.hostIds.insertAll t.track), t.step)

end Walk

/-- What one turn of a walk showed. -/
structure TurnReport where
  result : Outcome (Progress UpgradeState)
  item : Option UpgradeEvent
  candidates : List ItemId
  /-- The old and the new state of every timeout. -/
  timeouts : List (List String)
  steps : Nat

namespace Scene

/-- Advance an item by one turn and look at the item under its own id. -/
def walkTurn (s : Scene) (w : Walk) (t : Turn) (id shown : ItemId) (now : Instant) :
    TurnReport × Scene :=
  let l := w.lifecycle t
  let (result, s) := s.run (l.advance id now)
  let (notes, s) := s.takeNotes
  let ofTopic (topic : String) := notes.filter fun n => n.topic == topic
  (⟨result, s.world.tables.getItem .upgrade shown,
    s.world.tables.itemIdsInStates .upgrade l.activeStates,
    (ofTopic "timeout").map Note.fields, (ofTopic "step").length⟩, s)

/-- Run a program with a random order of its own. -/
def runWithSeed {α : Type} (s : Scene) (seed : Nat) (p : Program α) : Outcome α × Scene :=
  let selector := s.world.selector
  let (r, s) := (s.withWorld { s.world with selector := .seeded seed }).run p
  (r, s.withWorld { s.world with selector := selector })

end Scene

/-! ## All controllers over a stretch of time -/

/-- Controllers under way, each on its own time. -/
structure Loops where
  /-- A name for every pass that was made, the latest first. -/
  passed : List String
  /-- The controllers of which a pass crashed. They make no more. -/
  stopped : List String
  scene : Scene

namespace Loops

/-- Make a pass of a controller, unless one crashed before. What the pass begins in the
background stays to be done. -/
def pass (l : Loops) (w : Scheduled) : Loops :=
  if l.stopped.contains w.name then l
  else
    let (r, s) := w.controller.pass.run Scene.answer l.scene
    let stopped := match r with
      | .ok _ => l.stopped
      | .error _ => w.name :: l.stopped
    ⟨w.name :: l.passed, stopped, s⟩

/-- Make the passes of one time. The background waits until the last of them is over. -/
def passAll (l : Loops) (ws : List Scheduled) : Loops :=
  let l := ws.foldl pass l
  { l with scene := l.scene.settle }

end Loops

/-- Run workers for some milliseconds. The clock stands still meanwhile. Gives the names
of the controllers in the order of their passes. -/
def Scene.runWorkers (s : Scene) (ws : List Scheduled) (millis : Nat) : List String × Scene :=
  let l := (Scheduled.dueTogether ws millis).foldl Loops.passAll ⟨[], [], s⟩
  (l.passed.reverse, l.scene)

end FleetControl.Simulation
