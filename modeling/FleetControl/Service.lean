import FleetControl.Notification.Sink
import FleetControl.Workers
import FleetControl.World

/-!
# The service

A service builds its collaborators from a configuration and then runs the
enabled controllers. Locks and tables live in memory; what a database would hold
is out of reach.
-/
namespace FleetControl.Service

/-- Why a database cannot be used. -/
def noDatabase : String := "no database is reachable"

/-- What goes wrong in building the collaborators, in the order in which they are
built; otherwise the sink of notifications. -/
def collaborators (c : Config) : Except ControlError Sink := do
  match c.lock with
  | .memory => pure ()
  | .postgres _ _ => throw (.config ("lock backend: Connection error: " ++ noDatabase))
  let sink ← Sink.ofConfig c.notifications
  match c.store.backend with
  | .memory => pure sink
  | .postgres => throw (.database noDatabase)

/-- The world in which a service starts, without any records. The seed counts
only where the configuration has none. -/
def start (c : Config) (clock : Instant) (seed : Nat) : Except ControlError World := do
  let _ ← collaborators c
  pure (World.initial clock (.seeded (c.selector.seed.getD seed)))

/-- Make one pass of every enabled controller in the world of the start. -/
def runOnce (c : Config) (clock : Instant) (seed : Nat) :
    Outcome (List (String × PassReport)) := do
  let world ← (start c clock seed).mapError Fault.error
  ((Scheduled.runOnce c.workers).run World.answer world).1

end FleetControl.Service
