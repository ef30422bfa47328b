import FleetControl.Fleet.Cluster

/-!
# Hosts

The control plane's record of a compute host and of where it is in its life.
-/
namespace FleetControl

inductive HostState where
  /-- Launched; its agent has not checked in. -/
  | provisioned
  /-- Its agent is reporting. -/
  | running
  /-- Drained; waiting for its agents to stop. -/
  | pendingTerminate
  /-- The provider has been asked to terminate it. -/
  | terminating
  deriving DecidableEq, Repr

instance : Enumeration HostState where
  label := "HostState"
  name
    | .provisioned => "PROVISIONED"
    | .running => "RUNNING"
    | .pendingTerminate => "PENDING_TERMINATE"
    | .terminating => "TERMINATING"
  all := [.provisioned, .running, .pendingTerminate, .terminating]
  mem_all := by intro a; cases a <;> decide
  nodup_names := by decide

/-- Whether the host is on its way out of the fleet. -/
def HostState.isLeaving : HostState → Bool
  | .provisioned | .running => false
  | .pendingTerminate | .terminating => true

structure Host where
  id : HostId
  cluster : String
  state : HostState
  /-- Whether its pool can do without it. -/
  retirable : Bool
  lastUpdate : Instant
  createdAt : Instant
  deriving DecidableEq, Repr

end FleetControl
