import FleetControl.Fleet.Cluster

/-!
# Host tags

A deploy constraint asks for one provider tag of the hosts of an environment to
be kept in the control plane. A host tag is the kept value on one host.
-/
namespace FleetControl

inductive TagSyncState where
  | init
  | processing
  | finished
  | error
  deriving DecidableEq, Repr

instance : Enumeration TagSyncState where
  label := "TagSyncState"
  name
    | .init => "INIT"
    | .processing => "PROCESSING"
    | .finished => "FINISHED"
    | .error => "ERROR"
  all := [.init, .processing, .finished, .error]
  mem_all := by intro a; cases a <;> decide
  nodup_names := by decide

structure DeployConstraint where
  id : String
  envId : EnvId
  tagName : String
  state : TagSyncState
  lastUpdate : Instant
  deriving DecidableEq, Repr

structure HostTag where
  hostId : HostId
  envId : EnvId
  tagName : String
  tagValue : Option String
  deriving DecidableEq, Repr

end FleetControl
