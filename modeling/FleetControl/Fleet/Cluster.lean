import FleetControl.Enumeration
import FleetControl.Time.Instant

/-!
# Clusters and environments

A cluster is a named pool of hosts that serve one workload. An environment is
one stage of a deployable service; a cluster runs exactly one environment.
-/
namespace FleetControl

abbrev HostId := String
abbrev EnvId := String

/-- Whether controllers may act on a cluster. -/
inductive ClusterState where
  | normal
  | pause
  deriving DecidableEq, Repr

instance : Enumeration ClusterState where
  label := "ClusterState"
  name
    | .normal => "NORMAL"
    | .pause => "PAUSE"
  all := [.normal, .pause]
  mem_all := by intro a; cases a <;> decide
  nodup_names := by decide

/-- Whether an environment accepts automated changes. -/
inductive EnvState where
  | normal
  | disabled
  deriving DecidableEq, Repr

instance : Enumeration EnvState where
  label := "EnvState"
  name
    | .normal => "NORMAL"
    | .disabled => "DISABLED"
  all := [.normal, .disabled]
  mem_all := by intro a; cases a <;> decide
  nodup_names := by decide

/-- Who hears about a cluster or an environment. -/
structure Recipients where
  email : List String
  pager : List String
  chatroom : Option String
  deriving DecidableEq, Repr

structure Cluster where
  name : String
  envId : EnvId
  state : ClusterState
  /-- The image that new hosts launch from. -/
  imageId : Option String
  /-- How long a launched host may take to check in. -/
  launchGraceSecs : Nat
  recipients : Recipients
  lastUpdate : Instant
  deriving DecidableEq, Repr

structure Environment where
  id : EnvId
  name : String
  stage : String
  state : EnvState
  /-- The current deploy. -/
  deployId : Option String
  /-- The name under which builds for this environment are published. -/
  buildName : String
  /-- How many temporary hosts a replacement of the cluster uses. -/
  maxParallelReplacement : Nat
  recipients : Recipients
  deriving DecidableEq, Repr

/-- A machine image. -/
structure Image where
  id : String
  publishDate : Instant
  deriving DecidableEq, Repr

end FleetControl
