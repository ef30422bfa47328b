import FleetControl.Program

/-!
# Reading the inventory

What several controllers look up and set: clusters and environments that must
exist, and the operator's flag on a cluster.
-/
namespace FleetControl

def requireCluster (name : String) : Program Cluster := do
  Program.orFail (.notFound "cluster" name) (← ask (.getCluster name))

def requireEnvironment (id : EnvId) : Program Environment := do
  Program.orFail (.notFound "environment" id) (← ask (.getEnvironment id))

/-- Whether an operator holds the cluster still. -/
def clusterIsPaused (name : String) : Program Bool := do
  let cluster ← requireCluster name
  pure (cluster.state == .pause)

/-- Hand a cluster back to normal operation. -/
def resumeCluster (name : String) : Program Unit := ask (.setClusterState name .normal)

end FleetControl
