import FleetControl.Pass

/-!
# Host termination

A drained host is terminated once its agents have let go of their workloads,
and forgotten once the provider reports it terminated.
-/
namespace FleetControl.Decommission

def lockPrefix : String := "HOSTTERMINATOR"

/-- Forget a host that the provider has terminated; tells whether it has. -/
def forgetIfGone (host : Host) : Program Bool := do
  let terminated ← request (.listTerminated [host.id])
  if host.id ∈ terminated then
    ask (.deleteHost host.id)
    pure true
  else pure false

/-- Terminate a host all of whose agents have stopped. -/
def terminateIfIdle (host : Host) : Program Unit := do
  let agents ← ask (.agentsByHost host.id)
  if agents.all Agent.isStopped then
    request (.terminateHosts host.cluster [host.id] true)
    ask (.setHostState [host.id] .terminating)
  else pure ()

/-- Look at a host again, now under its lock, and do what its state asks for. -/
def process (id : HostId) : Program Unit := do
  match ← ask (.getHost id) with
  | none => pure ()
  | some host =>
      if !host.state.isLeaving then pure ()
      else
        let removed ← forgetIfGone host
        if !removed && host.state == .pendingTerminate then terminateIfIdle host
        else pure ()

def controller : Controller where
  name := "termination"
  lockPrefix := some lockPrefix
  candidates := do
    let hosts ← ask (.hostsInStates [.pendingTerminate, .terminating])
    pure (hosts.map Host.id)
  process := process

end FleetControl.Decommission
