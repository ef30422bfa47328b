import FleetControl.Config
import FleetControl.Inventory
import FleetControl.Lifecycle
import FleetControl.Time.Setting

/-!
# Rolling replacement

An upgrade event replaces every host of a cluster. INIT launches temporary
hosts outside the pool, LAUNCHING waits until all of them serve, and REPLACING
drains retirable hosts of the pool, but never more at a time than serve beyond
the pool's size; the pool fills up with new hosts. COMPLETING deals with the
temporary hosts: failed ones are terminated, healthy ones take the places of
failed hosts of the pool, and the rest are terminated.
-/
namespace FleetControl.Replacement

def lockPrefix : String := "CLUSTERREPLACER"

/-- The notification that nothing could be launched. -/
def launchFailure (cluster : String) (batch : Nat) (audience : Recipients) : Notification :=
  { subject := s!"Cluster Upgrade Event Alert - Launch failure for cluster {cluster}"
    message := s!"Failed to launch {batch} hosts for cluster {cluster} in state INIT; retrying"
    recipients := audience.email
    room := audience.chatroom }

/-- Launch hosts in batches until none is missing, storing the event after each
launch. An empty launch ends the step: with an error if it was the first. Every
other launch brings at least one host, so `limit` need not exceed `needed`. -/
def launchMissing (config : ReplacementSettings) (env : Environment) : (limit needed : Nat) →
    (launchedAny : Bool) → UpgradeEvent → Program (UpgradeEvent × Decision UpgradeState)
  | 0, _, _, event => pure (event, .enter .launching .succeeded)
  | limit + 1, needed, launchedAny, event =>
      if needed = 0 then pure (event, .enter .launching .succeeded)
      else do
        let batch := min needed (max config.launchBatch 1)
        let launched ← request (.launchHosts event.cluster batch none)
        if launched.isEmpty then
          notify (launchFailure event.cluster batch env.recipients)
          let cluster := event.cluster
          if launchedAny then pure (event, .stay)
          else Program.fail (.fleet s!"launched none of {batch} hosts for cluster {cluster}")
        else
          let event := event.withHostIds (event.hostIds.insertAll launched)
          ask (.updateItem .upgrade event)
          launchMissing config env limit (needed - launched.length) true event

/-- Launch what is missing from the target of the environment. -/
def init (config : ReplacementSettings) (event : UpgradeEvent) :
    Program (UpgradeEvent × Decision UpgradeState) := do
  let env ← requireEnvironment event.envId
  let target := max env.maxParallelReplacement 1
  let needed := target - event.hostIds.size
  launchMissing config env needed needed false event

/-- What the agents of running hosts say: whether all hosts are ready, and the
hosts with a failed agent beside those already known as failed. -/
def inspect : List HostId → (ready : Bool) → (failed : IdSet) → Program (Bool × IdSet)
  | [], ready, failed => pure (ready, failed)
  | host :: hosts, ready, failed => do
      let agents ← ask (.agentsByHost host)
      if agents.isEmpty then inspect hosts false failed
      else
        inspect hosts (ready && agents.all Agent.isServing)
          (if agents.any Agent.isFailed then failed.insert host else failed)

/-- Request the termination of hosts and record it. -/
def terminate (cluster : String) (ids : List HostId) (drain : Bool) : Program Unit := do
  request (.terminateHosts cluster ids drain)
  ask (.setHostState ids .terminating)

/-- Go on when every tracked host serves; relaunch when one was lost. -/
def launching (event : UpgradeEvent) : Program (UpgradeEvent × Decision UpgradeState) := do
  let tracked := event.hostIds.toList
  if tracked.isEmpty then pure (event, .enter .init .succeeded)
  else
    let terminated ← request (.listTerminated tracked)
    let running ← request (.listRunning tracked)
    let (ready, failed) ← inspect running (running.length == tracked.length) terminated
    if failed.isEmpty then
      pure (event, if ready then .enter .replacing .succeeded else .stay)
    else
      terminate event.cluster failed.toList true
      pure (event.withHostIds (event.hostIds.eraseAll failed.toList), .enter .init .succeeded)

/-- Drain hosts of the event's cluster, if there are any. -/
def drain (event : UpgradeEvent) (ids : List HostId) : Program Unit :=
  if ids.isEmpty then pure () else ask (.drainHosts event.envId ids)

/-- Drain as many retirable hosts as serve beyond the pool's size, failed ones first. -/
def replacing (event : UpgradeEvent) : Program (UpgradeEvent × Decision UpgradeState) := do
  let retirable ← ask (.retirableHostIds event.cluster)
  if retirable.isEmpty then pure (event, .enter .completing .succeeded)
  else
    let poolSize ← request (.currentPoolSize event.cluster)
    let serving ← ask (.countServing event.envId)
    if serving ≤ poolSize then pure (event, .stay)
    else
      let budget := serving - poolSize
      let failed ← ask (.retirableFailedHostIds event.cluster)
      let first := failed.take budget
      drain event first
      if first.length < budget then
        drain event ((retirable.filter fun id => !failed.contains id).take
          (budget - first.length))
      pure (event, .stay)

/-- Store the event with some hosts no longer tracked. -/
def untrack (event : UpgradeEvent) (ids : List HostId) : Program UpgradeEvent := do
  let event := event.withHostIds (event.hostIds.eraseAll ids)
  ask (.updateItem .upgrade event)
  pure event

/-- Deal with every temporary host that the provider still runs. -/
def reconcile (event : UpgradeEvent) : Program UpgradeEvent := do
  let cluster := event.cluster
  let tracked := event.hostIds
  let active ← request (.listRunning tracked.toList)
  let event ←
    if active.length == tracked.size then pure event
    else do
      let event := event.withHostIds (.ofList active)
      ask (.updateItem .upgrade event)
      pure event
  let failed ← ask (.failedHostIds cluster)
  let failedTemps := failed.filter fun id => active.contains id
  let failedPool := failed.filter fun id => !tracked.toList.contains id
  let healthy := active.filter fun id => !failedTemps.contains id
  let event ←
    if failedTemps.isEmpty then pure event
    else do
      terminate cluster failedTemps true
      untrack event failedTemps
  let swaps := min failedPool.length healthy.length
  let event ←
    if swaps = 0 then pure event
    else do
      let attached := healthy.take swaps
      request (.attachToPool attached cluster)
      let event ← untrack event attached
      terminate cluster (failedPool.take swaps) false
      pure event
  let surplus := healthy.drop swaps
  if !surplus.isEmpty then terminate cluster surplus true
  pure (event.withHostIds .empty)

/-- Reconcile the temporary hosts and give the cluster back. Nothing is left to
reconcile when no host is tracked or the pool lacks serving capacity. -/
def completing (event : UpgradeEvent) : Program (UpgradeEvent × Decision UpgradeState) := do
  let serving ← ask (.countServing event.envId)
  let poolSize ← request (.currentPoolSize event.cluster)
  let event ←
    if event.hostIds.isEmpty || decide (serving ≤ poolSize) then pure event
    else reconcile event
  resumeCluster event.cluster
  pure (event, .keepStatus .completed)

def step (config : ReplacementSettings) (event : UpgradeEvent) :
    Program (UpgradeEvent × Decision UpgradeState) :=
  let id := event.id
  match (event.state : UpgradeState) with
  | .init => init config event
  | .launching => launching event
  | .replacing => replacing event
  | .completing => completing event
  | .completed => Program.fail (.invariant s!"event {id} stepped while COMPLETED")

/-- COMPLETING times out to COMPLETED, every other state through COMPLETING. -/
def timeoutTarget : UpgradeState → UpgradeState
  | .completing | .completed => .completed
  | .init | .launching | .replacing => .completing

/-- The notification of a timeout in a state. -/
def timeoutAlert (cluster : String) (source : UpgradeState) (audience : Recipients) : Notification :=
  let state := Enumeration.name source
  { subject := s!"Cluster Upgrade Event Alert - Timeout for cluster {cluster}"
    message := s!"Cluster upgrade event timeout at state {state} for cluster {cluster}"
    recipients := audience.email
    room := audience.chatroom }

/-- Give the cluster back and tell the environment's recipients. -/
def onTimeout (event : UpgradeEvent) (source : UpgradeState) : Program Unit := do
  resumeCluster event.cluster
  let env ← requireEnvironment event.envId
  notify (timeoutAlert event.cluster source env.recipients)

/-- The life cycle of upgrade events. Any step without an error counts as progress. -/
def lifecycle (config : ReplacementSettings) : Lifecycle .upgrade where
  name := "cluster_replacement"
  lockPrefix := lockPrefix
  activeStates := ItemKind.activeStates .upgrade
  timeout := Span.ofSetting config.timeoutSecs
  timeoutBasis := Lifecycle.heartbeat
  timeoutTarget := timeoutTarget
  timeoutMessage event := "Cluster upgrade event timeout at state " ++ event.stateName
  isPaused event := clusterIsPaused event.cluster
  onTimeout := onTimeout
  step event _ := step config event

def controller (config : ReplacementSettings) : Controller := (lifecycle config).controller

end FleetControl.Replacement
