import FleetControl.Config
import FleetControl.Inventory
import FleetControl.Lifecycle
import FleetControl.Time.Setting

/-!
# Image health checks

A check launches one probe host from an image, waits for it to check in, waits
until every agent on it serves, and then gives the image to the cluster. A
failure is reported to the cluster's e-mail recipients, or to on-call once
enough checks in a row have failed.
-/
namespace FleetControl.ImageCheck

def lockPrefix : String := "HEALTHCHECK"

/-- The start of the name of the lock under which a cluster's image changes. -/
def imageLockPrefix : String := "UPDATEIMAGE"

/-- How many checks to look at for so many finished ones. A number beyond 64 bits
is a crash. -/
def lookback (previous : Nat) : Outcome Nat :=
  if previous * 2 < 0x10000000000000000 then .ok (previous * 2 + 1)
  else .error (.crash (some "attempt to multiply with overflow"))

/-- Whether enough of the last finished checks of the cluster, other than this
one, all ended without qualifying. The check itself counts as one failure. -/
def failedInARow (config : ImageCheckSettings) (check : HealthCheck) : Program Bool := do
  let previous := config.failuresBeforePage - 1
  let limit ← Program.ofOutcome (lookback previous)
  let recent ← ask (.recentItems .check check.cluster limit)
  let finished :=
    (recent.filter fun other => other.id != check.id && other.isTerminal).take previous
  pure (finished.length == previous
    && finished.all fun other => other.header.status != some .qualified)

/-- Tell whoever should hear about a failed check. -/
def alert (config : ImageCheckSettings) (check : HealthCheck) (subject message : String) :
    Program Unit := do
  let cluster ← requireCluster check.cluster
  let page ← failedInARow config check
  let times := config.failuresBeforePage
  let paged := s!"Health check is failing for {times} times. {message}"
  notify
    { subject := subject
      message := if page then paged else message
      recipients := if page then cluster.recipients.pager else cluster.recipients.email
      room := cluster.recipients.chatroom }

/-- Fail the check with an alert. In INIT nothing was launched, so nothing is
left to clean up. -/
def fail (config : ImageCheckSettings) (check : HealthCheck) (subject message : String) :
    Program (HealthCheck × Decision HealthCheckState) := do
  alert config check subject message
  let target : HealthCheckState :=
    if (check.state : HealthCheckState) = .init then .completed else .completing
  pure (check, .fail target message)

/-- The probe host that every check past INIT has. -/
def probe (check : HealthCheck) : Program HostId :=
  let id := check.id
  let state := check.stateName
  Program.orFail (.invariant s!"health check {id} in {state} without a probe host")
    check.details.hostId

/-- Launch the probe host and record it. -/
def init (config : ImageCheckSettings) (check : HealthCheck) (now : Instant) :
    Program (HealthCheck × Decision HealthCheckState) := do
  let cluster := check.cluster
  let image := check.details.imageId
  match ← request (.launchHosts cluster 1 (some image)) with
  | [] =>
      fail config check
        s!"Health Check Warning - Launch Host Failed in cluster {cluster}"
        s!"Failed to launch a host with image {image} in cluster {cluster}"
  | id :: _ =>
      ask (.insertHost ⟨id, cluster, .provisioned, false, now, now⟩)
      let details : CheckDetails := { check.details with
        hostId := some id
        hostLaunchTime := some now
        hostTerminated := false }
      pure ({ check with details := details }, .enter .launching .succeeded)

/-- Wait for the probe host to check in, for as long as the cluster allows. -/
def launching (config : ImageCheckSettings) (check : HealthCheck) (now : Instant) :
    Program (HealthCheck × Decision HealthCheckState) := do
  let id ← probe check
  let cluster := check.cluster
  let image := check.details.imageId
  let terminated ← request (.listTerminated [id])
  if id ∈ terminated then
    fail config check
      s!"Health Check Alert - Host Terminated in cluster {cluster}"
      s!"Probe host {id} (image {image}) was terminated in cluster {cluster}"
  else
    match (← ask (.getHost id)).map Host.state with
    | some .running => pure (check, .enter .pendingVerify .succeeded)
    | some .pendingTerminate | some .terminating =>
        fail config check
          s!"Health Check Alert - Host Terminated in cluster {cluster}"
          s!"Probe host {id} is being terminated in cluster {cluster}"
    | some .provisioned | none =>
        let secs := (← requireCluster cluster).launchGraceSecs
        let grace ← Program.ofOutcome (Span.ofSetting secs)
        let launchedAt := check.details.hostLaunchTime.getD check.header.stateStartTime
        if grace ≤ now.since launchedAt then
          fail config check
            s!"Health Check Alert - Host Unresponsive in cluster {cluster}"
            (s!"Probe host {id} has not checked in for {secs} seconds "
              ++ s!"(image {image}) in cluster {cluster}")
        else pure (check, .stay)

/-- Take over the deploy times of the agents of the check's environment. -/
def recordDeploy (check : HealthCheck) (agents : List Agent) : HealthCheck :=
  let details : CheckDetails := (agents.filter fun a => a.envId == check.envId).foldl
    (fun (d : CheckDetails) a =>
      { d with
        deployStartTime := a.deployStart
        deployCompleteTime := a.firstDeployTime.or d.deployCompleteTime })
    check.details
  { check with details := details }

/-- The image qualifies when every agent on the probe host serves. -/
def pendingVerify (config : ImageCheckSettings) (check : HealthCheck) :
    Program (HealthCheck × Decision HealthCheckState) := do
  let id ← probe check
  let agents ← ask (.agentsByHost id)
  if agents.isEmpty then pure (check, .stay)
  else
    let check := recordDeploy check agents
    match agents.find? Agent.isFailed with
    | some failed =>
        let cluster := check.cluster
        let image := check.details.imageId
        let env := failed.envId
        let status := Enumeration.name failed.status
        fail config check
          s!"Health Check Alert - Deploy/Health Check Script Failed in cluster {cluster}"
          (s!"Deploy/health check script failed for environment {env} with status {status} "
            ++ s!"(image {image}) in cluster {cluster}")
    | none =>
        pure (check, if agents.all Agent.isServing then .enter .completing .qualified else .stay)

/-- Give an image to a cluster unless the cluster's own is at least as new. -/
def adoptImage (cluster image : String) : Program Unit := do
  let record ← requireCluster cluster
  let candidate ← Program.orFail (.notFound "image" image) (← ask (.getImage image))
  let current ← match record.imageId with
    | some id => ask (.getImage id)
    | none => pure none
  if current.any fun current => decide (candidate.publishDate ≤ current.publishDate) then pure ()
  else ask (.setClusterImage cluster image)

/-- Update the cluster's image under its lock; false if the lock was held. -/
def offerImage (check : HealthCheck) : Program Bool := do
  let outcome ← exclusively (lockOf imageLockPrefix check.cluster)
    (adoptImage check.cluster check.details.imageId)
  pure outcome.isSome

/-- Terminate the probe host unless that was done already. Gives the changed
check, or nothing if it did not change. -/
def releaseProbe (check : HealthCheck) : Program (Option HealthCheck) := do
  match check.details.hostId with
  | none => pure none
  | some id =>
      if check.details.hostTerminated then pure none
      else
        request (.terminateHosts check.cluster [id] false)
        ask (.setHostState [id] .terminating)
        let details : CheckDetails := { check.details with hostTerminated := true }
        pure (some { check with details := details })

/-- Give a qualified image to the cluster and terminate the probe host. The
periodic check of the current image has nothing to give. -/
def completing (check : HealthCheck) : Program (HealthCheck × Decision HealthCheckState) := do
  let promotes :=
    check.header.status == some .qualified && check.details.kind != .timeTriggered
  let busy ← if promotes then (! ·) <$> offerImage check else pure false
  if busy then pure (check, .stay)
  else
    let changed ← releaseProbe check
    pure (changed.getD check, .keepStatus .completed)

def step (config : ImageCheckSettings) (check : HealthCheck) (now : Instant) :
    Program (HealthCheck × Decision HealthCheckState) :=
  let id := check.id
  match (check.state : HealthCheckState) with
  | .init => init config check now
  | .launching => launching config check now
  | .pendingVerify => pendingVerify config check
  | .completing => completing check
  | .completed => Program.fail (.invariant s!"health check {id} stepped while COMPLETED")

/-- INIT has launched nothing, so it times out to COMPLETED as COMPLETING does. -/
def timeoutTarget : HealthCheckState → HealthCheckState
  | .init | .completing | .completed => .completed
  | .launching | .pendingVerify => .completing

def timeoutMessage (check : HealthCheck) : String :=
  "Health check timeout at state " ++ check.stateName

/-- A completed check is never stepped again, so its probe host is terminated
at once. The alert follows even if that fails. -/
def onTimeout (config : ImageCheckSettings) (check : HealthCheck) : Program Unit := do
  let released ←
    if (check.state : HealthCheckState) = .completed then
      Program.attempt do
        match ← releaseProbe check with
        | some changed => ask (.updateItem .check changed)
        | none => pure ()
    else pure (.ok ())
  let cluster := check.cluster
  alert config check s!"Health Check Alert - Health Check Timeout in cluster {cluster}"
    (check.header.errorMessage.getD (timeoutMessage check))
  Program.ofExcept released

/-- The life cycle of health checks. A check may stay in one state only so long. -/
def lifecycle (config : ImageCheckSettings) : Lifecycle .check where
  name := "health_check"
  lockPrefix := lockPrefix
  activeStates := ItemKind.activeStates .check
  timeout := Span.ofSetting config.timeoutSecs
  timeoutBasis check := check.header.stateStartTime
  timeoutTarget := timeoutTarget
  timeoutMessage := timeoutMessage
  isPaused check := clusterIsPaused check.cluster
  onTimeout check _ := onTimeout config check
  step := step config

def controller (config : ImageCheckSettings) : Controller := (lifecycle config).controller

end FleetControl.ImageCheck
