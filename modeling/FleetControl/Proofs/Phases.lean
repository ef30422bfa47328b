import FleetControl.Proofs.Behaviour
import FleetControl.Reconcile.ImageCheck
import FleetControl.Reconcile.Promotion
import FleetControl.Reconcile.Replacement

/-!
# The long steps in phases

The steps that finish a replacement and a health check, and an attempt to promote, are put
together from phases, each of which can be looked at by itself.
-/
namespace FleetControl

open Program

namespace Replacement

/-- Track only the hosts that the provider still runs. -/
def keepRunning (event : UpgradeEvent) (active : List HostId) : Program UpgradeEvent :=
  if active.length == event.hostIds.size then pure event
  else do
    ask (.updateItem .upgrade (event.withHostIds (.ofList active)))
    pure (event.withHostIds (.ofList active))

/-- Terminate the failed ones of the tracked hosts. -/
def discardFailed (cluster : String) (event : UpgradeEvent) (failedTemps : List HostId) :
    Program UpgradeEvent :=
  if failedTemps.isEmpty then pure event
  else do
    terminate cluster failedTemps true
    untrack event failedTemps

/-- Let healthy tracked hosts take the places of failed hosts of the pool. -/
def swapIn (cluster : String) (event : UpgradeEvent) (swaps : Nat)
    (healthy failedPool : List HostId) : Program UpgradeEvent :=
  if swaps = 0 then pure event
  else do
    request (.attachToPool (healthy.take swaps) cluster)
    let event ← untrack event (healthy.take swaps)
    terminate cluster (failedPool.take swaps) false
    pure event

/-- Terminate the hosts that nothing needs, if there are any. -/
def terminateSurplus (cluster : String) (surplus : List HostId) : Program Unit :=
  if !surplus.isEmpty then terminate cluster surplus true else pure ()

theorem reconcile_eq (event : UpgradeEvent) : reconcile event =
    (request (.listRunning event.hostIds.toList)).bind fun active =>
      (keepRunning event active).bind fun kept =>
        (ask (.failedHostIds event.cluster)).bind fun failed =>
          let failedTemps := failed.filter fun id => active.contains id
          let failedPool := failed.filter fun id => !event.hostIds.toList.contains id
          let healthy := active.filter fun id => !failedTemps.contains id
          let swaps := min failedPool.length healthy.length
          (discardFailed event.cluster kept failedTemps).bind fun kept =>
            (swapIn event.cluster kept swaps healthy failedPool).bind fun kept =>
              (terminateSurplus event.cluster (healthy.drop swaps)).bind fun _ =>
                done (.ok (kept.withHostIds .empty)) := by
  simp only [reconcile, keepRunning, discardFailed, swapIn, terminateSurplus, bind_eq, pure_eq,
    bind_ite, bind_assoc, Program.bind]

/-- Reconcile the tracked hosts if there are any and the pool has capacity to spare. -/
def reconcileIfDue (event : UpgradeEvent) (serving poolSize : Nat) : Program UpgradeEvent :=
  if event.hostIds.isEmpty || decide (serving ≤ poolSize) then pure event else reconcile event

theorem completing_eq (event : UpgradeEvent) : completing event =
    (ask (.countServing event.envId)).bind fun serving =>
      (request (.currentPoolSize event.cluster)).bind fun poolSize =>
        (reconcileIfDue event serving poolSize).bind fun event =>
          (resumeCluster event.cluster).bind fun _ =>
            done (.ok (event, .keepStatus .completed)) := by
  simp only [completing, reconcileIfDue, bind_eq, pure_eq, bind_ite, Program.bind]

end Replacement

namespace ImageCheck

/-- The image that a cluster has now, if there is a record of it. -/
def currentImage : Option String → Program (Option Image)
  | some id => ask (.getImage id)
  | none => pure none

theorem adoptImage_eq (cluster image : String) : adoptImage cluster image =
    (requireCluster cluster).bind fun record =>
      (ask (.getImage image)).bind fun found =>
        (orFail (.notFound "image" image) found).bind fun candidate =>
          (currentImage record.imageId).bind fun current =>
            if current.any fun current => decide (candidate.publishDate ≤ current.publishDate)
            then pure () else ask (.setClusterImage cluster image) := by
  refine congrArg _ (funext fun record => congrArg _ (funext fun found => ?_))
  refine congrArg _ (funext fun candidate => ?_)
  cases record.imageId <;> rfl

/-- Whether the image has to wait because its lock is held. -/
def imageIsBusy (check : HealthCheck) : Program Bool :=
  if check.header.status == some .qualified && check.details.kind != .timeTriggered then
    (! ·) <$> offerImage check
  else pure false

theorem completing_eq (check : HealthCheck) : completing check =
    (imageIsBusy check).bind fun busy =>
      if busy then done (.ok (check, .stay))
      else (releaseProbe check).bind fun changed =>
        done (.ok (changed.getD check, .keepStatus .completed)) := by
  simp only [completing, imageIsBusy, bind_eq, pure_eq, bind_ite]

/-- Terminate the probe host of a check that is never stepped again, and store that. -/
def cleanUp (check : HealthCheck) : Program (Except ControlError Unit) :=
  if (check.state : HealthCheckState) = .completed then
    Program.attempt do
      match ← releaseProbe check with
      | some changed => ask (.updateItem .check changed)
      | none => pure ()
  else pure (.ok ())

theorem onTimeout_eq (config : ImageCheckSettings) (check : HealthCheck) :
    onTimeout config check = (cleanUp check).bind fun released =>
      (alert config check s!"Health Check Alert - Health Check Timeout in cluster {check.cluster}"
        (check.header.errorMessage.getD (timeoutMessage check))).bind fun _ =>
          ofExcept released := by
  unfold cleanUp
  exact (bind_ite _ _ _).symm

end ImageCheck

namespace Promotion

/-- Look for the next candidate among builds or among deploys of the stage before. -/
def findCandidate (config : PromotionSettings) (env : Environment) (current : Option Deploy)
    (settings : PromotionRule) (predStage : String) (limit : Instant) :
    Program (Option NewDeploy) :=
  if predStage = PromotionRule.buildStage then newBuild config env current settings limit
  else provenDeploy config env current settings predStage limit

theorem promoteNext_eq (config : PromotionSettings) (env : Environment)
    (current : Option Deploy) (settings : PromotionRule) (predStage : String) (now : Instant) :
    promoteNext config env current settings predStage now =
      (findCandidate config env current settings predStage
        (now.minutesBefore settings.delayMinutes)).bind fun candidate =>
          match candidate with
          | some candidate => promoteCandidate env env.deployId candidate none
          | none => pure .noCandidate := by
  unfold findCandidate
  exact (bind_ite _ _ _).symm

/-- Record a deploy unless the environment has another than the observed one, then switch to manual
promotion if a failed deploy is given. -/
def redeploy (env : Environment) (observed : Option String) (candidate : NewDeploy)
    (thenDisable : Option String) : Program Result := do
  let fresh ← requireEnvironment env.id
  if fresh.deployId != observed then pure .abandoned
  else
    let deploy ← ask (.createDeploy candidate)
    if let some failedDeploy := thenDisable then
      let _ ← endAutomation env failedDeploy
    pure (.promoted deploy.id)

theorem promoteCandidate_eq (env : Environment) (observed : Option String)
    (candidate : NewDeploy) (thenDisable : Option String) :
    promoteCandidate env observed candidate thenDisable =
      (exclusively (lockOf lockPrefix env.id)
        (redeploy env observed candidate thenDisable)).bind fun outcome =>
          done (.ok (outcome.getD .contended)) := rfl

/-- The current deploy of an environment, if it has one and there is a record of it. -/
def currentDeploy (env : Environment) : Program (Option Deploy) :=
  match env.deployId with
  | some id => ask (.getDeploy id)
  | none => pure none

/-- Wait for the current deploy, act on its failure, or promote the next candidate. -/
def actOn (config : PromotionSettings) (env : Environment) (settings : PromotionRule)
    (predStage : String) (now : Instant) (current : Option Deploy) : Program Result :=
  if !isReplaceable current then pure .notRetirable
  else
    match current.filter Deploy.isFailed, settings.failPolicy with
    | some failed, .disable => stopPromoting env failed.id
    | some failed, .revert => revert config env failed
    | _, _ => promoteNext config env current settings predStage now

theorem promoteFrom_eq (config : PromotionSettings) (env : Environment)
    (settings : PromotionRule) (predStage : String) (now : Instant) :
    promoteFrom config env settings predStage now =
      (currentDeploy env).bind (actOn config env settings predStage now) := by
  rw [promoteFrom, currentDeploy]
  cases env.deployId <;> rfl

end Promotion

end FleetControl
