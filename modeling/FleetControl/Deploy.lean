import FleetControl.Fleet.Cluster

/-!
# Builds, deploys and promotion settings

A deploy is the rollout of one build to one environment. Promotion settings say
from which stage an environment takes its next deploy and what happens when the
current one has failed.
-/
namespace FleetControl

inductive DeployState where
  | running
  | failing
  | succeeding
  | succeeded
  | aborted
  deriving DecidableEq, Repr

instance : Enumeration DeployState where
  label := "DeployState"
  name
    | .running => "RUNNING"
    | .failing => "FAILING"
    | .succeeding => "SUCCEEDING"
    | .succeeded => "SUCCEEDED"
    | .aborted => "ABORTED"
  all := [.running, .failing, .succeeding, .succeeded, .aborted]
  mem_all := by intro a; cases a <;> decide
  nodup_names := by decide

/-- Whether a deploy has been superseded. -/
def DeployState.isFinal : DeployState → Bool
  | .succeeded | .aborted => true
  | .running | .failing | .succeeding => false

/-- The verdict of the tests that follow a deploy. -/
inductive AcceptanceStatus where
  | pendingDeploy
  | outstanding
  | pendingAccept
  | accepted
  | rejected
  | terminated
  deriving DecidableEq, Repr

instance : Enumeration AcceptanceStatus where
  label := "AcceptanceStatus"
  name
    | .pendingDeploy => "PENDING_DEPLOY"
    | .outstanding => "OUTSTANDING"
    | .pendingAccept => "PENDING_ACCEPT"
    | .accepted => "ACCEPTED"
    | .rejected => "REJECTED"
    | .terminated => "TERMINATED"
  all := [.pendingDeploy, .outstanding, .pendingAccept, .accepted, .rejected, .terminated]
  mem_all := by intro a; cases a <;> decide
  nodup_names := by decide

def AcceptanceStatus.isFinal : AcceptanceStatus → Bool
  | .accepted | .rejected | .terminated => true
  | .pendingDeploy | .outstanding | .pendingAccept => false

structure Deploy where
  id : String
  envId : EnvId
  buildId : String
  state : DeployState
  acceptance : AcceptanceStatus
  startDate : Instant
  /-- The deploy of the preceding stage that this one was promoted from. -/
  fromDeploy : Option String
  deriving DecidableEq, Repr

def Deploy.isFailed (d : Deploy) : Bool := d.state = .failing || d.acceptance = .rejected

/-- A published build. A bad one is never promoted. -/
structure Build where
  id : String
  name : String
  publishDate : Instant
  bad : Bool
  deriving DecidableEq, Repr

/-- What a promotion records; the store adds the rest. -/
structure NewDeploy where
  envId : EnvId
  buildId : String
  fromDeploy : Option String
  deriving DecidableEq, Repr

inductive PromoteKind where
  | manual
  | auto
  deriving DecidableEq, Repr

instance : Enumeration PromoteKind where
  label := "PromoteKind"
  name
    | .manual => "MANUAL"
    | .auto => "AUTO"
  all := [.manual, .auto]
  mem_all := by intro a; cases a <;> decide
  nodup_names := by decide

/-- What automatic promotion does when the current deploy has failed. -/
inductive PromoteFailPolicy where
  /-- Promote the next candidate all the same. -/
  | goOn
  /-- Switch the environment to manual promotion. -/
  | disable
  /-- Go back to the last good deploy, then switch to manual. -/
  | revert
  deriving DecidableEq, Repr

instance : Enumeration PromoteFailPolicy where
  label := "PromoteFailPolicy"
  name
    | .goOn => "CONTINUE"
    | .disable => "DISABLE"
    | .revert => "ROLLBACK"
  all := [.goOn, .disable, .revert]
  mem_all := by intro a; cases a <;> decide
  nodup_names := by decide

structure PromotionRule where
  envId : EnvId
  kind : PromoteKind
  /-- The stage to promote from. -/
  predStage : Option String
  /-- Which candidate to promote, counted from the newest as 1. -/
  queueSize : Nat
  /-- How old a candidate must be. -/
  delayMinutes : Nat
  failPolicy : PromoteFailPolicy
  deriving DecidableEq, Repr

/-- The preceding stage of an environment that takes fresh builds. -/
def PromotionRule.buildStage : String := "BUILD"

end FleetControl
