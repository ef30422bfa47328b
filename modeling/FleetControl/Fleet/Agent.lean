import FleetControl.Fleet.Cluster

/-!
# Deploy agents

Each environment on a host has an agent there that reports how far the deploy
has come. A failed script is retried by the agent itself, so it does not make
the agent count as failed.
-/
namespace FleetControl

inductive DeployStage where
  | unknown
  | preDownload
  | downloading
  | postDownload
  | staging
  | preRestart
  | restarting
  | postRestart
  | servingBuild
  | stopping
  | stopped
  deriving DecidableEq, Repr

instance : Enumeration DeployStage where
  label := "DeployStage"
  name
    | .unknown => "UNKNOWN"
    | .preDownload => "PRE_DOWNLOAD"
    | .downloading => "DOWNLOADING"
    | .postDownload => "POST_DOWNLOAD"
    | .staging => "STAGING"
    | .preRestart => "PRE_RESTART"
    | .restarting => "RESTARTING"
    | .postRestart => "POST_RESTART"
    | .servingBuild => "SERVING_BUILD"
    | .stopping => "STOPPING"
    | .stopped => "STOPPED"
  all := [.unknown, .preDownload, .downloading, .postDownload, .staging, .preRestart,
    .restarting, .postRestart, .servingBuild, .stopping, .stopped]
  mem_all := by intro a; cases a <;> decide
  nodup_names := by decide

/-- How the last deploy step of an agent ended. -/
inductive AgentStatus where
  | succeeded
  | unknown
  | agentFailed
  | retryFailed
  | scriptFailed
  | aborted
  | scriptTimeout
  | tooManyRetry
  | runtimeMismatch
  deriving DecidableEq, Repr

instance : Enumeration AgentStatus where
  label := "AgentStatus"
  name
    | .succeeded => "SUCCEEDED"
    | .unknown => "UNKNOWN"
    | .agentFailed => "AGENT_FAILED"
    | .retryFailed => "RETRY_FAILED"
    | .scriptFailed => "SCRIPT_FAILED"
    | .aborted => "ABORTED"
    | .scriptTimeout => "SCRIPT_TIMEOUT"
    | .tooManyRetry => "TOO_MANY_RETRY"
    | .runtimeMismatch => "RUNTIME_MISMATCH"
  all := [.succeeded, .unknown, .agentFailed, .retryFailed, .scriptFailed, .aborted,
    .scriptTimeout, .tooManyRetry, .runtimeMismatch]
  mem_all := by intro a; cases a <;> decide
  nodup_names := by decide

/-- Statuses that a healthy deploy passes through. -/
def AgentStatus.isTransient : AgentStatus → Bool
  | .succeeded | .unknown | .scriptFailed => true
  | .agentFailed | .retryFailed | .aborted | .scriptTimeout | .tooManyRetry
  | .runtimeMismatch => false

/-- What an operator or the system has told an agent. -/
inductive AgentState where
  | normal
  | pausedBySystem
  | stop
  deriving DecidableEq, Repr

instance : Enumeration AgentState where
  label := "AgentState"
  name
    | .normal => "NORMAL"
    | .pausedBySystem => "PAUSED_BY_SYSTEM"
    | .stop => "STOP"
  all := [.normal, .pausedBySystem, .stop]
  mem_all := by intro a; cases a <;> decide
  nodup_names := by decide

/-- The last report of the agent of one environment on one host. -/
structure Agent where
  hostId : HostId
  envId : EnvId
  deployStage : DeployStage
  status : AgentStatus
  state : AgentState
  deployStart : Option Instant
  firstDeployTime : Option Instant
  lastUpdate : Instant
  deriving DecidableEq, Repr

namespace Agent

def isServing (a : Agent) : Bool := a.deployStage = .servingBuild

/-- Not serving, with a status it will not recover from. -/
def isFailed (a : Agent) : Bool := !a.isServing && !a.status.isTransient

/-- Whether the agent has let go of its workload. -/
def isStopped (a : Agent) : Bool := a.deployStage = .stopped || a.state = .pausedBySystem

end Agent

end FleetControl
