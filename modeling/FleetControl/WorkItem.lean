import FleetControl.Enumeration
import FleetControl.IdSet
import FleetControl.Fleet.Cluster

/-!
# Work items

A work item is a long operation that controllers advance one step at a time.
There are two kinds: the rolling replacement of a cluster and the health check
of an image. Both share a header, an owning cluster and an environment; each
kind has its own states and details.
-/
namespace FleetControl

abbrev ItemId := String

/-- How the last transition came about. -/
inductive ItemStatus where
  | succeeded
  | failed
  | timeout
  /-- A health check found the image good. -/
  | qualified
  deriving DecidableEq, Repr

instance : Enumeration ItemStatus where
  label := "ItemStatus"
  name
    | .succeeded => "SUCCEEDED"
    | .failed => "FAILED"
    | .timeout => "TIMEOUT"
    | .qualified => "QUALIFIED"
  all := [.succeeded, .failed, .timeout, .qualified]
  mem_all := by intro a; cases a <;> decide
  nodup_names := by decide

/-- The states of a rolling replacement. -/
inductive UpgradeState where
  | init
  | launching
  | replacing
  | completing
  | completed
  deriving DecidableEq, Repr

instance : Enumeration UpgradeState where
  label := "UpgradeState"
  name
    | .init => "INIT"
    | .launching => "LAUNCHING"
    | .replacing => "REPLACING"
    | .completing => "COMPLETING"
    | .completed => "COMPLETED"
  all := [.init, .launching, .replacing, .completing, .completed]
  mem_all := by intro a; cases a <;> decide
  nodup_names := by decide

/-- The states of a health check. -/
inductive HealthCheckState where
  | init
  | launching
  | pendingVerify
  | completing
  | completed
  deriving DecidableEq, Repr

instance : Enumeration HealthCheckState where
  label := "HealthCheckState"
  name
    | .init => "INIT"
    | .launching => "LAUNCHING"
    | .pendingVerify => "PENDING_VERIFY"
    | .completing => "COMPLETING"
    | .completed => "COMPLETED"
  all := [.init, .launching, .pendingVerify, .completing, .completed]
  mem_all := by intro a; cases a <;> decide
  nodup_names := by decide

/-- What started a health check. -/
inductive HealthCheckKind where
  /-- A new image was published. -/
  | imageTriggered
  /-- The current image is verified from time to time. -/
  | timeTriggered
  | manuallyTriggered
  deriving DecidableEq, Repr

instance : Enumeration HealthCheckKind where
  label := "HealthCheckKind"
  name
    | .imageTriggered => "AMI_TRIGGERED"
    | .timeTriggered => "TIME_TRIGGERED"
    | .manuallyTriggered => "MANUALLY_TRIGGERED"
  all := [.imageTriggered, .timeTriggered, .manuallyTriggered]
  mem_all := by intro a; cases a <;> decide
  nodup_names := by decide

/-- The bookkeeping that every work item carries. -/
structure ItemHeader where
  id : ItemId
  status : Option ItemStatus
  /-- When the current state was entered. -/
  stateStartTime : Instant
  /-- When the item was last advanced without an error. -/
  lastWorkedOn : Instant
  errorMessage : Option String
  createdAt : Instant
  deriving DecidableEq, Repr

/-- The header of an item created now. -/
def ItemHeader.new (id : ItemId) (now : Instant) : ItemHeader :=
  ⟨id, none, now, now, none, now⟩

inductive ItemKind where
  | upgrade
  | check
  deriving DecidableEq, Repr

structure UpgradeDetails where
  /-- Temporary hosts launched outside the pool and not yet dealt with. -/
  hostIds : IdSet
  deriving DecidableEq

structure CheckDetails where
  kind : HealthCheckKind
  imageId : String
  /-- The probe host. -/
  hostId : Option HostId
  hostLaunchTime : Option Instant
  hostTerminated : Bool
  deployStartTime : Option Instant
  deployCompleteTime : Option Instant
  deriving DecidableEq, Repr

namespace ItemKind

/-- The name of the kind in messages. -/
def label : ItemKind → String
  | upgrade => "cluster_upgrade_event"
  | check => "health_check"

@[reducible] def State : ItemKind → Type
  | upgrade => UpgradeState
  | check => HealthCheckState

@[reducible] def Details : ItemKind → Type
  | upgrade => UpgradeDetails
  | check => CheckDetails

instance : (k : ItemKind) → DecidableEq k.State
  | upgrade => inferInstanceAs (DecidableEq UpgradeState)
  | check => inferInstanceAs (DecidableEq HealthCheckState)

instance : (k : ItemKind) → DecidableEq k.Details
  | upgrade => inferInstanceAs (DecidableEq UpgradeDetails)
  | check => inferInstanceAs (DecidableEq CheckDetails)

instance : (k : ItemKind) → Enumeration k.State
  | upgrade => inferInstanceAs (Enumeration UpgradeState)
  | check => inferInstanceAs (Enumeration HealthCheckState)

/-- The state that no step leaves. -/
def terminal : (k : ItemKind) → k.State
  | upgrade => UpgradeState.completed
  | check => HealthCheckState.completed

/-- The states in which controllers pick an item up. -/
def activeStates : (k : ItemKind) → List k.State
  | upgrade => [UpgradeState.init, .launching, .replacing, .completing]
  | check => [HealthCheckState.init, .launching, .pendingVerify, .completing]

end ItemKind

structure Item (k : ItemKind) where
  header : ItemHeader
  /-- The cluster that the item acts on. -/
  cluster : String
  envId : EnvId
  state : k.State
  details : k.Details
  deriving DecidableEq

/-- The rolling replacement of every host of a cluster. -/
abbrev UpgradeEvent := Item .upgrade

/-- The verification of an image on one probe host. -/
abbrev HealthCheck := Item .check

namespace Item

variable {k : ItemKind}

def id (i : Item k) : ItemId := i.header.id

def isTerminal (i : Item k) : Bool := i.state = k.terminal

/-- Whether the item is in its terminal state, as a statement. -/
theorem isTerminal_iff {i : Item k} : i.isTerminal = true ↔ i.state = k.terminal := by
  simp [isTerminal]

/-- The name of the item's state. -/
def stateName (i : Item k) : String := Enumeration.name i.state

/-- The temporary hosts that a replacement tracks. -/
def hostIds (e : Item .upgrade) : IdSet := e.details.hostIds

def withHostIds (e : Item .upgrade) (ids : IdSet) : Item .upgrade :=
  { e with details := ⟨ids⟩ }

@[simp] theorem hostIds_withHostIds (e : Item .upgrade) (ids : IdSet) :
    (e.withHostIds ids).hostIds = ids := rfl

end Item

def UpgradeEvent.new (id : ItemId) (cluster : String) (env : EnvId) (now : Instant) :
    UpgradeEvent :=
  ⟨ItemHeader.new id now, cluster, env, UpgradeState.init, ⟨.empty⟩⟩

def HealthCheck.new (id : ItemId) (cluster : String) (env : EnvId) (kind : HealthCheckKind)
    (image : String) (now : Instant) : HealthCheck :=
  ⟨ItemHeader.new id now, cluster, env, HealthCheckState.init,
    ⟨kind, image, none, none, false, none, none⟩⟩

end FleetControl
