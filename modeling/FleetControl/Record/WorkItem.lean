import FleetControl.Record.Fleet
import FleetControl.WorkItem

/-!
# Records of work items

The persisted form of upgrade events and health checks. The members of the
header stand beside those of the item, so an item is always an object.
-/
namespace FleetControl

namespace ItemHeader

def members (h : ItemHeader) : List (String × Json) :=
  [ ("id", .string h.id),
    ("status", Json.ofOption Enumeration.toJson h.status),
    ("state_start_time", h.stateStartTime.toJson),
    ("last_worked_on", h.lastWorkedOn.toJson),
    ("error_message", Json.ofOption Json.string h.errorMessage),
    ("created_at", h.createdAt.toJson)]

def ofFields? (f : Fields) : Option ItemHeader := do
  let id ← f.required "id" Json.text?
  let status ← f.optional "status" Enumeration.ofMember?
  let stateStartTime ← f.required "state_start_time" Instant.ofJson?
  let lastWorkedOn ← f.required "last_worked_on" Instant.ofJson?
  let errorMessage ← f.optional "error_message" Json.text?
  let createdAt ← f.required "created_at" Instant.ofJson?
  some ⟨id, status, stateStartTime, lastWorkedOn, errorMessage, createdAt⟩

end ItemHeader

namespace IdSet

def toJson (s : IdSet) : Json := Json.ofTexts s.toList

/-- A list of names in any order, with repetitions. -/
def ofJson? (j : Json) : Option IdSet := (j.list? Json.text?).map ofList

end IdSet

namespace UpgradeDetails

def members (d : UpgradeDetails) : List (String × Json) := [("host_ids", d.hostIds.toJson)]

def ofFields? (f : Fields) : Option UpgradeDetails := do
  let hostIds ← f.defaulting "host_ids" .empty IdSet.ofJson?
  some ⟨hostIds⟩

end UpgradeDetails

namespace CheckDetails

def members (d : CheckDetails) : List (String × Json) :=
  [ ("kind", Enumeration.toJson d.kind),
    ("image_id", .string d.imageId),
    ("host_id", Json.ofOption Json.string d.hostId),
    ("host_launch_time", Json.ofOption Instant.toJson d.hostLaunchTime),
    ("host_terminated", .bool d.hostTerminated),
    ("deploy_start_time", Json.ofOption Instant.toJson d.deployStartTime),
    ("deploy_complete_time", Json.ofOption Instant.toJson d.deployCompleteTime)]

def ofFields? (f : Fields) : Option CheckDetails := do
  let kind ← f.required "kind" Enumeration.ofJson?
  let imageId ← f.required "image_id" Json.text?
  let hostId ← f.optional "host_id" Json.text?
  let hostLaunchTime ← f.optional "host_launch_time" Instant.ofJson?
  let hostTerminated ← f.defaulting "host_terminated" false Json.bool?
  let deployStartTime ← f.optional "deploy_start_time" Instant.ofJson?
  let deployCompleteTime ← f.optional "deploy_complete_time" Instant.ofJson?
  some ⟨kind, imageId, hostId, hostLaunchTime, hostTerminated, deployStartTime,
    deployCompleteTime⟩

end CheckDetails

namespace ItemKind

def detailMembers : (k : ItemKind) → k.Details → List (String × Json)
  | upgrade, d => UpgradeDetails.members d
  | check, d => CheckDetails.members d

def detailsOfFields? : (k : ItemKind) → Fields → Option k.Details
  | upgrade, f => UpgradeDetails.ofFields? f
  | check, f => CheckDetails.ofFields? f

end ItemKind

namespace Item

variable {k : ItemKind}

def toJson (i : Item k) : Json :=
  .object (i.header.members ++
    [ ("cluster", .string i.cluster),
      ("env_id", .string i.envId),
      ("state", Enumeration.toJson i.state)] ++
    k.detailMembers i.details)

def ofFields? (k : ItemKind) (f : Fields) : Option (Item k) := do
  let header ← ItemHeader.ofFields? f
  let cluster ← f.required "cluster" Json.text?
  let envId ← f.required "env_id" Json.text?
  let state ← f.required "state" Enumeration.ofJson?
  let details ← k.detailsOfFields? f
  some ⟨header, cluster, envId, state, details⟩

def ofJson? (k : ItemKind) (j : Json) : Option (Item k) := j.objectFields?.bind (ofFields? k)

end Item

end FleetControl
