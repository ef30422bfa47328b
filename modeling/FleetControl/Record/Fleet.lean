import FleetControl.Json.Fields
import FleetControl.Time.Timestamp
import FleetControl.Fleet.Cluster
import FleetControl.Fleet.Host
import FleetControl.Fleet.Agent
import FleetControl.HostTag

/-!
# Records of the fleet

The persisted form of clusters, environments, images, hosts, agents, deploy
constraints and host tags. Writing gives every member; reading ignores members
of other names and takes null or nothing for a value that may be missing.
-/
namespace FleetControl

namespace Instant

def toJson (t : Instant) : Json := .string (Timestamp.render t)

def ofJson? (j : Json) : Option Instant := j.text?.bind Timestamp.parse?

end Instant

namespace Recipients

def toJson (r : Recipients) : Json :=
  .object [
    ("email", Json.ofTexts r.email),
    ("pager", Json.ofTexts r.pager),
    ("chatroom", Json.ofOption Json.string r.chatroom)]

def layout : Layout := [("email", true), ("pager", true), ("chatroom", true)]

def ofFields? (f : Fields) : Option Recipients := do
  let email ← f.defaulting "email" [] (Json.list? Json.text?)
  let pager ← f.defaulting "pager" [] (Json.list? Json.text?)
  let chatroom ← f.optional "chatroom" Json.text?
  some ⟨email, pager, chatroom⟩

def ofJson? (j : Json) : Option Recipients := (j.fields? layout).bind ofFields?

end Recipients

namespace Cluster

def toJson (c : Cluster) : Json :=
  .object [
    ("name", .string c.name),
    ("env_id", .string c.envId),
    ("state", Enumeration.toJson c.state),
    ("image_id", Json.ofOption Json.string c.imageId),
    ("launch_grace_secs", Json.ofNat c.launchGraceSecs),
    ("recipients", c.recipients.toJson),
    ("last_update", c.lastUpdate.toJson)]

def layout : Layout :=
  [("name", false), ("env_id", false), ("state", false), ("image_id", false),
    ("launch_grace_secs", false), ("recipients", false), ("last_update", false)]

def ofFields? (f : Fields) : Option Cluster := do
  let name ← f.required "name" Json.text?
  let envId ← f.required "env_id" Json.text?
  let state ← f.required "state" Enumeration.ofJson?
  let imageId ← f.optional "image_id" Json.text?
  let launchGraceSecs ← f.required "launch_grace_secs" Json.nat64?
  let recipients ← f.required "recipients" Recipients.ofJson?
  let lastUpdate ← f.required "last_update" Instant.ofJson?
  some ⟨name, envId, state, imageId, launchGraceSecs, recipients, lastUpdate⟩

def ofJson? (j : Json) : Option Cluster := (j.fields? layout).bind ofFields?

end Cluster

namespace Environment

def toJson (e : Environment) : Json :=
  .object [
    ("id", .string e.id),
    ("name", .string e.name),
    ("stage", .string e.stage),
    ("state", Enumeration.toJson e.state),
    ("deploy_id", Json.ofOption Json.string e.deployId),
    ("build_name", .string e.buildName),
    ("max_parallel_replacement", Json.ofNat e.maxParallelReplacement),
    ("recipients", e.recipients.toJson)]

def layout : Layout :=
  [("id", false), ("name", false), ("stage", false), ("state", false), ("deploy_id", false),
    ("build_name", false), ("max_parallel_replacement", false), ("recipients", false)]

def ofFields? (f : Fields) : Option Environment := do
  let id ← f.required "id" Json.text?
  let name ← f.required "name" Json.text?
  let stage ← f.required "stage" Json.text?
  let state ← f.required "state" Enumeration.ofJson?
  let deployId ← f.optional "deploy_id" Json.text?
  let buildName ← f.required "build_name" Json.text?
  let maxParallelReplacement ← f.required "max_parallel_replacement" Json.nat64?
  let recipients ← f.required "recipients" Recipients.ofJson?
  some ⟨id, name, stage, state, deployId, buildName, maxParallelReplacement, recipients⟩

def ofJson? (j : Json) : Option Environment := (j.fields? layout).bind ofFields?

end Environment

namespace Image

def toJson (i : Image) : Json :=
  .object [("id", .string i.id), ("publish_date", i.publishDate.toJson)]

def layout : Layout := [("id", false), ("publish_date", false)]

def ofFields? (f : Fields) : Option Image := do
  let id ← f.required "id" Json.text?
  let publishDate ← f.required "publish_date" Instant.ofJson?
  some ⟨id, publishDate⟩

def ofJson? (j : Json) : Option Image := (j.fields? layout).bind ofFields?

end Image

namespace Host

def toJson (h : Host) : Json :=
  .object [
    ("id", .string h.id),
    ("cluster", .string h.cluster),
    ("state", Enumeration.toJson h.state),
    ("retirable", .bool h.retirable),
    ("last_update", h.lastUpdate.toJson),
    ("created_at", h.createdAt.toJson)]

def layout : Layout :=
  [("id", false), ("cluster", false), ("state", false), ("retirable", false),
    ("last_update", false), ("created_at", false)]

def ofFields? (f : Fields) : Option Host := do
  let id ← f.required "id" Json.text?
  let cluster ← f.required "cluster" Json.text?
  let state ← f.required "state" Enumeration.ofJson?
  let retirable ← f.required "retirable" Json.bool?
  let lastUpdate ← f.required "last_update" Instant.ofJson?
  let createdAt ← f.required "created_at" Instant.ofJson?
  some ⟨id, cluster, state, retirable, lastUpdate, createdAt⟩

def ofJson? (j : Json) : Option Host := (j.fields? layout).bind ofFields?

end Host

namespace Agent

def toJson (a : Agent) : Json :=
  .object [
    ("host_id", .string a.hostId),
    ("env_id", .string a.envId),
    ("deploy_stage", Enumeration.toJson a.deployStage),
    ("status", Enumeration.toJson a.status),
    ("state", Enumeration.toJson a.state),
    ("deploy_start", Json.ofOption Instant.toJson a.deployStart),
    ("first_deploy_time", Json.ofOption Instant.toJson a.firstDeployTime),
    ("last_update", a.lastUpdate.toJson)]

def layout : Layout :=
  [("host_id", false), ("env_id", false), ("deploy_stage", false), ("status", false),
    ("state", false), ("deploy_start", false), ("first_deploy_time", false),
    ("last_update", false)]

def ofFields? (f : Fields) : Option Agent := do
  let hostId ← f.required "host_id" Json.text?
  let envId ← f.required "env_id" Json.text?
  let deployStage ← f.required "deploy_stage" Enumeration.ofJson?
  let status ← f.required "status" Enumeration.ofJson?
  let state ← f.required "state" Enumeration.ofJson?
  let deployStart ← f.optional "deploy_start" Instant.ofJson?
  let firstDeployTime ← f.optional "first_deploy_time" Instant.ofJson?
  let lastUpdate ← f.required "last_update" Instant.ofJson?
  some ⟨hostId, envId, deployStage, status, state, deployStart, firstDeployTime, lastUpdate⟩

def ofJson? (j : Json) : Option Agent := (j.fields? layout).bind ofFields?

end Agent

namespace DeployConstraint

def toJson (c : DeployConstraint) : Json :=
  .object [
    ("id", .string c.id),
    ("env_id", .string c.envId),
    ("tag_name", .string c.tagName),
    ("state", Enumeration.toJson c.state),
    ("last_update", c.lastUpdate.toJson)]

def layout : Layout :=
  [("id", false), ("env_id", false), ("tag_name", false), ("state", false),
    ("last_update", false)]

def ofFields? (f : Fields) : Option DeployConstraint := do
  let id ← f.required "id" Json.text?
  let envId ← f.required "env_id" Json.text?
  let tagName ← f.required "tag_name" Json.text?
  let state ← f.required "state" Enumeration.ofJson?
  let lastUpdate ← f.required "last_update" Instant.ofJson?
  some ⟨id, envId, tagName, state, lastUpdate⟩

def ofJson? (j : Json) : Option DeployConstraint := (j.fields? layout).bind ofFields?

end DeployConstraint

namespace HostTag

def toJson (t : HostTag) : Json :=
  .object [
    ("host_id", .string t.hostId),
    ("env_id", .string t.envId),
    ("tag_name", .string t.tagName),
    ("tag_value", Json.ofOption Json.string t.tagValue)]

def layout : Layout :=
  [("host_id", false), ("env_id", false), ("tag_name", false), ("tag_value", false)]

def ofFields? (f : Fields) : Option HostTag := do
  let hostId ← f.required "host_id" Json.text?
  let envId ← f.required "env_id" Json.text?
  let tagName ← f.required "tag_name" Json.text?
  let tagValue ← f.optional "tag_value" Json.text?
  some ⟨hostId, envId, tagName, tagValue⟩

def ofJson? (j : Json) : Option HostTag := (j.fields? layout).bind ofFields?

end HostTag

end FleetControl
