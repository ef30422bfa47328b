import FleetControl.Record.Fleet
import FleetControl.Deploy

/-!
# Records of deploys

The persisted form of deploys, builds and promotion settings.
-/
namespace FleetControl

namespace Deploy

def toJson (d : Deploy) : Json :=
  .object [
    ("id", .string d.id),
    ("env_id", .string d.envId),
    ("build_id", .string d.buildId),
    ("state", Enumeration.toJson d.state),
    ("acceptance", Enumeration.toJson d.acceptance),
    ("start_date", d.startDate.toJson),
    ("from_deploy", Json.ofOption Json.string d.fromDeploy)]

def layout : Layout :=
  [("id", false), ("env_id", false), ("build_id", false), ("state", false),
    ("acceptance", false), ("start_date", false), ("from_deploy", false)]

def ofFields? (f : Fields) : Option Deploy := do
  let id ← f.required "id" Json.text?
  let envId ← f.required "env_id" Json.text?
  let buildId ← f.required "build_id" Json.text?
  let state ← f.required "state" Enumeration.ofJson?
  let acceptance ← f.required "acceptance" Enumeration.ofJson?
  let startDate ← f.required "start_date" Instant.ofJson?
  let fromDeploy ← f.optional "from_deploy" Json.text?
  some ⟨id, envId, buildId, state, acceptance, startDate, fromDeploy⟩

def ofJson? (j : Json) : Option Deploy := (j.fields? layout).bind ofFields?

end Deploy

namespace Build

def toJson (b : Build) : Json :=
  .object [
    ("id", .string b.id),
    ("name", .string b.name),
    ("publish_date", b.publishDate.toJson),
    ("bad", .bool b.bad)]

def layout : Layout := [("id", false), ("name", false), ("publish_date", false), ("bad", false)]

def ofFields? (f : Fields) : Option Build := do
  let id ← f.required "id" Json.text?
  let name ← f.required "name" Json.text?
  let publishDate ← f.required "publish_date" Instant.ofJson?
  let bad ← f.required "bad" Json.bool?
  some ⟨id, name, publishDate, bad⟩

def ofJson? (j : Json) : Option Build := (j.fields? layout).bind ofFields?

end Build

namespace PromotionRule

def toJson (c : PromotionRule) : Json :=
  .object [
    ("env_id", .string c.envId),
    ("kind", Enumeration.toJson c.kind),
    ("pred_stage", Json.ofOption Json.string c.predStage),
    ("queue_size", Json.ofNat c.queueSize),
    ("delay_minutes", Json.ofNat c.delayMinutes),
    ("fail_policy", Enumeration.toJson c.failPolicy)]

def layout : Layout :=
  [("env_id", false), ("kind", false), ("pred_stage", false), ("queue_size", false),
    ("delay_minutes", false), ("fail_policy", false)]

def ofFields? (f : Fields) : Option PromotionRule := do
  let envId ← f.required "env_id" Json.text?
  let kind ← f.required "kind" Enumeration.ofJson?
  let predStage ← f.optional "pred_stage" Json.text?
  let queueSize ← f.required "queue_size" Json.nat64?
  let delayMinutes ← f.required "delay_minutes" Json.nat32?
  let failPolicy ← f.required "fail_policy" Enumeration.ofJson?
  some ⟨envId, kind, predStage, queueSize, delayMinutes, failPolicy⟩

def ofJson? (j : Json) : Option PromotionRule := (j.fields? layout).bind ofFields?

end PromotionRule

end FleetControl
