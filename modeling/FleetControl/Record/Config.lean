import FleetControl.Json.Fields
import FleetControl.Config

/-!
# Records of the configuration

Reading a configuration, and writing it with every setting. What is left out
has its default; a setting of the wrong type or out of range makes the whole
configuration unreadable.
-/
namespace FleetControl

namespace DatabaseSettings

def toJson (c : DatabaseSettings) : Json :=
  .object [
    ("url", .string c.url),
    ("max_connections", Json.ofNat c.maxConnections),
    ("min_connections", Json.ofNat c.minConnections),
    ("connect_timeout_secs", Json.ofNat c.connectTimeoutSecs)]

def layout : Layout :=
  [("url", true), ("max_connections", true), ("min_connections", true),
    ("connect_timeout_secs", true)]

def ofFields? (f : Fields) : Option DatabaseSettings := do
  let d : DatabaseSettings := {}
  let url ← f.defaulting "url" d.url Json.text?
  let maxConnections ← f.defaulting "max_connections" d.maxConnections Json.nat32?
  let minConnections ← f.defaulting "min_connections" d.minConnections Json.nat32?
  let connectTimeoutSecs ← f.defaulting "connect_timeout_secs" d.connectTimeoutSecs Json.nat64?
  some ⟨url, maxConnections, minConnections, connectTimeoutSecs⟩

def ofJson? (j : Json) : Option DatabaseSettings := (j.fields? layout).bind ofFields?

end DatabaseSettings

namespace LockSettings

def toJson : LockSettings → Json
  | memory => .object [("backend", .string "memory")]
  | postgres url maxConnections =>
      .object [
        ("backend", .string "postgres"),
        ("url", .string url),
        ("max_connections", Json.ofNat maxConnections)]

/-- The layout of what a database backend needs besides its name. -/
def postgresLayout : Layout := [("url", false), ("max_connections", true)]

def postgresOfFields? (f : Fields) : Option LockSettings := do
  let url ← f.required "url" Json.text?
  let maxConnections ← f.defaulting "max_connections" 16 Json.nat32?
  some (postgres url maxConnections)

/-- The member `backend`, or the first value of a list, decides what else is read. -/
def ofJson? : Json → Option LockSettings
  | .object ms =>
      match Json.member? "backend" ms with
      | some (.string "memory") => some memory
      | some (.string "postgres") => postgresOfFields? fun name => Json.member? name ms
      | _ => none
  | .array (.string "memory" :: []) => some memory
  | .array (.string "postgres" :: vs) =>
      (Json.fields? postgresLayout (.array vs)).bind postgresOfFields?
  | _ => none

end LockSettings

namespace StoreSettings

def toJson (c : StoreSettings) : Json := .object [("backend", Enumeration.toJson c.backend)]

def layout : Layout := [("backend", true)]

def ofFields? (f : Fields) : Option StoreSettings := do
  let backend ← f.defaulting "backend" ({} : StoreSettings).backend Enumeration.ofJson?
  some ⟨backend⟩

def ofJson? (j : Json) : Option StoreSettings :=
  (j.fields? layout).bind ofFields?

end StoreSettings

namespace ProviderSettings

def toJson (c : ProviderSettings) : Json :=
  .object [
    ("backend", Enumeration.toJson c.backend),
    ("url", .string c.url),
    ("timeout_secs", Json.ofNat c.timeoutSecs)]

def layout : Layout := [("backend", true), ("url", true), ("timeout_secs", true)]

def ofFields? (f : Fields) : Option ProviderSettings := do
  let d : ProviderSettings := {}
  let backend ← f.defaulting "backend" d.backend Enumeration.ofJson?
  let url ← f.defaulting "url" d.url Json.text?
  let timeoutSecs ← f.defaulting "timeout_secs" d.timeoutSecs Json.nat64?
  some ⟨backend, url, timeoutSecs⟩

def ofJson? (j : Json) : Option ProviderSettings :=
  (j.fields? layout).bind ofFields?

end ProviderSettings

namespace NotificationSettings

def toJson (c : NotificationSettings) : Json :=
  .object [
    ("backend", Enumeration.toJson c.backend),
    ("webhook_url", Json.ofOption Json.string c.webhookUrl),
    ("timeout_secs", Json.ofNat c.timeoutSecs)]

def layout : Layout := [("backend", true), ("webhook_url", false), ("timeout_secs", true)]

def ofFields? (f : Fields) : Option NotificationSettings := do
  let d : NotificationSettings := {}
  let backend ← f.defaulting "backend" d.backend Enumeration.ofJson?
  let webhookUrl ← f.optional "webhook_url" Json.text?
  let timeoutSecs ← f.defaulting "timeout_secs" d.timeoutSecs Json.nat64?
  some ⟨backend, webhookUrl, timeoutSecs⟩

def ofJson? (j : Json) : Option NotificationSettings :=
  (j.fields? layout).bind ofFields?

end NotificationSettings

namespace SelectorSettings

def toJson (c : SelectorSettings) : Json := .object [("seed", Json.ofOption Json.ofNat c.seed)]

def layout : Layout := [("seed", false)]

def ofFields? (f : Fields) : Option SelectorSettings := do
  let seed ← f.optional "seed" Json.nat64?
  some ⟨seed⟩

def ofJson? (j : Json) : Option SelectorSettings := (j.fields? layout).bind ofFields?

end SelectorSettings

namespace ReplacementSettings

def toJson (c : ReplacementSettings) : Json :=
  .object [
    ("enabled", .bool c.enabled),
    ("interval_secs", Json.ofNat c.intervalSecs),
    ("timeout_secs", Json.ofNat c.timeoutSecs),
    ("launch_batch", Json.ofNat c.launchBatch)]

def layout : Layout :=
  [("enabled", true), ("interval_secs", true), ("timeout_secs", true), ("launch_batch", true)]

def ofFields? (f : Fields) : Option ReplacementSettings := do
  let d : ReplacementSettings := {}
  let enabled ← f.defaulting "enabled" d.enabled Json.bool?
  let intervalSecs ← f.defaulting "interval_secs" d.intervalSecs Json.nat64?
  let timeoutSecs ← f.defaulting "timeout_secs" d.timeoutSecs Json.nat64?
  let launchBatch ← f.defaulting "launch_batch" d.launchBatch Json.nat64?
  some ⟨enabled, intervalSecs, timeoutSecs, launchBatch⟩

def ofJson? (j : Json) : Option ReplacementSettings := (j.fields? layout).bind ofFields?

end ReplacementSettings

namespace ImageCheckSettings

def toJson (c : ImageCheckSettings) : Json :=
  .object [
    ("enabled", .bool c.enabled),
    ("interval_secs", Json.ofNat c.intervalSecs),
    ("timeout_secs", Json.ofNat c.timeoutSecs),
    ("failures_before_page", Json.ofNat c.failuresBeforePage)]

def layout : Layout :=
  [("enabled", true), ("interval_secs", true), ("timeout_secs", true),
    ("failures_before_page", true)]

def ofFields? (f : Fields) : Option ImageCheckSettings := do
  let d : ImageCheckSettings := {}
  let enabled ← f.defaulting "enabled" d.enabled Json.bool?
  let intervalSecs ← f.defaulting "interval_secs" d.intervalSecs Json.nat64?
  let timeoutSecs ← f.defaulting "timeout_secs" d.timeoutSecs Json.nat64?
  let failuresBeforePage ← f.defaulting "failures_before_page" d.failuresBeforePage Json.nat64?
  some ⟨enabled, intervalSecs, timeoutSecs, failuresBeforePage⟩

def ofJson? (j : Json) : Option ImageCheckSettings := (j.fields? layout).bind ofFields?

end ImageCheckSettings

namespace PromotionSettings

def toJson (c : PromotionSettings) : Json :=
  .object [
    ("enabled", .bool c.enabled),
    ("interval_secs", Json.ofNat c.intervalSecs),
    ("candidate_limit", Json.ofNat c.candidateLimit)]

def layout : Layout := [("enabled", true), ("interval_secs", true), ("candidate_limit", true)]

def ofFields? (f : Fields) : Option PromotionSettings := do
  let d : PromotionSettings := {}
  let enabled ← f.defaulting "enabled" d.enabled Json.bool?
  let intervalSecs ← f.defaulting "interval_secs" d.intervalSecs Json.nat64?
  let candidateLimit ← f.defaulting "candidate_limit" d.candidateLimit Json.nat64?
  some ⟨enabled, intervalSecs, candidateLimit⟩

def ofJson? (j : Json) : Option PromotionSettings := (j.fields? layout).bind ofFields?

end PromotionSettings

namespace DecommissionSettings

def toJson (c : DecommissionSettings) : Json :=
  .object [("enabled", .bool c.enabled), ("interval_secs", Json.ofNat c.intervalSecs)]

def layout : Layout := [("enabled", true), ("interval_secs", true)]

def ofFields? (f : Fields) : Option DecommissionSettings := do
  let d : DecommissionSettings := {}
  let enabled ← f.defaulting "enabled" d.enabled Json.bool?
  let intervalSecs ← f.defaulting "interval_secs" d.intervalSecs Json.nat64?
  some ⟨enabled, intervalSecs⟩

def ofJson? (j : Json) : Option DecommissionSettings := (j.fields? layout).bind ofFields?

end DecommissionSettings

namespace TagSettings

def toJson (c : TagSettings) : Json :=
  .object [
    ("enabled", .bool c.enabled),
    ("interval_secs", Json.ofNat c.intervalSecs),
    ("batch_size", Json.ofNat c.batchSize)]

def layout : Layout := [("enabled", true), ("interval_secs", true), ("batch_size", true)]

def ofFields? (f : Fields) : Option TagSettings := do
  let d : TagSettings := {}
  let enabled ← f.defaulting "enabled" d.enabled Json.bool?
  let intervalSecs ← f.defaulting "interval_secs" d.intervalSecs Json.nat64?
  let batchSize ← f.defaulting "batch_size" d.batchSize Json.nat64?
  some ⟨enabled, intervalSecs, batchSize⟩

def ofJson? (j : Json) : Option TagSettings := (j.fields? layout).bind ofFields?

end TagSettings

namespace Config

def toJson (c : Config) : Json :=
  .object [
    ("database", c.database.toJson),
    ("lock", c.lock.toJson),
    ("store", c.store.toJson),
    ("fleet", c.fleet.toJson),
    ("notifications", c.notifications.toJson),
    ("selector", c.selector.toJson),
    ("replacement", c.replacement.toJson),
    ("health_check", c.healthCheck.toJson),
    ("promotion", c.promotion.toJson),
    ("termination", c.termination.toJson),
    ("tag_sync", c.tagSync.toJson)]

def layout : Layout :=
  [("database", true), ("lock", true), ("store", true), ("fleet", true),
    ("notifications", true), ("selector", true), ("replacement", true), ("health_check", true),
    ("promotion", true), ("termination", true), ("tag_sync", true)]

def ofFields? (f : Fields) : Option Config := do
  let database ← f.defaulting "database" {} DatabaseSettings.ofJson?
  let lock ← f.defaulting "lock" .memory LockSettings.ofJson?
  let store ← f.defaulting "store" {} StoreSettings.ofJson?
  let fleet ← f.defaulting "fleet" {} ProviderSettings.ofJson?
  let notifications ← f.defaulting "notifications" {} NotificationSettings.ofJson?
  let selector ← f.defaulting "selector" {} SelectorSettings.ofJson?
  let replacement ← f.defaulting "replacement" {} ReplacementSettings.ofJson?
  let healthCheck ← f.defaulting "health_check" {} ImageCheckSettings.ofJson?
  let promotion ← f.defaulting "promotion" {} PromotionSettings.ofJson?
  let termination ← f.defaulting "termination" {} DecommissionSettings.ofJson?
  let tagSync ← f.defaulting "tag_sync" {} TagSettings.ofJson?
  some ⟨database, lock, store, fleet, notifications, selector, replacement, healthCheck,
    promotion, termination, tagSync⟩

def ofJson? (j : Json) : Option Config :=
  (j.fields? layout).bind ofFields?

end Config

end FleetControl
