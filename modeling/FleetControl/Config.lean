import FleetControl.Enumeration

/-!
# Configuration

The settings of a worker in sections. Every setting has a default, so an empty
configuration is complete.
-/
namespace FleetControl

structure DatabaseSettings where
  url : String := "postgres://localhost/meridian"
  maxConnections : Nat := 10
  minConnections : Nat := 1
  connectTimeoutSecs : Nat := 5
  deriving DecidableEq, Repr

/-- Where advisory locks live. -/
inductive LockSettings where
  | memory
  | postgres (url : String) (maxConnections : Nat)
  deriving DecidableEq, Repr

inductive StoreBackend where
  | memory
  | postgres
  deriving DecidableEq, Repr

instance : Enumeration StoreBackend where
  label := "StoreBackend"
  name
    | .memory => "memory"
    | .postgres => "postgres"
  all := [.memory, .postgres]
  mem_all := by intro a; cases a <;> decide
  nodup_names := by decide

structure StoreSettings where
  backend : StoreBackend := .memory
  deriving DecidableEq, Repr

inductive ProviderBackend where
  /-- A provisioning service over HTTP. -/
  | http
  /-- A provider in memory. -/
  | mock
  deriving DecidableEq, Repr

instance : Enumeration ProviderBackend where
  label := "FleetBackend"
  name
    | .http => "http"
    | .mock => "mock"
  all := [.http, .mock]
  mem_all := by intro a; cases a <;> decide
  nodup_names := by decide

structure ProviderSettings where
  backend : ProviderBackend := .mock
  url : String := "http://localhost:8090"
  timeoutSecs : Nat := 30
  deriving DecidableEq, Repr

inductive NotificationBackend where
  | log
  | webhook
  deriving DecidableEq, Repr

instance : Enumeration NotificationBackend where
  label := "NotificationBackend"
  name
    | .log => "log"
    | .webhook => "webhook"
  all := [.log, .webhook]
  mem_all := by intro a; cases a <;> decide
  nodup_names := by decide

structure NotificationSettings where
  backend : NotificationBackend := .log
  webhookUrl : Option String := none
  timeoutSecs : Nat := 10
  deriving DecidableEq, Repr

structure SelectorSettings where
  /-- The seed of the random order; without one it is chosen at the start. -/
  seed : Option Nat := none
  deriving DecidableEq, Repr

structure ReplacementSettings where
  enabled : Bool := true
  intervalSecs : Nat := 30
  /-- How long an event may go without progress. -/
  timeoutSecs : Nat := 1800
  /-- The most hosts to ask for in one launch. -/
  launchBatch : Nat := 50
  deriving DecidableEq, Repr

structure ImageCheckSettings where
  enabled : Bool := true
  intervalSecs : Nat := 30
  /-- How long a check may stay in one state. -/
  timeoutSecs : Nat := 1800
  /-- How many checks in a row must fail before on-call is paged. -/
  failuresBeforePage : Nat := 3
  deriving DecidableEq, Repr

structure PromotionSettings where
  enabled : Bool := true
  intervalSecs : Nat := 60
  /-- The most builds or deploys to look at. -/
  candidateLimit : Nat := 100
  deriving DecidableEq, Repr

structure DecommissionSettings where
  enabled : Bool := true
  intervalSecs : Nat := 30
  deriving DecidableEq, Repr

structure TagSettings where
  enabled : Bool := true
  intervalSecs : Nat := 30
  /-- The most hosts of one lookup at the provider. -/
  batchSize : Nat := 200
  deriving DecidableEq, Repr

structure Config where
  database : DatabaseSettings := {}
  lock : LockSettings := .memory
  store : StoreSettings := {}
  fleet : ProviderSettings := {}
  notifications : NotificationSettings := {}
  selector : SelectorSettings := {}
  replacement : ReplacementSettings := {}
  healthCheck : ImageCheckSettings := {}
  promotion : PromotionSettings := {}
  termination : DecommissionSettings := {}
  tagSync : TagSettings := {}
  deriving DecidableEq, Repr

/-- The seconds between two passes, never zero. -/
def passInterval (secs : Nat) : Nat := max secs 1

end FleetControl
