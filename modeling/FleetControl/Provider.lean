import FleetControl.Table
import FleetControl.IdSet
import FleetControl.Error
import FleetControl.Fleet.Cluster
import FleetControl.Text.Decimal

/-!
# The cloud provider

What the control plane asks of a provider of hosts, and a provider that keeps
its hosts in memory and records what it was asked to do. How many hosts it
launches can be limited for each call and in total, or switched off.
-/
namespace FleetControl

/-- What can be asked of a provider. -/
inductive ProviderCall where
  /-- Launch up to a number of hosts for a cluster, outside its pool. -/
  | launchHosts (cluster : String) (count : Nat) (image : Option String)
  /-- Terminate hosts of a cluster. With `drain` they may finish their work. -/
  | terminateHosts (cluster : String) (ids : List HostId) (drain : Bool)
  | listTerminated (ids : List HostId)
  | listRunning (ids : List HostId)
  /-- Move hosts into the pool of a cluster. -/
  | attachToPool (ids : List HostId) (cluster : String)
  | currentPoolSize (cluster : String)
  /-- The value of a tag on each host that carries it. -/
  | hostTags (ids : List HostId) (tag : String)
  deriving DecidableEq, Repr

namespace ProviderCall

@[reducible] def Reply : ProviderCall → Type
  | launchHosts _ _ _ => List HostId
  | terminateHosts _ _ _ => Unit
  | listTerminated _ => IdSet
  | listRunning _ => List HostId
  | attachToPool _ _ => Unit
  | currentPoolSize _ => Nat
  | hostTags _ _ => Table String

end ProviderCall

structure ProviderHost where
  cluster : String
  terminated : Bool
  tags : Table String

/-- A launch that took place, with the number granted. -/
structure Launch where
  cluster : String
  count : Nat
  image : Option String
  launched : List HostId
  deriving DecidableEq, Repr

/-- A termination that was accepted. -/
structure Termination where
  cluster : String
  ids : List HostId
  drain : Bool
  deriving DecidableEq, Repr

structure Attachment where
  cluster : String
  ids : List HostId
  deriving DecidableEq, Repr

/-- A provider in memory. -/
structure Provider where
  hosts : Table ProviderHost
  poolSizes : Table Nat
  /-- The most hosts of one launch. -/
  launchLimit : Option Nat
  /-- The most hosts of all launches to come. -/
  launchCapacity : Option Nat
  /-- Whether every launch grants nothing. -/
  failLaunches : Bool
  /-- How many hosts were ever launched. -/
  issued : Nat
  launches : List Launch
  terminations : List Termination
  attachments : List Attachment

namespace Provider

def empty : Provider := ⟨.empty, .empty, none, none, false, 0, [], [], []⟩

instance : Inhabited Provider := ⟨empty⟩

/-- Register a running host. -/
def addHost (p : Provider) (cluster : String) (id : HostId) : Provider :=
  { p with hosts := p.hosts.insert id ⟨cluster, false, .empty⟩ }

/-- Let a known host be terminated. -/
def markTerminated (p : Provider) (id : HostId) : Provider :=
  { p with hosts := p.hosts.modify id fun h => { h with terminated := true } }

def setPoolSize (p : Provider) (cluster : String) (size : Nat) : Provider :=
  { p with poolSizes := p.poolSizes.insert cluster size }

def setTag (p : Provider) (id : HostId) (tag value : String) : Provider :=
  { p with hosts := p.hosts.modify id fun h => { h with tags := h.tags.insert tag value } }

def isTerminated (p : Provider) (id : HostId) : Bool :=
  (p.hosts.get? id).any ProviderHost.terminated

def isRunning (p : Provider) (id : HostId) : Bool :=
  (p.hosts.get? id).any fun h => !h.terminated

/-- All ids in the recorded terminations, in their order. -/
def terminatedIds (p : Provider) : List HostId := p.terminations.flatMap Termination.ids

/-- How many hosts a launch of `count` is granted. -/
def granted (p : Provider) (count : Nat) : Nat :=
  let limited := if p.failLaunches then 0 else p.launchLimit.elim count (min count)
  p.launchCapacity.elim limited (min limited)

/-- The id of the host that is launched after so many others. -/
def launchedId (issued : Nat) : HostId := "i-mock-" ++ Decimal.padded 4 (issued + 1)

/-- The largest launch whose list of ids can be addressed. -/
def maxLaunch : Nat := 0x7fffffffffffffff / 24

/-- Launch what is granted. The granted number is taken from the capacity before
room is made for the ids. -/
def launchHosts (p : Provider) (cluster : String) (count : Nat) (image : Option String) :
    Outcome (List HostId) × Provider :=
  let granted := p.granted count
  let p := { p with launchCapacity := p.launchCapacity.map (· - granted) }
  if maxLaunch < granted then (.error (.crash (some "capacity overflow")), p)
  else
    let ids := (List.range granted).map fun i => launchedId (p.issued + i)
    let p := ids.foldl (fun p id => p.addHost cluster id) p
    (.ok ids, { p with
      issued := p.issued + granted
      launches := p.launches ++ [⟨cluster, granted, image, ids⟩] })

/-- Mark hosts one after the other up to the first that belongs to another
cluster. Unknown hosts are passed over. -/
def markAll (p : Provider) (cluster : String) : List HostId → Except ControlError Unit × Provider
  | [] => (.ok (), p)
  | id :: ids =>
      match p.hosts.get? id with
      | none => markAll p cluster ids
      | some h =>
          if h.cluster = cluster then markAll (p.markTerminated id) cluster ids
          else (.error (.fleet
            ("host " ++ id ++ " belongs to " ++ h.cluster ++ ", not " ++ cluster)), p)

/-- Terminate hosts and record the call, unless one of them is refused. -/
def terminateHosts (p : Provider) (cluster : String) (ids : List HostId) (drain : Bool) :
    Except ControlError Unit × Provider :=
  match p.markAll cluster ids with
  | (.ok (), p) => (.ok (), { p with terminations := p.terminations ++ [⟨cluster, ids, drain⟩] })
  | (.error e, p) => (.error e, p)

def attachToPool (p : Provider) (ids : List HostId) (cluster : String) : Provider :=
  { p with attachments := p.attachments ++ [⟨cluster, ids⟩] }

def tagValues (p : Provider) (ids : List HostId) (tag : String) : Table String :=
  .ofList (ids.filterMap fun id => do
    let host ← p.hosts.get? id
    let value ← host.tags.get? tag
    some (id, value))

/-- Answer a call. -/
def answer (p : Provider) : (c : ProviderCall) → Outcome c.Reply × Provider
  | .launchHosts cluster count image => p.launchHosts cluster count image
  | .terminateHosts cluster ids drain =>
      let (r, p) := p.terminateHosts cluster ids drain
      (r.mapError Fault.error, p)
  | .listTerminated ids => (.ok (.ofList (ids.filter p.isTerminated)), p)
  | .listRunning ids => (.ok (ids.filter p.isRunning), p)
  | .attachToPool ids cluster => (.ok (), p.attachToPool ids cluster)
  | .currentPoolSize cluster => (.ok ((p.poolSizes.get? cluster).getD 0), p)
  | .hostTags ids tag => (.ok (p.tagValues ids tag), p)

end Provider

end FleetControl
