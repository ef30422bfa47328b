import FleetControl.Table
import FleetControl.Error
import FleetControl.Fleet.Host
import FleetControl.Fleet.Agent
import FleetControl.Deploy
import FleetControl.HostTag
import FleetControl.WorkItem

/-!
# The store

The tables of the control plane and what can be asked of them and done to
them. An operation that names a missing record gives an error and changes
nothing. One that dates a change reads the clock only when it has found the
record. Listings are in the order of their keys, histories newest first.
-/
namespace FleetControl

structure Store where
  events : Table UpgradeEvent
  checks : Table HealthCheck
  clusters : Table Cluster
  environments : Table Environment
  images : Table Image
  hosts : Table Host
  /-- Agents by host and, on each host, by environment. -/
  agents : Table (Table Agent)
  deploys : Table Deploy
  builds : Table Build
  promoteConfigs : Table PromotionRule
  constraints : Table DeployConstraint
  hostTags : List HostTag
  /-- How many deploys the store has created. -/
  created : Nat

namespace Store

def empty : Store :=
  ⟨.empty, .empty, .empty, .empty, .empty, .empty, .empty, .empty, .empty, .empty, .empty, [], 0⟩

instance : Inhabited Store := ⟨empty⟩

/-! ## Work items -/

def items (s : Store) : (k : ItemKind) → Table (Item k)
  | .upgrade => s.events
  | .check => s.checks

def withItems (s : Store) : (k : ItemKind) → Table (Item k) → Store
  | .upgrade, t => { s with events := t }
  | .check, t => { s with checks := t }

@[simp] theorem items_withItems (s : Store) (k : ItemKind) (t : Table (Item k)) :
    (s.withItems k t).items k = t := by
  cases k <;> rfl

theorem items_withItems_of_ne (s : Store) {k k' : ItemKind} (t : Table (Item k)) (h : k' ≠ k) :
    (s.withItems k t).items k' = s.items k' := by
  cases k <;> cases k' <;> first | rfl | exact absurd rfl h

def getItem (s : Store) (k : ItemKind) (id : ItemId) : Option (Item k) := (s.items k).get? id

/-- Replace whatever item has the same id. -/
def putItem (s : Store) (k : ItemKind) (i : Item k) : Store :=
  s.withItems k ((s.items k).insert i.id i)

/-- Add an item whose id is not taken. -/
def insertItem (s : Store) (k : ItemKind) (i : Item k) : Except ControlError Store :=
  if (s.items k).contains i.id then
    .error (.internal (k.label ++ " " ++ i.id ++ " already exists"))
  else .ok (s.putItem k i)

/-- Replace the stored item of the same id in full. -/
def updateItem (s : Store) (k : ItemKind) (i : Item k) : Except ControlError Store :=
  if (s.items k).contains i.id then .ok (s.putItem k i)
  else .error (.notFound k.label i.id)

theorem getItem_putItem (s : Store) (k : ItemKind) (i : Item k) (id : ItemId) :
    (s.putItem k i).getItem k id = if id = i.id then some i else s.getItem k id := by
  simp [getItem, putItem, Table.get?_insert]

/-- Items of the other kind do not change. -/
theorem getItem_putItem_of_ne (s : Store) {k k' : ItemKind} (i : Item k) (id : ItemId)
    (h : k' ≠ k) : (s.putItem k i).getItem k' id = s.getItem k' id := by
  simp [getItem, putItem, items_withItems_of_ne s _ h]

theorem insertItem_eq_ok_iff {s s' : Store} {k : ItemKind} {i : Item k} :
    s.insertItem k i = .ok s' ↔ s.getItem k i.id = none ∧ s' = s.putItem k i := by
  unfold insertItem Table.contains getItem
  cases (s.items k).get? i.id <;> simp [eq_comm]

theorem updateItem_eq_ok_iff {s s' : Store} {k : ItemKind} {i : Item k} :
    s.updateItem k i = .ok s' ↔ (s.getItem k i.id).isSome ∧ s' = s.putItem k i := by
  unfold updateItem Table.contains getItem
  cases (s.items k).get? i.id <;> simp [eq_comm]

def itemIdsInStates (s : Store) (k : ItemKind) (states : List k.State) : List ItemId :=
  ((s.items k).values.filter fun i => states.contains i.state).map Item.id

/-- Order by a date, newest first; of equal dates the order is kept. -/
def newestFirst {α : Type} (date : α → Instant) (xs : List α) : List α :=
  xs.mergeSort fun a b => decide (date b ≤ date a)

/-- The items of a cluster that were created last. -/
def recentItems (s : Store) (k : ItemKind) (cluster : String) (limit : Nat) : List (Item k) :=
  (newestFirst (fun i => i.header.createdAt)
    ((s.items k).values.filter fun i => i.cluster == cluster)).take limit

/-! ## Clusters, environments and images -/

def changeCluster (s : Store) (clock : Outcome Instant) (name : String)
    (change : Cluster → Cluster) : Outcome Store :=
  if s.clusters.contains name then
    clock.map fun now =>
      let dated (c : Cluster) : Cluster := { change c with lastUpdate := now }
      { s with clusters := s.clusters.modify name dated }
  else .error (.error (.notFound "cluster" name))

def setClusterState (s : Store) (clock : Outcome Instant) (name : String) (state : ClusterState) :
    Outcome Store :=
  s.changeCluster clock name fun c => { c with state := state }

def setClusterImage (s : Store) (clock : Outcome Instant) (name image : String) : Outcome Store :=
  s.changeCluster clock name fun c => { c with imageId := some image }

def environmentByStage (s : Store) (name stage : String) : Option Environment :=
  s.environments.values.find? fun e => e.name == name && e.stage == stage

/-! ## Hosts and agents -/

def insertHost (s : Store) (h : Host) : Store := { s with hosts := s.hosts.insert h.id h }

/-- Put the known ones of some hosts into a state. -/
def setHostState (s : Store) (now : Instant) (ids : List HostId) (state : HostState) : Store :=
  let mark (t : Table Host) (id : HostId) : Table Host :=
    t.modify id fun h => { h with state := state, lastUpdate := now }
  { s with hosts := ids.foldl mark s.hosts }

/-- Exactly the known ones of the given hosts change. -/
theorem get?_setHostState (s : Store) (now : Instant) (ids : List HostId) (state : HostState)
    (id : HostId) :
    (s.setHostState now ids state).hosts.get? id =
      if id ∈ ids then
        (s.hosts.get? id).map fun h => { h with state := state, lastUpdate := now }
      else s.hosts.get? id := by
  simp only [setHostState]
  generalize s.hosts = t
  induction ids generalizing t with
  | nil => simp
  | cons a ids ih =>
      rw [List.foldl_cons, ih, Table.get?_modify]
      by_cases ha : id = a <;> by_cases hi : id ∈ ids <;> simp [ha, hi]
      all_goals cases t.get? a <;> simp_all

/-- Forget a host and its agents. -/
def deleteHost (s : Store) (id : HostId) : Store :=
  { s with hosts := s.hosts.erase id, agents := s.agents.erase id }

def hostsInStates (s : Store) (states : List HostState) : List Host :=
  s.hosts.values.filter fun h => states.contains h.state

/-- Record the report of an agent in place of its last one. -/
def putAgent (s : Store) (a : Agent) : Store :=
  let onHost := ((s.agents.get? a.hostId).getD .empty).insert a.envId a
  { s with agents := s.agents.insert a.hostId onHost }

def agentsOn (s : Store) (id : HostId) : List Agent := ((s.agents.get? id).getD .empty).values

def allAgents (s : Store) : List Agent := s.agents.values.flatMap Table.values

/-- The hosts with an agent of an environment. -/
def envHostIds (s : Store) (env : EnvId) : IdSet :=
  .ofList ((s.agents.filter fun _ t => t.contains env).keys)

def hasFailedAgent (s : Store) (id : HostId) : Bool := (s.agentsOn id).any Agent.isFailed

/-- The hosts of a cluster that are not on their way out. -/
def stayingHosts (s : Store) (cluster : String) : List Host :=
  s.hosts.values.filter fun h => h.cluster == cluster && !h.state.isLeaving

def retirableHostIds (s : Store) (cluster : String) : List HostId :=
  ((s.stayingHosts cluster).filter Host.retirable).map Host.id

def retirableFailedHostIds (s : Store) (cluster : String) : List HostId :=
  ((s.stayingHosts cluster).filter fun h => h.retirable && s.hasFailedAgent h.id).map Host.id

def failedHostIds (s : Store) (cluster : String) : List HostId :=
  ((s.stayingHosts cluster).filter fun h => s.hasFailedAgent h.id).map Host.id

def stopAgent (s : Store) (env : EnvId) (id : HostId) : Store :=
  { s with agents := s.agents.modify id fun t =>
      t.modify env fun a => { a with state := .stop } }

/-- Tell the agents of an environment on some hosts to stop, and mark the hosts
for termination. -/
def drainHosts (s : Store) (now : Instant) (env : EnvId) (ids : List HostId) : Store :=
  ids.foldl (fun s id => (s.stopAgent env id).setHostState now [id] .pendingTerminate) s

/-- How many agents of an environment serve its build. -/
def countServing (s : Store) (env : EnvId) : Nat :=
  (s.allAgents.filter fun a => a.envId == env && a.isServing).length

/-! ## Deploys and promotion -/

def autoPromoteEnvIds (s : Store) : List EnvId :=
  (s.promoteConfigs.values.filter fun c => c.kind == .auto).map PromotionRule.envId

def setPromoteKind (s : Store) (env : EnvId) (kind : PromoteKind) : Except ControlError Store :=
  if s.promoteConfigs.contains env then
    .ok { s with promoteConfigs := s.promoteConfigs.modify env fun c => { c with kind := kind } }
  else .error (.notFound "promote config" env)

/-- The newest builds of a name published after one instant and not after another. -/
def buildsPublishedBetween (s : Store) (name : String) (after before : Instant) (limit : Nat) :
    List Build :=
  (newestFirst Build.publishDate (s.builds.values.filter fun b =>
    b.name == name && decide (after < b.publishDate) && decide (b.publishDate ≤ before))).take limit

/-- The newest deploys of an environment started after one instant and not after another. -/
def deploysStartedBetween (s : Store) (env : EnvId) (after before : Instant) (limit : Nat) :
    List Deploy :=
  (newestFirst Deploy.startDate (s.deploys.values.filter fun d =>
    d.envId == env && decide (after < d.startDate) && decide (d.startDate ≤ before))).take limit

/-- The id of the deploy that the store creates after so many others. -/
def createdId (created : Nat) : String := "gen-" ++ toString (created + 1)

/-- Record a running deploy and make it the current one of its environment. -/
def createDeploy (s : Store) (clock : Outcome Instant) (d : NewDeploy) :
    Outcome (Deploy × Store) :=
  if s.environments.contains d.envId then
    clock.map fun now =>
      let record : Deploy :=
        ⟨createdId s.created, d.envId, d.buildId, .running, .pendingDeploy, now, d.fromDeploy⟩
      (record, { s with
        environments := s.environments.modify d.envId fun e => { e with deployId := some record.id }
        deploys := s.deploys.insert record.id record
        created := s.created + 1 })
  else .error (.error (.notFound "environment" d.envId))

/-! ## Constraints and host tags -/

def constraintIdsInStates (s : Store) (states : List TagSyncState) : List String :=
  (s.constraints.values.filter fun c => states.contains c.state).map DeployConstraint.id

def setConstraintState (s : Store) (clock : Outcome Instant) (id : String)
    (state : TagSyncState) : Outcome Store :=
  if s.constraints.contains id then
    clock.map fun now =>
      { s with constraints := s.constraints.modify id fun c =>
          { c with state := state, lastUpdate := now } }
  else .error (.error (.notFound "deploy constraint" id))

def taggedHostIds (s : Store) (env : EnvId) (tag : String) : IdSet :=
  .ofList ((s.hostTags.filter fun t => t.envId == env && t.tagName == tag).map HostTag.hostId)

def deleteHostTags (s : Store) (env : EnvId) (tag : String) (ids : List HostId) : Store :=
  { s with hostTags := s.hostTags.filter fun t =>
      !(t.envId == env && t.tagName == tag && ids.contains t.hostId) }

/-- Put a host tag at the end, in place of one for the same host, environment and name. -/
def putHostTag (tags : List HostTag) (tag : HostTag) : List HostTag :=
  tags.filter (fun t =>
    !(t.hostId == tag.hostId && t.envId == tag.envId && t.tagName == tag.tagName)) ++ [tag]

def insertHostTags (s : Store) (tags : List HostTag) : Store :=
  { s with hostTags := tags.foldl putHostTag s.hostTags }

end Store

end FleetControl
