import FleetControl.Store

/-!
# Calls of the store

What can be asked of a store as data, with the type of each answer. Every call
is atomic. Dates that the store sets itself are those of the clock.
-/
namespace FleetControl

inductive StoreCall where
  | insertItem (k : ItemKind) (item : Item k)
  | getItem (k : ItemKind) (id : ItemId)
  | listItems (k : ItemKind) (states : List k.State)
  | updateItem (k : ItemKind) (item : Item k)
  | recentItems (k : ItemKind) (cluster : String) (limit : Nat)
  | getCluster (name : String)
  | setClusterState (name : String) (state : ClusterState)
  | setClusterImage (name image : String)
  | getEnvironment (id : EnvId)
  | environmentByStage (name stage : String)
  | getImage (id : String)
  | getHost (id : HostId)
  | insertHost (host : Host)
  | setHostState (ids : List HostId) (state : HostState)
  | deleteHost (id : HostId)
  | hostsInStates (states : List HostState)
  | envHostIds (env : EnvId)
  | retirableHostIds (cluster : String)
  | retirableFailedHostIds (cluster : String)
  | failedHostIds (cluster : String)
  | drainHosts (env : EnvId) (ids : List HostId)
  | agentsByHost (id : HostId)
  | countServing (env : EnvId)
  | getDeploy (id : String)
  | getBuild (id : String)
  | promoteConfig (env : EnvId)
  | autoPromoteEnvIds
  | setPromoteKind (env : EnvId) (kind : PromoteKind)
  | buildsPublishedBetween (name : String) (after before : Instant) (limit : Nat)
  | deploysStartedBetween (env : EnvId) (after before : Instant) (limit : Nat)
  | createDeploy (deploy : NewDeploy)
  | getConstraint (id : String)
  | constraintIdsInStates (states : List TagSyncState)
  | setConstraintState (id : String) (state : TagSyncState)
  | taggedHostIds (env : EnvId) (tag : String)
  | deleteHostTags (env : EnvId) (tag : String) (ids : List HostId)
  | insertHostTags (tags : List HostTag)

namespace StoreCall

/-- The type of the answer to a call. -/
@[reducible] def Reply : StoreCall → Type
  | insertItem _ _ => Unit
  | getItem k _ => Option (Item k)
  | listItems _ _ => List ItemId
  | updateItem _ _ => Unit
  | recentItems k _ _ => List (Item k)
  | getCluster _ => Option Cluster
  | setClusterState _ _ => Unit
  | setClusterImage _ _ => Unit
  | getEnvironment _ => Option Environment
  | environmentByStage _ _ => Option Environment
  | getImage _ => Option Image
  | getHost _ => Option Host
  | insertHost _ => Unit
  | setHostState _ _ => Unit
  | deleteHost _ => Unit
  | hostsInStates _ => List Host
  | envHostIds _ => IdSet
  | retirableHostIds _ => List HostId
  | retirableFailedHostIds _ => List HostId
  | failedHostIds _ => List HostId
  | drainHosts _ _ => Unit
  | agentsByHost _ => List Agent
  | countServing _ => Nat
  | getDeploy _ => Option Deploy
  | getBuild _ => Option Build
  | promoteConfig _ => Option PromotionRule
  | autoPromoteEnvIds => List EnvId
  | setPromoteKind _ _ => Unit
  | buildsPublishedBetween _ _ _ _ => List Build
  | deploysStartedBetween _ _ _ _ => List Deploy
  | createDeploy _ => Deploy
  | getConstraint _ => Option DeployConstraint
  | constraintIdsInStates _ => List String
  | setConstraintState _ _ => Unit
  | taggedHostIds _ _ => IdSet
  | deleteHostTags _ _ _ => Unit
  | insertHostTags _ => Unit

end StoreCall

namespace Store

/-- The end of an operation that gives no value; a failure changes nothing. -/
def settle (s : Store) : Outcome Store → Outcome Unit × Store
  | .ok s' => (.ok (), s')
  | .error f => (.error f, s)

/-- Answer a call under a clock. -/
def answer (s : Store) (clock : Outcome Instant) : (c : StoreCall) → Outcome c.Reply × Store
  | .insertItem k item => s.settle ((s.insertItem k item).mapError .error)
  | .getItem k id => (.ok (s.getItem k id), s)
  | .listItems k states => (.ok (s.itemIdsInStates k states), s)
  | .updateItem k item => s.settle ((s.updateItem k item).mapError .error)
  | .recentItems k cluster limit => (.ok (s.recentItems k cluster limit), s)
  | .getCluster name => (.ok (s.clusters.get? name), s)
  | .setClusterState name state => s.settle (s.setClusterState clock name state)
  | .setClusterImage name image => s.settle (s.setClusterImage clock name image)
  | .getEnvironment id => (.ok (s.environments.get? id), s)
  | .environmentByStage name stage => (.ok (s.environmentByStage name stage), s)
  | .getImage id => (.ok (s.images.get? id), s)
  | .getHost id => (.ok (s.hosts.get? id), s)
  | .insertHost host => (.ok (), s.insertHost host)
  | .setHostState ids state => s.settle (clock.map fun now => s.setHostState now ids state)
  | .deleteHost id => (.ok (), s.deleteHost id)
  | .hostsInStates states => (.ok (s.hostsInStates states), s)
  | .envHostIds env => (.ok (s.envHostIds env), s)
  | .retirableHostIds cluster => (.ok (s.retirableHostIds cluster), s)
  | .retirableFailedHostIds cluster => (.ok (s.retirableFailedHostIds cluster), s)
  | .failedHostIds cluster => (.ok (s.failedHostIds cluster), s)
  | .drainHosts env ids => s.settle (clock.map fun now => s.drainHosts now env ids)
  | .agentsByHost id => (.ok (s.agentsOn id), s)
  | .countServing env => (.ok (s.countServing env), s)
  | .getDeploy id => (.ok (s.deploys.get? id), s)
  | .getBuild id => (.ok (s.builds.get? id), s)
  | .promoteConfig env => (.ok (s.promoteConfigs.get? env), s)
  | .autoPromoteEnvIds => (.ok s.autoPromoteEnvIds, s)
  | .setPromoteKind env kind => s.settle ((s.setPromoteKind env kind).mapError .error)
  | .buildsPublishedBetween name after before limit =>
      (.ok (s.buildsPublishedBetween name after before limit), s)
  | .deploysStartedBetween env after before limit =>
      (.ok (s.deploysStartedBetween env after before limit), s)
  | .createDeploy deploy =>
      match s.createDeploy clock deploy with
      | .ok (record, s') => (.ok record, s')
      | .error f => (.error f, s)
  | .getConstraint id => (.ok (s.constraints.get? id), s)
  | .constraintIdsInStates states => (.ok (s.constraintIdsInStates states), s)
  | .setConstraintState id state => s.settle (s.setConstraintState clock id state)
  | .taggedHostIds env tag => (.ok (s.taggedHostIds env tag), s)
  | .deleteHostTags env tag ids => (.ok (), s.deleteHostTags env tag ids)
  | .insertHostTags tags => (.ok (), s.insertHostTags tags)

end Store

end FleetControl
