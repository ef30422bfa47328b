import FleetControl.Simulation.Action

/-!
# The gate

In a simulation every call that a controller makes of a collaborator passes a
gate under the name of its method. There it may be interrupted by actions
before and after it, or fail without being made.
-/
namespace FleetControl.Simulation

namespace Gate

/-- The name of a method on work items of a kind. -/
def itemMethod (k : ItemKind) (method : String) : String :=
  match k with
  | .upgrade => "events." ++ method
  | .check => "checks." ++ method

def storeMethod : StoreCall → String
  | .insertItem k _ => itemMethod k "insert"
  | .getItem k _ => itemMethod k "get"
  | .listItems k _ => itemMethod k "list"
  | .updateItem k _ => itemMethod k "update"
  | .recentItems k _ _ => itemMethod k "recent"
  | .getCluster _ => "get_cluster"
  | .setClusterState _ _ => "set_cluster_state"
  | .setClusterImage _ _ => "set_cluster_image"
  | .getEnvironment _ => "get_environment"
  | .environmentByStage _ _ => "environment_by_stage"
  | .getImage _ => "get_image"
  | .getHost _ => "get_host"
  | .insertHost _ => "insert_host"
  | .setHostState _ _ => "set_host_state"
  | .deleteHost _ => "delete_host"
  | .hostsInStates _ => "hosts_in_states"
  | .envHostIds _ => "env_host_ids"
  | .retirableHostIds _ => "retirable_host_ids"
  | .retirableFailedHostIds _ => "retirable_failed_host_ids"
  | .failedHostIds _ => "failed_host_ids"
  | .drainHosts _ _ => "drain_hosts"
  | .agentsByHost _ => "agents_by_host"
  | .countServing _ => "count_serving"
  | .getDeploy _ => "get_deploy"
  | .getBuild _ => "get_build"
  | .promoteConfig _ => "promote_config"
  | .autoPromoteEnvIds => "auto_promote_env_ids"
  | .setPromoteKind _ _ => "set_promote_kind"
  | .buildsPublishedBetween _ _ _ _ => "builds_published_between"
  | .deploysStartedBetween _ _ _ _ => "deploys_started_between"
  | .createDeploy _ => "create_deploy"
  | .getConstraint _ => "get_constraint"
  | .constraintIdsInStates _ => "constraint_ids_in_states"
  | .setConstraintState _ _ => "set_constraint_state"
  | .taggedHostIds _ _ => "tagged_host_ids"
  | .deleteHostTags _ _ _ => "delete_host_tags"
  | .insertHostTags _ => "insert_host_tags"

def providerMethod : ProviderCall → String
  | .launchHosts _ _ _ => "launch_hosts"
  | .terminateHosts _ _ _ => "terminate_hosts"
  | .listTerminated _ => "list_terminated"
  | .listRunning _ => "list_running"
  | .attachToPool _ _ => "attach_to_pool"
  | .currentPoolSize _ => "current_pool_size"
  | .hostTags _ _ => "host_tags"

/-- The method of a call. The clock, the random order and what stays within the
worker pass no gate. -/
def method? : Call → Option String
  | .now | .shuffle _ | .post _ | .note _ => none
  | .store c => some (storeMethod c)
  | .provider c => some (providerMethod c)
  | .acquire _ => some "try_acquire"
  | .release _ _ => some "release"

/-- A lock only ever fails with a lock error. -/
def asLockFault : Fault → Fault
  | .error (.lock cause) => .error (.lock cause)
  | .error e => .error (.lock (.backend e.message))
  | .crash payload => .crash payload

/-- The form in which a fault reaches the caller of a call. -/
def faultFor (c : Call) (f : Fault) : Fault :=
  match c with
  | .acquire _ | .release _ _ => asLockFault f
  | _ => f

/-- The armed interruptions after a call, and the actions that are due at it. -/
def due (method : String) (moment : Moment) : List Interruption →
    List Interruption × List Action
  | [] => ([], [])
  | i :: is =>
      let (kept, actions) := due method moment is
      if i.method = method ∧ i.moment = moment then
        if i.skip = 0 then (kept, i.actions ++ actions)
        else ({ i with skip := i.skip - 1 } :: kept, actions)
      else (i :: kept, actions)

/-- The armed faults after a call, and the one that it raises. -/
def raised (method : String) : List FaultPlan → List FaultPlan × Option Fault
  | [] => ([], none)
  | p :: ps =>
      if p.method = method ∧ 0 < p.times then
        if p.skip = 0 then ({ p with times := p.times - 1 } :: ps, some p.fault)
        else
          let (ps, fault) := raised method ps
          ({ p with skip := p.skip - 1 } :: ps, fault)
      else
        let (ps, fault) := raised method ps
        (p :: ps, fault)

end Gate

namespace Scene

/-- Do what is due at a method. -/
def interrupt (s : Scene) (method : String) (moment : Moment) : Scene :=
  let (kept, actions) := Gate.due method moment s.interruptions
  Scene.performAll { s with interruptions := kept } actions

/-- Raise the fault that is due at a method. -/
def raise (s : Scene) (method : String) : Option Fault × Scene :=
  let (faults, fault) := Gate.raised method s.faults
  (fault, { s with faults := faults })

/-- Make errands of the notifications that were handed over. -/
def takeOver (s : Scene) : Scene :=
  { s with
    world := { s.world with outbox := [] }
    errands := s.errands ++ s.world.outbox.map .deliver }

/-- Answer a call through the gate. A call that fails by a fault is not made and
nothing interrupts after it. -/
def answer : Program.Handler Scene := fun c s =>
  match Gate.method? c with
  | none =>
      let (r, w) := s.world.answer c
      (r, (s.withWorld w).takeOver)
  | some method =>
      match (s.interrupt method .before).raise method with
      | (some fault, s) => (.error (Gate.faultFor c fault), s)
      | (none, s) =>
          let (r, w) := s.world.answer c
          (r, (s.withWorld w).interrupt method .after)

/-- Deliver one notification through the gate. Nobody hears of a failure. -/
def send (s : Scene) (n : Notification) : Scene :=
  match (s.interrupt "send" .before).raise "send" with
  | (some _, s) => s
  | (none, s) =>
      (s.withWorld { s.world with sent := s.world.sent ++ [n] }).interrupt "send" .after

/-- Run an errand. -/
def runErrand (s : Scene) : Errand → Scene
  | .deliver n => s.send n
  | .giveBack g => (s.tryRelease g.resource g.token .dropped).2

/-- Run the errands that were begun so far, in their order. -/
def runErrands (s : Scene) : Scene := s.errands.foldl runErrand { s with errands := [] }

/-- Let everything that goes on in the background come to its end. A delivery may
drop guards and giving back a lock begins nothing, so the second round is the last. -/
def settle (s : Scene) : Scene := s.runErrands.runErrands

/-- Run a program to its outcome and let the background settle. -/
def run {α : Type} (s : Scene) (p : Program α) : Outcome α × Scene :=
  let (r, s) := p.run answer s
  (r, s.settle)

/-- Do an action and let the background settle. -/
def act (s : Scene) (a : Action) : Except Failure Answer × Scene :=
  let (r, s) := s.perform a
  (r, s.settle)

/-- A scene after some actions, with nothing left in the background. -/
def prepared (s : Scene) (actions : List Action) : Scene := (s.performAll actions).settle

end Scene

end FleetControl.Simulation
