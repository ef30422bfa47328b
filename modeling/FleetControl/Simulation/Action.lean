import FleetControl.World

/-!
# Actions on a simulated world

What a script can do to a world directly, past all controllers: move the clock,
put records, make calls of the store and the provider, work with locks, and arm
faults and interruptions for the calls that controllers will make.
-/
namespace FleetControl.Simulation

/-- A record to be put into the store. -/
inductive Entry where
  | cluster (record : Cluster)
  | environment (record : Environment)
  | image (record : Image)
  | host (record : Host)
  | agent (record : Agent)
  | deploy (record : Deploy)
  | build (record : Build)
  | promoteConfig (record : PromotionRule)
  | constraint (record : DeployConstraint)
  | item (k : ItemKind) (record : Item k)

/-- A change of the provider that no controller can make. -/
inductive ProviderChange where
  | addHost (cluster : String) (id : HostId)
  | markTerminated (id : HostId)
  | setLaunchLimit (limit : Option Nat)
  | setLaunchCapacity (capacity : Option Nat)
  | failLaunches (fail : Bool)
  | setPoolSize (cluster : String) (size : Nat)
  | setTag (id : HostId) (tag value : String)

/-- Whose token a release presents. -/
inductive TokenSource where
  | guardOf (handle : String)
  | text (token : String)

/-- A fault to be raised instead of a call. The first `skip` calls go through,
the next `times` fail. -/
structure FaultPlan where
  method : String
  skip : Nat
  times : Nat
  fault : Fault

/-- Whether an interruption comes before or after its call. -/
inductive Moment where
  | before
  | after
  deriving DecidableEq, Repr

inductive Action where
  | setClock (instant : Instant)
  | sleep (millis : Int)
  | put (entry : Entry)
  | newEvent (id : ItemId) (cluster : String) (env : EnvId)
  | newCheck (id : ItemId) (cluster : String) (env : EnvId) (kind : HealthCheckKind)
      (image : String)
  | store (call : StoreCall)
  | hostTags
  | provider (call : ProviderCall)
  | change (change : ProviderChange)
  | isTerminated (id : HostId)
  | terminatedIds
  /-- Take a lock and keep its guard under a handle. -/
  | acquire (name handle : String)
  | releaseGuard (handle : String)
  | dropGuard (handle : String)
  | releaseToken (name : String) (token : TokenSource)
  | isHeld (name : String)
  | fault (plan : FaultPlan)
  /-- Interrupt a later call with actions; the first `skip` calls go undisturbed. -/
  | interrupt (method : String) (moment : Moment) (skip : Nat) (actions : List Action)

/-- An armed interruption. -/
structure Interruption where
  method : String
  moment : Moment
  skip : Nat
  actions : List Action

/-- A lock held by the script. -/
structure Guard where
  resource : String
  token : Token
  deriving DecidableEq, Repr

/-- What goes on in the background. -/
inductive Errand where
  | deliver (notification : Notification)
  /-- Give back the lock of a guard that was dropped. -/
  | giveBack (guard : Guard)

/-- A world with what is armed against it, the guards the script holds and the
errands of the background in the order in which they were begun. -/
structure Scene where
  world : World
  faults : List FaultPlan
  interruptions : List Interruption
  guards : Table Guard
  errands : List Errand

/-- The answer to an action. -/
inductive Answer where
  | nothing
  | store (call : StoreCall) (reply : call.Reply)
  | provider (call : ProviderCall) (reply : call.Reply)
  | hostTags (tags : List HostTag)
  | flag (value : Bool)
  | ids (values : List String)
  | held
  | acquired (guard : Guard)
  | dropped
  | noHandle

/-- Why an action failed. -/
inductive Failure where
  | fault (cause : Fault)
  | lock (cause : LockError)

namespace Scene

def initial (clock : Instant) (seed : Nat) : Scene :=
  ⟨World.initial clock (.seeded seed), [], [], .empty, []⟩

def withWorld (s : Scene) (w : World) : Scene := { s with world := w }

def withProvider (s : Scene) (p : Provider) : Scene :=
  { s with world := { s.world with provider := p } }

def withLocks (s : Scene) (t : LockTable) : Scene :=
  { s with world := { s.world with locks := t } }

def withGuards (s : Scene) (g : Table Guard) : Scene := { s with guards := g }

end Scene

/-- Put a record in place of one with the same key. Work items are only added. -/
def Entry.putInto (s : Store) : Entry → Except ControlError Store
  | .cluster r => .ok { s with clusters := s.clusters.insert r.name r }
  | .environment r => .ok { s with environments := s.environments.insert r.id r }
  | .image r => .ok { s with images := s.images.insert r.id r }
  | .host r => .ok (s.insertHost r)
  | .agent r => .ok (s.putAgent r)
  | .deploy r => .ok { s with deploys := s.deploys.insert r.id r }
  | .build r => .ok { s with builds := s.builds.insert r.id r }
  | .promoteConfig r => .ok { s with promoteConfigs := s.promoteConfigs.insert r.envId r }
  | .constraint r => .ok { s with constraints := s.constraints.insert r.id r }
  | .item k r => s.insertItem k r

def ProviderChange.apply (p : Provider) : ProviderChange → Provider
  | .addHost cluster id => p.addHost cluster id
  | .markTerminated id => p.markTerminated id
  | .setLaunchLimit limit => { p with launchLimit := limit }
  | .setLaunchCapacity capacity => { p with launchCapacity := capacity }
  | .failLaunches fail => { p with failLaunches := fail }
  | .setPoolSize cluster size => p.setPoolSize cluster size
  | .setTag id tag value => p.setTag id tag value

namespace Scene

/-- The answer to an operation, from what it gives. -/
def answerOf {α : Type} (answer : α → Answer) : Outcome α → Except Failure Answer
  | .ok a => .ok (answer a)
  | .error f => .error (.fault f)

/-- Do an operation on the store. -/
def useStore {α : Type} (s : Scene) (answer : α → Answer) (operation : Store → Outcome α × Store) :
    Except Failure Answer × Scene :=
  let (r, w) := s.world.useStore operation
  (answerOf answer r, s.withWorld w)

/-- Put a record into the store, unless it is refused. -/
def put (s : Scene) (entry : Entry) : Except Failure Answer × Scene :=
  s.useStore (fun _ : Unit => .nothing) fun store =>
    store.settle ((entry.putInto store).mapError .error)

/-- Put a record that is dated now into the store. -/
def putDated (s : Scene) (entry : Instant → Entry) : Except Failure Answer × Scene :=
  match s.world.now with
  | .ok now => s.put (entry now)
  | .error f => (.error (.fault f), s)

/-- Give back a lock with a token. -/
def tryRelease (s : Scene) (name : String) (token : Token) (answer : Answer) :
    Except Failure Answer × Scene :=
  match s.world.locks.release? name token with
  | some locks => (.ok answer, s.withLocks locks)
  | none => (.error (.lock (.heldElsewhere name)), s)

def tokenOf (s : Scene) : TokenSource → Token
  | .guardOf handle => ((s.guards.get? handle).map Guard.token).getD (.foreign "")
  | .text token => .foreign token

/-- Do an action. -/
def perform (s : Scene) : Action → Except Failure Answer × Scene
  | .setClock t => (.ok .nothing, s.withWorld { s.world with clock := .ofMillis t.millis })
  | .sleep ms =>
      let clock := Instant.ofMillis (s.world.clock.millis + ms)
      (.ok .nothing, s.withWorld { s.world with clock := clock })
  | .put entry => s.put entry
  | .newEvent id cluster env =>
      s.putDated fun now => .item .upgrade (UpgradeEvent.new id cluster env now)
  | .newCheck id cluster env kind image =>
      s.putDated fun now => .item .check (HealthCheck.new id cluster env kind image now)
  | .store c => s.useStore (.store c) fun store => store.answer s.world.now c
  | .hostTags => s.useStore .hostTags fun store => (.ok store.hostTags, store)
  | .provider c =>
      let (r, provider) := s.world.provider.answer c
      (answerOf (.provider c) r, s.withProvider provider)
  | .change c => (.ok .nothing, s.withProvider (c.apply s.world.provider))
  | .isTerminated id => (.ok (.flag (s.world.provider.isTerminated id)), s)
  | .terminatedIds => (.ok (.ids s.world.provider.terminatedIds), s)
  | .acquire name handle =>
      match s.world.locks.acquire name with
      | (none, _) => (.ok .held, s)
      | (some token, locks) =>
          let guard : Guard := ⟨name, token⟩
          (.ok (.acquired guard), (s.withLocks locks).withGuards (s.guards.insert handle guard))
  | .releaseGuard handle =>
      match s.guards.get? handle with
      | none => (.ok .noHandle, s)
      | some g => (s.withGuards (s.guards.erase handle)).tryRelease g.resource g.token .nothing
  | .dropGuard handle =>
      match s.guards.get? handle with
      | none => (.ok .noHandle, s)
      | some g =>
          let s := s.withGuards (s.guards.erase handle)
          (.ok .dropped, { s with errands := s.errands ++ [.giveBack g] })
  | .releaseToken name token => s.tryRelease name (s.tokenOf token) .nothing
  | .isHeld name => (.ok (.flag (s.world.locks.isHeld name)), s)
  | .fault plan => (.ok .nothing, { s with faults := s.faults ++ [plan] })
  | .interrupt method moment skip actions =>
      (.ok .nothing,
        { s with interruptions := s.interruptions ++ [⟨method, moment, skip, actions⟩] })

/-- Do actions one after the other and forget their answers. -/
def performAll (s : Scene) (actions : List Action) : Scene :=
  actions.foldl (fun s a => (s.perform a).2) s

end Scene

end FleetControl.Simulation
