import FleetControl.Program
import FleetControl.Selector
import FleetControl.Time.Clock

/-!
# The world

The state that a worker's calls reach when every collaborator lives in memory:
the clock, the store, the provider, the locks, the random order and the
notifications on their way. A crash inside an operation of the store leaves its
tables locked for good.
-/
namespace FleetControl

structure World where
  /-- What the clock shows, whether or not it can be read. -/
  clock : Instant
  /-- The store; none once one of its operations has crashed. -/
  store : Option Store
  provider : Provider
  locks : LockTable
  selector : Selector
  /-- Notifications handed over and not yet delivered, oldest first. -/
  outbox : List Notification
  /-- Notifications delivered, oldest first. -/
  sent : List Notification
  /-- What controllers noted, oldest first. -/
  notes : List Note

namespace World

/-- A world without any records at an instant. -/
def initial (clock : Instant) (selector : Selector) : World :=
  ⟨clock, some .empty, .empty, .empty, selector, [], [], []⟩

/-- Read the clock. -/
def now (w : World) : Outcome Instant := Clock.read w.clock

/-- The tables that can be seen; none are left of a store that is lost. -/
def tables (w : World) : Store := w.store.getD .empty

/-- Why nothing can be asked of a store that is lost. -/
def storeLost : ControlError := .internal "lock poisoned"

/-- Do an operation on the store. If it crashes the store is lost. -/
def useStore {α : Type} (w : World) (operation : Store → Outcome α × Store) :
    Outcome α × World :=
  match w.store with
  | none => (.error (.error storeLost), w)
  | some store =>
      match operation store with
      | (.error (.crash payload), _) => (.error (.crash payload), { w with store := none })
      | (r, store) => (r, { w with store := some store })

/-- Take a lock for a call. -/
def acquire (w : World) (name : String) : Outcome (Option Token) × World :=
  let (token, locks) := w.locks.acquire name
  (.ok token, { w with locks := locks })

/-- Give a lock back for a call. -/
def release (w : World) (name : String) (token : Token) : Outcome Unit × World :=
  match w.locks.release? name token with
  | some locks => (.ok (), { w with locks := locks })
  | none => (.error (.error (.lock (.heldElsewhere name))), w)

/-- Hand a notification over unless nobody would receive it. -/
def post (w : World) (n : Notification) : World :=
  if n.isAddressed then { w with outbox := w.outbox ++ [n] } else w

/-- Answer a call. -/
def answer : Program.Handler World
  | .now, w => (w.now, w)
  | .shuffle ids, w =>
      let (ids, selector) := w.selector.shuffle ids
      (.ok ids, { w with selector := selector })
  | .post n, w => (.ok (), w.post n)
  | .note entry, w => (.ok (), { w with notes := w.notes ++ [entry] })
  | .store c, w => w.useStore fun store => store.answer w.now c
  | .provider c, w =>
      let (r, provider) := w.provider.answer c
      (r, { w with provider := provider })
  | .acquire name, w => w.acquire name
  | .release name token, w => w.release name token

/-- Deliver everything that was handed over. -/
def deliver (w : World) : World := { w with outbox := [], sent := w.sent ++ w.outbox }

end World

end FleetControl
