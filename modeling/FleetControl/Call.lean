import FleetControl.Store.Call
import FleetControl.Provider
import FleetControl.LockTable
import FleetControl.Notification

/-!
# Calls

Everything a controller does to the world outside itself, one call at a time:
reading the clock, shuffling, posting a notification, noting what it does, and
calls of the store, the provider and the locks.
-/
namespace FleetControl

/-- An entry that a controller leaves about its own doings. -/
structure Note where
  topic : String
  fields : List String
  deriving DecidableEq, Repr

inductive Call where
  | now
  | shuffle (ids : List String)
  /-- Hand a notification over for delivery in the background. -/
  | post (notification : Notification)
  | note (entry : Note)
  | store (call : StoreCall)
  | provider (call : ProviderCall)
  /-- Try to take a lock. -/
  | acquire (name : String)
  /-- Give a lock back. -/
  | release (name : String) (token : Token)

namespace Call

/-- The type of the answer to a call. -/
@[reducible] def Reply : Call → Type
  | now => Instant
  | shuffle _ => List String
  | post _ => Unit
  | note _ => Unit
  | store c => c.Reply
  | provider c => c.Reply
  | acquire _ => Option Token
  | release _ _ => Unit

end Call

end FleetControl
