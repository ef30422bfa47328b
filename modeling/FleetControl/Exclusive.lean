import FleetControl.Program

/-!
# Work under a lock

A body runs between taking a lock and giving it back. Whatever the body does,
a crash included, the lock is given back; a failure to give it back is only
logged.
-/
namespace FleetControl

/-- The name of the lock on an item. -/
def lockOf (pre id : String) : String := pre ++ "-" ++ id

/-- Run a body while holding a lock; `none` if the lock was held. -/
def exclusively {α : Type} (name : String) (body : Program α) : Program (Option α) := do
  match ← Program.perform (.acquire name) with
  | none => pure none
  | some token => do
      let outcome ← body.contain
      let _ ← (Program.perform (.release name token)).attempt
      let value ← Program.ofExcept outcome
      pure (some value)

end FleetControl
