/-!
# Errors and faults

A control error names its cause; `ControlError.message` is the only place that
words it. A fault is how a computation ends without a value: with an error that
its caller can handle, or with a crash that only a supervisor contains.
-/
namespace FleetControl

/-- Why an advisory lock could not be taken or given back. -/
inductive LockError where
  | connection (detail : String)
  | heldElsewhere (detail : String)
  | backend (detail : String)
  deriving DecidableEq, Repr

namespace LockError

def message : LockError → String
  | connection detail => "Connection error: " ++ detail
  | heldElsewhere detail => "Lock held by another holder: " ++ detail
  | backend detail => "Backend error: " ++ detail

/-- Only a lost connection can be expected to mend by itself. -/
def isTransient : LockError → Bool
  | connection _ => true
  | heldElsewhere _ | backend _ => false

end LockError

/-- Why an operation of the control plane failed. -/
inductive ControlError where
  | database (detail : String)
  | lock (cause : LockError)
  | fleet (detail : String)
  | notification (detail : String)
  | notFound (kind id : String)
  | invariant (detail : String)
  | config (detail : String)
  | http (detail : String)
  | serialisation (detail : String)
  | internal (detail : String)
  deriving DecidableEq, Repr

namespace ControlError

def message : ControlError → String
  | database detail => "database error: " ++ detail
  | lock cause => "lock error: " ++ cause.message
  | fleet detail => "fleet error: " ++ detail
  | notification detail => "notification error: " ++ detail
  | notFound kind id => kind ++ " not found: " ++ id
  | invariant detail => "invariant violation: " ++ detail
  | config detail => "configuration error: " ++ detail
  | http detail => "HTTP error: " ++ detail
  | serialisation detail => "serialisation error: " ++ detail
  | internal detail => "internal error: " ++ detail

/-- Whether a later attempt can be expected to succeed without intervention.
Infrastructure failures are transient; missing records and broken invariants
need an operator. -/
def isTransient : ControlError → Bool
  | database _ | fleet _ | http _ | notification _ => true
  | lock cause => cause.isTransient
  | notFound _ _ | invariant _ | config _ | serialisation _ | internal _ => false

end ControlError

/-- How a computation ends without a value. The payload of a crash is its text,
if it carries one. -/
inductive Fault where
  | error (cause : ControlError)
  | crash (payload : Option String)
  deriving DecidableEq, Repr

/-- A value or a fault. -/
abbrev Outcome (α : Type) := Except Fault α

/-- The error a supervisor reports for a crash it has contained. -/
def Fault.contained : Fault → ControlError
  | error cause => cause
  | crash payload => .internal ("panicked: " ++ payload.getD "unknown panic payload")

end FleetControl
