import FleetControl.Json

/-!
# Reading records

A reader sees a record as the function from names to values, so members with
other names make no difference to it. A record may also be given as the list
of its values in the order of its layout.
-/
namespace FleetControl

/-- The members of a record by name. -/
abbrev Fields := String → Option Json

/-- The names of a record in order, each with whether it may be left out. -/
abbrev Layout := List (String × Bool)

namespace Layout

/-- Pair listed values with their names. Values may run out only before names
that may all be left out. -/
def assign : Layout → List Json → Option (List (String × Json))
  | [], [] => some []
  | [], _ :: _ => none
  | names, [] => if names.all Prod.snd then some [] else none
  | (name, _) :: names, v :: vs => (assign names vs).map ((name, v) :: ·)

end Layout

namespace Json

/-- The members of an object, and of nothing else. -/
def objectFields? : Json → Option Fields
  | object ms => some fun name => member? name ms
  | _ => none

/-- The members of an object, or of a list by its layout. -/
def fields? (layout : Layout) : Json → Option Fields
  | object ms => some fun name => member? name ms
  | array vs => (layout.assign vs).map fun ms name => member? name ms
  | _ => none

end Json

namespace Fields

/-- A member that must be there. -/
def required {α : Type} (f : Fields) (name : String) (read : Json → Option α) : Option α :=
  (f name).bind read

/-- A member that may be absent or null. -/
def optional {α : Type} (f : Fields) (name : String) (read : Json → Option α) :
    Option (Option α) :=
  Json.optional? read (f name)

/-- A member that stands for a given value when absent. -/
def defaulting {α : Type} (f : Fields) (name : String) (value : α) (read : Json → Option α) :
    Option α :=
  match f name with
  | none => some value
  | some j => read j

end Fields

end FleetControl
