import FleetControl.Json

/-!
# Named enumerations

A type with finitely many values, each with a fixed name. The names are what
records hold. Reading a name finds the value that bears it.
-/
namespace FleetControl

/-- The values of a type with their names. No two values share a name. -/
class Enumeration (α : Type) where
  /-- The name of the type in messages. -/
  label : String
  name : α → String
  all : List α
  mem_all : ∀ a, a ∈ all
  nodup_names : (all.map name).Nodup

namespace Enumeration

variable {α : Type} [Enumeration α]

/-- The value with the given name. -/
def ofName? (s : String) : Option α := all.find? fun a => name a == s

/-- The first value of a list with distinct names is found under its name. -/
theorem find?_name {xs : List α} (hn : (xs.map name).Nodup) {a : α} (ha : a ∈ xs) :
    xs.find? (fun b => name b == name a) = some a := by
  induction xs with
  | nil => cases ha
  | cons b xs ih =>
      simp only [List.map_cons, List.nodup_cons] at hn
      rcases List.mem_cons.mp ha with rfl | ha
      · simp
      · have hne : name b ≠ name a := fun h => hn.1 (h ▸ List.mem_map.mpr ⟨a, ha, rfl⟩)
        simp [hne, ih hn.2 ha]

@[simp] theorem ofName?_name (a : α) : ofName? (name a) = some a :=
  find?_name nodup_names (mem_all a)

theorem name_injective {a b : α} (h : name a = name b) : a = b := by
  have : ofName? (α := α) (name a) = ofName? (name b) := by rw [h]
  simpa using this

/-- Reading a name, or the message that there is no such value. -/
def parse (α : Type) [Enumeration α] (s : String) : Except String α :=
  match ofName? s with
  | some a => .ok a
  | none => .error ("unknown " ++ label α ++ ": " ++ s)

def toJson (a : α) : Json := .string (name a)

/-- A name stands as a text, or as the only member of an object with null. -/
def ofJson? : Json → Option α
  | .string s => ofName? s
  | .object [(s, .null)] => ofName? s
  | _ => none

/-- Within a header that stands among the members of another record, an empty
object is as good as null. -/
def ofMember? : Json → Option α
  | .object [(s, .object [])] => ofName? s
  | j => ofJson? j

@[simp] theorem ofJson?_toJson (a : α) : ofJson? (toJson a) = some a := ofName?_name a

end Enumeration

end FleetControl
