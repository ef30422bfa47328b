import FleetControl.Json

/-!
# Settings values

What a settings file or a variable can say about a setting. Groups lie over one
another in layers: where two groups meet their members are put together, and
everywhere else the upper layer stands.
-/
namespace FleetControl

inductive Setting where
  | text (value : String)
  /-- A single character between apostrophes. -/
  | letter (value : Char)
  | flag (value : Bool)
  /-- A whole number that cannot be negative. -/
  | natural (value : Nat)
  | integer (value : Int)
  /-- A number with a point or an exponent; no setting takes it. -/
  | real
  | list (items : List Setting)
  | group (members : List (String × Setting))
  deriving Inhabited, Repr

namespace Setting

/-- Put a member in place of the one of its name, or at the end. -/
def putMember {α : Type} (name : String) (v : α) : List (String × α) → List (String × α)
  | [] => [(name, v)]
  | (n, w) :: ms => if name = n then (n, v) :: ms else (n, w) :: putMember name v ms

theorem lookup_putMember {α : Type} (name n : String) (v : α) (ms : List (String × α)) :
    (putMember name v ms).lookup n = if n = name then some v else ms.lookup n := by
  induction ms with
  | nil => by_cases h : n = name <;> simp [putMember, List.lookup_cons, beq_false_of_ne, h]
  | cons m ms ih =>
      obtain ⟨k, w⟩ := m
      by_cases hk : name = k
      · subst hk
        by_cases h : n = name <;> simp [putMember, List.lookup_cons, beq_false_of_ne, h]
      · by_cases h : n = k
        · subst h
          simp [putMember, hk, Ne.symm hk]
        · simp [putMember, List.lookup_cons, hk, beq_false_of_ne h, ih]

mutual

/-- A setting under another one. -/
def under (lower : Setting) : (upper : Setting) → Setting
  | group upper =>
      match lower with
      | group lower => group (underMembers lower upper)
      | _ => group upper
  | upper => upper

/-- The members of a group under those of another one. -/
def underMembers (lower : List (String × Setting)) :
    (upper : List (String × Setting)) → List (String × Setting)
  | [] => lower
  | (name, v) :: upper =>
      let merged := match lower.lookup name with
        | some w => under w v
        | none => v
      underMembers (putMember name merged lower) upper

end

/-- A setting at the end of a path of names. -/
def nested (path : List String) (v : Setting) : Setting :=
  path.foldr (fun name inner => group [(name, inner)]) v

mutual

/-- The value that a reader of settings sees. -/
def toJson : Setting → Json
  | text s => .string s
  | letter c => .string (String.singleton c)
  | flag b => .bool b
  | natural n => .int n
  | integer i => .int i
  | real => .real ""
  | list items => .array (itemsToJson items)
  | group members => .object (membersToJson members)

def itemsToJson : List Setting → List Json
  | [] => []
  | v :: vs => v.toJson :: itemsToJson vs

def membersToJson : List (String × Setting) → List (String × Json)
  | [] => []
  | (name, v) :: ms => (name, v.toJson) :: membersToJson ms

end

end Setting

end FleetControl
