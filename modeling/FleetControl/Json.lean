/-!
# JSON values

The value type of the persisted records and of the service's messages. A whole
number in plain digits is `int`; every other number keeps the text it was
written with. `get?` is the view of an object: the value under a name.
-/
namespace FleetControl

inductive Json where
  | null
  | bool (value : Bool)
  | int (value : Int)
  | real (text : String)
  | string (value : String)
  | array (items : List Json)
  | object (members : List (String × Json))
  deriving Inhabited, Repr, BEq

namespace Json

/-- The value of the first member with a name. -/
def member? (name : String) : List (String × Json) → Option Json
  | [] => none
  | (n, v) :: ms => if name = n then some v else member? name ms

@[simp] theorem member?_nil (name : String) : member? name [] = none := rfl

theorem member?_cons (name n : String) (v : Json) (ms : List (String × Json)) :
    member? name ((n, v) :: ms) = if name = n then some v else member? name ms := rfl

theorem member?_append (name : String) (ms ns : List (String × Json)) :
    member? name (ms ++ ns) = (member? name ms).or (member? name ns) := by
  induction ms with
  | nil => rfl
  | cons m ms ih =>
      obtain ⟨n, v⟩ := m
      by_cases h : name = n <;> simp [member?_cons, h, ih]

/-- The value under a name; `none` for what is not an object. -/
def get? (j : Json) (name : String) : Option Json :=
  match j with
  | object ms => member? name ms
  | _ => none

/-- Put a member in place of the one of its name, or at the end. -/
def setMember (name : String) (v : Json) : List (String × Json) → List (String × Json)
  | [] => [(name, v)]
  | (n, w) :: ms => if name = n then (n, v) :: ms else (n, w) :: setMember name v ms

theorem member?_setMember (name n : String) (v : Json) (ms : List (String × Json)) :
    member? n (setMember name v ms) = if n = name then some v else member? n ms := by
  induction ms with
  | nil => rfl
  | cons m ms ih =>
      obtain ⟨k, w⟩ := m
      simp only [setMember]
      split
      · rename_i h; subst h; by_cases hn : n = name <;> simp [member?_cons, hn]
      · rename_i h
        by_cases hn : n = k
        · subst hn; simp [member?_cons, Ne.symm h]
        · simp [member?_cons, hn, ih]

def text? : Json → Option String
  | string s => some s
  | _ => none

def bool? : Json → Option Bool
  | bool b => some b
  | _ => none

/-- A whole number from 0 to below a bound. -/
def natBelow? (bound : Nat) : Json → Option Nat
  | int i => if 0 ≤ i ∧ i.toNat < bound then some i.toNat else none
  | _ => none

/-- An unsigned number of 64 bits. -/
def nat64? : Json → Option Nat := natBelow? 0x10000000000000000

/-- An unsigned number of 32 bits. -/
def nat32? : Json → Option Nat := natBelow? 0x100000000

/-- A signed number of 64 bits. -/
def int64? : Json → Option Int
  | int i => if -0x8000000000000000 ≤ i ∧ i < 0x8000000000000000 then some i else none
  | _ => none

/-- An array whose items all read. -/
def list? {α : Type} (read : Json → Option α) : Json → Option (List α)
  | array xs => xs.mapM read
  | _ => none

/-- A value that may be absent or null. -/
def optional? {α : Type} (read : Json → Option α) : Option Json → Option (Option α)
  | none | some null => some none
  | some j => (read j).map some

def ofNat (n : Nat) : Json := int n

def ofOption {α : Type} (write : α → Json) : Option α → Json
  | none => null
  | some a => write a

def ofTexts (xs : List String) : Json := array (xs.map string)

end Json

end FleetControl
