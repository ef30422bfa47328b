import FleetControl.Table

/-!
# Advisory locks

A lock is a name that at most one holder has. Taking a free name issues a fresh
token; only that token gives the name back. Nothing ever waits: a name that is
held is refused at once.
-/
namespace FleetControl

/-- What a release presents as proof of holding. -/
inductive Token where
  /-- The token that the table issued with this number. -/
  | issued (number : Nat)
  /-- A text that no table issued. -/
  | foreign (text : String)
  deriving DecidableEq, Repr

/-- The held names with their tokens, and how many tokens were ever issued. -/
structure LockTable where
  held : Table Token
  issued : Nat

namespace LockTable

def empty : LockTable := ⟨.empty, 0⟩

instance : Inhabited LockTable := ⟨empty⟩

def isHeld (t : LockTable) (name : String) : Bool := t.held.contains name

def holder? (t : LockTable) (name : String) : Option Token := t.held.get? name

/-- Take a name if it is free. -/
def acquire (t : LockTable) (name : String) : Option Token × LockTable :=
  match t.held.get? name with
  | some _ => (none, t)
  | none => (some (.issued t.issued), ⟨t.held.insert name (.issued t.issued), t.issued + 1⟩)

/-- Give a name back. A free name needs nothing; `none` means that another
token holds it. -/
def release? (t : LockTable) (name : String) (token : Token) : Option LockTable :=
  match t.held.get? name with
  | none => some t
  | some holder => if holder = token then some { t with held := t.held.erase name } else none

/-- Take names one after the other, each with the token it got. -/
def acquireAll (t : LockTable) : List String → List (String × Option Token) × LockTable
  | [] => ([], t)
  | name :: names =>
      let (token, t) := t.acquire name
      let (rest, t) := t.acquireAll names
      ((name, token) :: rest, t)

theorem acquire_of_held {t : LockTable} {name : String} {holder : Token}
    (h : t.holder? name = some holder) : t.acquire name = (none, t) := by
  simp only [holder?] at h
  simp [acquire, h]

theorem acquire_of_free {t : LockTable} {name : String} (h : t.holder? name = none) :
    t.acquire name
      = (some (.issued t.issued), ⟨t.held.insert name (.issued t.issued), t.issued + 1⟩) := by
  simp only [holder?] at h
  simp [acquire, h]

theorem isHeld_iff {t : LockTable} {name : String} :
    t.isHeld name = true ↔ ∃ holder, t.holder? name = some holder := by
  simp [isHeld, holder?, Table.contains, Option.isSome_iff_exists]

/-- Taking a name needs it free and issues the next token for it. -/
theorem eq_of_taken {t t' : LockTable} {name : String} {token : Token}
    (h : t.acquire name = (some token, t')) :
    t.holder? name = none ∧ token = .issued t.issued ∧
      t' = ⟨t.held.insert name token, t.issued + 1⟩ := by
  cases hf : t.holder? name with
  | some holder =>
      rw [acquire_of_held hf] at h
      cases h
  | none =>
      rw [acquire_of_free hf] at h
      cases h
      exact ⟨rfl, rfl, rfl⟩

/-- Trying for one name leaves the others as they are. -/
theorem holder?_acquire_of_ne (t : LockTable) {name n : String} (h : n ≠ name) :
    (t.acquire name).2.holder? n = t.holder? n := by
  cases hf : t.holder? name with
  | some holder => rw [acquire_of_held hf]
  | none =>
      rw [acquire_of_free hf]
      exact Table.get?_insert_of_ne _ _ h

/-- A name that was refused is held, and nothing has changed. -/
theorem held_of_refused {t t' : LockTable} {name : String} (h : t.acquire name = (none, t')) :
    t.isHeld name = true ∧ t' = t := by
  cases hf : t.holder? name with
  | none =>
      rw [acquire_of_free hf] at h
      cases h
  | some holder =>
      rw [acquire_of_held hf] at h
      cases h
      exact ⟨isHeld_iff.mpr ⟨holder, hf⟩, rfl⟩

/-- Only the holder's token frees a name, and no other name changes. -/
theorem holder?_release? {t t' : LockTable} {name : String} {token : Token}
    (h : t.release? name token = some t') (n : String) :
    t'.holder? n = if n = name then none else t.holder? n := by
  simp only [release?] at h
  split at h
  · rename_i hf
    cases h
    by_cases hn : n = name <;> simp [holder?, hn, hf]
  · split at h
    · cases h
      simp [holder?, Table.get?_erase]
    · cases h

theorem release?_eq_none_iff {t : LockTable} {name : String} {token : Token} :
    t.release? name token = none ↔ ∃ holder, t.holder? name = some holder ∧ holder ≠ token := by
  simp only [release?, holder?]
  split
  · rename_i hf; simp [hf]
  · rename_i holder hf
    by_cases hh : holder = token <;> simp [hf, hh]

end LockTable

end FleetControl
