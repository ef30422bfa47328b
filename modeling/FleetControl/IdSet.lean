/-!
# Sorted sets of identifiers

Identifiers are strings, ordered by code point. A set is kept as its strictly
increasing list, so two sets with the same members are the same value and the
list can be handed out as it stands.
-/
namespace FleetControl

/-- Insert into an increasing list, leaving the list alone if the value is there. -/
def insertSorted (x : String) : List String → List String
  | [] => [x]
  | y :: ys =>
      if x < y then x :: y :: ys else if x = y then y :: ys else y :: insertSorted x ys

@[simp] theorem mem_insertSorted {a x : String} {xs : List String} :
    a ∈ insertSorted x xs ↔ a = x ∨ a ∈ xs := by
  induction xs with
  | nil => simp [insertSorted]
  | cons y ys ih =>
      simp only [insertSorted]
      split
      · simp
      · split
        · rename_i h; subst h; simp
        · simp only [List.mem_cons, ih]; grind

/-- Two strings of which neither is the smaller are equal. -/
theorem lt_of_not_lt_of_ne {x y : String} (h : ¬x < y) (hne : x ≠ y) : y < x := by
  rcases Std.lt_trichotomy x y with h' | h' | h'
  · exact absurd h' h
  · exact absurd h' hne
  · exact h'

theorem insertSorted_sorted (x : String) {xs : List String} (h : xs.Pairwise (· < ·)) :
    (insertSorted x xs).Pairwise (· < ·) := by
  induction xs with
  | nil => simp [insertSorted]
  | cons y ys ih =>
      obtain ⟨hy, hys⟩ := List.pairwise_cons.mp h
      simp only [insertSorted]
      split
      · rename_i hxy
        refine List.pairwise_cons.mpr ⟨fun a ha => ?_, h⟩
        rcases List.mem_cons.mp ha with rfl | ha
        · exact hxy
        · exact String.lt_trans hxy (hy a ha)
      · rename_i hxy
        split
        · exact h
        · rename_i hne
          refine List.pairwise_cons.mpr ⟨fun a ha => ?_, ih hys⟩
          rcases mem_insertSorted.mp ha with rfl | ha
          · exact lt_of_not_lt_of_ne hxy hne
          · exact hy a ha

/-- A finite set of identifiers with its increasing list. -/
structure IdSet where
  toList : List String
  sorted : toList.Pairwise (· < ·)
  deriving DecidableEq

namespace IdSet

def empty : IdSet := ⟨[], List.Pairwise.nil⟩

instance : Inhabited IdSet := ⟨empty⟩

instance : Membership String IdSet := ⟨fun s a => a ∈ s.toList⟩

instance (a : String) (s : IdSet) : Decidable (a ∈ s) := inferInstanceAs (Decidable (a ∈ s.toList))

@[simp] theorem mem_toList {s : IdSet} {a : String} : a ∈ s.toList ↔ a ∈ s := Iff.rfl

@[simp] theorem toList_empty : empty.toList = [] := rfl

@[simp] theorem not_mem_empty (a : String) : a ∉ empty := by
  simp [← mem_toList]

def size (s : IdSet) : Nat := s.toList.length

def isEmpty (s : IdSet) : Bool := s.toList.isEmpty

def insert (s : IdSet) (a : String) : IdSet :=
  ⟨insertSorted a s.toList, insertSorted_sorted a s.sorted⟩

@[simp] theorem mem_insert {s : IdSet} {a b : String} : b ∈ s.insert a ↔ b = a ∨ b ∈ s :=
  mem_insertSorted

/-- Add every member of a list. -/
def insertAll (s : IdSet) (ids : List String) : IdSet := ids.foldl insert s

@[simp] theorem mem_insertAll {s : IdSet} {ids : List String} {a : String} :
    a ∈ s.insertAll ids ↔ a ∈ ids ∨ a ∈ s := by
  induction ids generalizing s with
  | nil => simp [insertAll]
  | cons b ids ih =>
      have := ih (s := s.insert b)
      simp only [insertAll, List.foldl_cons] at this ⊢
      rw [this]; simp [or_comm, or_assoc, or_left_comm]

def ofList (ids : List String) : IdSet := empty.insertAll ids

@[simp] theorem mem_ofList {ids : List String} {a : String} : a ∈ ofList ids ↔ a ∈ ids := by
  simp [ofList]

/-- The members that pass a test. -/
def filter (s : IdSet) (p : String → Bool) : IdSet :=
  ⟨s.toList.filter p, s.sorted.filter p⟩

@[simp] theorem mem_filter {s : IdSet} {p : String → Bool} {a : String} :
    a ∈ s.filter p ↔ a ∈ s ∧ p a = true := List.mem_filter

def erase (s : IdSet) (a : String) : IdSet := s.filter (fun b => b != a)

@[simp] theorem mem_erase {s : IdSet} {a b : String} : b ∈ s.erase a ↔ b ∈ s ∧ b ≠ a := by
  simp [erase]

/-- Remove every member of a list. -/
def eraseAll (s : IdSet) (ids : List String) : IdSet := s.filter (fun b => !ids.contains b)

@[simp] theorem mem_eraseAll {s : IdSet} {ids : List String} {a : String} :
    a ∈ s.eraseAll ids ↔ a ∈ s ∧ a ∉ ids := by
  simp [eraseAll]

/-- The members that another set lacks. -/
def difference (s t : IdSet) : IdSet := s.filter (fun b => !t.toList.contains b)

@[simp] theorem mem_difference {s t : IdSet} {a : String} :
    a ∈ s.difference t ↔ a ∈ s ∧ a ∉ t := by
  simp [difference]

/-- An increasing list has each member once. -/
theorem nodup (s : IdSet) : s.toList.Nodup := by
  refine List.Pairwise.imp ?_ s.sorted
  rintro a _ h rfl
  exact String.lt_irrefl a h

/-- Sets with the same members are equal. -/
@[ext] theorem ext {s t : IdSet} (h : ∀ a, a ∈ s ↔ a ∈ t) : s = t := by
  have hp : s.toList.Perm t.toList := (List.perm_ext_iff_of_nodup s.nodup t.nodup).mpr h
  have he : s.toList = t.toList := hp.eq_of_pairwise
    (fun a b _ _ hab hba => absurd (String.lt_trans hab hba) (String.lt_irrefl a)) s.sorted t.sorted
  cases s; cases t; cases he; rfl

theorem toList_eq_nil {s : IdSet} : s.toList = [] ↔ s = empty :=
  ⟨fun h => ext fun a => by simp [← mem_toList, h], fun h => h ▸ rfl⟩

theorem isEmpty_iff {s : IdSet} : s.isEmpty = true ↔ s = empty :=
  List.isEmpty_iff.trans toList_eq_nil

@[simp] theorem eraseAll_nil (s : IdSet) : s.eraseAll [] = s := by
  ext a
  simp

end IdSet

end FleetControl
