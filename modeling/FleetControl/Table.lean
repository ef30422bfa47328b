/-!
# Keyed tables

A table is a list of entries with strictly increasing string keys, so every
listing of a table is in key order and equal tables are equal values. `get?`
is the view through which the operations are stated.
-/
namespace FleetControl

/-- Entries in increasing key order, each key once. -/
structure Table (α : Type) where
  entries : List (String × α)
  sorted : entries.Pairwise (fun a b => a.1 < b.1)

namespace Table

variable {α β : Type}

def empty : Table α := ⟨[], List.Pairwise.nil⟩

instance : Inhabited (Table α) := ⟨empty⟩

/-- The value of the first entry with the given key. -/
def lookup (k : String) : List (String × α) → Option α
  | [] => none
  | (k', a) :: es => if k = k' then some a else lookup k es

def get? (t : Table α) (k : String) : Option α := lookup k t.entries

def contains (t : Table α) (k : String) : Bool := (t.get? k).isSome

def keys (t : Table α) : List String := t.entries.map Prod.fst

def values (t : Table α) : List α := t.entries.map Prod.snd

def isEmpty (t : Table α) : Bool := t.entries.isEmpty

/-- Put an entry in its place, replacing one with the same key. -/
def insertEntry (k : String) (a : α) : List (String × α) → List (String × α)
  | [] => [(k, a)]
  | (k', a') :: es =>
      if k < k' then (k, a) :: (k', a') :: es
      else if k = k' then (k, a) :: es
      else (k', a') :: insertEntry k a es

theorem mem_insertEntry {k : String} {a : α} {e : String × α} {es : List (String × α)}
    (h : e ∈ insertEntry k a es) : e = (k, a) ∨ e ∈ es := by
  induction es with
  | nil => simpa [insertEntry] using h
  | cons b es ih =>
      simp only [insertEntry] at h
      split at h
      · simpa using h
      · split at h
        · rcases List.mem_cons.mp h with h | h
          · exact Or.inl h
          · exact Or.inr (List.mem_cons_of_mem _ h)
        · rcases List.mem_cons.mp h with h | h
          · exact Or.inr (h ▸ List.mem_cons_self)
          · exact (ih h).imp id (List.mem_cons_of_mem _)

theorem insertEntry_sorted (k : String) (a : α) {es : List (String × α)}
    (h : es.Pairwise (fun a b => a.1 < b.1)) :
    (insertEntry k a es).Pairwise (fun a b => a.1 < b.1) := by
  induction es with
  | nil => simp [insertEntry]
  | cons b es ih =>
      obtain ⟨hb, hes⟩ := List.pairwise_cons.mp h
      simp only [insertEntry]
      split
      · rename_i hk
        refine List.pairwise_cons.mpr ⟨fun e he => ?_, h⟩
        rcases List.mem_cons.mp he with rfl | he
        · exact hk
        · exact String.lt_trans hk (hb e he)
      · rename_i hk
        split
        · rename_i he
          exact List.pairwise_cons.mpr ⟨fun e h' => by simpa [he] using hb e h', hes⟩
        · rename_i hne
          refine List.pairwise_cons.mpr ⟨fun e he => ?_, ih hes⟩
          rcases mem_insertEntry he with rfl | he
          · rcases Std.lt_trichotomy k b.1 with h' | h' | h'
            · exact absurd h' hk
            · exact absurd h' hne
            · exact h'
          · exact hb e he

def insert (t : Table α) (k : String) (a : α) : Table α :=
  ⟨insertEntry k a t.entries, insertEntry_sorted k a t.sorted⟩

/-- The entries that pass a test. -/
def filter (t : Table α) (p : String → α → Bool) : Table α :=
  ⟨t.entries.filter (fun e => p e.1 e.2), t.sorted.filter _⟩

def erase (t : Table α) (k : String) : Table α := t.filter (fun k' _ => k' != k)

/-- Change every value, looking at its key. -/
def mapWithKey (t : Table α) (f : String → α → β) : Table β :=
  ⟨t.entries.map (fun e => (e.1, f e.1 e.2)), by
    exact List.pairwise_map.mpr (t.sorted.imp fun h => h)⟩

/-- Change the value under one key, if there is one. -/
def modify (t : Table α) (k : String) (f : α → α) : Table α :=
  t.mapWithKey (fun k' a => if k' = k then f a else a)

def ofList (es : List (String × α)) : Table α := es.foldl (fun t e => t.insert e.1 e.2) empty

@[simp] theorem get?_empty (k : String) : (empty : Table α).get? k = none := rfl

theorem lookup_insertEntry (k k' : String) (a : α) (es : List (String × α)) :
    lookup k' (insertEntry k a es) = if k' = k then some a else lookup k' es := by
  induction es with
  | nil => rfl
  | cons b es ih =>
      obtain ⟨kb, ab⟩ := b
      simp only [insertEntry]
      split
      · simp [lookup]
      · split
        · rename_i he
          subst he
          by_cases h : k' = k <;> simp [lookup, h]
        · rename_i hne
          by_cases h : k' = kb
          · subst h; simp [lookup, Ne.symm hne]
          · simp [lookup, h, ih]

theorem get?_insert (t : Table α) (k k' : String) (a : α) :
    (t.insert k a).get? k' = if k' = k then some a else t.get? k' :=
  lookup_insertEntry k k' a t.entries

@[simp] theorem get?_insert_self (t : Table α) (k : String) (a : α) :
    (t.insert k a).get? k = some a := by simp [get?_insert]

theorem get?_insert_of_ne (t : Table α) {k k' : String} (a : α) (h : k' ≠ k) :
    (t.insert k a).get? k' = t.get? k' := by simp [get?_insert, h]

/-- A key of an increasing list is looked up at its own entry. -/
theorem lookup_eq_some_iff {es : List (String × α)} (h : es.Pairwise (fun a b => a.1 < b.1))
    {k : String} {a : α} : lookup k es = some a ↔ (k, a) ∈ es := by
  induction es with
  | nil => simp [lookup]
  | cons b es ih =>
      obtain ⟨kb, ab⟩ := b
      obtain ⟨hb, hes⟩ := List.pairwise_cons.mp h
      by_cases hk : k = kb
      · subst hk
        simp only [lookup, if_true, Option.some.injEq, List.mem_cons, Prod.mk.injEq, true_and]
        exact ⟨fun e => Or.inl e.symm, fun h' => h'.elim Eq.symm
          (fun h' => absurd (hb _ h') (String.lt_irrefl _))⟩
      · simp [lookup, hk, ih hes]

theorem get?_eq_some_iff {t : Table α} {k : String} {a : α} :
    t.get? k = some a ↔ (k, a) ∈ t.entries := lookup_eq_some_iff t.sorted

theorem mem_keys_iff {t : Table α} {k : String} : k ∈ t.keys ↔ (t.get? k).isSome := by
  simp only [keys, List.mem_map, Option.isSome_iff_exists, get?_eq_some_iff]
  exact ⟨fun ⟨⟨_, a⟩, h, e⟩ => ⟨a, e ▸ h⟩, fun ⟨a, h⟩ => ⟨(k, a), h, rfl⟩⟩

theorem mem_values_iff {t : Table α} {a : α} : a ∈ t.values ↔ ∃ k, t.get? k = some a := by
  simp only [values, List.mem_map, get?_eq_some_iff]
  exact ⟨fun ⟨⟨k, _⟩, h, e⟩ => ⟨k, e ▸ h⟩, fun ⟨k, h⟩ => ⟨(k, a), h, rfl⟩⟩

theorem sorted_keys (t : Table α) : t.keys.Pairwise (· < ·) :=
  List.pairwise_map.mpr (t.sorted.imp fun h => h)

theorem get?_filter (t : Table α) (p : String → α → Bool) (k : String) :
    (t.filter p).get? k = (t.get? k).filter (p k) := by
  apply Option.ext
  intro a
  rw [get?_eq_some_iff, Option.filter_eq_some_iff, get?_eq_some_iff]
  simp [filter, List.mem_filter]

theorem get?_erase (t : Table α) (k k' : String) :
    (t.erase k).get? k' = if k' = k then none else t.get? k' := by
  rw [erase, get?_filter]
  by_cases h : k' = k <;> cases ht : t.get? k' <;> simp [h, Option.filter]

@[simp] theorem get?_erase_self (t : Table α) (k : String) : (t.erase k).get? k = none := by
  simp [get?_erase]

theorem get?_mapWithKey (t : Table α) (f : String → α → β) (k : String) :
    (t.mapWithKey f).get? k = (t.get? k).map (f k) := by
  simp only [mapWithKey, get?]
  induction t.entries with
  | nil => rfl
  | cons b es ih => by_cases h : k = b.1 <;> simp [lookup, h, ih]

theorem get?_modify (t : Table α) (k k' : String) (f : α → α) :
    (t.modify k f).get? k' = if k' = k then (t.get? k').map f else t.get? k' := by
  rw [modify, get?_mapWithKey]
  by_cases h : k' = k <;> cases t.get? k' <;> simp [h]

theorem nodup_entries (t : Table α) : t.entries.Nodup := by
  refine List.Pairwise.imp ?_ t.sorted
  rintro a _ h rfl
  exact String.lt_irrefl a.1 h

/-- Tables that answer alike are equal. -/
theorem ext_get? {t u : Table α} (h : ∀ k, t.get? k = u.get? k) : t = u := by
  have hp : t.entries.Perm u.entries :=
    (List.perm_ext_iff_of_nodup t.nodup_entries u.nodup_entries).mpr fun ⟨k, a⟩ => by
      rw [← get?_eq_some_iff, ← get?_eq_some_iff, h k]
  have he : t.entries = u.entries := hp.eq_of_pairwise
    (fun a b _ _ hab hba => absurd (String.lt_trans hab hba) (String.lt_irrefl a.1))
    t.sorted u.sorted
  cases t; cases u; cases he; rfl

end Table

end FleetControl
