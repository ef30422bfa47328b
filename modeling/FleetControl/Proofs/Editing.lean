import FleetControl.Json.Fields
import FleetControl.Enumeration
import FleetControl.Proofs.Timestamps
import FleetControl.Record.WorkItem

/-!
# Edits that a reader does not see

Members of unknown names may come into an object and members that are null may
go, at any depth. A record reads the same after such an edit: under each of its
names it still finds what was written, or nothing where null was written.
-/
namespace FleetControl

namespace Json

mutual

/-- A value before and after members of unknown names came into its objects and members that
were null went. -/
inductive Edited : Json → Json → Prop
  | same (j : Json) : Edited j j
  | object {ms ns : List (String × Json)} (edits : Edits (ms.map Prod.fst) ms ns) :
      Edited (.object ms) (.object ns)

/-- The members of one object before and after; `own` are the names that it knows. -/
inductive Edits : List String → List (String × Json) → List (String × Json) → Prop
  | nil (own : List String) : Edits own [] []
  | keep {own : List String} {name : String} {v w : Json} {ms ns : List (String × Json)}
      (value : Edited v w) (others : Edits own ms ns) :
      Edits own ((name, v) :: ms) ((name, w) :: ns)
  | drop {own : List String} {name : String} {ms ns : List (String × Json)}
      (others : Edits own ms ns) : Edits own ((name, .null) :: ms) ns
  | add {own : List String} {name : String} {v : Json} {ms ns : List (String × Json)}
      (unknown : name ∉ own) (others : Edits own ms ns) : Edits own ms ((name, v) :: ns)

end

theorem Edits.refl (own : List String) (ms : List (String × Json)) : Edits own ms ms := by
  induction ms with
  | nil => exact .nil own
  | cons m ms ih => exact .keep (.same m.2) ih

/-- An edit of an object is an edit of its members. -/
theorem Edited.exists_edits {ms : List (String × Json)} {j : Json} (h : Edited (.object ms) j) :
    ∃ ns, j = .object ns ∧ Edits (ms.map Prod.fst) ms ns := by
  cases h with
  | same => exact ⟨ms, rfl, Edits.refl _ ms⟩
  | object edits => exact ⟨_, rfl, edits⟩

/-- What stands under a name after an edit of the value written there. -/
inductive Shown (v : Json) : Option Json → Prop
  | kept {w : Json} (value : Edited v w) : Shown v (some w)
  | gone (isNull : v = .null) : Shown v none

/-- An edit brings in no member of a known name. -/
theorem Edits.absent {own : List String} {name : String} (hown : name ∈ own) :
    {ms ns : List (String × Json)} → Edits own ms ns → name ∉ ms.map Prod.fst →
      member? name ns = none
  | _, _, .nil _, _ => rfl
  | (n, _) :: _, _, .keep _ others, h => by
      simp only [List.map_cons, List.mem_cons, not_or] at h
      rw [member?_cons, if_neg h.1]
      exact absent hown others h.2
  | _ :: _, _, .drop others, h => by
      simp only [List.map_cons, List.mem_cons, not_or] at h
      exact absent hown others h.2
  | _, (n, _) :: _, .add unknown others, h => by
      have hne : name ≠ n := fun he => unknown (he ▸ hown)
      rw [member?_cons, if_neg hne]
      exact absent hown others h

/-- Each member that was written shows under its name. -/
theorem Edits.shown {own : List String} :
    {ms ns : List (String × Json)} → Edits own ms ns → ms.map Prod.fst ⊆ own →
      (ms.map Prod.fst).Nodup → ∀ m ∈ ms, Shown m.2 (member? m.1 ns)
  | _, _, .nil _, _, _ => by simp
  | (name, v) :: ms, _, .keep (w := w) value others, hown, hnodup => by
      simp only [List.map_cons, List.nodup_cons] at hnodup
      have hrest := shown others (List.subset_of_cons_subset hown) hnodup.2
      rintro m hm
      rcases List.mem_cons.mp hm with rfl | hm
      · rw [member?_cons, if_pos rfl]
        exact .kept value
      · have hne : m.1 ≠ name := fun he => hnodup.1 (he ▸ List.mem_map_of_mem hm)
        rw [member?_cons, if_neg hne]
        exact hrest m hm
  | (name, _) :: ms, _, .drop others, hown, hnodup => by
      simp only [List.map_cons, List.nodup_cons] at hnodup
      rintro m hm
      rcases List.mem_cons.mp hm with rfl | hm
      · rw [Edits.absent (hown List.mem_cons_self) others hnodup.1]
        exact .gone rfl
      · exact shown others (List.subset_of_cons_subset hown) hnodup.2 m hm
  | ms, (name, _) :: _, .add unknown others, hown, hnodup => by
      rintro m hm
      have hne : m.1 ≠ name := fun he => unknown (he ▸ hown (List.mem_map_of_mem hm))
      rw [member?_cons, if_neg hne]
      exact shown others hown hnodup m hm

/-- A value that is not null and is read as `a`, also after an edit. -/
structure ReadsAs {α : Type} (read : Json → Option α) (v : Json) (a : α) : Prop where
  ne_null : v ≠ .null
  read_edited : ∀ w, Edited v w → read w = some a

theorem Edited.ne_null {v w : Json} (h : Edited v w) (hv : v ≠ .null) : w ≠ .null := by
  cases h with
  | same => exact hv
  | object => nofun

namespace Shown

variable {α : Type} {f : Fields} {name : String} {read : Json → Option α} {v : Json} {a : α}

theorem required (h : Shown v (f name)) (hread : ReadsAs read v a) :
    f.required name read = some a := by
  rw [Fields.required]
  cases hf : f name with
  | none =>
      rw [hf] at h
      cases h with
      | gone isNull => exact absurd isNull hread.ne_null
  | some w =>
      rw [hf] at h
      cases h with
      | kept value => exact hread.read_edited w value

theorem defaulting (h : Shown v (f name)) (hread : ReadsAs read v a) (value : α) :
    f.defaulting name value read = some a := by
  have hrequired := h.required hread
  rw [Fields.required] at hrequired
  rw [Fields.defaulting]
  cases hf : f name with
  | none =>
      rw [hf] at hrequired
      cases hrequired
  | some w => simpa [hf] using hrequired

/-- Nothing is written as null, and null is as good as nothing. -/
theorem optional {write : α → Json} {o : Option α} (h : Shown (ofOption write o) (f name))
    (hread : ∀ a ∈ o, ReadsAs read (write a) a) : f.optional name read = some o := by
  rw [Fields.optional]
  generalize f name = shown at h
  cases o with
  | none =>
      cases h with
      | kept value =>
          cases value
          rfl
      | gone => rfl
  | some a =>
      have hvalue := hread a rfl
      cases h with
      | gone isNull => exact absurd isNull hvalue.ne_null
      | @kept w value =>
          have hne := value.ne_null hvalue.ne_null
          have hsome := hvalue.read_edited w value
          cases w <;> simp_all [optional?]

end Shown

/-- A value that is no object stays as it is. -/
theorem readsAs_of_eq {α : Type} {read : Json → Option α} {v : Json} {a : α}
    (hnull : v ≠ .null) (hobject : ∀ ms, v ≠ .object ms) (h : read v = some a) :
    ReadsAs read v a := by
  refine ⟨hnull, fun w he => ?_⟩
  cases he with
  | same => exact h
  | @object ms => exact absurd rfl (hobject ms)

theorem readsAs_text (s : String) : ReadsAs text? (.string s) s :=
  readsAs_of_eq nofun nofun rfl

theorem readsAs_bool (b : Bool) : ReadsAs bool? (.bool b) b :=
  readsAs_of_eq nofun nofun rfl

theorem readsAs_natBelow {bound n : Nat} (h : n < bound) : ReadsAs (natBelow? bound) (ofNat n) n :=
  readsAs_of_eq nofun nofun (by simp [natBelow?, ofNat, h])

theorem readsAs_nat64 {n : Nat} (h : n < 2 ^ 64) : ReadsAs nat64? (ofNat n) n := readsAs_natBelow h

theorem readsAs_nat32 {n : Nat} (h : n < 2 ^ 32) : ReadsAs nat32? (ofNat n) n := readsAs_natBelow h

theorem readsAs_enumeration {α : Type} [Enumeration α] (a : α) :
    ReadsAs Enumeration.ofJson? (Enumeration.toJson a) a :=
  readsAs_of_eq nofun nofun (Enumeration.ofJson?_toJson a)

/-- Within a flattened header too. -/
theorem readsAs_ofMember {α : Type} [Enumeration α] (a : α) :
    ReadsAs Enumeration.ofMember? (Enumeration.toJson a) a :=
  readsAs_of_eq nofun nofun (Enumeration.ofJson?_toJson a)

theorem readsAs_instant {t : Instant} (h : Timestamp.IsWritable t) :
    ReadsAs Instant.ofJson? t.toJson t :=
  readsAs_of_eq nofun nofun (Timestamp.parse?_render h)

theorem readsAs_texts (xs : List String) : ReadsAs (list? text?) (ofTexts xs) xs := by
  refine readsAs_of_eq nofun nofun ?_
  rw [ofTexts, list?]
  induction xs with
  | nil => rfl
  | cons x xs ih => simp [text?, ih]

/-- An increasing list makes up the set that it lists. -/
theorem ofList_toList (s : IdSet) : IdSet.ofList s.toList = s := by
  ext a
  simp

theorem readsAs_idSet (s : IdSet) : ReadsAs IdSet.ofJson? s.toJson s := by
  refine readsAs_of_eq nofun nofun ?_
  rw [IdSet.ofJson?, IdSet.toJson, (readsAs_texts s.toList).read_edited _ (.same _)]
  exact congrArg some (ofList_toList s)

/-- A record reads the same after an edit if its reader asks for no more than what shows under
the names that were written. -/
theorem readsAs_object {α : Type} {view : Json → Option Fields} {read : Fields → Option α} {a : α}
    {ms : List (String × Json)} (hnodup : (ms.map Prod.fst).Nodup)
    (hview : ∀ ns, view (.object ns) = some fun name => member? name ns)
    (h : ∀ f : Fields, (∀ m ∈ ms, Shown m.2 (f m.1)) → read f = some a) :
    ReadsAs (fun j => (view j).bind read) (.object ms) a := by
  refine ⟨nofun, fun w he => ?_⟩
  obtain ⟨ns, rfl, hedits⟩ := he.exists_edits
  rw [hview]
  exact h _ (hedits.shown (List.Subset.refl _) hnodup)

end Json

end FleetControl
