import FleetControl.Proofs.Footprint
import FleetControl.Proofs.Keyed
import FleetControl.Proofs.Roster

/-!
# One item that nobody else writes

A worker that alone writes an item sees it change only through its own calls, whatever
else happens to the world. What each call can do to the item, and what it can answer about
it, is a behaviour of the item itself.
-/
namespace FleetControl

/-- Whether a call neither asks for a single item of a kind nor replaces one. -/
def Call.spares (k : ItemKind) : Call → Bool
  | .store (.getItem k' _) | .store (.updateItem k' _) => k' ≠ k
  | _ => true

/-- Whatever item a call stores has a property. -/
def Call.Stores {k : ItemKind} (D : Item k → Prop) (c : Call) : Prop :=
  ∀ y, c = .store (.updateItem k y) → D y

/-- What may happen to the item with an id that nobody else writes. Calls fail with faults
of `E`, before or after their effect. -/
inductive Item.Possible (k : ItemKind) (id : ItemId) (E : Fault → Prop) :
    Behaviour (Item k) where
  | read {i : Item k} (hi : i.id = id) :
      Possible k id E (.store (.getItem k id)) i (.ok (some i)) i
  | readOther {i : Item k} {j : ItemId} {x : Option (Item k)} (hj : j ≠ id)
      (hx : ∀ y, x = some y → y.id = j) : Possible k id E (.store (.getItem k j)) i (.ok x) i
  | written {i y : Item k} (hy : y.id = id) :
      Possible k id E (.store (.updateItem k y)) i (.ok ()) y
  | writtenOther {i y : Item k} (hy : y.id ≠ id) :
      Possible k id E (.store (.updateItem k y)) i (.ok ()) i
  | spared {i : Item k} {c : Call} {a : c.Reply} (hc : c.spares k = true) :
      Possible k id E c i (.ok a) i
  | failed {i : Item k} {c : Call} {f : Fault} (hf : E f) : Possible k id E c i (.error f) i
  | failedLate {i y : Item k} {f : Fault} (hy : y.id = id) (hf : E f) :
      Possible k id E (.store (.updateItem k y)) i (.error f) y

namespace Item.Possible

open Program

variable {k : ItemKind} {id : ItemId} {E : Fault → Prop} {c : Call} {i i' : Item k}
  {r : Outcome c.Reply}

theorem failsOnly (h : Item.Possible k id E c i r i') : FailsOnly E r := by
  cases h <;> trivial

/-- The item changes only by being stored. -/
theorem eq_or_stored (h : Item.Possible k id E c i r i') :
    i' = i ∨ (i'.id = id ∧ c = .store (.updateItem k i')) := by
  cases h with
  | written hy => exact .inr ⟨hy, rfl⟩
  | failedLate hy => exact .inr ⟨hy, rfl⟩
  | _ => exact .inl rfl

/-- What is stored has the property of all that is stored. -/
theorem eq_or_of_stores {D : Item k → Prop} (h : Item.Possible k id E c i r i')
    (hc : c.Stores D) : i' = i ∨ (i'.id = id ∧ D i') := by
  rcases h.eq_or_stored with rfl | ⟨hid, rfl⟩
  · exact .inl rfl
  · exact .inr ⟨hid, hc i' rfl⟩

/-- An effect after which a call fails is one that it can have. -/
theorem failed_after (h : Item.Possible k id E c i r i') {f : Fault} (hf : E f) :
    Item.Possible k id E c i (.error f) i' := by
  rcases h.eq_or_stored with rfl | ⟨hid, rfl⟩
  · exact .failed hf
  · exact .failedLate hid hf

end Item.Possible

namespace Store

variable {k : ItemKind} {id : ItemId} {i : Item k} {s s' : Store}

/-- Items stand under their ids, and one of them is known. -/
def Has (s : Store) (id : ItemId) (i : Item k) : Prop :=
  (s.items k).KeyedBy Item.id ∧ s.getItem k id = some i

theorem Has.id_eq (h : s.Has id i) : i.id = id := h.1 id i h.2

theorem Has.of_items_eq (h : s.Has id i) (he : s'.items k = s.items k) : s'.Has id i := by
  rw [Has, getItem, he]
  exact h

theorem Has.putItem (h : s.Has id i) {k' : ItemKind} {y : Item k'}
    (hy : k' = k → y.id ≠ id) : (s.putItem k' y).Has id i := by
  by_cases hk : k' = k
  · subst hk
    constructor
    · rw [Store.putItem, items_withItems]
      exact h.1.insert y
    · rw [getItem_putItem, if_neg fun he => hy rfl he.symm]
      exact h.2
  · exact h.of_items_eq (items_withItems_of_ne s _ fun he => hk he.symm)

theorem Has.putSame (h : s.Has id i) {y : Item k} (hy : y.id = id) :
    (s.putItem k y).Has id y := by
  constructor
  · rw [Store.putItem, items_withItems]
    exact h.1.insert y
  · rw [getItem_putItem, if_pos hy.symm]

/-- Calls that neither ask for the item nor replace it leave it alone. -/
theorem Has.effect (h : s.Has id i) {clock : Outcome Instant} {c : StoreCall}
    (hc : (Call.store c).spares k = true) (he : Effect s clock c s') : s'.Has id i := by
  cases he with
  | nothing => exact h
  | insertItem hnone =>
      refine h.putItem ?_
      rintro rfl hy
      rw [hy, h.2] at hnone
      cases hnone
  | updateItem => exact h.putItem fun hk => absurd hk (by simpa [Call.spares] using hc)
  | @drainHosts env ids now =>
      obtain ⟨hosts, agents, hd⟩ := s.drainHosts_eq now env ids
      rw [hd]
      exact h.of_items_eq (by cases k <;> rfl)
  | _ => exact h.of_items_eq (by cases k <;> rfl)

/-- What a store makes of a call is possible for the item. -/
theorem Has.possible (h : s.Has id i) (clock : Outcome Instant) (c : StoreCall)
    {E : Fault → Prop} (hE : ∀ f, (s.answer clock c).1 = .error f → E f) :
    ∃ i', (s.answer clock c).2.Has id i' ∧
      Item.Possible k id E (.store c) i (s.answer clock c).1 i' := by
  by_cases hc : (Call.store c).spares k = true
  · refine ⟨i, h.effect hc (s.effect_of_answer clock c), ?_⟩
    cases hr : (s.answer clock c).1 with
    | ok a => exact .spared hc
    | error f => exact .failed (hE f hr)
  · cases c with
    | getItem k' j =>
        obtain rfl : k' = k := by simpa [Call.spares] using hc
        refine ⟨i, h, ?_⟩
        by_cases hj : j = id
        · subst hj
          have hg := h.2
          simp only [Store.answer, hg]
          exact .read h.id_eq
        · exact .readOther hj fun y hy => h.1 j y hy
    | updateItem k' y =>
        obtain rfl : k' = k := by simpa [Call.spares] using hc
        simp only [Store.answer] at hE ⊢
        cases hu : s.updateItem k' y with
        | error e =>
            rw [hu] at hE
            exact ⟨i, h, .failed (hE _ rfl)⟩
        | ok s' =>
            obtain ⟨-, rfl⟩ := Store.updateItem_eq_ok_iff.mp hu
            by_cases hy : y.id = id
            · exact ⟨y, h.putSame hy, .written hy⟩
            · exact ⟨i, h.putItem fun _ => hy, .writtenOther hy⟩
    | _ => exact absurd rfl hc

end Store

/-! ## Faults of the collaborators -/

theorem not_breach_of_mapError {α : Type} {r : Except ControlError α} {f : Fault}
    (hr : ∀ e, r = .error e → (Fault.error e).isBreach = false)
    (h : r.mapError Fault.error = .error f) : f.isBreach = false := by
  cases r with
  | ok a => cases h
  | error e =>
      cases h
      exact hr e rfl

namespace Store

variable {s : Store} {clock : Outcome Instant} {f : Fault}

theorem fault_of_settle {r : Outcome Store} (h : (s.settle r).1 = .error f) : r = .error f := by
  cases r with
  | ok s' => cases h
  | error g =>
      cases h
      rfl

theorem fault_of_map {α β : Type} {r : Outcome α} {g : α → β} (h : r.map g = .error f) :
    r = .error f := by
  cases r with
  | ok a => cases h
  | error e =>
      cases h
      rfl

theorem not_breach_of_changeCluster (hclock : ∀ g, clock = .error g → g.isBreach = false)
    {name : String} {change : Cluster → Cluster}
    (h : s.changeCluster clock name change = .error f) : f.isBreach = false := by
  simp only [changeCluster] at h
  split at h
  · exact hclock f (fault_of_map h)
  · cases h
    rfl

/-- A store never says that an invariant is broken. -/
theorem not_breach_of_answer (hclock : ∀ g, clock = .error g → g.isBreach = false)
    {c : StoreCall} (h : (s.answer clock c).1 = .error f) : f.isBreach = false := by
  cases c with
  | insertItem k y =>
      refine not_breach_of_mapError (fun e he => ?_) (fault_of_settle h)
      rw [insertItem] at he
      split at he <;> cases he
      rfl
  | updateItem k y =>
      refine not_breach_of_mapError (fun e he => ?_) (fault_of_settle h)
      rw [updateItem] at he
      split at he <;> cases he
      rfl
  | setClusterState name state => exact not_breach_of_changeCluster hclock (fault_of_settle h)
  | setClusterImage name image => exact not_breach_of_changeCluster hclock (fault_of_settle h)
  | setHostState ids state => exact hclock f (fault_of_map (fault_of_settle h))
  | drainHosts env ids => exact hclock f (fault_of_map (fault_of_settle h))
  | setPromoteKind env kind =>
      refine not_breach_of_mapError (fun e he => ?_) (fault_of_settle h)
      rw [setPromoteKind] at he
      split at he <;> cases he
      rfl
  | createDeploy d =>
      simp only [Store.answer] at h
      split at h
      · cases h
      · rename_i g hd
        cases h
        simp only [createDeploy] at hd
        split at hd
        · exact hclock f (fault_of_map hd)
        · cases hd
          rfl
  | setConstraintState id state =>
      have hs := fault_of_settle h
      simp only [setConstraintState] at hs
      split at hs
      · exact hclock f (fault_of_map hs)
      · cases hs
        rfl
  | _ => cases h

end Store

theorem Clock.not_breach_of_read {shown : Instant} {f : Fault} (h : Clock.read shown = .error f) :
    f.isBreach = false := by
  simp only [Clock.read] at h
  split at h
  · cases h
    rfl
  · split at h <;> cases h
    rfl

namespace Provider

/-- A provider never says that an invariant is broken. -/
theorem not_breach_of_answer {p : Provider} {c : ProviderCall} {f : Fault}
    (h : (p.answer c).1 = .error f) : f.isBreach = false := by
  cases c with
  | launchHosts cluster count image =>
      simp only [answer, launchHosts] at h
      split at h <;> cases h
      rfl
  | terminateHosts cluster ids drain =>
      refine not_breach_of_mapError (r := (p.terminateHosts cluster ids drain).1) ?_ h
      intro e he
      obtain ⟨id, host, rfl⟩ := exists_refusal_of_terminateHosts he
      rfl
  | _ => cases h

end Provider

namespace World

variable {w w' : World} {c : Call} {f : Fault}

theorem fst_useStore {α : Type} (w : World) (operation : Store → Outcome α × Store) :
    (w.useStore operation).1 = match w.store with
      | none => .error (.error storeLost)
      | some s => (operation s).1 := by
  cases hs : w.store with
  | none => simp only [useStore, hs]
  | some s =>
      simp only [useStore, hs]
      split
      · rename_i payload t he
        rw [he]
      · rename_i r t hn he
        rw [he]

/-- An answer never says that an invariant is broken. -/
theorem not_breach_of_answer (h : (answer c w).1 = .error f) : f.isBreach = false := by
  cases c with
  | now => exact Clock.not_breach_of_read h
  | store c =>
      rw [answer, fst_useStore] at h
      split at h
      · cases h
        rfl
      · exact Store.not_breach_of_answer (fun g => Clock.not_breach_of_read) h
  | provider c => exact Provider.not_breach_of_answer h
  | release name token =>
      simp only [answer, release] at h
      split at h <;> cases h
      rfl
  | acquire | shuffle | post | note => cases h

/-! ## The item in the world -/

variable {k : ItemKind} {id : ItemId} {i : Item k} {raises : Fault → Prop}

/-- What the world holds under an id, unless its store is lost. -/
def Shows (id : ItemId) (w : World) (i : Item k) : Prop :=
  ∀ s, w.store = some s → s.Has id i

/-- Others may change anything but one item, whose table stays well keyed. A store that is
lost stays lost. -/
def Untouched (k : ItemKind) (id : ItemId) (w v : World) : Prop :=
  ∀ t, v.store = some t → (t.items k).KeyedBy Item.id ∧
    ∃ s, w.store = some s ∧ t.getItem k id = s.getItem k id

theorem untouched_refl (h : w.tables.Keyed) : Untouched k id w w := by
  intro s hs
  rw [tables_eq hs] at h
  exact ⟨h.items k, s, hs, rfl⟩

/-- Others who change the store, but no item of the kind. -/
theorem untouched_mapStore {change : Store → Store} (h : w.tables.Keyed)
    (hi : ∀ s, (change s).items k = s.items k) (hc : ∀ s, s.Keyed → (change s).Keyed) :
    Untouched k id w { w with store := w.store.map change } := by
  intro t ht
  obtain ⟨s, hs, rfl⟩ := Option.map_eq_some_iff.mp ht
  rw [tables_eq hs] at h
  refine ⟨(hc s h).items k, s, hs, ?_⟩
  rw [Store.getItem, hi]
  rfl

theorem Shows.outside (h : Shows id w i) {v : World} (hv : Untouched k id w v) :
    Shows id v i := by
  intro t ht
  obtain ⟨hk, s, hs, he⟩ := hv t ht
  exact ⟨hk, he.trans (h s hs).2⟩

/-- An answer is possible for the item. -/
theorem Shows.answer (h : Shows id w i) {c : Call} {E : Fault → Prop}
    (hE : ∀ f, (answer c w).1 = .error f → E f) :
    ∃ i', Shows id (World.answer c w).2 i' ∧ Item.Possible k id E c i (World.answer c w).1 i' := by
  -- only calls to the store can change it
  have hother : (World.answer c w).2.store = w.store → c.spares k = true →
      ∃ i', Shows id (World.answer c w).2 i' ∧
        Item.Possible k id E c i (World.answer c w).1 i' := by
    intro hstore hc
    refine ⟨i, fun s hs => h s (hstore.symm.trans hs), ?_⟩
    cases hr : (World.answer c w).1 with
    | ok a => exact .spared hc
    | error f => exact .failed (hE f hr)
  cases c with
  | store c =>
      cases hs : w.store with
      | none =>
          have hr : World.answer (.store c) w = (.error (.error storeLost), w) := by
            simp only [World.answer, useStore, hs]
          rw [hr] at hE ⊢
          exact ⟨i, h, .failed (hE _ rfl)⟩
      | some s =>
          have hfst : (World.answer (.store c) w).1 = (s.answer w.now c).1 := by
            rw [World.answer, fst_useStore, hs]
          rw [hfst] at hE ⊢
          obtain ⟨i', hhas, hp⟩ := (h s hs).possible w.now c hE
          refine ⟨i', fun t ht => ?_, hp⟩
          obtain ⟨s', hs', rfl⟩ := store_useStore ht
          cases hs.symm.trans hs'
          exact hhas
  | post n => exact hother (by rw [answer_post_eq]) rfl
  | release name token => exact hother (by rw [answer_release_eq]) rfl
  | now | shuffle | note | provider | acquire => exact hother rfl rfl

/-- What may happen at a call while nobody else writes the item is possible for it. The only
faults that say that an invariant is broken are those raised. -/
theorem Shows.possible (h : Shows id w i) {r : Outcome c.Reply}
    (hb : World.Possible Eq raises c w r w') : ∃ i', Shows id w' i' ∧
      Item.Possible k id (fun f => f.isBreach = true → raises f) c i r i' := by
  have hE : ∀ f, (World.answer c w).1 = .error f → f.isBreach = true → raises f := by
    intro f hf hbreach
    rw [not_breach_of_answer hf] at hbreach
    cases hbreach
  obtain ⟨i', hshows, hp⟩ := h.answer hE
  obtain ⟨_, rfl, hb | ⟨f, hf, rfl, rfl | rfl⟩⟩ := hb
  · rw [hb] at hshows hp
    exact ⟨i', hshows, hp⟩
  · exact ⟨i, h, .failed fun _ => hf⟩
  · exact ⟨i', hshows, hp.failed_after fun _ => hf⟩

/-- What may happen to an item in a world where nobody else writes it. -/
theorem Shows.possible_untouched (h : Shows id w i) {r : Outcome c.Reply}
    (hb : World.Possible (Untouched k id) raises c w r w') : ∃ i', Shows id w' i' ∧
      Item.Possible k id (fun f => f.isBreach = true → raises f) c i r i' := by
  obtain ⟨v, hv, hb⟩ := hb
  exact (h.outside hv).possible ⟨v, rfl, hb⟩

/-- What is read of the item is what the world holds. -/
theorem Shows.read (h : Shows id w i) {found : Option (Item k)}
    (hb : World.Possible (Untouched k id) raises (.store (.getItem k id)) w (.ok found) w') :
    found = some i := by
  obtain ⟨_, -, hp⟩ := h.possible_untouched hb
  cases hp with
  | read => rfl
  | readOther hj => exact absurd rfl hj
  | spared hc => simp [Call.spares] at hc

/-! ## The store in a world whose store nobody else writes -/

/-- What a call leaves of the store, if it is a call of the store at all. -/
theorem Possible.store_cases {outside : World → World → Prop} {r : Outcome c.Reply}
    (h : World.Possible outside raises c w r w') (ho : ∀ v, outside w v → v.store = w.store) :
    w'.store = w.store ∨ ∃ q, c = .store q ∧ ∀ s', w'.store = some s' →
      ∃ s clock, w.store = some s ∧ Store.Effect s clock q s' := by
  obtain ⟨v, hout, h⟩ := h
  have hv := ho v hout
  have hanswer : (answer c v).2.store = w.store ∨
      ∃ q, c = .store q ∧ ∀ s', (answer c v).2.store = some s' →
        ∃ s clock, w.store = some s ∧ Store.Effect s clock q s' := by
    by_cases hc : ∃ q, c = .store q
    · obtain ⟨q, rfl⟩ := hc
      refine .inr ⟨q, rfl, fun s' hs' => ?_⟩
      obtain ⟨s, hs, rfl⟩ := store_useStore hs'
      exact ⟨s, _, hv.symm.trans hs, s.effect_of_answer _ q⟩
    · exact .inl ((store_answer (not_exists.mp hc) v).trans hv)
  rcases h with h | ⟨f, -, -, rfl | rfl⟩
  · rwa [h] at hanswer
  · exact .inl hv
  · exact hanswer

/-- What is read is in the store, and reading it changes nothing. -/
theorem found_of_ask {q : StoreCall} {a : q.Reply} (hq : q.isRead = true)
    (ha : answer (.store q) w = (.ok a, w')) :
    ∃ s, w.store = some s ∧ w' = w ∧ (s.answer w.now q).1 = .ok a := by
  cases hs : w.store with
  | none => simp [answer, useStore, hs] at ha
  | some s =>
      obtain ⟨b, hread⟩ : ∃ b, s.answer w.now q = (.ok b, s) := Store.answer_of_isRead hq
      rw [answer_ask hs hread] at ha
      cases ha
      exact ⟨s, rfl, rfl, by rw [hread]⟩

/-- A call that only looks at the store and is answered finds it as it is. -/
theorem Possible.store_of_isRead {outside : World → World → Prop} {q : StoreCall} {a : q.Reply}
    (h : World.Possible outside raises (.store q) w (.ok a) w')
    (ho : ∀ v, outside w v → v.store = w.store) (hq : q.isRead = true) :
    ∃ s clock, w.store = some s ∧ w'.store = some s ∧ (s.answer clock q).1 = .ok a := by
  obtain ⟨v, hout, h | ⟨f, -, hr, -⟩⟩ := h
  · obtain ⟨s, hs, rfl, hfound⟩ := found_of_ask hq h
    exact ⟨s, _, (ho _ hout).symm.trans hs, hs, hfound⟩
  · cases hr

end World

end FleetControl
