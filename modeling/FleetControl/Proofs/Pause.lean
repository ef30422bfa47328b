import FleetControl.Proofs.Swapping
import FleetControl.Workers
import Mathlib.Logic.Relation

/-!
# What a paused cluster allows

A call respects a cluster if it leaves its record alone, records no host for it, and stores none
of its items other than as it was, the date of the last advance apart. The rule of a paused
cluster asks this of every call, and says which hosts a launch, a drain, an attachment or a
termination may still concern. `Still` is what holds of a journal that keeps to the rule; one
entry keeps it, and so does any part that makes only harmless calls.
-/
namespace FleetControl

open Program

/-- What is told of an item if it is one of a cluster: all but the date of its last advance. -/
def Item.outline {k : ItemKind} (name : String) (i : Item k) : Option (Item k) :=
  if i.cluster = name then some (i.touch .epoch) else none

theorem Item.outline_touch {k : ItemKind} (name : String) (i : Item k) (now : Instant) :
    (i.touch now).outline name = i.outline name := rfl

namespace Store

variable {s s' : Store} {name : String}

/-- Whether a host is recorded as one of a cluster. -/
def HasHost (s : Store) (name : String) (id : HostId) : Prop :=
  ∃ h, s.hosts.get? id = some h ∧ h.cluster = name

/-- The outline of the item under an id. -/
def itemOf (s : Store) (name : String) (k : ItemKind) (id : ItemId) : Option (Item k) :=
  (s.getItem k id).bind (·.outline name)

theorem HasHost.of_setHostState {now : Instant} {ids : List HostId} {state : HostState}
    {id : HostId} (h : (s.setHostState now ids state).HasHost name id) : s.HasHost name id := by
  obtain ⟨host, hg, hc⟩ := h
  rw [get?_setHostState] at hg
  split at hg
  · obtain ⟨old, ho, rfl⟩ := Option.map_eq_some_iff.mp hg
    exact ⟨old, ho, hc⟩
  · exact ⟨host, hg, hc⟩

theorem HasHost.of_drainHosts {now : Instant} {env : EnvId} {ids : List HostId} {id : HostId}
    (h : (s.drainHosts now env ids).HasHost name id) : s.HasHost name id := by
  rw [drainHosts] at h
  induction ids generalizing s with
  | nil => exact h
  | cons a ids ih =>
      have hfirst : (s.stopAgent env a).HasHost name id := (ih h).of_setHostState
      exact hfirst

end Store

/-- Whether a call leaves a cluster and its items alone, whose outlines are as in `view`. -/
def Call.Respects (name : String) (view : (k : ItemKind) → ItemId → Option (Item k)) :
    Call → Prop
  | .store (.setClusterState d _) | .store (.setClusterImage d _) => d ≠ name
  | .store (.insertHost h) => h.cluster ≠ name
  | .store (.insertItem _ _) => False
  | .store (.updateItem k y) => y.outline name = view k y.id
  | _ => True

namespace Store

variable {s s' : Store} {name : String} {clock : Outcome Instant} {c : StoreCall}
  {view : (k : ItemKind) → ItemId → Option (Item k)}

theorem get?_clusters_effect (hc : (Call.store c).Respects name view) (he : Effect s clock c s') :
    s'.clusters.get? name = s.clusters.get? name := by
  obtain h | ⟨state, now, rfl, -⟩ | ⟨image, now, rfl, -⟩ := he.cluster_cases name
  · exact h
  · exact absurd rfl hc
  · exact absurd rfl hc

theorem itemOf_effect (hc : (Call.store c).Respects name view) (he : Effect s clock c s')
    (h : ∀ k id, s.itemOf name k id = view k id) (k : ItemKind) (id : ItemId) :
    s'.itemOf name k id = view k id := by
  rw [← h k id]
  cases he with
  | insertItem => cases hc
  | @updateItem k' y =>
      by_cases hk : k = k'
      · subst hk
        rw [itemOf, getItem_putItem]
        split
        · rename_i hid
          rw [hid, h k y.id]
          exact hc
        · rfl
      · rw [itemOf, getItem_putItem_of_ne s y id hk, itemOf]
  | @drainHosts env ids now =>
      obtain ⟨hosts, agents, hd⟩ := s.drainHosts_eq now env ids
      rw [hd]
      cases k <;> rfl
  | _ => cases k <;> rfl

theorem HasHost.of_effect (hc : (Call.store c).Respects name view) (he : Effect s clock c s')
    {id : HostId} (h : s'.HasHost name id) : s.HasHost name id := by
  cases he with
  | insertItem => cases hc
  | @updateItem k y => cases k <;> exact h
  | insertHost host =>
      obtain ⟨found, hg, hf⟩ := h
      rw [Store.insertHost, Table.get?_insert] at hg
      split at hg
      · cases hg
        exact absurd hf hc
      · exact ⟨found, hg, hf⟩
  | setHostState => exact h.of_setHostState
  | deleteHost =>
      obtain ⟨found, hg, hf⟩ := h
      rw [Store.deleteHost, Table.get?_erase] at hg
      split at hg
      · cases hg
      · exact ⟨found, hg, hf⟩
  | drainHosts => exact h.of_drainHosts
  | _ => exact h

end Store

/-- The others leave the store as it is. -/
def World.SameStore (w v : World) : Prop := v.store = w.store

namespace World.Possible

variable {raises : Fault → Prop} {w w' : World}

/-- A call that is none of the store leaves it as it is. -/
theorem store_of_request {q : ProviderCall} {r : Outcome q.Reply}
    (h : World.Possible World.SameStore raises (.provider q) w r w') : w'.store = w.store := by
  rcases h.store_cases fun _ hv => hv with hs | ⟨_, hq, -⟩
  · exact hs
  · cases hq

theorem hasHost {view : (k : ItemKind) → ItemId → Option (Item k)} {c : Call}
    {r : Outcome c.Reply} {name : String} (hb : World.Possible World.SameStore raises c w r w')
    (hc : c.Respects name view) {id : HostId} (h : w'.tables.HasHost name id) :
    w.tables.HasHost name id := by
  rcases hb.store_cases fun _ hv => hv with hs | ⟨q, rfl, hs⟩
  · rwa [World.tables, hs] at h
  · cases hs' : w'.store with
    | none =>
        rw [World.tables, hs'] at h
        obtain ⟨host, hg, -⟩ := h
        cases hg
    | some s' =>
        obtain ⟨s, clock, hw, he⟩ := hs s' hs'
        rw [World.tables_eq hs'] at h
        rw [World.tables_eq hw]
        exact h.of_effect hc he

end World.Possible

/-! ## The rule of a paused cluster -/

/-- The hosts that an item of a cluster tracks which was read. -/
def Entry.readHosts (cluster : String) : Entry World → List HostId
  | ⟨_, .store (.getItem _ _), .ok (some y), _⟩ =>
      if y.cluster = cluster then y.trackedHosts else []
  | _ => []

/-- Whether a host of a cluster may be terminated all the same: it was drained before, and all
its agents have stopped. -/
def Store.IsSpent (s : Store) (name : String) (id : HostId) : Prop :=
  ∃ h, s.hosts.get? id = some h ∧ h.cluster = name ∧ h.state = .pendingTerminate ∧
    (s.agentsOn id).all Agent.isStopped = true

/-- Whether a call for a cluster names hosts of another one only where an item that was read
tracks them. -/
def Borrows (name cluster : String) (ids : List HostId) (past : List (Entry World))
    (s : Store) : Prop :=
  cluster ≠ name ∧ ∀ id ∈ ids, s.HasHost name id → ∃ e ∈ past, id ∈ e.readHosts cluster

/-- What is done while a cluster is paused. -/
def rests (name : String) : Rule World := fun past e =>
  match e.call with
  | .provider (.launchHosts d _ _) | .store (.setClusterState d _)
  | .store (.setClusterImage d _) => d ≠ name
  | .provider (.attachToPool ids d) => Borrows name d ids past e.before.tables
  | .provider (.terminateHosts d ids _) => Borrows name d ids past e.before.tables ∨
      (d = name ∧ ∃ id, ids = [id] ∧ e.before.tables.IsSpent name id)
  | .store (.drainHosts _ ids) => ∀ id ∈ ids, ¬e.before.tables.HasHost name id
  | .store (.insertHost h) => h.cluster ≠ name
  | _ => True

/-- Whether a call never concerns a paused cluster. -/
def Call.isHarmless : Call → Bool
  | .provider (.launchHosts _ _ _) | .provider (.attachToPool _ _)
  | .provider (.terminateHosts _ _ _) | .store (.setClusterState _ _)
  | .store (.setClusterImage _ _) | .store (.drainHosts _ _) | .store (.insertHost _)
  | .store (.insertItem _ _) | .store (.updateItem _ _) => false
  | _ => true

namespace Call

variable {c : Call} {name : String} {view : (k : ItemKind) → ItemId → Option (Item k)}

theorem isHarmless_of_isRead (h : c.isRead = true) : c.isHarmless = true := by
  unfold isHarmless
  split <;> first | rfl | cases h

theorem isHarmless_of_locks (h : c.isLockless = false) : c.isHarmless = true := by
  cases c <;> first | rfl | cases h

theorem respects_of_isHarmless (h : c.isHarmless = true) : c.Respects name view := by
  unfold Respects
  split <;> first | cases h | trivial

theorem rests_of_isHarmless {past : List (Entry World)} {e : Entry World}
    (h : e.call.isHarmless = true) : rests name past e := by
  unfold rests
  split <;> first | trivial | (rename_i hc; rw [hc] at h; cases h)

end Call

/-- What stays true while a cluster is paused: its record and its items, and that no listing of
another cluster has named a host that is one of its own. -/
structure Still (cluster : Cluster) (view : (k : ItemKind) → ItemId → Option (Item k))
    (j : Journal World) : Prop where
  keyed : j.state.tables.Keyed
  record : ∀ s, j.state.store = some s → s.clusters.get? cluster.name = some cluster
  items : ∀ s, j.state.store = some s → ∀ k id, s.itemOf cluster.name k id = view k id
  listed : ∀ e ∈ j.log, ∀ d, d ≠ cluster.name → ∀ id,
    id ∈ e.failedHosts d ∨ id ∈ e.retirableHosts d → ¬j.state.tables.HasHost cluster.name id

/-- Whatever fails, a program does only what is done while a cluster is paused. -/
abbrev Holds (raises : Fault → Prop) (cluster : Cluster)
    (view : (k : ItemKind) → ItemId → Option (Item k)) {α : Type} (p : Program α)
    (j : Journal World) : Prop :=
  p.Follows (World.Possible World.SameStore raises) (rests cluster.name) (Still cluster view)
    (fun _ => Still cluster view) j

section

variable {raises : Fault → Prop} {cluster : Cluster}
  {view : (k : ItemKind) → ItemId → Option (Item k)} {j : Journal World}

/-- A listing of a cluster names no host of another one. -/
theorem Store.Keyed.not_hasHost {s : Store} (hk : s.Keyed) {d name : String} (hd : d ≠ name)
    {p : Host → Bool} {id : HostId} (h : id ∈ ((s.stayingHosts d).filter p).map Host.id) :
    ¬s.HasHost name id := by
  obtain ⟨host, hmem, rfl⟩ := List.mem_map.mp h
  obtain ⟨hvalue, hprop⟩ := List.mem_filter.mp (List.mem_filter.mp hmem).1
  have hcluster : host.cluster = d := by
    simp only [Bool.and_eq_true, beq_iff_eq] at hprop
    exact hprop.1
  rintro ⟨found, hg, hf⟩
  cases (hk.hosts.get?_of_mem hvalue).symm.trans hg
  exact hd (hcluster.symm.trans hf)

/-- The hosts that a listing names are those of its cluster. -/
theorem not_hasHost_of_listed {c : Call} {r : Outcome c.Reply} {w w' : World}
    (hb : World.Possible World.SameStore raises c w r w') (hk : w.tables.Keyed) {d : String}
    {id : HostId} (h : id ∈ Entry.failedHosts d ⟨w, c, r, w'⟩ ∨
      id ∈ Entry.retirableHosts d ⟨w, c, r, w'⟩) {name : String} (hd : d ≠ name) :
    ¬w'.tables.HasHost name id := by
  have hread : ∀ {q : StoreCall} {a : q.Reply}, q.isRead = true →
      World.Possible World.SameStore raises (.store q) w (.ok a) w' →
        ∃ s clock, s.Keyed ∧ w'.tables = s ∧ (s.answer clock q).1 = .ok a := by
    intro q a hq hb
    obtain ⟨s, clock, hs, hs', ha⟩ := hb.store_of_isRead (fun _ hv => hv) hq
    exact ⟨s, clock, World.tables_eq hs ▸ hk, World.tables_eq hs', ha⟩
  rcases h with h | h
  · unfold Entry.failedHosts at h
    split at h
    · rename_i name' ids _ heq
      cases heq
      split at h
      · rename_i hname
        subst hname
        obtain ⟨s, clock, hks, hs', ha⟩ := hread rfl hb
        cases ha
        rw [hs']
        exact hks.not_hasHost hd h
      · cases h
    · cases h
  · unfold Entry.retirableHosts at h
    split at h
    case h_3 => cases h
    all_goals
      rename_i heq
      cases heq
      split at h
      · rename_i hname
        subst hname
        obtain ⟨s, clock, hks, hs', ha⟩ := hread rfl hb
        cases ha
        rw [hs']
        exact hks.not_hasHost hd h
      · cases h

/-- A call that leaves the cluster alone keeps all that stays true. -/
theorem Still.enter (h : Still cluster view j) {c : Call} {r : Outcome c.Reply} {w' : World}
    (hb : World.Possible World.SameStore raises c j.state r w')
    (hc : c.Respects cluster.name view) : Still cluster view (j.enter c r w') := by
  have hstore : ∀ s', w'.store = some s' → ∃ s, j.state.store = some s ∧
      (s'.clusters.get? cluster.name = s.clusters.get? cluster.name ∧
        ((∀ k id, s.itemOf cluster.name k id = view k id) →
          ∀ k id, s'.itemOf cluster.name k id = view k id)) := by
    intro s' hs'
    rcases hb.store_cases fun _ hv => hv with hs | ⟨q, rfl, hs⟩
    · exact ⟨s', hs.symm.trans hs', rfl, id⟩
    · obtain ⟨s, clock, hw, he⟩ := hs s' hs'
      exact ⟨s, hw, Store.get?_clusters_effect hc he, Store.itemOf_effect hc he⟩
  refine ⟨?_, fun s' hs' => ?_, fun s' hs' => ?_, fun e he d hd id hid hhas => ?_⟩
  · refine hb.preserves (I := fun u => u.tables.Keyed) (fun v hv hk => ?_)
      (fun u hu => World.keyed_answer hu c) h.keyed
    rwa [World.tables, hv]
  · obtain ⟨s, hs, hrecord, -⟩ := hstore s' hs'
    exact hrecord.trans (h.record s hs)
  · obtain ⟨s, hs, -, hitems⟩ := hstore s' hs'
    exact hitems (h.items s hs)
  · rcases List.mem_cons.mp he with rfl | he
    · exact not_hasHost_of_listed hb h.keyed hid hd hhas
    · exact h.listed e he d hd id hid (hb.hasHost hc hhas)

/-- A harmless call is allowed and keeps all that stays true. -/
theorem Still.harmless {j : Journal World} {c : Call} {r : Outcome c.Reply} {w' : World}
    (hc : c.isHarmless = true) (h : Still cluster view j)
    (hb : World.Possible World.SameStore raises c j.state r w') :
    rests cluster.name j.log ⟨j.state, c, r, w'⟩ ∧ Still cluster view (j.enter c r w') :=
  ⟨Call.rests_of_isHarmless hc, h.enter hb (Call.respects_of_isHarmless hc)⟩

/-- The version of an item that is read, and what is told of it. -/
theorem Still.read (h : Still cluster view j) {k : ItemKind} {id : ItemId} {y : Item k}
    {w' : World} (hb : World.Possible World.SameStore raises (.store (.getItem k id)) j.state
      (.ok (some y)) w') : view k y.id = y.outline cluster.name := by
  obtain ⟨s, clock, hs, -, ha⟩ := hb.store_of_isRead (fun _ hv => hv) rfl
  have hg : s.getItem k id = some y := Except.ok.inj ha
  have hk : s.Keyed := World.tables_eq hs ▸ h.keyed
  have hid : y.id = id := hk.items k id y hg
  rw [hid, ← h.items s hs k id, Store.itemOf, hg]
  rfl

theorem holds_perform {c : Call} {Q : c.Reply → Journal World → Prop}
    (hc : c.isHarmless = true) (h : Still cluster view j)
    (hQ : ∀ a w, World.Possible World.SameStore raises c j.state (.ok a) w →
      Still cluster view (j.enter c (.ok a) w) → Q a (j.enter c (.ok a) w)) :
    (perform c).Follows (World.Possible World.SameStore raises) (rests cluster.name)
      (Still cluster view) Q j := by
  refine follows_perform.mpr fun r w hb => ?_
  obtain ⟨hR, hs⟩ := h.harmless hc hb
  refine ⟨hR, ?_⟩
  cases r with
  | ok a => exact hQ a w hb hs
  | error f => exact hs

theorem Program.Only.holds {α : Type} {p : Program α} (hp : p.Only (·.isHarmless = true))
    (h : Still cluster view j) : Holds raises cluster view p j :=
  (Meets.follows hp (fun _ _ _ _ hc hj hb => hj.harmless hc hb) h).imp fun _ _ hq => hq.2

end

end FleetControl
