import FleetControl.Proofs.Capacity
import FleetControl.Proofs.Conduct

/-!
# Hosts on their way out

A host is put on its way out by name only, and no replacement brings one back. What is listed
as failed or as one to do without is known and stays.
-/
namespace FleetControl

namespace Call

/-- Whether a call may bring hosts into the fleet, or back into it. -/
def admits : Call → Bool
  | .store (.insertHost _) => true
  | .store (.setHostState _ state) => !state.isLeaving
  | _ => false

/-- The hosts that a call names when it records or changes them. -/
def recasts : Call → List HostId
  | .store (.insertHost host) => [host.id]
  | .store (.setHostState ids _) | .store (.drainHosts _ ids) => ids
  | _ => []

end Call

namespace Store

variable {s s' : Store} {clock : Outcome Instant} {c : StoreCall} {id : HostId}

/-- Whether a host is known and not on its way out. -/
def isStaying (s : Store) (id : HostId) : Bool :=
  (s.hosts.get? id).any fun h => !h.state.isLeaving

theorem isStaying_setHostState (s : Store) (now : Instant) (ids : List HostId)
    {state : HostState} (hs : state.isLeaving = true) (id : HostId) :
    (s.setHostState now ids state).isStaying id = (s.isStaying id && !ids.contains id) := by
  rw [isStaying, get?_setHostState, isStaying]
  by_cases hid : id ∈ ids <;> cases s.hosts.get? id <;> simp [hid, hs]

theorem isLeaving_setHostState_of_not_mem (s : Store) (now : Instant) {ids : List HostId}
    (state : HostState) (h : id ∉ ids) :
    (s.setHostState now ids state).isLeaving id = s.isLeaving id := by
  rw [isLeaving, get?_setHostState, if_neg h, isLeaving]

/-- A call that admits no host keeps those out that do not stay. -/
theorem Effect.isStaying (h : Effect s clock c s') (hc : (Call.store c).admits = false)
    (hs : s.isStaying id = false) : s'.isStaying id = false := by
  have hsame : s'.hosts = s.hosts → s'.isStaying id = false := fun he => by
    rw [Store.isStaying, he]
    exact hs
  cases h with
  | @insertItem k => cases k <;> exact hsame rfl
  | @updateItem k => cases k <;> exact hsame rfl
  | insertHost => cases hc
  | setHostState =>
      rw [isStaying_setHostState s _ _ (by simpa [Call.admits] using hc), hs]
      rfl
  | deleteHost =>
      rw [Store.isStaying, Store.deleteHost, Table.get?_erase]
      split
      · rfl
      · exact hs
  | drainHosts =>
      rw [Store.isStaying, hosts_drainHosts]
      refine (isStaying_setHostState s _ _ rfl id).trans ?_
      rw [hs]
      rfl
  | _ => exact hsame rfl

/-- A host is put on its way out by name only. -/
theorem Effect.isLeaving (h : Effect s clock c s') (hid : id ∉ (Call.store c).recasts)
    (hs : s'.isLeaving id = true) : s.isLeaving id = true := by
  have hsame : s'.hosts = s.hosts → s.isLeaving id = true := fun he => by
    rwa [Store.isLeaving, he] at hs
  cases h with
  | @insertItem k => cases k <;> exact hsame rfl
  | @updateItem k => cases k <;> exact hsame rfl
  | insertHost host =>
      rw [Store.isLeaving, Store.insertHost, Table.get?_insert,
        if_neg fun he => hid (List.mem_singleton.mpr he)] at hs
      exact hs
  | @setHostState ids state now =>
      have hn : id ∉ ids := hid
      rwa [isLeaving_setHostState_of_not_mem s now state hn] at hs
  | deleteHost =>
      rw [Store.isLeaving, Store.deleteHost, Table.get?_erase] at hs
      split at hs
      · cases hs
      · exact hs
  | @drainHosts env ids now =>
      have hn : id ∉ ids := hid
      simpa [isLeaving_drainHosts, hn] using hs
  | _ => exact hsame rfl

/-- What is listed of a cluster is known and stays. -/
theorem isStaying_of_listed (hk : s.hosts.KeyedBy Host.id) {cluster : String} {p : Host → Bool}
    (h : id ∈ ((s.stayingHosts cluster).filter p).map Host.id) : s.isStaying id = true := by
  obtain ⟨host, hm, rfl⟩ := List.mem_map.mp h
  obtain ⟨hv, hp⟩ := List.mem_filter.mp (List.mem_filter.mp hm).1
  simp only [Bool.and_eq_true] at hp
  rw [isStaying, hk.get?_of_mem hv]
  exact hp.2

theorem nodup_failedHostIds (hk : s.hosts.KeyedBy Host.id) (cluster : String) :
    (s.failedHostIds cluster).Nodup := by
  refine List.Sublist.nodup ?_ s.hosts.nodup_keys
  rw [← hk.map_values]
  exact (List.filter_sublist.trans List.filter_sublist).map Host.id

end Store

namespace World

variable {outside : World → World → Prop} {raises : Fault → Prop} {w w' : World} {c : Call}
  {id : HostId}

/-- What a call of the store that is answered makes of it. -/
theorem Possible.store_of_ok {q : StoreCall} {a : q.Reply}
    (h : World.Possible outside raises (.store q) w (.ok a) w') :
    ∃ v s s' clock, outside w v ∧ v.store = some s ∧ s.answer clock q = (.ok a, s') ∧
      w'.store = some s' := by
  obtain ⟨v, hv, h | ⟨f, -, hr, -⟩⟩ := h
  · cases hs : v.store with
    | none => simp [answer, useStore, hs] at h
    | some s =>
        simp only [answer, useStore, hs] at h
        split at h
        · cases h
        · rename_i r s' _ he
          obtain ⟨rfl, rfl⟩ := Prod.mk.inj h
          exact ⟨v, s, s', v.now, hv, hs, he, rfl⟩
  · cases hr

/-- What an answer leaves of the tables. -/
theorem tables_answer (c : Call) (w : World) : (answer c w).2.tables = w.tables ∨
    (answer c w).2.tables = .empty ∨
      ∃ q s', c = .store q ∧ (answer c w).2.tables = s' ∧ Store.Effect w.tables w.now q s' := by
  by_cases hc : ∃ q, c = .store q
  · obtain ⟨q, rfl⟩ := hc
    cases hs' : (answer (.store q) w).2.store with
    | none =>
        right; left
        rw [tables, hs']
        rfl
    | some s' =>
        right; right
        obtain ⟨s, hs, rfl⟩ := store_useStore hs'
        rw [tables_eq hs, tables_eq hs']
        exact ⟨q, _, rfl, rfl, s.effect_of_answer w.now q⟩
  · left
    rw [tables, tables, store_answer (not_exists.mp hc)]

/-- What may happen at a call that admits no host keeps those out that do not stay. -/
theorem Possible.isStaying {r : Outcome c.Reply} (hb : World.Possible outside raises c w r w')
    (hc : c.admits = false)
    (ho : ∀ v, outside w v → w.tables.isStaying id = false → v.tables.isStaying id = false)
    (h : w.tables.isStaying id = false) : w'.tables.isStaying id = false := by
  refine hb.preserves (I := fun w => w.tables.isStaying id = false) ho (fun v hv => ?_) h
  rcases tables_answer c v with he | he | ⟨q, s', rfl, he, heffect⟩
  · rwa [he]
  · rw [he]
    rfl
  · rw [he]
    exact heffect.isStaying hc hv

/-- A host that was recorded as terminating does not stay. -/
theorem Possible.not_isStaying_of_marked {ids : List HostId} {u : Unit}
    (hb : World.Possible outside raises (.store (.setHostState ids .terminating)) w (.ok u) w')
    (hid : id ∈ ids) : w'.tables.isStaying id = false := by
  obtain ⟨v, s, s', clock, -, -, ha, hs'⟩ := hb.store_of_ok
  cases clock with
  | error f => cases ha
  | ok now =>
      obtain rfl : s' = s.setHostState now ids .terminating := (Prod.mk.inj ha).2.symm
      rw [tables_eq hs', Store.isStaying_setHostState s now ids rfl]
      simp [hid]

/-- What is listed as failed has no host twice, and each stayed. -/
theorem Possible.failedHostIds {ids : List HostId} {cluster : String}
    (hb : World.Possible outside raises (.store (.failedHostIds cluster)) w (.ok ids) w')
    (hk : ∀ v, outside w v → v.tables.Keyed) :
    ids.Nodup ∧ ∃ v, outside w v ∧ ∀ id ∈ ids, v.tables.isStaying id = true := by
  obtain ⟨v, s, s', clock, hv, hs, ha, -⟩ := hb.store_of_ok
  have hkeyed := (hk v hv).hosts
  rw [tables_eq hs] at hkeyed
  obtain rfl : s.failedHostIds cluster = ids := Except.ok.inj (Prod.mk.inj ha).1
  refine ⟨Store.nodup_failedHostIds hkeyed cluster, v, hv, fun id hid => ?_⟩
  rw [tables_eq hs]
  exact Store.isStaying_of_listed hkeyed hid

end World

namespace Replacement

/-- Replacements admit no host. -/
theorem Conducts.not_admits {event : UpgradeEvent} {past : List (Entry World)} {c : Call}
    (h : Conducts event past c) : c.admits = false := by
  cases h with
  | looks h =>
      unfold Call.admits
      split
      · cases h
      · cases h
      · rfl
  | _ => rfl

end Replacement

end FleetControl
