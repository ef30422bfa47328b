import FleetControl.World
import FleetControl.Simulation.Action
import FleetControl.Proofs.Behaviour
import FleetControl.Proofs.Effect

/-!
# Records under their own keys

The tables of a store hold every record under the key that the record itself names.
No call and no action of a script puts a record anywhere else, so a listing names each
record once and a lookup by a listed name finds it.
-/
namespace FleetControl

namespace Table

variable {α : Type} {key : α → String} {t : Table α}

/-- Every value stands under the key that it names. -/
def KeyedBy (t : Table α) (key : α → String) : Prop := ∀ k a, t.get? k = some a → key a = k

theorem KeyedBy.empty : (Table.empty : Table α).KeyedBy key := by
  intro k a h
  cases h

theorem KeyedBy.insert (h : t.KeyedBy key) (a : α) : (t.insert (key a) a).KeyedBy key := by
  intro k b hb
  rw [get?_insert] at hb
  split at hb
  · rename_i hk
    cases hb
    exact hk.symm
  · exact h k b hb

theorem KeyedBy.erase (h : t.KeyedBy key) (k : String) : (t.erase k).KeyedBy key := by
  intro k' a ha
  rw [get?_erase] at ha
  split at ha
  · cases ha
  · exact h k' a ha

theorem KeyedBy.modify (h : t.KeyedBy key) (k : String) {f : α → α}
    (hf : ∀ a, key (f a) = key a) : (t.modify k f).KeyedBy key := by
  intro k' a ha
  rw [get?_modify] at ha
  split at ha
  · obtain ⟨b, hb, rfl⟩ := Option.map_eq_some_iff.mp ha
    rw [hf]
    exact h k' b hb
  · exact h k' a ha

/-- The names of the values are the keys, in their order. -/
theorem KeyedBy.map_values (h : t.KeyedBy key) : t.values.map key = t.keys := by
  rw [values, keys, List.map_map]
  exact List.map_congr_left fun e he => h e.1 e.2 (get?_eq_some_iff.mpr he)

theorem nodup_keys (t : Table α) : t.keys.Nodup :=
  t.sorted_keys.imp fun {a b} h => by
    rintro rfl
    exact String.lt_irrefl a h

theorem KeyedBy.get?_of_mem (h : t.KeyedBy key) {a : α} (ha : a ∈ t.values) :
    t.get? (key a) = some a := by
  obtain ⟨k, hk⟩ := mem_values_iff.mp ha
  rwa [h k a hk]

end Table

namespace Store

/-- The agents of every host stand under that host and under their environments. -/
def AgentsKeyed (s : Store) : Prop := ∀ id onHost, s.agents.get? id = some onHost →
  onHost.KeyedBy Agent.envId ∧ ∀ env a, onHost.get? env = some a → a.hostId = id

/-- Every record stands under the key that it names. -/
structure Keyed (s : Store) : Prop where
  items : ∀ k, (s.items k).KeyedBy Item.id
  clusters : s.clusters.KeyedBy Cluster.name
  environments : s.environments.KeyedBy Environment.id
  images : s.images.KeyedBy Image.id
  hosts : s.hosts.KeyedBy Host.id
  agents : s.AgentsKeyed
  deploys : s.deploys.KeyedBy Deploy.id
  builds : s.builds.KeyedBy Build.id
  promoteConfigs : s.promoteConfigs.KeyedBy PromotionRule.envId
  constraints : s.constraints.KeyedBy DeployConstraint.id

variable {s s' : Store}

theorem keyed_empty : Store.empty.Keyed where
  items k := by cases k <;> exact .empty
  clusters := .empty
  environments := .empty
  images := .empty
  hosts := .empty
  agents _ _ h := by cases h
  deploys := .empty
  builds := .empty
  promoteConfigs := .empty
  constraints := .empty

theorem Keyed.withItems (h : s.Keyed) {k : ItemKind} {t : Table (Item k)}
    (ht : t.KeyedBy Item.id) : (s.withItems k t).Keyed := by
  have hi : ∀ k', ((s.withItems k t).items k').KeyedBy Item.id := by
    intro k'
    by_cases hk : k' = k
    · subst hk
      rwa [items_withItems]
    · rw [items_withItems_of_ne s t hk]
      exact h.items k'
  cases k <;> exact { h with items := hi }

theorem Keyed.putItem (h : s.Keyed) (k : ItemKind) (i : Item k) : (s.putItem k i).Keyed :=
  h.withItems ((h.items k).insert i)

theorem Keyed.insertItem (h : s.Keyed) {k : ItemKind} {i : Item k}
    (he : s.insertItem k i = .ok s') : s'.Keyed := by
  obtain ⟨-, rfl⟩ := insertItem_eq_ok_iff.mp he
  exact h.putItem k i

theorem Keyed.insertCluster (h : s.Keyed) (c : Cluster) :
    ({ s with clusters := s.clusters.insert c.name c } : Store).Keyed :=
  { h with clusters := h.clusters.insert c }

theorem Keyed.insertHost (h : s.Keyed) (host : Host) : (s.insertHost host).Keyed :=
  { h with hosts := h.hosts.insert host }

theorem Keyed.setHostState (h : s.Keyed) (now : Instant) (ids : List HostId)
    (state : HostState) : (s.setHostState now ids state).Keyed := by
  refine { h with hosts := fun id host hh => ?_ }
  rw [get?_setHostState] at hh
  split at hh
  · obtain ⟨old, ho, rfl⟩ := Option.map_eq_some_iff.mp hh
    exact h.hosts id old ho
  · exact h.hosts id host hh

theorem Keyed.deleteHost (h : s.Keyed) (id : HostId) : (s.deleteHost id).Keyed := by
  refine { h with hosts := h.hosts.erase id, agents := fun id' onHost ho => ?_ }
  simp only [Store.deleteHost, Table.get?_erase] at ho
  split at ho
  · cases ho
  · exact h.agents id' onHost ho

theorem Keyed.stopAgent (h : s.Keyed) (env : EnvId) (id : HostId) :
    (s.stopAgent env id).Keyed := by
  refine { h with agents := fun id' onHost ho => ?_ }
  simp only [Store.stopAgent, Table.get?_modify] at ho
  split at ho
  · obtain ⟨old, hold, rfl⟩ := Option.map_eq_some_iff.mp ho
    obtain ⟨hk, hh⟩ := h.agents id' old hold
    refine ⟨hk.modify env fun _ => rfl, fun env' a ha => ?_⟩
    rw [Table.get?_modify] at ha
    split at ha
    · obtain ⟨b, hb, rfl⟩ := Option.map_eq_some_iff.mp ha
      exact hh env' b hb
    · exact hh env' a ha
  · exact h.agents id' onHost ho

theorem Keyed.drainHosts (h : s.Keyed) (now : Instant) (env : EnvId) (ids : List HostId) :
    (s.drainHosts now env ids).Keyed := by
  rw [Store.drainHosts]
  induction ids generalizing s with
  | nil => exact h
  | cons id ids ih => exact ih ((h.stopAgent env id).setHostState now [id] .pendingTerminate)

/-- The report of an agent goes under its host and its environment. -/
theorem Keyed.putAgent (h : s.Keyed) (a : Agent) : (s.putAgent a).Keyed := by
  refine { h with agents := fun id onHost ho => ?_ }
  simp only [Store.putAgent, Table.get?_insert] at ho
  split at ho
  · rename_i hid
    cases ho
    subst hid
    have hold : ((s.agents.get? a.hostId).getD .empty).KeyedBy Agent.envId ∧
        ∀ env b, ((s.agents.get? a.hostId).getD .empty).get? env = some b →
          b.hostId = a.hostId := by
      cases hg : s.agents.get? a.hostId with
      | none => exact ⟨.empty, fun _ _ hb => by cases hb⟩
      | some old => exact h.agents a.hostId old hg
    refine ⟨hold.1.insert a, fun env b hb => ?_⟩
    rw [Table.get?_insert] at hb
    split at hb
    · cases hb
      rfl
    · exact hold.2 env b hb
  · exact h.agents id onHost ho

/-- No effect puts a record under a key of another. -/
theorem Keyed.effect (h : s.Keyed) {clock : Outcome Instant} {c : StoreCall}
    (he : Effect s clock c s') : s'.Keyed := by
  cases he with
  | nothing => exact h
  | insertItem | updateItem => exact h.putItem _ _
  | setClusterState | setClusterImage =>
      exact { h with clusters := h.clusters.modify _ fun _ => rfl }
  | insertHost host => exact h.insertHost host
  | setHostState => exact h.setHostState _ _ _
  | deleteHost id => exact h.deleteHost id
  | drainHosts => exact h.drainHosts _ _ _
  | setPromoteKind => exact { h with promoteConfigs := h.promoteConfigs.modify _ fun _ => rfl }
  | @createDeploy d now =>
      exact { h with
        environments := h.environments.modify d.envId fun _ => rfl
        deploys := h.deploys.insert ⟨createdId s.created, d.envId, d.buildId, .running,
          .pendingDeploy, now, d.fromDeploy⟩ }
  | setConstraintState => exact { h with constraints := h.constraints.modify _ fun _ => rfl }
  | deleteHostTags | insertHostTags => exact { h with }

theorem Keyed.answer (h : s.Keyed) (clock : Outcome Instant) (c : StoreCall) :
    (s.answer clock c).2.Keyed := h.effect (s.effect_of_answer clock c)

/-- No entry goes under a key that it does not name. -/
theorem Keyed.put (h : s.Keyed) {entry : Simulation.Entry}
    (he : entry.putInto s = .ok s') : s'.Keyed := by
  cases entry with
  | item k i => exact h.insertItem he
  | cluster r => cases he; exact h.insertCluster r
  | environment r => cases he; exact { h with environments := h.environments.insert r }
  | image r => cases he; exact { h with images := h.images.insert r }
  | host r => cases he; exact h.insertHost r
  | agent r => cases he; exact h.putAgent r
  | deploy r => cases he; exact { h with deploys := h.deploys.insert r }
  | build r => cases he; exact { h with builds := h.builds.insert r }
  | promoteConfig r => cases he; exact { h with promoteConfigs := h.promoteConfigs.insert r }
  | constraint r => cases he; exact { h with constraints := h.constraints.insert r }

end Store

namespace World

/-- The tables of a world as far as they can be seen are keyed. -/
theorem keyed_useStore {α : Type} {w : World} {operation : Store → Outcome α × Store}
    (h : w.tables.Keyed) (ho : ∀ s, s.Keyed → (operation s).2.Keyed) :
    (w.useStore operation).2.tables.Keyed := by
  cases hs : w.store with
  | none => simpa [useStore, hs] using h
  | some s =>
      have hk : s.Keyed := by simpa [tables, hs] using h
      have hk' := ho s hk
      simp only [useStore, hs]
      split
      · exact Store.keyed_empty
      · rename_i r store he
        rw [he] at hk'
        exact hk'

/-- Others who keep the tables keyed. -/
theorem keyed_mapStore {w : World} {change : Store → Store} (h : w.tables.Keyed)
    (hc : ∀ s, s.Keyed → (change s).Keyed) :
    ({ w with store := w.store.map change } : World).tables.Keyed := by
  cases hs : w.store with
  | none => exact Store.keyed_empty
  | some s =>
      have hk : s.Keyed := by simpa [tables, hs] using h
      exact hc s hk

theorem keyed_answer {w : World} (h : w.tables.Keyed) (c : Call) :
    (answer c w).2.tables.Keyed := by
  by_cases hc : ∃ q, c = .store q
  · obtain ⟨q, rfl⟩ := hc
    exact keyed_useStore h fun s hs => hs.answer w.now q
  · rwa [tables, store_answer (not_exists.mp hc)]

end World

end FleetControl
