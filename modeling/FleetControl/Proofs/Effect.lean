import FleetControl.Store.Call

/-!
# What calls do to a store

A call that reads leaves the store as it is, and so does a call that fails. Any other
call has one effect, which its arguments and the clock determine, on records that exist
where it names some.
-/
namespace FleetControl

theorem ok_of_mapError {α : Type} {r : Except ControlError α} {a : α}
    (h : r.mapError Fault.error = .ok a) : r = .ok a := by
  cases r with
  | ok b => exact congrArg Except.ok (Except.ok.inj h)
  | error e => cases h

theorem ok_of_map {α β : Type} {r : Outcome α} {f : α → β} {b : β} (h : r.map f = .ok b) :
    ∃ a, r = .ok a ∧ b = f a := by
  cases r with
  | ok a => exact ⟨a, rfl, (Except.ok.inj h).symm⟩
  | error e => cases h

namespace Store

/-- What a call makes of a store. -/
inductive Effect (s : Store) (clock : Outcome Instant) : StoreCall → Store → Prop where
  | nothing (c : StoreCall) : Effect s clock c s
  | insertItem {k : ItemKind} {i : Item k} (h : s.getItem k i.id = none) :
      Effect s clock (.insertItem k i) (s.putItem k i)
  | updateItem {k : ItemKind} {i : Item k} (h : (s.getItem k i.id).isSome) :
      Effect s clock (.updateItem k i) (s.putItem k i)
  | setClusterState {name : String} {state : ClusterState} {now : Instant}
      (hc : clock = .ok now) (h : s.clusters.contains name = true) :
      Effect s clock (.setClusterState name state) { s with
        clusters := s.clusters.modify name fun c => { c with state := state, lastUpdate := now } }
  | setClusterImage {name image : String} {now : Instant} (hc : clock = .ok now)
      (h : s.clusters.contains name = true) :
      Effect s clock (.setClusterImage name image) { s with
        clusters := s.clusters.modify name fun c =>
          { c with imageId := some image, lastUpdate := now } }
  | insertHost (host : Host) : Effect s clock (.insertHost host) (s.insertHost host)
  | setHostState {ids : List HostId} {state : HostState} {now : Instant} (hc : clock = .ok now) :
      Effect s clock (.setHostState ids state) (s.setHostState now ids state)
  | deleteHost (id : HostId) : Effect s clock (.deleteHost id) (s.deleteHost id)
  | drainHosts {env : EnvId} {ids : List HostId} {now : Instant} (hc : clock = .ok now) :
      Effect s clock (.drainHosts env ids) (s.drainHosts now env ids)
  | setPromoteKind {env : EnvId} {kind : PromoteKind}
      (h : s.promoteConfigs.contains env = true) :
      Effect s clock (.setPromoteKind env kind) { s with
        promoteConfigs := s.promoteConfigs.modify env fun c => { c with kind := kind } }
  | createDeploy {d : NewDeploy} {now : Instant} (hc : clock = .ok now)
      (h : s.environments.contains d.envId = true) :
      Effect s clock (.createDeploy d) { s with
        environments := s.environments.modify d.envId fun e =>
          { e with deployId := some (createdId s.created) }
        deploys := s.deploys.insert (createdId s.created) ⟨createdId s.created, d.envId,
          d.buildId, .running, .pendingDeploy, now, d.fromDeploy⟩
        created := s.created + 1 }
  | setConstraintState {id : String} {state : TagSyncState} {now : Instant}
      (hc : clock = .ok now) (h : s.constraints.contains id = true) :
      Effect s clock (.setConstraintState id state) { s with
        constraints := s.constraints.modify id fun c =>
          { c with state := state, lastUpdate := now } }
  | deleteHostTags (env : EnvId) (tag : String) (ids : List HostId) :
      Effect s clock (.deleteHostTags env tag ids) (s.deleteHostTags env tag ids)
  | insertHostTags (tags : List HostTag) :
      Effect s clock (.insertHostTags tags) (s.insertHostTags tags)

variable {s s' : Store} {clock : Outcome Instant} {c : StoreCall}

theorem Effect.settle {r : Outcome Store} (h : ∀ s', r = .ok s' → Effect s clock c s') :
    Effect s clock c (s.settle r).2 := by
  cases r with
  | ok s' => exact h s' rfl
  | error f => exact .nothing c

theorem eq_of_changeCluster {name : String} {change : Cluster → Cluster}
    (h : s.changeCluster clock name change = .ok s') :
    s.clusters.contains name = true ∧ ∃ now, clock = .ok now ∧ s' = { s with
      clusters := s.clusters.modify name fun c => { change c with lastUpdate := now } } := by
  simp only [changeCluster] at h
  split at h
  · rename_i hname
    exact ⟨hname, ok_of_map h⟩
  · cases h

/-- A deploy that is recorded becomes the current one of its environment. -/
theorem eq_of_createDeploy {d : NewDeploy} {record : Deploy}
    (h : s.createDeploy clock d = .ok (record, s')) :
    s.environments.contains d.envId = true ∧ ∃ now, clock = .ok now ∧
      record = ⟨createdId s.created, d.envId, d.buildId, .running, .pendingDeploy, now,
        d.fromDeploy⟩ ∧
      s' = { s with
        environments := s.environments.modify d.envId fun e => { e with deployId := some record.id }
        deploys := s.deploys.insert record.id record
        created := s.created + 1 } := by
  simp only [createDeploy] at h
  split at h
  · rename_i henv
    obtain ⟨now, hc, he⟩ := ok_of_map h
    cases he
    exact ⟨henv, now, hc, rfl, rfl⟩
  · cases h

/-- Every answer has an effect of its call. -/
theorem effect_of_answer (s : Store) (clock : Outcome Instant) (c : StoreCall) :
    Effect s clock c (s.answer clock c).2 := by
  cases c with
  | insertItem k i =>
      refine .settle fun s' h => ?_
      obtain ⟨hnone, rfl⟩ := insertItem_eq_ok_iff.mp (ok_of_mapError h)
      exact .insertItem hnone
  | updateItem k i =>
      refine .settle fun s' h => ?_
      obtain ⟨hsome, rfl⟩ := updateItem_eq_ok_iff.mp (ok_of_mapError h)
      exact .updateItem hsome
  | setClusterState name state =>
      refine .settle fun s' h => ?_
      obtain ⟨hname, now, hc, rfl⟩ := eq_of_changeCluster h
      exact .setClusterState hc hname
  | setClusterImage name image =>
      refine .settle fun s' h => ?_
      obtain ⟨hname, now, hc, rfl⟩ := eq_of_changeCluster h
      exact .setClusterImage hc hname
  | insertHost host => exact .insertHost host
  | setHostState ids state =>
      refine .settle fun s' h => ?_
      obtain ⟨now, hc, rfl⟩ := ok_of_map h
      exact .setHostState hc
  | deleteHost id => exact .deleteHost id
  | drainHosts env ids =>
      refine .settle fun s' h => ?_
      obtain ⟨now, hc, rfl⟩ := ok_of_map h
      exact .drainHosts hc
  | setPromoteKind env kind =>
      refine .settle fun s' h => ?_
      have hp := ok_of_mapError h
      rw [Store.setPromoteKind] at hp
      split at hp
      · rename_i henv
        cases hp
        exact .setPromoteKind henv
      · cases hp
  | createDeploy d =>
      simp only [Store.answer]
      split
      · rename_i record s' h
        obtain ⟨henv, now, hc, rfl, rfl⟩ := eq_of_createDeploy h
        exact .createDeploy hc henv
      · exact .nothing _
  | setConstraintState id state =>
      refine .settle fun s' h => ?_
      rw [Store.setConstraintState] at h
      split at h
      · rename_i hid
        obtain ⟨now, hc, rfl⟩ := ok_of_map h
        exact .setConstraintState hc hid
      · cases h
  | deleteHostTags env tag ids => exact .deleteHostTags env tag ids
  | insertHostTags tags => exact .insertHostTags tags
  | _ => exact .nothing _

/-- Draining changes hosts and agents only. -/
theorem drainHosts_eq (s : Store) (now : Instant) (env : EnvId) (ids : List HostId) :
    ∃ hosts agents, s.drainHosts now env ids = { s with hosts := hosts, agents := agents } := by
  rw [drainHosts]
  induction ids generalizing s with
  | nil => exact ⟨_, _, rfl⟩
  | cons id ids ih =>
      obtain ⟨hosts, agents, h⟩ := ih ((s.stopAgent env id).setHostState now [id] .pendingTerminate)
      exact ⟨hosts, agents, h⟩

/-- A call leaves the record of a cluster as it is, or sets its state or its image. -/
theorem Effect.cluster_cases (he : Effect s clock c s') (name : String) :
    s'.clusters.get? name = s.clusters.get? name ∨
      (∃ state now, c = .setClusterState name state ∧ s'.clusters.get? name =
        (s.clusters.get? name).map fun r => { r with state := state, lastUpdate := now }) ∨
      ∃ image now, c = .setClusterImage name image ∧ s'.clusters.get? name =
        (s.clusters.get? name).map fun r =>
          { r with imageId := some image, lastUpdate := now } := by
  cases he with
  | @insertItem k | @updateItem k => cases k <;> exact .inl rfl
  | @setClusterState other state now =>
      rw [Table.get?_modify]
      split
      · rename_i hname
        exact .inr (.inl ⟨state, now, hname ▸ rfl, rfl⟩)
      · exact .inl rfl
  | @setClusterImage other image now =>
      rw [Table.get?_modify]
      split
      · rename_i hname
        exact .inr (.inr ⟨image, now, hname ▸ rfl, rfl⟩)
      · exact .inl rfl
  | @drainHosts env ids now =>
      obtain ⟨hosts, agents, hd⟩ := s.drainHosts_eq now env ids
      rw [hd]
      exact .inl rfl
  | _ => exact .inl rfl

end Store

end FleetControl
