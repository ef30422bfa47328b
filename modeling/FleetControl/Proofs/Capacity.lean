import FleetControl.Proofs.Keyed

/-!
# Serving capacity

The capacity of an environment is the number of its serving agents on hosts that are not
on their way out. The store's own count also has the agents that lag behind: those that
still serve on hosts already drained. Draining hosts takes exactly their serving agents
from the capacity.
-/
namespace FleetControl

/-- At most one entry of a list with increasing keys stands under a key. -/
theorem Table.countP_key {α : Type} {es : List (String × α)}
    (h : es.Pairwise fun a b => a.1 < b.1) (k : String) (p : α → Bool) :
    es.countP (fun e => e.1 == k && p e.2) = if (lookup k es).any p then 1 else 0 := by
  induction es with
  | nil => rfl
  | cons e es ih =>
      obtain ⟨k', a⟩ := e
      obtain ⟨he, hes⟩ := List.pairwise_cons.mp h
      rw [List.countP_cons, lookup]
      by_cases hk : k = k'
      · subst hk
        have hrest : es.countP (fun e => e.1 == k && p e.2) = 0 := by
          rw [List.countP_eq_zero]
          intro e' he' hp
          have hk' : e'.1 = k := by simpa using (Bool.and_eq_true_iff.mp hp).1
          exact String.lt_irrefl k (by simpa [hk'] using he e' he')
        simp [hrest]
      · simp [hk, Ne.symm hk, ih hes]

namespace Store

/-- Whether the agent of an environment on a host serves. -/
def serves (s : Store) (env : EnvId) (id : HostId) : Bool :=
  ((s.agents.get? id).bind fun onHost => onHost.get? env).any Agent.isServing

/-- Whether a host is known to be on its way out. -/
def isLeaving (s : Store) (id : HostId) : Bool :=
  (s.hosts.get? id).any fun h => h.state.isLeaving

/-- How many agents of an environment serve on hosts that are not on their way out. -/
def capacity (s : Store) (env : EnvId) : Nat :=
  s.allAgents.countP fun a => (a.envId == env && a.isServing) && !s.isLeaving a.hostId

/-- How many agents of an environment still serve on hosts that are on their way out. -/
def lagging (s : Store) (env : EnvId) : Nat :=
  s.allAgents.countP fun a => (a.envId == env && a.isServing) && s.isLeaving a.hostId

variable {s : Store}

theorem countServing_eq (s : Store) (env : EnvId) :
    s.countServing env = s.capacity env + s.lagging env := by
  rw [countServing, ← List.countP_eq_length_filter,
    List.countP_eq_countP_filter_add _ _ fun a => s.isLeaving a.hostId]
  simp only [List.countP_filter, capacity, lagging]
  omega

/-- Of the agents on one host at most the one of the environment counts. -/
theorem countP_onHost {onHost : Table Agent} (h : onHost.KeyedBy Agent.envId) {id : HostId}
    (hid : ∀ env a, onHost.get? env = some a → a.hostId = id) (env : EnvId)
    (p : HostId → Bool) :
    onHost.values.countP (fun a => (a.envId == env && a.isServing) && p a.hostId) =
      if ((onHost.get? env).any Agent.isServing && p id) = true then 1 else 0 := by
  have hc : onHost.values.countP (fun a => (a.envId == env && a.isServing) && p a.hostId) =
      onHost.entries.countP fun e => e.1 == env && (e.2.isServing && p id) := by
    rw [Table.values, List.countP_map]
    refine List.countP_congr fun e he => ?_
    have hg := Table.get?_eq_some_iff.mpr he
    simp [h e.1 e.2 hg, hid e.1 e.2 hg, and_assoc]
  rw [hc, Table.countP_key onHost.sorted env fun a => a.isServing && p id]
  cases hg : Table.lookup env onHost.entries <;> simp [Table.get?, hg]

/-- Counting serving agents is counting the hosts on which the environment serves. -/
theorem countP_allAgents (h : s.AgentsKeyed) (env : EnvId) (p : HostId → Bool) :
    s.allAgents.countP (fun a => (a.envId == env && a.isServing) && p a.hostId) =
      s.agents.keys.countP fun id => s.serves env id && p id := by
  have hes : ∀ e ∈ s.agents.entries, s.agents.get? e.1 = some e.2 :=
    fun e he => Table.get?_eq_some_iff.mpr he
  rw [allAgents, Table.values, Table.keys]
  generalize s.agents.entries = es at hes
  induction es with
  | nil => rfl
  | cons e es ih =>
      have he := hes e List.mem_cons_self
      obtain ⟨hk, hid⟩ := h e.1 e.2 he
      rw [List.map_cons, List.flatMap_cons, List.countP_append, List.map_cons,
        List.countP_cons, ih fun e' he' => hes e' (List.mem_cons_of_mem e he'),
        countP_onHost hk hid env p, Nat.add_comm]
      simp [serves, he]

theorem capacity_eq (h : s.AgentsKeyed) (env : EnvId) :
    s.capacity env = s.agents.keys.countP fun id => s.serves env id && !s.isLeaving id :=
  countP_allAgents h env fun id => !s.isLeaving id

/-- The environment serves only where there are agents. -/
theorem mem_keys_of_serves {env : EnvId} {id : HostId} (h : s.serves env id = true) :
    id ∈ s.agents.keys := by
  rw [Table.mem_keys_iff]
  cases hg : s.agents.get? id with
  | none => simp [serves, hg] at h
  | some onHost => rfl

/-! ## Draining -/

@[simp] theorem agents_setHostState (s : Store) (now : Instant) (ids : List HostId)
    (state : HostState) : (s.setHostState now ids state).agents = s.agents := rfl

theorem drainHosts_cons (s : Store) (now : Instant) (env : EnvId) (id : HostId)
    (ids : List HostId) : s.drainHosts now env (id :: ids) =
      ((s.stopAgent env id).setHostState now [id] .pendingTerminate).drainHosts now env ids :=
  rfl

theorem drainHosts_append (s : Store) (now : Instant) (env : EnvId) (ids others : List HostId) :
    s.drainHosts now env (ids ++ others) =
      (s.drainHosts now env ids).drainHosts now env others := List.foldl_append

theorem hosts_drainHosts (s : Store) (now : Instant) (env : EnvId) (ids : List HostId) :
    (s.drainHosts now env ids).hosts = (s.setHostState now ids .pendingTerminate).hosts := by
  induction ids generalizing s with
  | nil => rfl
  | cons id ids ih =>
      rw [drainHosts_cons, ih]
      rfl

/-- An agent told to stop serves until it has stopped. -/
theorem serves_stopAgent (s : Store) (env env' : EnvId) (id id' : HostId) :
    (s.stopAgent env id).serves env' id' = s.serves env' id' := by
  simp only [serves, stopAgent, Table.get?_modify]
  by_cases hid : id' = id <;> cases s.agents.get? id' with
  | none => simp [hid]
  | some onHost =>
      by_cases henv : env' = env <;> cases hg : onHost.get? env' <;>
        simp_all [Table.get?_modify, Agent.isServing]

@[simp] theorem serves_drainHosts (s : Store) (now : Instant) (env env' : EnvId)
    (ids : List HostId) (id : HostId) :
    (s.drainHosts now env ids).serves env' id = s.serves env' id := by
  induction ids generalizing s with
  | nil => rfl
  | cons a ids ih =>
      rw [drainHosts_cons, ih, ← serves_stopAgent s env env' a id]
      rfl

/-- Draining forgets no agent. -/
@[simp] theorem keys_drainHosts (s : Store) (now : Instant) (env : EnvId) (ids : List HostId) :
    (s.drainHosts now env ids).agents.keys = s.agents.keys := by
  induction ids generalizing s with
  | nil => rfl
  | cons a ids ih =>
      rw [drainHosts_cons, ih]
      simp [stopAgent, Table.modify, Table.mapWithKey, Table.keys, Function.comp_def]

theorem isLeaving_drainHosts (s : Store) (now : Instant) (env : EnvId) (ids : List HostId)
    (id : HostId) : (s.drainHosts now env ids).isLeaving id =
      (s.isLeaving id || (ids.contains id && s.hosts.contains id)) := by
  rw [isLeaving, hosts_drainHosts, get?_setHostState, isLeaving, Table.contains]
  by_cases hid : id ∈ ids <;> cases s.hosts.get? id <;>
    simp [hid, HostState.isLeaving]

/-- Draining hosts that were to stay takes exactly those that serve from the capacity. -/
theorem capacity_drainHosts (h : s.Keyed) {now : Instant} {env : EnvId} {ids : List HostId}
    (hn : ids.Nodup) (hs : ∀ id ∈ ids, s.hosts.contains id ∧ s.isLeaving id = false) :
    (s.drainHosts now env ids).capacity env + ids.countP (s.serves env) = s.capacity env := by
  have hd : ids.countP (s.serves env) =
      s.agents.keys.countP fun id => s.serves env id && ids.contains id := by
    rw [List.countP_eq_length_filter, List.countP_eq_length_filter]
    refine List.Perm.length_eq ((List.perm_ext_iff_of_nodup (hn.filter _)
      (s.agents.nodup_keys.filter _)).mpr fun id => ?_)
    simp only [List.mem_filter, Bool.and_eq_true, List.contains_iff_mem]
    exact ⟨fun ⟨hm, hv⟩ => ⟨mem_keys_of_serves hv, hv, hm⟩, fun ⟨_, hv, hm⟩ => ⟨hm, hv⟩⟩
  rw [capacity_eq (h.drainHosts now env ids).agents, capacity_eq h.agents, hd, keys_drainHosts,
    s.agents.keys.countP_eq_countP_filter_add (fun id => s.serves env id && !s.isLeaving id)
      fun id => ids.contains id]
  simp only [List.countP_filter, serves_drainHosts, isLeaving_drainHosts]
  rw [Nat.add_comm]
  congr 1
  · refine List.countP_congr fun id _ => ?_
    by_cases hid : id ∈ ids <;> simp [hid]
    intro
    exact (hs id hid).2
  · refine List.countP_congr fun id _ => ?_
    by_cases hid : id ∈ ids
    · simp [hid, (hs id hid).1]
    · simp [hid]

end Store

end FleetControl
