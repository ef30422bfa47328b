import FleetControl.Proofs.Capacity

/-!
# Listings of hosts

What the store lists of a cluster are the hosts that stay and pass a test, in increasing order.
A host has a failed agent if the agent of some environment on it has failed. Draining stops
the agent of one environment on each drained host and no other agent.
-/
namespace FleetControl.Store

variable {s : Store}

/-- The agent of an environment on a host. -/
def agent? (s : Store) (env : EnvId) (id : HostId) : Option Agent :=
  (s.agents.get? id).bind fun onHost => onHost.get? env

theorem hasFailedAgent_iff {id : HostId} :
    s.hasFailedAgent id = true ↔ ∃ env a, s.agent? env id = some a ∧ a.isFailed = true := by
  rw [hasFailedAgent, agentsOn, List.any_eq_true]
  simp only [Table.mem_values_iff, agent?]
  cases s.agents.get? id with
  | none => simp
  | some onHost =>
      simp only [Option.getD_some, Option.bind_some]
      exact ⟨fun ⟨a, ⟨env, ha⟩, hf⟩ => ⟨env, a, ha, hf⟩, fun ⟨env, a, ha, hf⟩ => ⟨a, ⟨env, ha⟩, hf⟩⟩

/-- Whether a host is of a cluster and not on its way out. -/
def StaysIn (cluster : String) (h : Host) : Prop :=
  h.cluster = cluster ∧ h.state.isLeaving = false

instance (cluster : String) (h : Host) : Decidable (StaysIn cluster h) :=
  inferInstanceAs (Decidable (_ ∧ _))

theorem mem_listed (hk : s.hosts.KeyedBy Host.id) {cluster : String} {p : Host → Bool}
    {id : HostId} : id ∈ ((s.stayingHosts cluster).filter p).map Host.id ↔
      ∃ h, s.hosts.get? id = some h ∧ StaysIn cluster h ∧ p h = true := by
  simp only [stayingHosts, List.mem_map, List.mem_filter, Bool.and_eq_true, beq_iff_eq,
    Bool.not_eq_true', StaysIn]
  constructor
  · rintro ⟨h, ⟨⟨hv, hstays⟩, hp⟩, rfl⟩
    exact ⟨h, hk.get?_of_mem hv, hstays, hp⟩
  · rintro ⟨h, hget, hstays, hp⟩
    exact ⟨h, ⟨⟨Table.mem_values_iff.mpr ⟨id, hget⟩, hstays⟩, hp⟩, hk id h hget⟩

theorem sorted_listed (hk : s.hosts.KeyedBy Host.id) (cluster : String) (p : Host → Bool) :
    (((s.stayingHosts cluster).filter p).map Host.id).Pairwise (· < ·) := by
  refine List.Pairwise.sublist ?_ s.hosts.sorted_keys
  rw [← hk.map_values]
  exact (List.filter_sublist.trans List.filter_sublist).map Host.id

/-- Whether a host is of a cluster, stays, and may be retired. -/
def Retirable (s : Store) (cluster : String) (id : HostId) : Prop :=
  ∃ h, s.hosts.get? id = some h ∧ StaysIn cluster h ∧ h.retirable = true

/-- The failed ones of the retirable hosts are those with a failed agent. -/
theorem retirableFailedHostIds_eq (s : Store) (cluster : String) :
    s.retirableFailedHostIds cluster = (s.retirableHostIds cluster).filter s.hasFailedAgent := by
  rw [retirableFailedHostIds, retirableHostIds, List.filter_map, List.filter_filter]
  congr 2
  funext h
  exact Bool.and_comm _ _

/-- Draining stops the agent of the environment on every drained host, and no other agent. -/
theorem agent?_drainHosts (s : Store) (now : Instant) (env env' : EnvId) (ids : List HostId)
    (id : HostId) : (s.drainHosts now env ids).agent? env' id =
      if id ∈ ids ∧ env' = env then (s.agent? env' id).map fun a => { a with state := .stop }
      else s.agent? env' id := by
  induction ids generalizing s with
  | nil => simp [drainHosts]
  | cons x ids ih =>
      have hstop : ((s.stopAgent env x).setHostState now [x] .pendingTerminate).agent? env' id =
          if id = x ∧ env' = env then (s.agent? env' id).map fun a => { a with state := .stop }
          else s.agent? env' id := by
        simp only [agent?, agents_setHostState, stopAgent, Table.get?_modify]
        by_cases hid : id = x
        · subst hid
          cases s.agents.get? id with
          | none => simp
          | some onHost =>
              by_cases henv : env' = env <;> simp [Table.get?_modify, henv]
        · simp [hid]
      rw [drainHosts_cons, ih, hstop]
      by_cases henv : env' = env <;> by_cases hid : id = x <;> by_cases hmem : id ∈ ids <;>
        simp [henv, hid, hmem]
      all_goals cases s.agent? env x <;> simp_all

end FleetControl.Store
