import FleetControl.World
import Mathlib.Data.List.TakeWhile

/-!
# The roster of a provider

A provider in memory enters the hosts that it launches in a roster and marks there those that it
terminates. A termination goes through its hosts one after the other and gives up at the first
that belongs to another cluster; what it does is told by the hosts in front of that one. Of all
else that a provider knows a launch and a termination change only what they are to record.
-/
namespace FleetControl

namespace Provider

/-! ## Launches -/

/-- Registering hosts changes nothing but the roster. -/
theorem addHosts_eq (p : Provider) (cluster : String) (ids : List HostId) :
    ids.foldl (fun p id => p.addHost cluster id) p =
      { p with hosts := (ids.foldl (fun p id => p.addHost cluster id) p).hosts } := by
  induction ids generalizing p with
  | nil => rfl
  | cons id ids ih => exact ih (p.addHost cluster id)

/-- A launch leaves what it is not to record. -/
theorem launchHosts_eq (p : Provider) (cluster : String) (count : Nat) (image : Option String) :
    let p' := (p.launchHosts cluster count image).2
    p' = { p with
      hosts := p'.hosts
      launchCapacity := p'.launchCapacity
      issued := p'.issued
      launches := p'.launches } := by
  simp only [launchHosts]
  split
  · rfl
  · rw [addHosts_eq]

/-- A launch that takes place brings the next hosts to be issued, as many as it is granted. -/
theorem launched_of_launchHosts {p p' : Provider} {cluster : String} {count : Nat}
    {image : Option String} {ids : List HostId}
    (h : p.launchHosts cluster count image = (.ok ids, p')) :
    ids = (List.range (p.granted count)).map (fun i => launchedId (p.issued + i)) ∧
      p'.issued = p.issued + p.granted count := by
  simp only [launchHosts] at h
  split at h
  · cases h
  · cases h
    refine ⟨rfl, ?_⟩
    rw [addHosts_eq]

/-! ## Marking hosts -/

/-- Mark some hosts as terminated, as far as they are known. -/
def retire (p : Provider) (ids : List HostId) : Provider := ids.foldl markTerminated p

theorem markTerminated_eq_self {p : Provider} {id : HostId} (h : p.hosts.get? id = none) :
    p.markTerminated id = p := by
  have hosts : p.hosts.modify id (fun h => { h with terminated := true }) = p.hosts := by
    refine Table.ext_get? fun k => ?_
    rw [Table.get?_modify]
    split
    · rename_i hk
      subst hk
      rw [h]
      rfl
    · rfl
  rw [markTerminated, hosts]

theorem retire_eq (p : Provider) (ids : List HostId) :
    p.retire ids = { p with hosts := (p.retire ids).hosts } := by
  induction ids generalizing p with
  | nil => rfl
  | cons id ids ih => exact ih (p.markTerminated id)

theorem retire_append (p : Provider) (ids more : List HostId) :
    p.retire (ids ++ more) = (p.retire ids).retire more := List.foldl_append

/-- What else a provider records does not matter to its marks. -/
theorem hosts_retire {p q : Provider} (h : p.hosts = q.hosts) (ids : List HostId) :
    (p.retire ids).hosts = (q.retire ids).hosts := by
  induction ids generalizing p q with
  | nil => exact h
  | cons id ids ih =>
      refine ih ?_
      rw [markTerminated, markTerminated, h]

theorem get?_retire (p : Provider) (ids : List HostId) (id : HostId) :
    (p.retire ids).hosts.get? id =
      if id ∈ ids then (p.hosts.get? id).map fun h => { h with terminated := true }
      else p.hosts.get? id := by
  induction ids generalizing p with
  | nil => simp [retire]
  | cons a ids ih =>
      have hstep : (p.retire (a :: ids)).hosts.get? id =
          ((p.markTerminated a).retire ids).hosts.get? id := rfl
      rw [hstep, ih, markTerminated]
      simp only [Table.get?_modify]
      by_cases ha : id = a <;> by_cases hi : id ∈ ids <;> simp [ha, hi]
      all_goals cases p.hosts.get? a <;> simp_all

@[simp] theorem terminations_retire (p : Provider) (ids : List HostId) :
    (p.retire ids).terminations = p.terminations := by
  rw [retire_eq]

/-! ## The first foreign host -/

/-- The provider knows the host, as one of another cluster. -/
def isForeign (p : Provider) (cluster : String) (id : HostId) : Bool :=
  (p.hosts.get? id).any fun h => h.cluster != cluster

/-- The ids in front of the first host of another cluster. -/
def untilForeign (p : Provider) (cluster : String) (ids : List HostId) : List HostId :=
  ids.takeWhile fun id => !p.isForeign cluster id

variable {p p' : Provider} {cluster : String} {id : HostId} {ids : List HostId}

theorem isForeign_of_none (h : p.hosts.get? id = none) : p.isForeign cluster id = false := by
  rw [isForeign, h]
  rfl

theorem isForeign_of_some (cluster : String) {host : ProviderHost}
    (h : p.hosts.get? id = some host) : p.isForeign cluster id = (host.cluster != cluster) := by
  rw [isForeign, h]
  rfl

theorem isForeign_eq_false_iff : p.isForeign cluster id = false ↔
    ∀ host, p.hosts.get? id = some host → host.cluster = cluster := by
  cases h : p.hosts.get? id with
  | none => simp [isForeign_of_none h]
  | some host => simp [isForeign_of_some cluster h]

/-- A termination does not move a host to another cluster. -/
@[simp] theorem isForeign_markTerminated (p : Provider) (cluster : String) (a id : HostId) :
    (p.markTerminated a).isForeign cluster id = p.isForeign cluster id := by
  rw [isForeign, isForeign, markTerminated, Table.get?_modify]
  by_cases h : id = a
  · rw [if_pos h, h]
    cases p.hosts.get? a <;> rfl
  · rw [if_neg h]

@[simp] theorem untilForeign_markTerminated (p : Provider) (cluster : String) (a : HostId)
    (ids : List HostId) :
    (p.markTerminated a).untilForeign cluster ids = p.untilForeign cluster ids := by
  simp only [untilForeign, isForeign_markTerminated]

theorem untilForeign_cons_of_own (h : p.isForeign cluster id = false) :
    p.untilForeign cluster (id :: ids) = id :: p.untilForeign cluster ids := by
  simp [untilForeign, h]

theorem untilForeign_cons_of_foreign (h : p.isForeign cluster id = true) :
    p.untilForeign cluster (id :: ids) = [] := by
  simp [untilForeign, h]

/-- What is said when a host is found to belong to another cluster. -/
def refusal (cluster : String) (id : HostId) (host : ProviderHost) : ControlError :=
  .fleet ("host " ++ id ++ " belongs to " ++ host.cluster ++ ", not " ++ cluster)

/-- The hosts up to the first foreign one are marked, whatever comes after it. -/
theorem snd_markAll (p : Provider) (cluster : String) (ids : List HostId) :
    (p.markAll cluster ids).2 = p.retire (p.untilForeign cluster ids) := by
  induction ids generalizing p with
  | nil => rfl
  | cons id ids ih =>
      rw [markAll]
      cases h : p.hosts.get? id with
      | none =>
          rw [untilForeign_cons_of_own (isForeign_of_none h), retire, List.foldl_cons,
            markTerminated_eq_self h]
          exact ih p
      | some host =>
          have hforeign := isForeign_of_some cluster h
          by_cases hc : host.cluster = cluster
          · rw [untilForeign_cons_of_own (by simp [hforeign, hc])]
            simp only [hc, if_true]
            rw [ih (p.markTerminated id), untilForeign_markTerminated]
            rfl
          · rw [untilForeign_cons_of_foreign (by simp [hforeign, hc])]
            simp only [hc, if_false]
            rfl

/-- The first foreign host decides about the call, and there may be none. -/
theorem fst_markAll (p : Provider) (cluster : String) (ids : List HostId) :
    (p.untilForeign cluster ids = ids ∧ (p.markAll cluster ids).1 = .ok ()) ∨
      ∃ id rest host, ids = p.untilForeign cluster ids ++ id :: rest ∧
        p.hosts.get? id = some host ∧ host.cluster ≠ cluster ∧
        (p.markAll cluster ids).1 = .error (refusal cluster id host) := by
  induction ids generalizing p with
  | nil => exact Or.inl ⟨rfl, rfl⟩
  | cons a ids ih =>
      rw [markAll]
      cases h : p.hosts.get? a with
      | none =>
          rw [untilForeign_cons_of_own (isForeign_of_none h)]
          obtain ⟨hall, hok⟩ | ⟨id, rest, host, hids, hfound⟩ := ih p
          · exact Or.inl ⟨congrArg (a :: ·) hall, hok⟩
          · exact Or.inr ⟨id, rest, host, congrArg (a :: ·) hids, hfound⟩
      | some owned =>
          have hforeign := isForeign_of_some cluster h
          by_cases hc : owned.cluster = cluster
          · rw [untilForeign_cons_of_own (by simp [hforeign, hc])]
            simp only [hc, if_true]
            obtain ⟨hall, hok⟩ | ⟨id, rest, host, hids, hhost, hne, herr⟩ :=
              ih (p.markTerminated a)
            · rw [untilForeign_markTerminated] at hall
              exact Or.inl ⟨congrArg (a :: ·) hall, hok⟩
            · rw [untilForeign_markTerminated] at hids
              rw [markTerminated, Table.get?_modify] at hhost
              have hother : id ≠ a := by
                intro hid
                rw [if_pos hid, hid, h] at hhost
                cases hhost
                exact hne hc
              rw [if_neg hother] at hhost
              exact Or.inr ⟨id, rest, host, congrArg (a :: ·) hids, hhost, hne, herr⟩
          · rw [untilForeign_cons_of_foreign (by simp [hforeign, hc])]
            simp only [hc, if_false]
            exact Or.inr ⟨a, ids, owned, rfl, h, hc, rfl⟩

theorem own_of_mem_untilForeign (h : id ∈ p.untilForeign cluster ids) :
    ∀ host, p.hosts.get? id = some host → host.cluster = cluster := by
  apply isForeign_eq_false_iff.mp
  simpa using List.mem_takeWhile_imp h

/-- All hosts are marked, or those in front of the first foreign one, which is then the reason to
refuse. -/
theorem markAll_cases (p : Provider) (cluster : String) (ids : List HostId) :
    (p.untilForeign cluster ids = ids ∧ p.markAll cluster ids = (.ok (), p.retire ids)) ∨
      ∃ id rest host, ids = p.untilForeign cluster ids ++ id :: rest ∧
        p.hosts.get? id = some host ∧ host.cluster ≠ cluster ∧
        p.markAll cluster ids =
          (.error (refusal cluster id host), p.retire (p.untilForeign cluster ids)) := by
  have hsnd := p.snd_markAll cluster ids
  obtain ⟨hall, hok⟩ | ⟨id, rest, host, hids, hhost, hne, herr⟩ := p.fst_markAll cluster ids
  · rw [hall] at hsnd
    exact .inl ⟨hall, Prod.ext hok hsnd⟩
  · exact .inr ⟨id, rest, host, hids, hhost, hne, Prod.ext herr hsnd⟩

/-- One host is marked, or it is refused and nothing changes. -/
theorem markAll_one (p : Provider) (cluster : String) (id : HostId) :
    p.markAll cluster [id] = (.ok (), p.retire [id]) ∨
      ∃ e, p.markAll cluster [id] = (.error e, p) := by
  obtain ⟨-, hmark⟩ | ⟨a, rest, host, hids, -, -, hmark⟩ := p.markAll_cases cluster [id]
  · exact .inl hmark
  · have hnone : p.untilForeign cluster [id] = [] := by
      cases hu : p.untilForeign cluster [id] with
      | nil => rfl
      | cons b before =>
          rw [hu] at hids
          simp at hids
    rw [hnone] at hmark
    exact .inr ⟨_, hmark⟩

/-! ## Terminations -/

/-- A termination leaves what it is not to record, also when it is refused. -/
theorem terminateHosts_eq (p : Provider) (cluster : String) (ids : List HostId) (drain : Bool) :
    let p' := (p.terminateHosts cluster ids drain).2
    p' = { p with hosts := p'.hosts, terminations := p'.terminations } := by
  have hsnd := p.snd_markAll cluster ids
  rw [terminateHosts]
  split <;> rename_i hm <;> rw [hm] at hsnd <;> subst hsnd <;> rw [retire_eq]

/-- A termination that is accepted marks all its hosts and is recorded. -/
theorem eq_of_terminateHosts {drain : Bool}
    (h : p.terminateHosts cluster ids drain = (.ok (), p')) :
    p' = { p.retire ids with terminations := p.terminations ++ [⟨cluster, ids, drain⟩] } := by
  obtain ⟨-, hmark⟩ | ⟨id, rest, host, -, -, -, hmark⟩ := p.markAll_cases cluster ids
  · rw [terminateHosts, hmark] at h
    cases h
    rw [terminations_retire]
  · rw [terminateHosts, hmark] at h
    cases h

/-- Nothing but a foreign host is a reason to refuse a termination. -/
theorem exists_refusal_of_terminateHosts {drain : Bool} {e : ControlError}
    (h : (p.terminateHosts cluster ids drain).1 = .error e) :
    ∃ id host, e = refusal cluster id host := by
  obtain ⟨-, hmark⟩ | ⟨id, rest, host, -, -, -, hmark⟩ := p.markAll_cases cluster ids
  · rw [terminateHosts, hmark] at h
    cases h
  · rw [terminateHosts, hmark] at h
    cases h
    exact ⟨id, host, rfl⟩

end Provider

/-- A termination that is accepted marks its hosts at the provider and changes nothing else. -/
theorem World.eq_of_terminateHosts {w v : World} {cluster : String} {ids : List HostId}
    {drain : Bool} {u : Unit}
    (h : World.answer (.provider (.terminateHosts cluster ids drain)) w = (.ok u, v)) :
    v = { w with provider := { w.provider.retire ids with
      terminations := w.provider.terminations ++ [⟨cluster, ids, drain⟩] } } := by
  simp only [World.answer, Provider.answer] at h
  cases hm : w.provider.terminateHosts cluster ids drain with
  | mk r p =>
      rw [hm] at h
      cases r with
      | error e => cases h
      | ok =>
          cases h
          rw [Provider.eq_of_terminateHosts hm]

end FleetControl
