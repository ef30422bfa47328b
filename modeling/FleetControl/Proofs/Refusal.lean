import FleetControl.Proofs.Roster

/-!
# Terminations that are refused

A provider in memory marks the hosts of a termination one after the other and gives up at the
first that belongs to another cluster. The hosts before it are terminated by then, although the
call is refused and nothing records it. So a refused termination leaves the provider as it was
only if there was nothing left to mark before the foreign host.
-/
namespace FleetControl

namespace Provider

variable {p p' : Provider} {ids : List HostId}

/-- Nothing changes by marking hosts exactly if those of them that are known were marked
before. -/
theorem retire_eq_self_iff : p.retire ids = p ↔
    ∀ id ∈ ids, ∀ host, p.hosts.get? id = some host → host.terminated = true := by
  constructor
  · intro h id hid host hhost
    have hmarked := p.get?_retire ids id
    rw [h, if_pos hid, hhost] at hmarked
    exact congrArg ProviderHost.terminated (Option.some.inj hmarked)
  · intro h
    have hhosts : (p.retire ids).hosts = p.hosts := by
      apply Table.ext_get?
      intro id
      rw [get?_retire]
      by_cases hid : id ∈ ids
      · rw [if_pos hid]
        cases hhost : p.hosts.get? id with
        | none => rfl
        | some host =>
            have hterminated := h id hid host hhost
            cases host
            simpa using hterminated.symm
      · rw [if_neg hid]
    rw [retire_eq, hhosts]

/-- One provider is another with some hosts terminated. -/
structure Retires (p : Provider) (ids : List HostId) (p' : Provider) : Prop where
  /-- Of the hosts exactly the known ones among the ids change, in that they are terminated. -/
  hosts : ∀ id, p'.hosts.get? id =
    if id ∈ ids then (p.hosts.get? id).map fun h => { h with terminated := true }
    else p.hosts.get? id
  /-- Nothing but the hosts and the record of terminations changes. -/
  rest : p' = { p with hosts := p'.hosts, terminations := p'.terminations }

theorem retires_retire (p : Provider) (ids : List HostId) : p.Retires ids (p.retire ids) := by
  constructor
  · exact p.get?_retire ids
  · rw [retire_eq]

/-- The record of terminations is not looked at. -/
theorem Retires.recording (h : p.Retires ids p') (ts : List Termination) :
    p.Retires ids { p' with terminations := ts } := by
  constructor
  · exact h.hosts
  · rw [h.rest]

/-- What a call to terminate hosts comes to. -/
inductive Concludes (p : Provider) (cluster : String) (ids : List HostId) (drain : Bool) :
    Except ControlError Unit → Provider → Prop where
  | accepted {p' : Provider}
      (own : ∀ id ∈ ids, ∀ host, p.hosts.get? id = some host → host.cluster = cluster)
      (marks : p.Retires ids p')
      (recorded : p'.terminations = p.terminations ++ [⟨cluster, ids, drain⟩]) :
      Concludes p cluster ids drain (.ok ()) p'
  | refused {p' : Provider} {before after : List HostId} {id : HostId} {host : ProviderHost}
      (split : ids = before ++ id :: after)
      (own : ∀ a ∈ before, ∀ host, p.hosts.get? a = some host → host.cluster = cluster)
      (known : p.hosts.get? id = some host) (foreign : host.cluster ≠ cluster)
      (marks : p.Retires before p') (unrecorded : p'.terminations = p.terminations)
      (unchanged_iff : p' = p ↔
        ∀ a ∈ before, ∀ host, p.hosts.get? a = some host → host.terminated = true) :
      Concludes p cluster ids drain (.error (refusal cluster id host)) p'

/-- A termination is accepted exactly if none of the hosts belongs to another cluster. If it is
accepted then exactly the known hosts are terminated and the call is recorded once. If it is
refused then the hosts in front of the first foreign one are terminated all the same. -/
theorem terminateHosts_concludes (p : Provider) (cluster : String) (ids : List HostId)
    (drain : Bool) :
    p.Concludes cluster ids drain (p.terminateHosts cluster ids drain).1
        (p.terminateHosts cluster ids drain).2 ∧
      ((p.terminateHosts cluster ids drain).1 = .ok () ↔
        ∀ id ∈ ids, ∀ host, p.hosts.get? id = some host → host.cluster = cluster) := by
  obtain ⟨hall, hmark⟩ | ⟨id, rest, host, hids, hhost, hne, hmark⟩ := p.markAll_cases cluster ids
  · have hown : ∀ id ∈ ids, ∀ host, p.hosts.get? id = some host → host.cluster = cluster := by
      intro id hid
      rw [← hall] at hid
      exact own_of_mem_untilForeign hid
    have hterminate : p.terminateHosts cluster ids drain = (.ok (), { p.retire ids with
        terminations := p.terminations ++ [⟨cluster, ids, drain⟩] }) := by
      simp only [terminateHosts, hmark, terminations_retire]
    rw [hterminate]
    constructor
    · exact .accepted hown ((p.retires_retire ids).recording _) rfl
    · exact ⟨fun _ => hown, fun _ => rfl⟩
  · have hterminate : p.terminateHosts cluster ids drain =
        (.error (refusal cluster id host), p.retire (p.untilForeign cluster ids)) := by
      simp only [terminateHosts, hmark]
    have hid : id ∈ ids := by
      rw [hids]
      exact List.mem_append_right _ List.mem_cons_self
    rw [hterminate]
    constructor
    · exact .refused hids (fun a => own_of_mem_untilForeign) hhost hne (p.retires_retire _)
        (p.terminations_retire _) retire_eq_self_iff
    · constructor
      · intro h
        cases h
      · intro hown
        exact absurd (hown id hid host hhost) hne

/-- A termination of a host of the cluster and a foreign one is refused, and nothing records
it. The first of the two is terminated. -/
theorem refused_termination_terminates :
    let p := (empty.addHost "web" "i-a").addHost "api" "i-b"
    let (r, p') := p.terminateHosts "web" ["i-a", "i-b"] false
    r = .error (.fleet "host i-b belongs to api, not web") ∧
      p.isTerminated "i-a" = false ∧ p'.isTerminated "i-a" = true ∧
      p'.isTerminated "i-b" = false ∧ p'.terminations = [] ∧ p' ≠ p := by
  refine ⟨by decide +kernel, by decide +kernel, by decide +kernel, by decide +kernel,
    by decide +kernel, ?_⟩
  intro h
  have hmark := congrArg (Provider.isTerminated · "i-a") h
  exact absurd hmark (by decide +kernel)

end Provider

end FleetControl
