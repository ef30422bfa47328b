import FleetControl.Proofs.Listing
import FleetControl.Proofs.Smooth

/-!
# The budget of a drain

A smooth tick of an event in REPLACING drains its plan in full: of the retirable hosts that
stay, in increasing order but failed ones first, as many as agents serve beyond the pool's
size. The drained hosts are put on their way out and their agents of the environment are told
to stop. Nothing else in the world changes but the heartbeat of the event.
-/
namespace FleetControl

open Program

/-- The hosts that were drained along a log, in the order of the calls. -/
def drainedIn (log : List (Entry World)) : List HostId := log.reverse.flatMap Entry.drained

@[simp] theorem drainedIn_cons (e : Entry World) (log : List (Entry World)) :
    drainedIn (e :: log) = drainedIn log ++ e.drained := by
  simp [drainedIn, List.flatMap_append]

theorem Entry.drained_of_isRead {e : Entry World} (h : e.call.isRead = true) :
    e.drained = [] := by
  unfold drained
  split
  · cases h
  · rfl

theorem drainedIn_eq_nil {log : List (Entry World)} (h : ∀ e ∈ log, e.call.isRead = true) :
    drainedIn log = [] := by
  rw [drainedIn, List.flatMap_eq_nil_iff]
  exact fun e he => Entry.drained_of_isRead (h e (List.mem_reverse.mp he))

namespace Replacement

variable {config : ReplacementSettings} {raises : Fault → Prop} {event : UpgradeEvent}
  {s : Store} {w : World} {now : Instant} {j : Journal World} {env : EnvId}
  {ids more : List HostId}

/-- Some hosts were drained, and nothing else was done. -/
structure Drained (w : World) (s : Store) (env : EnvId) (ids : List HostId)
    (j : Journal World) : Prop where
  state : j.state = drainedWorld w s env ids
  log : drainedIn j.log = ids

theorem Drained.start (hs : w.store = some s) (hj : j.state = w)
    (hl : ∀ e ∈ j.log, e.call.isRead = true) : Drained w s env [] j :=
  ⟨hj.trans (drainedWorld_nil hs).symm, drainedIn_eq_nil hl⟩

/-- Looking drains nothing. -/
theorem Drained.look {α : Type} {c : Call} {a : c.Reply} {f : c.Reply → Program α}
    {Q : α → Journal World → Prop} (h : Drained w s env ids j) (hc : c.isRead = true)
    (ha : World.answer c (drainedWorld w s env ids) = (.ok a, drainedWorld w s env ids))
    (hf : ∀ j', Drained w s env ids j' → (f a).Smooth raises Q j') :
    ((perform c).bind f).Smooth raises Q j := by
  rw [← h.state] at ha
  refine .next ha (hf _ ⟨h.state, ?_⟩)
  have hnone : Entry.drained ⟨j.state, c, .ok a, j.state⟩ = [] := Entry.drained_of_isRead hc
  rw [Journal.enter, drainedIn_cons, hnone, List.append_nil, h.log]

theorem smooth_drain (h : Drained w s event.envId ids j) :
    (drain event more).Smooth raises (fun _ => Drained w s event.envId (ids ++ more)) j := by
  rw [drain]
  split
  · rename_i hnone
    rw [List.isEmpty_iff.mp hnone, List.append_nil]
    exact h
  · refine smooth_perform fun u v ha => ?_
    rw [h.state] at ha
    refine ⟨eq_of_answer_drainHosts ha, ?_⟩
    rw [Journal.enter, drainedIn_cons, h.log]
    rfl

/-- What a step in REPLACING decides. -/
def replacingDecision (s : Store) (event : UpgradeEvent) : Decision UpgradeState :=
  if (s.retirableHostIds event.cluster).isEmpty then .enter .completing .succeeded else .stay

/-- A smooth step in REPLACING drains its plan. -/
theorem smooth_replacing (hs : w.store = some s) (h : Drained w s event.envId [] j) :
    (replacing event).Smooth raises (fun result j' =>
      result = (event, replacingDecision s event) ∧ Drained w s event.envId
        (drainPlan s (w.provider.poolSize event.cluster) event) j') j := by
  have hask {c : StoreCall} {a : c.Reply} (ha : s.answer w.now c = (.ok a, s)) :
      World.answer (.store c) (drainedWorld w s event.envId []) =
        (.ok a, drainedWorld w s event.envId []) := by
    rw [drainedWorld_nil hs]
    exact World.answer_ask hs ha
  refine h.look rfl (hask rfl) fun j₁ h₁ => ?_
  rw [replacingDecision]
  split
  · rename_i hnone
    refine ⟨rfl, ?_⟩
    rwa [drainPlan_of_isEmpty hnone]
  · refine h₁.look (a := w.provider.poolSize event.cluster) rfl rfl fun j₂ h₂ => ?_
    refine h₂.look rfl (hask rfl) fun j₃ h₃ => ?_
    split
    · rename_i hle
      refine ⟨rfl, ?_⟩
      rwa [drainPlan, Nat.sub_eq_zero_of_le hle, List.take_zero]
    · refine h₃.look rfl (hask rfl) fun j₄ h₄ => ?_
      have hplan := drainPlan_eq s (w.provider.poolSize event.cluster) event
      refine .bind (smooth_drain h₄) fun _ j₅ h₅ _ => ?_
      split
      · refine .bind (smooth_drain h₅) fun _ j₆ h₆ _ => ⟨rfl, ?_⟩
        rwa [hplan]
      · rename_i hlt
        refine ⟨rfl, ?_⟩
        rwa [hplan, Nat.sub_eq_zero_of_le (Nat.le_of_not_lt hlt), List.take_zero, List.append_nil]

/-- What a smooth tick in REPLACING makes of the world: its plan is drained, and the event is
stored as the step has decided. -/
theorem smooth_tick (h : Due config event now w s) (hst : event.state = UpgradeState.replacing) :
    ((lifecycle config).advance event.id now).Smooth raises (fun progress j' =>
      progress = (replacingDecision s event).progress event.state ∧
      drainedIn j'.log = drainPlan s (w.provider.poolSize event.cluster) event ∧
      j'.state = w.withStore ((s.drainHosts w.clock event.envId (drainPlan s
        (w.provider.poolSize event.cluster) event)).putItem .upgrade
          (event.afterStep now (replacingDecision s event)))) (.start w) := by
  have hopen : event.state ≠ UpgradeState.completed := by simp [hst]
  refine smooth_advance h hopen fun j hj hlog => smooth_takeStep ?_
  have hstep : (lifecycle config).step event now = replacing event := by
    simp only [lifecycle, step, hst]
  rw [hstep]
  refine (smooth_replacing h.store (.start h.store hj hlog)).imp ?_
  rintro _ j₁ ⟨rfl, h₁⟩
  refine ⟨_, by rw [h₁.state]; rfl, rfl, ?_, by rw [h₁.state]; rfl⟩
  rw [Journal.enter, drainedIn_cons, h₁.log]
  exact List.append_nil _

/-- The plan is the first part of all retirable hosts, put in the order of their draining. -/
theorem drainPlan_eq_take (s : Store) (poolSize : Nat) (event : UpgradeEvent) :
    let R := s.retirableHostIds event.cluster
    let F := R.filter s.hasFailedAgent
    drainPlan s poolSize event = (F ++ R.filter fun id => !F.contains id).take
      (min (s.countServing event.envId - poolSize) R.length) := by
  intro R F
  have hothers : (R.filter fun id => !F.contains id) = R.filter fun id => !s.hasFailedAgent id := by
    refine List.filter_congr fun id hid => ?_
    rw [Bool.not_inj_iff, Bool.eq_iff_iff, List.contains_iff_mem, List.mem_filter]
    exact and_iff_right hid
  have hlength : (F ++ R.filter fun id => !F.contains id).length = R.length := by
    rw [hothers, List.length_append, ← List.length_eq_length_filter_add]
  rw [drainPlan, s.retirableFailedHostIds_eq, ← hlength, ← List.take_eq_take_min]

/-- What draining and storing an event makes of the tables. -/
theorem drained_tables {ids : List HostId} {stored : UpgradeEvent}
    (hids : ∀ id ∈ ids, s.hosts.contains id = true) {clock : Instant} {s' : Store}
    (hs' : s' = (s.drainHosts clock event.envId ids).putItem .upgrade stored) :
    s' = { s with
      events := s.events.insert stored.id stored
      hosts := s'.hosts
      agents := s'.agents } ∧
    (∀ id ∈ ids, ∃ h, s.hosts.get? id = some h ∧ s'.hosts.get? id =
      some { h with state := .pendingTerminate, lastUpdate := clock }) ∧
    (∀ id ∉ ids, s'.hosts.get? id = s.hosts.get? id) ∧
    (∀ id ∈ ids, s'.agent? event.envId id =
      (s.agent? event.envId id).map fun a => { a with state := .stop }) ∧
    ∀ env id, ¬(id ∈ ids ∧ env = event.envId) → s'.agent? env id = s.agent? env id := by
  subst hs'
  have hhosts : ((s.drainHosts clock event.envId ids).putItem .upgrade stored).hosts =
      (s.setHostState clock ids .pendingTerminate).hosts := s.hosts_drainHosts clock _ ids
  have hagents : ∀ env id, ((s.drainHosts clock event.envId ids).putItem .upgrade stored).agent?
      env id = (s.drainHosts clock event.envId ids).agent? env id := fun _ _ => rfl
  refine ⟨?_, fun id hid => ?_, fun id hid => ?_, fun id hid => ?_, fun env id hid => ?_⟩
  · obtain ⟨hosts, agents, hd⟩ := s.drainHosts_eq clock event.envId ids
    rw [hd]
    rfl
  · obtain ⟨h, hh⟩ := Option.isSome_iff_exists.mp (hids id hid)
    exact ⟨h, hh, by rw [hhosts, Store.get?_setHostState, if_pos hid, hh]; rfl⟩
  · rw [hhosts, Store.get?_setHostState, if_neg hid]
  · rw [hagents, Store.agent?_drainHosts, if_pos ⟨hid, rfl⟩]
  · rw [hagents, Store.agent?_drainHosts, if_neg hid]

/-- A tick of an event in REPLACING in which no call fails and nobody interferes. If no host of
the cluster may be retired, the event moves on and nothing else changes. Otherwise as many
hosts are drained as agents serve beyond the pool's size, failed ones first and each of them
once, and nothing but these hosts, their agents of the environment and the heartbeat of the
event changes. -/
theorem drains_within_budget (raises : Fault → Prop) {r : Outcome (Progress UpgradeState)}
    (h : Due config event now w s) (hst : event.state = UpgradeState.replacing)
    (he : ((lifecycle config).advance event.id now).Ends
      (World.Possible Eq raises).flawless.recorded (.start w) r j) :
    ∃ R : List HostId, R.Pairwise (· < ·) ∧
      (∀ id, id ∈ R ↔ s.Retirable event.cluster id) ∧
      let F := R.filter s.hasFailedAgent
      let B := s.countServing event.envId - w.provider.poolSize event.cluster
      let D := (F ++ R.filter fun id => !F.contains id).take (min B R.length)
      drainedIn j.log = D ∧ D.Nodup ∧
      (R = [] → r = .ok (.transitioned UpgradeState.replacing UpgradeState.completing) ∧
        j.state = w.withStore { s with
          events := s.events.insert event.id { event with
            state := UpgradeState.completing
            header := { event.header with
              status := some .succeeded
              stateStartTime := now
              lastWorkedOn := now } } }) ∧
      (R ≠ [] → r = .ok .stayed ∧ ∃ s', j.state = w.withStore s' ∧
        s' = { s with
          events := s.events.insert event.id (event.touch now)
          hosts := s'.hosts
          agents := s'.agents } ∧
        (∀ id ∈ D, ∃ host, s.hosts.get? id = some host ∧ s'.hosts.get? id =
          some { host with state := .pendingTerminate, lastUpdate := w.clock }) ∧
        (∀ id ∉ D, s'.hosts.get? id = s.hosts.get? id) ∧
        (∀ id ∈ D, s'.agent? event.envId id =
          (s.agent? event.envId id).map fun a => { a with state := .stop }) ∧
        ∀ env id, ¬(id ∈ D ∧ env = event.envId) → s'.agent? env id = s.agent? env id) := by
  obtain ⟨progress, rfl, rfl, hlog, hstate⟩ := (smooth_tick h hst).ends he
  have hplan := drainPlan_eq_take s (w.provider.poolSize event.cluster) event
  refine ⟨s.retirableHostIds event.cluster, s.sorted_listed h.keyed.hosts _ _,
    fun id => Store.mem_listed h.keyed.hosts, ?_⟩
  dsimp only at hplan ⊢
  rw [← hplan]
  refine ⟨hlog, nodup_drainPlan h.keyed, fun hnone => ?_, fun hsome => ?_⟩
  · rw [replacingDecision, hnone] at hstate ⊢
    rw [drainPlan_of_isEmpty (by rw [hnone]; rfl)] at hstate
    rw [hst]
    exact ⟨rfl, hstate⟩
  · rw [replacingDecision, if_neg (by simpa using hsome)] at hstate ⊢
    exact ⟨rfl, _, hstate, drained_tables
      (fun id hid => (stays_of_mem_drainPlan h.keyed hid).1) rfl⟩

/-- An event in REPLACING. -/
def drainingEvent : UpgradeEvent :=
  { UpgradeEvent.new "event" "web" "prod" .epoch with state := UpgradeState.replacing }

/-- A cluster whose pool may shrink to nothing. Two of its three hosts serve, and the agent of
the third has failed. -/
def mixedPool : World :=
  let host (id : HostId) : Host := ⟨id, "web", .running, true, .epoch, .epoch⟩
  let agent (id : HostId) (stage : DeployStage) (status : AgentStatus) : Agent :=
    ⟨id, "prod", stage, status, .normal, none, none, .epoch⟩
  let cluster : Cluster := ⟨"web", "prod", .normal, none, 0, ⟨[], [], none⟩, .epoch⟩
  let hosts := ["a", "b", "c"].foldl (fun s id => s.insertHost (host id)) Store.empty
  let agents := [agent "a" .servingBuild .succeeded, agent "b" .servingBuild .succeeded,
    agent "c" .restarting .agentFailed].foldl Store.putAgent hosts
  let store := agents.putItem .upgrade drainingEvent
  { World.initial .epoch (.seeded 0) with
    store := some { store with clusters := store.clusters.insert cluster.name cluster } }

theorem keyed_mixedPool : mixedPool.tables.Keyed := by
  refine Store.Keyed.insertCluster (.putItem (.putAgent (.putAgent (.putAgent
    (.insertHost (.insertHost (.insertHost Store.keyed_empty _) _) _) _) _) _) _ _) _

/-- The mixed pool gives the failed host and one of the others. The third stays. -/
theorem drains_within_budget_mixedPool :
    Due {} drainingEvent .epoch mixedPool mixedPool.tables ∧
    ∃ r j s', ((lifecycle {}).advance drainingEvent.id .epoch).Ends
        (World.Possible Eq fun _ => False).flawless.recorded (.start mixedPool) r j ∧
      r = .ok .stayed ∧ drainedIn j.log = ["c", "a"] ∧ j.state = mixedPool.withStore s' ∧
      s'.hosts.get? "b" = mixedPool.tables.hosts.get? "b" ∧
      s'.agent? "prod" "c" =
        (mixedPool.tables.agent? "prod" "c").map fun a => { a with state := .stop } := by
  have hdue : Due {} drainingEvent .epoch mixedPool mixedPool.tables :=
    ⟨rfl, keyed_mixedPool, rfl, ⟨_, rfl, by decide⟩, ⟨_, rfl, by decide⟩⟩
  have he := ends_smooth (fun _ => False)
    (p := (lifecycle {}).advance drainingEvent.id .epoch) (w := mixedPool) (by decide +kernel)
  have hlog : drainedIn (((lifecycle {}).advance drainingEvent.id .epoch).undisturbed
      (.start mixedPool)).log = ["c", "a"] := by decide +kernel
  obtain ⟨R, -, hmem, hdrained, -, -, hstays⟩ := drains_within_budget _ hdue rfl he
  have hsome : R ≠ [] := List.ne_nil_of_mem ((hmem "a").mpr
    ⟨_, rfl, by decide +kernel, by decide +kernel⟩)
  obtain ⟨hr, s', hs', -, -, hkept, hstopped, -⟩ := hstays hsome
  rw [← hdrained, hlog] at hkept hstopped
  exact ⟨hdue, _, _, s', he, hr, hlog, hs', hkept "b" (by decide), hstopped "c" (by decide)⟩

end Replacement

end FleetControl
