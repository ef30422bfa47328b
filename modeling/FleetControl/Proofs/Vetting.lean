import FleetControl.Proofs.Settling

/-!
# Vetting the launched hosts

A smooth tick of an event in LAUNCHING judges every tracked host by what the provider and the
agents say at that moment. A host is lost if it was terminated, or if it runs and one of its
agents has failed. Lost hosts are terminated in one request and not tracked any longer, and the
event launches again. If none is lost, the event goes on once every tracked host runs and serves.
-/
namespace FleetControl

open Program

namespace Replacement

open Settlement

variable {config : ReplacementSettings} {raises : Fault → Prop} {event : UpgradeEvent}
  {s : Store} {w : World} {now : Instant} {j : Journal World} {id : HostId}

/-- Whether a host was terminated, or runs with an agent that neither serves nor is on its way
there. -/
def IsLost (p : Provider) (s : Store) (id : HostId) : Prop :=
  p.isTerminated id = true ∨ (p.isRunning id = true ∧ ∃ env a, s.agent? env id = some a ∧
    a.isServing = false ∧ a.status.isTransient = false)

/-- Whether a host runs and has agents that all serve. -/
def IsReady (p : Provider) (s : Store) (id : HostId) : Prop :=
  p.isRunning id = true ∧ (∃ env a, s.agent? env id = some a) ∧
    ∀ env a, s.agent? env id = some a → a.isServing = true

/-- What the agents on a host must say for it to be ready. -/
def allServe (s : Store) (id : HostId) : Bool :=
  !(s.agentsOn id).isEmpty && (s.agentsOn id).all Agent.isServing

theorem mem_agentsOn {a : Agent} : a ∈ s.agentsOn id ↔ ∃ env, s.agent? env id = some a := by
  rw [Store.agentsOn, Table.mem_values_iff]
  simp only [Store.agent?]
  cases s.agents.get? id <;> simp

theorem allServe_iff : allServe s id = true ↔ (∃ env a, s.agent? env id = some a) ∧
    ∀ env a, s.agent? env id = some a → a.isServing = true := by
  have hsome : (s.agentsOn id).isEmpty = false ↔ ∃ env a, s.agent? env id = some a := by
    rw [Bool.eq_false_iff, ne_eq, List.isEmpty_iff]
    constructor
    · intro hne
      obtain ⟨a, ha⟩ := List.exists_mem_of_ne_nil _ hne
      obtain ⟨env, ha⟩ := mem_agentsOn.mp ha
      exact ⟨env, a, ha⟩
    · rintro ⟨env, a, ha⟩
      exact List.ne_nil_of_mem (mem_agentsOn.mpr ⟨env, ha⟩)
  rw [allServe, Bool.and_eq_true, Bool.not_eq_true', hsome, List.all_eq_true]
  refine and_congr_right fun _ => ?_
  simp only [mem_agentsOn]
  exact ⟨fun h env a ha => h a ⟨env, ha⟩, fun h a ⟨env, ha⟩ => h env a ha⟩

/-- The lost ones of some hosts. -/
def lostHosts (p : Provider) (s : Store) (tracked : IdSet) : IdSet :=
  tracked.filter fun id => p.isTerminated id || (p.isRunning id && s.hasFailedAgent id)

theorem mem_lostHosts {p : Provider} {tracked : IdSet} :
    id ∈ lostHosts p s tracked ↔ id ∈ tracked ∧ IsLost p s id := by
  rw [lostHosts, IdSet.mem_filter, Bool.or_eq_true, Bool.and_eq_true, Store.hasFailedAgent_iff]
  simp only [IsLost, Agent.isFailed, Bool.and_eq_true, Bool.not_eq_true']

/-- What is decided about the tracked hosts. -/
def verdict (p : Provider) (s : Store) (tracked : IdSet) : Decision UpgradeState :=
  if tracked = .empty ∨ lostHosts p s tracked ≠ .empty then .enter .init .succeeded
  else if tracked.toList.all fun id => p.isRunning id && allServe s id then
    .enter .replacing .succeeded
  else .stay

/-- Looking at the agents of some hosts finds the failed ones and tells whether all serve. -/
theorem smooth_inspect (hosts : List HostId) (ready : Bool) (failed : IdSet)
    (h : Settling w s event [] [] [] event j) :
    (inspect hosts ready failed).Smooth raises (fun found j' =>
      Settling w s event [] [] [] event j' ∧ found.1 = (ready && hosts.all (allServe s)) ∧
      ∀ id, id ∈ found.2 ↔ id ∈ failed ∨ (id ∈ hosts ∧ s.hasFailedAgent id = true)) j := by
  induction hosts generalizing ready failed j with
  | nil => exact ⟨h, by simp, by simp⟩
  | cons host hosts ih =>
      refine h.look (a := s.agentsOn host) rfl fun j₁ h₁ => ?_
      split
      · rename_i hnone
        refine (ih false failed h₁).imp ?_
        rintro found j' ⟨hw, hready, hfailed⟩
        refine ⟨hw, ?_, ?_⟩
        · simp [hready, allServe, hnone]
        · have hhost : s.hasFailedAgent host = false := by
            rw [Store.hasFailedAgent, List.isEmpty_iff.mp hnone]
            rfl
          intro id
          rw [hfailed]
          refine or_congr_right ⟨fun hid => ⟨List.mem_cons_of_mem _ hid.1, hid.2⟩, ?_⟩
          rintro ⟨hid, hf⟩
          obtain rfl | hid := List.mem_cons.mp hid
          · rw [hhost] at hf
            cases hf
          · exact ⟨hid, hf⟩
      · rename_i hsome
        refine (ih _ _ h₁).imp ?_
        rintro found j' ⟨hw, hready, hfailed⟩
        refine ⟨hw, ?_, fun id => ?_⟩
        · rw [hready, List.all_cons, allServe, Bool.eq_false_iff.mpr hsome, Bool.and_assoc]
          rfl
        · rw [hfailed]
          have hhost : id ∈ (if (s.agentsOn host).any Agent.isFailed then failed.insert host
              else failed) ↔ id ∈ failed ∨ (id = host ∧ s.hasFailedAgent id = true) := by
            rw [← Store.hasFailedAgent]
            split
            · rename_i hf
              rw [IdSet.mem_insert, or_comm]
              exact or_congr_right ⟨fun he => ⟨he, he ▸ hf⟩, fun he => he.1⟩
            · rename_i hf
              refine ⟨.inl, fun he => he.resolve_right ?_⟩
              rintro ⟨rfl, hf'⟩
              exact hf hf'
          rw [hhost, or_assoc, List.mem_cons, or_and_right]

/-- All hosts run and serve if as many run as there are and all that run serve. -/
theorem all_running (p : Provider) (s : Store) (tracked : List HostId) :
    ((tracked.filter p.isRunning).length == tracked.length &&
      (tracked.filter p.isRunning).all (allServe s)) =
        tracked.all fun id => p.isRunning id && allServe s id := by
  rw [Bool.eq_iff_iff, Bool.and_eq_true, beq_iff_eq, List.length_filter_eq_length_iff]
  simp only [List.all_eq_true, List.mem_filter, Bool.and_eq_true]
  exact ⟨fun h id hid => ⟨h.1 id hid, h.2 id ⟨hid, h.1 id hid⟩⟩,
    fun h => ⟨fun id hid => (h id hid).1, fun id hid => (h id hid.1).2⟩⟩

/-- A smooth step in LAUNCHING terminates the lost hosts and decides as the verdict says. -/
theorem smooth_launching (h : Settling w s event [] [] [] event j) :
    (launching event).Smooth raises (fun result j' =>
      let lost := (lostHosts w.provider s event.hostIds).toList
      result = (event.withHostIds (event.hostIds.eraseAll lost),
        verdict w.provider s event.hostIds) ∧
      Settling w s event lost (requested [⟨event.cluster, lost, true⟩]) [] event j') j := by
  have hself : event.withHostIds (event.hostIds.eraseAll []) = event := by
    rw [IdSet.eraseAll_nil]
    rfl
  -- without lost hosts the step leaves the world alone
  have hkeep : ∀ {j' : Journal World} {d : Decision UpgradeState},
      lostHosts w.provider s event.hostIds = .empty →
      d = verdict w.provider s event.hostIds → Settling w s event [] [] [] event j' →
      (pure (event, d) : Program (UpgradeEvent × Decision UpgradeState)).Smooth raises
        (fun result j' =>
          let lost := (lostHosts w.provider s event.hostIds).toList
          result = (event.withHostIds (event.hostIds.eraseAll lost),
            verdict w.provider s event.hostIds) ∧
          Settling w s event lost (requested [⟨event.cluster, lost, true⟩]) [] event j') j' := by
    intro j' d hlost hd h'
    dsimp only
    rw [← hd, hlost, IdSet.toList_empty]
    exact ⟨by rw [hself], h'⟩
  rw [launching]
  split
  · rename_i hnone
    have hempty : event.hostIds = .empty := IdSet.isEmpty_iff.mp hnone
    refine hkeep ?_ ?_ h
    · rw [hempty]
      rfl
    · rw [verdict, if_pos (.inl hempty)]
  · rename_i hsome
    refine h.look (a := IdSet.ofList (event.hostIds.toList.filter w.provider.isTerminated)) rfl
      fun j₁ h₁ => ?_
    refine h₁.look (a := event.hostIds.toList.filter w.provider.isRunning) rfl fun j₂ h₂ => ?_
    refine .bind (smooth_inspect _ _ _ h₂) ?_
    rintro ⟨ready, failed⟩ j₃ ⟨h₃, hready, hfailed⟩ -
    have hlost : failed = lostHosts w.provider s event.hostIds := by
      ext id
      rw [hfailed, IdSet.mem_ofList, List.mem_filter, List.mem_filter, lostHosts,
        IdSet.mem_filter, Bool.or_eq_true, Bool.and_eq_true, and_assoc, ← and_or_left]
      rfl
    dsimp only at hready ⊢
    rw [all_running] at hready
    subst hlost hready
    have hsome' : event.hostIds ≠ .empty := mt IdSet.isEmpty_iff.mpr hsome
    split
    · rename_i hnone
      have hlost := IdSet.isEmpty_iff.mp hnone
      refine hkeep hlost ?_ h₃
      rw [verdict, if_neg (not_or.mpr ⟨hsome', not_not_intro hlost⟩)]
    · rename_i hlost
      have hverdict : verdict w.provider s event.hostIds = .enter .init .succeeded :=
        if_pos (.inr (mt IdSet.isEmpty_iff.mpr hlost))
      have hts : requested [⟨event.cluster, (lostHosts w.provider s event.hostIds).toList, true⟩] =
          [⟨event.cluster, (lostHosts w.provider s event.hostIds).toList, true⟩] := by
        rw [requested, List.filter_cons_of_pos (by simpa [IdSet.isEmpty] using hlost)]
        rfl
      rw [hverdict, hts]
      exact .bind (smooth_terminate h₃) fun _ j₄ h₄ _ => ⟨rfl, h₄⟩

/-- The event after the vetting of its hosts. -/
def vetted (w : World) (s : Store) (event : UpgradeEvent) (now : Instant) : UpgradeEvent :=
  (event.withHostIds
    (event.hostIds.eraseAll (lostHosts w.provider s event.hostIds).toList)).afterStep now
      (verdict w.provider s event.hostIds)

/-- What a smooth tick in LAUNCHING makes of the world. -/
theorem smooth_vet (h : Due config event now w s) (hst : event.state = UpgradeState.launching) :
    ((lifecycle config).advance event.id now).Smooth raises (fun progress j' =>
      let lost := (lostHosts w.provider s event.hostIds).toList
      progress = (verdict w.provider s event.hostIds).progress UpgradeState.launching ∧
      j'.state = settlingWorld w s (vetted w s event now) lost
        (requested [⟨event.cluster, lost, true⟩]) []) (.start w) := by
  have hopen : event.state ≠ UpgradeState.completed := by simp [hst]
  refine smooth_advance h hopen fun j hj _ => smooth_takeStep ?_
  have hstep : (lifecycle config).step event now = launching event := by
    simp only [lifecycle, step, hst]
  rw [hstep]
  refine (smooth_launching (.start h.store h.stored hj)).imp ?_
  rintro _ j₁ ⟨rfl, h₁⟩
  refine ⟨_, by rw [h₁.state]; rfl, by rw [hst], ?_⟩
  have hid : (vetted w s event now).id = event.id := Item.id_afterStep _ _ _
  rw [settlingWorld, ← Store.putItem_putItem _ hid, Journal.enter, h₁.state]
  rfl

/-- A tick of an event in LAUNCHING in which no call fails and nobody interferes, whatever the
provider and the agents say. The lost hosts are terminated in one request, in increasing order,
and not tracked any longer. The event launches again if it tracks nothing or has lost a host,
goes on if every tracked host is ready, and stays otherwise. Nothing else changes but the records
of the hosts that were lost. -/
theorem vets_tracked_hosts (raises : Fault → Prop) {r : Outcome (Progress UpgradeState)}
    (h : Due config event now w s) (hst : event.state = UpgradeState.launching)
    (he : ((lifecycle config).advance event.id now).Ends
      (World.Possible Eq raises).flawless.recorded (.start w) r j) :
    ∃ (D : List HostId) (stored : UpgradeEvent),
      D.Pairwise (· < ·) ∧ (∀ id, id ∈ D ↔ id ∈ event.hostIds ∧ IsLost w.provider s id) ∧
      let entered (state : UpgradeState) (tracked : IdSet) : UpgradeEvent :=
        { event with
          state := state
          details := ⟨tracked⟩
          header := { event.header with
            status := some .succeeded
            stateStartTime := now
            lastWorkedOn := now } }
      (event.hostIds = .empty ∨ D ≠ [] →
        r = .ok (.transitioned UpgradeState.launching UpgradeState.init) ∧
        stored = entered .init (event.hostIds.eraseAll D)) ∧
      (event.hostIds ≠ .empty → D = [] → (∀ id ∈ event.hostIds, IsReady w.provider s id) →
        r = .ok (.transitioned UpgradeState.launching UpgradeState.replacing) ∧
        stored = entered .replacing event.hostIds) ∧
      (event.hostIds ≠ .empty → D = [] → ¬(∀ id ∈ event.hostIds, IsReady w.provider s id) →
        r = .ok .stayed ∧
        stored = { event with header := { event.header with lastWorkedOn := now } }) ∧
      ∃ s' hosts, j.state = { w with
          store := some s'
          provider := { w.provider with
            hosts := hosts
            terminations := w.provider.terminations ++ requested [⟨event.cluster, D, true⟩] } } ∧
        (∀ id, hosts.get? id =
          if id ∈ D then (w.provider.hosts.get? id).map fun host =>
            { host with terminated := true }
          else w.provider.hosts.get? id) ∧
        s' = { s with events := s.events.insert event.id stored, hosts := s'.hosts } ∧
        ∀ id, s'.hosts.get? id =
          if id ∈ D then (s.hosts.get? id).map fun host =>
            { host with state := .terminating, lastUpdate := w.clock }
          else s.hosts.get? id := by
  obtain ⟨progress, rfl, rfl, hstate⟩ := (smooth_vet h hst).ends he
  have hready : (event.hostIds.toList.all fun id => w.provider.isRunning id && allServe s id) =
      true ↔ ∀ id ∈ event.hostIds, IsReady w.provider s id := by
    simp only [List.all_eq_true, Bool.and_eq_true, allServe_iff, IdSet.mem_toList, IsReady]
  refine ⟨_, vetted w s event now, (lostHosts w.provider s event.hostIds).sorted,
    fun id => mem_lostHosts, ?_, ?_, ?_,
    { s.setHostState w.clock (lostHosts w.provider s event.hostIds).toList .terminating with
      events := s.events.insert event.id (vetted w s event now) }, _, ?_,
    Provider.get?_retire _ _, rfl, Store.get?_setHostState _ _ _ _⟩
  · intro hback
    have hverdict : verdict w.provider s event.hostIds = .enter .init .succeeded :=
      if_pos (hback.imp_right (mt IdSet.toList_eq_nil.mpr))
    rw [vetted, hverdict]
    exact ⟨rfl, rfl⟩
  · intro hsome hkept hall
    have hgo := not_or.mpr ⟨hsome, not_not_intro (IdSet.toList_eq_nil.mp hkept)⟩
    have hverdict : verdict w.provider s event.hostIds = .enter .replacing .succeeded := by
      rw [verdict, if_neg hgo, if_pos (hready.mpr hall)]
    rw [vetted, hverdict, hkept, IdSet.eraseAll_nil]
    exact ⟨rfl, rfl⟩
  · intro hsome hkept hwait
    have hgo := not_or.mpr ⟨hsome, not_not_intro (IdSet.toList_eq_nil.mp hkept)⟩
    have hverdict : verdict w.provider s event.hostIds = .stay := by
      rw [verdict, if_neg hgo, if_neg (mt hready.mp hwait)]
    rw [vetted, hverdict, hkept, IdSet.eraseAll_nil]
    exact ⟨rfl, rfl⟩
  · have hid : (vetted w s event now).id = event.id := Item.id_afterStep _ _ _
    rw [hstate, settlingWorld, List.append_nil, ← hid]
    rfl

/-- An event in LAUNCHING with five tracked hosts. -/
def vettingEvent : UpgradeEvent :=
  { (UpgradeEvent.new "event" "web" "prod" .epoch).withHostIds
      (.ofList ["t", "u", "v", "x", "y"]) with state := UpgradeState.launching }

/-- A cluster with a new host that serves, one that has failed, one that says nothing yet, one
that was terminated and one of which the provider knows nothing. -/
def launchedPool : World :=
  let host (id : HostId) : Host := ⟨id, "web", .running, false, .epoch, .epoch⟩
  let agent (id : HostId) (stage : DeployStage) (status : AgentStatus) : Agent :=
    ⟨id, "prod", stage, status, .normal, none, none, .epoch⟩
  let cluster : Cluster := ⟨"web", "prod", .normal, none, 0, ⟨[], [], none⟩, .epoch⟩
  let hosts := ["t", "u", "v"].foldl (fun s id => s.insertHost (host id)) Store.empty
  let agents := [agent "t" .servingBuild .succeeded,
    agent "u" .restarting .agentFailed].foldl Store.putAgent hosts
  let store := agents.putItem .upgrade vettingEvent
  { World.initial .epoch (.seeded 0) with
    store := some { store with clusters := store.clusters.insert cluster.name cluster }
    provider := (["t", "u", "v", "x"].foldl (fun p id => p.addHost "web" id)
      Provider.empty).markTerminated "v" }

theorem keyed_launchedPool : launchedPool.tables.Keyed := by
  refine .insertCluster (.putItem (.putAgent (.putAgent ?_ _) _) _ _) _
  exact .insertHost (.insertHost (.insertHost Store.keyed_empty _) _) _

/-- The failed host and the terminated one are lost, and the event launches again. -/
theorem vets_tracked_hosts_launchedPool :
    Due {} vettingEvent .epoch launchedPool launchedPool.tables ∧
    ∃ r j s', ((lifecycle {}).advance vettingEvent.id .epoch).Ends
        (World.Possible Eq fun _ => False).flawless.recorded (.start launchedPool) r j ∧
      r = .ok (.transitioned UpgradeState.launching UpgradeState.init) ∧
      j.state.provider.terminations = [⟨"web", ["u", "v"], true⟩] ∧
      j.state.store = some s' ∧ s'.agents = launchedPool.tables.agents ∧
      s'.clusters = launchedPool.tables.clusters := by
  have hdue : Due {} vettingEvent .epoch launchedPool launchedPool.tables :=
    ⟨rfl, keyed_launchedPool, rfl, ⟨_, rfl, by decide⟩, ⟨_, rfl, by decide⟩⟩
  have he := ends_smooth (fun _ => False)
    (p := (lifecycle {}).advance vettingEvent.id .epoch) (w := launchedPool) (by decide +kernel)
  obtain ⟨D, stored, -, hD, hback, -, -, s', hosts, hstate, -, hs', -⟩ :=
    vets_tracked_hosts _ hdue rfl he
  have hlost : D ≠ [] := by
    have hmem : "v" ∈ D := (hD "v").mpr ⟨by decide, .inl (by decide)⟩
    exact List.ne_nil_of_mem hmem
  refine ⟨hdue, _, _, s', he, (hback (.inr hlost)).1, by decide +kernel, ?_, ?_, ?_⟩
  · rw [hstate]
  · rw [hs']
  · rw [hs']

end Replacement

end FleetControl
