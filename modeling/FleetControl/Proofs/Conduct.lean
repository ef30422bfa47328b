import FleetControl.Proofs.Advance
import FleetControl.Proofs.Journal

/-!
# How a tick treats hosts

A tick works on one version of an item, the one that it has read. Its calls name the cluster
of that version only. A replacement drains hosts that were listed as retirable, attaches hosts
that the version tracks, and terminates such hosts and those that were listed as failed. A
check launches its probe host and terminates the one that the version names.
-/
namespace FleetControl

/-- The hosts that an item tracks. -/
def Item.trackedHosts : {k : ItemKind} → Item k → List HostId
  | .upgrade, event => event.hostIds.toList
  | .check, check => check.details.hostId.toList

namespace Entry

/-- The hosts that were launched. -/
def launched : Entry World → List HostId
  | ⟨_, .provider (.launchHosts _ _ _), .ok ids, _⟩ => ids
  | _ => []

/-- The hosts that were listed as failed ones of a cluster. -/
def failedHosts (cluster : String) : Entry World → List HostId
  | ⟨_, .store (.failedHostIds name), .ok ids, _⟩ => if name = cluster then ids else []
  | _ => []

/-- The hosts that were listed as ones that a cluster can do without. -/
def retirableHosts (cluster : String) : Entry World → List HostId
  | ⟨_, .store (.retirableHostIds name), .ok ids, _⟩
  | ⟨_, .store (.retirableFailedHostIds name), .ok ids, _⟩ => if name = cluster then ids else []
  | _ => []

end Entry

namespace Call

/-- Whether a call attaches hosts to a pool. -/
def isAttach : Call → Bool
  | .provider (.attachToPool _ _) => true
  | _ => false

theorem not_isAttach_of_isRead {c : Call} (h : c.isRead = true) : c.isAttach = false := by
  unfold isAttach
  split
  · cases h
  · rfl

end Call

namespace World.Possible

variable {outside : World → World → Prop} {raises : Fault → Prop} {w w' : World}
  {ids : List HostId}

/-- The hosts that run are among those that were asked about, in the same order. -/
theorem sublist_of_listRunning {active : List HostId}
    (h : World.Possible outside raises (.provider (.listRunning ids)) w (.ok active) w') :
    active.Sublist ids := by
  obtain ⟨v, -, hb | ⟨f, -, hr, -⟩⟩ := h
  · cases hb
    exact List.filter_sublist
  · cases hr

/-- The hosts that are terminated are among those that were asked about. -/
theorem subset_of_listTerminated {gone : IdSet}
    (h : World.Possible outside raises (.provider (.listTerminated ids)) w (.ok gone) w') :
    ∀ id ∈ gone, id ∈ ids := by
  obtain ⟨v, -, hb | ⟨f, -, hr, -⟩⟩ := h
  · cases hb
    exact fun id hid => (List.mem_filter.mp (IdSet.mem_ofList.mp hid)).1
  · cases hr

end World.Possible

open Program

/-! ## Replacements -/

namespace Replacement

variable {event changed y : UpgradeEvent} {past log : List (Entry World)} {ids : List HostId}

/-- The event with other hosts: tracked ones, and launched ones if its state launches. -/
def Amends (event : UpgradeEvent) (log : List (Entry World)) (changed : UpgradeEvent) : Prop :=
  Retracks event changed ∧ ∀ id ∈ changed.hostIds, id ∈ event.hostIds ∨
    (event.state = UpgradeState.init ∧ ∃ e ∈ log, id ∈ e.launched)

theorem Amends.refl : Amends event log event := ⟨.refl event, fun _ => .inl⟩

theorem Amends.mono (h : Amends event past changed) (hp : past <:+ log) :
    Amends event log changed := by
  refine ⟨h.1, fun id hid => (h.2 id hid).imp_right ?_⟩
  rintro ⟨hs, e, he, hl⟩
  exact ⟨hs, e, hp.subset he, hl⟩

/-- Tracking fewer hosts. -/
theorem Amends.shrink (h : Amends event log changed) {kept : IdSet}
    (hk : ∀ id ∈ kept, id ∈ changed.hostIds) : Amends event log (changed.withHostIds kept) :=
  ⟨h.1.withHostIds kept, fun id hid => h.2 id (hk id hid)⟩

/-- Whether a replacement has nothing left to do but to finish. -/
def Finishing (s : UpgradeState) : Prop := s = .completing ∨ s = .completed

/-- The calls of a tick that has read a version of an event. -/
inductive Conducts (event : UpgradeEvent) (past : List (Entry World)) : Call → Prop where
  | looks {c : Call} (h : c.isRead = true) : Conducts event past c
  | stores {y : UpgradeEvent} (hid : y.id = event.id) (hc : y.cluster = event.cluster)
      (hs : Finishing event.state → Finishing y.state)
      (hh : ∀ id ∈ y.hostIds, id ∈ event.hostIds ∨
        (event.state = UpgradeState.init ∧ ∃ e ∈ past, id ∈ e.launched)) :
      Conducts event past (.store (.updateItem .upgrade y))
  | launches (hs : event.state = UpgradeState.init) (count : Nat) :
      Conducts event past (.provider (.launchHosts event.cluster count none))
  | drains {ids : List HostId} (h : ∀ id ∈ ids, ∃ e ∈ past, id ∈ e.retirableHosts event.cluster) :
      Conducts event past (.store (.drainHosts event.envId ids))
  | attaches (hs : event.state = UpgradeState.completing) {ids : List HostId}
      (h : ∀ id ∈ ids, id ∈ event.hostIds) :
      Conducts event past (.provider (.attachToPool ids event.cluster))
  | terminates {ids : List HostId} {drain : Bool} (h : ∀ id ∈ ids,
        id ∈ event.hostIds ∨ ∃ e ∈ past, id ∈ e.failedHosts event.cluster) :
      Conducts event past (.provider (.terminateHosts event.cluster ids drain))
  | marks (ids : List HostId) : Conducts event past (.store (.setHostState ids .terminating))
  | resumes : Conducts event past (.store (.setClusterState event.cluster .normal))

theorem Conducts.mono {c : Call} (h : Conducts event past c) (hp : past <:+ log) :
    Conducts event log c := by
  cases h with
  | looks h => exact .looks h
  | stores hid hc hs hh =>
      refine .stores hid hc hs fun id hmem => (hh id hmem).imp_right ?_
      rintro ⟨hi, e, he, hl⟩
      exact ⟨hi, e, hp.subset he, hl⟩
  | launches hs count => exact .launches hs count
  | drains h =>
      refine .drains fun id hid => ?_
      obtain ⟨e, he, hl⟩ := h id hid
      exact ⟨e, hp.subset he, hl⟩
  | attaches hs h => exact .attaches hs h
  | terminates h =>
      refine .terminates fun id hid => (h id hid).imp_right ?_
      rintro ⟨e, he, hl⟩
      exact ⟨e, hp.subset he, hl⟩
  | marks ids => exact .marks ids
  | resumes => exact .resumes

/-- Hosts are attached in COMPLETING only. -/
theorem Conducts.not_isAttach {c : Call} (h : Conducts event past c)
    (hs : event.state ≠ UpgradeState.completing) : c.isAttach = false := by
  cases h with
  | looks h => exact Call.not_isAttach_of_isRead h
  | attaches hc => exact absurd hc hs
  | _ => rfl

/-- The rule of ticks that have read a version of an event. -/
def conduct (event : UpgradeEvent) : Rule World := fun past e => Conducts event past e.call

theorem Amends.stores (h : Amends event past changed) :
    Conducts event past (.store (.updateItem .upgrade changed)) := by
  obtain ⟨⟨ids, rfl⟩, hh⟩ := h
  exact .stores rfl rfl id hh

/-- What a step ends with: the event with other hosts, and from COMPLETING the end. -/
def Concludes (event : UpgradeEvent) (log : List (Entry World))
    (result : UpgradeEvent × Decision UpgradeState) : Prop :=
  Amends event log result.1 ∧ Decides event.state result.2

theorem Concludes.stores {result : UpgradeEvent × Decision UpgradeState}
    (h : Concludes event past result)
    (now : Instant) :
    Conducts event past (.store (.updateItem .upgrade (result.1.afterStep now result.2))) := by
  obtain ⟨changed, d⟩ := result
  obtain ⟨⟨⟨ids, rfl⟩, hh⟩, hd⟩ := h
  cases d with
  | stay => exact .stores rfl rfl id hh
  | move target status error =>
      refine .stores rfl rfl (fun hs => ?_) hh
      rcases hs with hs | hs
      all_goals
        simp only [hs] at hd
        cases hd
      exact .inr rfl

section

variable {outside : World → World → Prop} {raises : Fault → Prop} {j : Journal World}

/-- Following the rule of a version, with something to say about the values. -/
abbrev Treats (event : UpgradeEvent) (outside : World → World → Prop) (raises : Fault → Prop)
    {α : Type} (Q : α → Journal World → Prop) (p : Program α) (j : Journal World) : Prop :=
  p.Follows (World.Possible outside raises) (conduct event) (fun _ => True) Q j

/-- A call that is allowed. -/
theorem treats_perform {c : Call} {Q : c.Reply → Journal World → Prop}
    (hc : Conducts event j.log c) (hQ : ∀ a w, World.Possible outside raises c j.state (.ok a) w →
      Q a (j.enter c (.ok a) w)) : Treats event outside raises Q (perform c) j := by
  refine follows_perform.mpr fun r w hb => ⟨hc, ?_⟩
  cases r with
  | ok a => exact hQ a w hb
  | error f => trivial

/-- Programs that only look are allowed. -/
theorem treats_of_reads {α : Type} {p : Program α} {Q : α → Prop}
    (h : p.Meets (·.isRead = true) (fun _ => True) Q) :
    Treats event outside raises (fun a _ => Q a) p j :=
  (h.follows (fun _ _ _ _ hc _ _ => ⟨.looks hc, trivial⟩) trivial).imp fun _ _ hq => hq.1

theorem treats_terminate {drain : Bool}
    (h : ∀ id ∈ ids, id ∈ event.hostIds ∨ ∃ e ∈ j.log, id ∈ e.failedHosts event.cluster) :
    Treats event outside raises (fun _ _ => True) (terminate event.cluster ids drain) j := by
  refine .bind (Q := fun _ _ => True) (treats_perform (.terminates h) fun _ _ _ => trivial) ?_
  intro _ j' _ _
  exact treats_perform (.marks ids) fun _ _ _ => trivial

/-- The hosts that are found failed are among those known as failed and those looked at. -/
theorem meets_inspect (hosts : List HostId) (ready : Bool) (failed : IdSet) :
    (inspect hosts ready failed).Meets (·.isRead = true) (fun _ => True)
      fun found => ∀ id ∈ found.2, id ∈ failed ∨ id ∈ hosts := by
  induction hosts generalizing ready failed with
  | nil => exact fun id => .inl
  | cons host hosts ih =>
      refine .seq (within_ask.mpr rfl) fun agents => ?_
      split
      · refine (ih false failed).mono (fun _ => id) fun found h id hid => ?_
        exact (h id hid).imp_right (List.mem_cons_of_mem _)
      · refine (ih _ _).mono (fun _ => id) fun found h id hid => ?_
        rcases h id hid with hid | hid
        · split at hid
          · rcases IdSet.mem_insert.mp hid with rfl | hid
            · exact .inr List.mem_cons_self
            · exact .inl hid
          · exact .inl hid
        · exact .inr (List.mem_cons_of_mem _ hid)

theorem treats_launching (hs : event.state = UpgradeState.launching) :
    Treats event outside raises (fun result j' => Concludes event j'.log result)
      (launching event) j := by
  have hends : ∀ {log : List (Entry World)} {d : Decision UpgradeState},
      Decides .launching d → Concludes event log (event, d) :=
    fun hd => ⟨.refl, by rwa [hs]⟩
  rw [launching]
  split
  · exact hends .lost
  · refine .bind (Q := fun gone _ => ∀ id ∈ gone, id ∈ event.hostIds)
      (treats_perform (.looks rfl) fun gone w hb => hb.subset_of_listTerminated) ?_
    intro gone j₁ hgone _
    refine .bind (Q := fun running _ => List.Sublist running event.hostIds.toList)
      (treats_perform (.looks rfl) fun running w hb => hb.sublist_of_listRunning) ?_
    intro running j₂ hrunning _
    refine .bind (treats_of_reads (meets_inspect running _ gone)) ?_
    rintro ⟨ready, failed⟩ j₃ hfailed _
    have htracked : ∀ id ∈ failed, id ∈ event.hostIds := by
      intro id hid
      rcases hfailed id hid with hid | hid
      · exact hgone id hid
      · exact hrunning.subset hid
    dsimp only
    split
    · refine hends ?_
      split
      · exact .ready
      · exact .wait _
    · refine .bind (treats_terminate fun id hid => .inl (htracked id hid)) ?_
      intro _ j₄ _ _
      refine ⟨Amends.refl.shrink fun id hid => ?_, by rw [hs]; exact .lost⟩
      exact (IdSet.mem_eraseAll.mp hid).1

theorem treats_drain (h : ∀ id ∈ ids, ∃ e ∈ j.log, id ∈ e.retirableHosts event.cluster) :
    Treats event outside raises (fun _ _ => True) (drain event ids) j := by
  rw [drain]
  split
  · exact trivial
  · exact treats_perform (.drains h) fun _ _ _ => trivial

theorem treats_replacing (hs : event.state = UpgradeState.replacing) :
    Treats event outside raises (fun result j' => Concludes event j'.log result)
      (replacing event) j := by
  have hends : ∀ {log : List (Entry World)} {d : Decision UpgradeState},
      Decides .replacing d → Concludes event log (event, d) :=
    fun hd => ⟨.refl, by rwa [hs]⟩
  refine .bind (Q := fun retirable j' =>
    ∀ id ∈ retirable, ∃ e ∈ j'.log, id ∈ e.retirableHosts event.cluster) ?_ ?_
  · exact treats_perform (.looks rfl) fun retirable w _ id hid =>
      ⟨_, List.mem_cons_self, by simpa [Entry.retirableHosts] using hid⟩
  intro retirable j₁ hretirable _
  split
  · exact hends .drained
  · refine .bind (treats_of_reads (within_request.mpr rfl)) fun poolSize j₂ _ h₂ => ?_
    refine .bind (treats_of_reads (within_ask.mpr rfl)) fun serving j₃ _ h₃ => ?_
    split
    · exact hends (.wait _)
    · refine .bind (Q := fun failed j' =>
        ∀ id ∈ failed, ∃ e ∈ j'.log, id ∈ e.retirableHosts event.cluster) ?_ ?_
      · exact treats_perform (.looks rfl) fun failed w _ id hid =>
          ⟨_, List.mem_cons_self, by simpa [Entry.retirableHosts] using hid⟩
      intro failed j₄ hfailed h₄
      refine .bind (treats_drain fun id hid => hfailed id (List.mem_of_mem_take hid)) ?_
      intro _ j₅ _ h₅
      dsimp only
      split
      · refine .bind (treats_drain fun id hid => ?_) fun _ j₆ _ _ =>
          (hends (.wait _))
        obtain ⟨e, he, hl⟩ := hretirable id (List.mem_filter.mp (List.mem_of_mem_take hid)).1
        exact ⟨e, (((h₂.trans h₃).trans h₄).trans h₅).subset he, hl⟩
      · exact hends (.wait _)

theorem treats_launchMissing (config : ReplacementSettings) (env : Environment)
    (hs : event.state = UpgradeState.init) (limit needed : Nat) (launchedAny : Bool)
    (h : Amends event j.log changed) :
    Treats event outside raises (fun result j' => Concludes event j'.log result)
      (launchMissing config env limit needed launchedAny changed) j := by
  have hends : ∀ {log : List (Entry World)} {changed : UpgradeEvent}
      {d : Decision UpgradeState}, Amends event log changed → Decides .init d →
        Concludes event log (changed, d) :=
    fun h hd => ⟨h, by rwa [hs]⟩
  induction limit generalizing needed launchedAny changed j with
  | zero => exact hends h .launched
  | succ limit ih =>
      rw [launchMissing]
      split
      · exact hends h .launched
      · obtain ⟨kept, rfl⟩ := h.1
        refine .bind (Q := fun launched j' =>
          ∀ id ∈ launched, ∃ e ∈ j'.log, id ∈ e.launched) ?_ ?_
        · exact treats_perform (.launches hs _) fun launched w _ id hid =>
            ⟨_, List.mem_cons_self, hid⟩
        intro launched j₁ hlaunched h₁
        dsimp only
        split
        · refine .bind (treats_of_reads (within_notify.mpr rfl)) fun _ j₂ _ h₂ => ?_
          split
          · exact hends (h.mono (h₁.trans h₂)) (.wait _)
          · trivial
        · have hamends : Amends event j₁.log ((event.withHostIds kept).withHostIds
              ((event.withHostIds kept).hostIds.insertAll launched)) := by
            refine ⟨(Retracks.refl event).withHostIds _, fun id hid => ?_⟩
            rcases IdSet.mem_insertAll.mp hid with hid | hid
            · exact .inr ⟨hs, hlaunched id hid⟩
            · exact (h.mono h₁).2 id hid
          refine .bind (Q := fun _ _ => True)
            (treats_perform hamends.stores fun _ _ _ => trivial) ?_
          intro _ j₂ _ h₂
          exact ih _ _ (hamends.mono h₂)

theorem treats_init (config : ReplacementSettings) (hs : event.state = UpgradeState.init) :
    Treats event outside raises (fun result j' => Concludes event j'.log result)
      (init config event) j := by
  refine .bind (treats_of_reads (within_requireEnvironment rfl trivial)) ?_
  intro env j₁ _ _
  exact treats_launchMissing config env hs _ _ _ .refl

end

end Replacement

/-! ## Image checks -/

namespace ImageCheck

variable {check : HealthCheck}

/-- The calls of a tick that has read a version of a check. -/
inductive Conducts (check : HealthCheck) : Call → Prop where
  | looks {c : Call} (h : c.isRead = true) : Conducts check c
  | stores {y : HealthCheck} (hid : y.id = check.id) (hc : y.cluster = check.cluster) :
      Conducts check (.store (.updateItem .check y))
  | launches (image : Option String) :
      Conducts check (.provider (.launchHosts check.cluster 1 image))
  | inserts {host : Host} (h : host.cluster = check.cluster) :
      Conducts check (.store (.insertHost host))
  | offers (image : String) : Conducts check (.store (.setClusterImage check.cluster image))
  | terminates {id : HostId} (h : check.details.hostId = some id) :
      Conducts check (.provider (.terminateHosts check.cluster [id] false))
  | marks (ids : List HostId) : Conducts check (.store (.setHostState ids .terminating))
  | locks {c : Call} (h : c.isLockless = false) : Conducts check c

/-- The rule depends on few things that a version says. -/
theorem Conducts.of_eq {check' : HealthCheck} {c : Call} (hid : check'.id = check.id)
    (hc : check'.cluster = check.cluster)
    (hh : check'.details.hostId = check.details.hostId) (h : Conducts check' c) :
    Conducts check c := by
  cases h with
  | looks h => exact .looks h
  | stores hy hy' => exact .stores (hy.trans hid) (hy'.trans hc)
  | launches image => exact hc ▸ .launches image
  | inserts h => exact .inserts (h.trans hc)
  | offers image => exact hc ▸ .offers image
  | terminates h => exact hc ▸ .terminates (hh ▸ h)
  | marks ids => exact .marks ids
  | locks h => exact .locks h

/-- What only looks is allowed. -/
theorem meets_of_reads {α : Type} {p : Program α} {Q : α → Prop}
    (h : p.Meets (·.isRead = true) (fun _ => True) Q) :
    p.Meets (Conducts check) (fun _ => True) Q := h.mono (fun _ => .looks) fun _ => id

theorem conducts_init (config : ImageCheckSettings) (now : Instant)
    (hs : check.state = HealthCheckState.init) :
    (init config check now).Meets (Conducts check) (fun _ => True) (Steps check now .init) := by
  refine .seq (within_request.mpr (.launches _)) fun launched => ?_
  split
  · exact meets_of_reads (meets_fail (fun _ _ => trivial) _ hs _ _ (.unlaunched _))
  · exact .seq (within_ask.mpr (.inserts rfl)) fun _ => .launched _

theorem conducts_completing (check : HealthCheck) (now : Instant) :
    (completing check).Meets (Conducts check) (fun _ => True) (Steps check now .completing) := by
  refine meets_completing_of now ?_ fun id hid => ⟨.terminates hid, .marks _⟩
  exact within_imageIsBusy (fun _ hq => .looks hq) (fun _ => .locks) (fun _ _ => .offers _)
    (fun _ _ => trivial) fun _ _ => trivial

theorem conducts_step (config : ImageCheckSettings) (check : HealthCheck) (now : Instant) :
    (step config check now).Meets (Conducts check) (fun _ => True)
      (Steps check now check.state) := by
  have hE : ∀ f : Fault, f.isBreach = false → True := fun _ _ => trivial
  simp only [step]
  split <;> rename_i hs <;> rw [hs]
  · exact conducts_init config now hs
  · exact meets_of_reads (meets_launching hE config now hs fun _ _ => trivial)
  · exact meets_of_reads (meets_pendingVerify hE config now hs fun _ _ => trivial)
  · exact conducts_completing check now
  · trivial

theorem conducts_onTimeout (config : ImageCheckSettings) (check : HealthCheck) :
    (onTimeout config check).Only (Conducts check) := by
  refine within_onTimeout_of ?_ fun _ _ => ?_
  · exact meets_cleanUp (fun _ => .stores rfl rfl) fun _ id hid => ⟨.terminates hid, .marks _⟩
  · exact meets_of_reads (within_alert (fun _ _ => trivial) _ _ _ _)

/-- Whatever its state, a tick makes only calls of the version that it works on. -/
theorem conducts_work (config : ImageCheckSettings) (check : HealthCheck) (now : Instant) :
    ((lifecycle config).work check now).Only (Conducts check) := by
  rw [Lifecycle.work]
  split
  · trivial
  · refine .bind (only_clusterIsPaused (fun _ => .looks) _) fun paused => ?_
    split
    · exact .bind (only_ask.mpr (.stores rfl rfl)) fun _ => trivial
    · refine .bind (only_done _) fun limit => ?_
      split
      · refine .bind (only_ask.mpr (.stores rfl rfl)) fun _ => .bind (Only.attempt ?_) fun _ =>
          trivial
        exact Only.mono (conducts_onTimeout config _) fun _ => .of_eq rfl rfl rfl
      · refine Meets.bind (p := step config check now) (conducts_step config check now) ?_
        rintro ⟨changed, d⟩ hsteps
        refine .bind (only_ask.mpr (.stores ?_ ?_)) fun _ => ?_
        · exact (Item.id_afterStep _ _ _).trans hsteps.id_eq
        · cases d <;> exact hsteps.identity.2.1
        · intro _
          cases d <;> trivial

end ImageCheck

end FleetControl
