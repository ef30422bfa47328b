import FleetControl.Proofs.Aging
import FleetControl.Proofs.Stillness

/-!
# The lives of hosts

Every controller lets hosts age. What a replacement drains, it has listed in the same step, and
nothing but its own drains comes in between; what a check records was launched by the call
before; everything else that is put into a state is put into the last. Only the termination
controller forgets a host, one that is on its way out and that the provider has just reported
terminated.
-/
namespace FleetControl

open Program

section

variable {raises : Fault → Prop} {name : String} {j : Journal World}

/-! ## Replacements -/

namespace Replacement

/-- What REPLACING drains was listed in the same step and has not been drained since. -/
theorem lives_replacing (event : UpgradeEvent) (hj : j.state.tables.Keyed) :
    LivesOn name raises (replacing event) j := by
  have hlisted : ∀ (s : Store) (p : Host → Bool) (a : List HostId), s.Keyed →
      Except.ok (ε := Fault) (((s.stayingHosts event.cluster).filter p).map Host.id) = .ok a →
        ∀ id ∈ a, s.isStaying id = true := by
    rintro s p a hk ha id hid
    cases ha
    exact Store.isStaying_of_listed hk.hosts hid
  refine .bind (lives_list rfl (fun a => a)
    (fun s _ a hk ha => hlisted s _ a hk ha) (.nothing hj)) fun retirable j₁ ⟨h₁, _⟩ _ => ?_
  split
  · exact h₁.keyed
  · refine .bind (lives_look rfl h₁) fun poolSize j₂ h₂ _ =>
      .bind (lives_look rfl h₂) fun serving j₃ h₃ _ => ?_
    split
    · exact h₃.keyed
    · refine .bind (lives_list rfl (fun a => a)
        (fun s _ a hk ha => hlisted s _ a hk ha) h₃) fun failed j₄ ⟨hfailed, h₄⟩ _ => ?_
      dsimp only
      generalize hb : serving - poolSize = budget
      have hfirst : j₄.state.Keeps (failed.take budget) :=
        ⟨h₄.keyed, fun s hs id hid => hfailed.staying s hs id (List.mem_of_mem_take hid)⟩
      have hsecond : j₄.state.Keeps (retirable.filter fun id => !failed.contains id) :=
        ⟨h₄.keyed, fun s hs id hid => h₄.staying s hs id (List.mem_filter.mp hid).1⟩
      have hapart : ∀ id ∈ retirable.filter fun id => !failed.contains id,
          id ∉ failed.take budget := by
        intro id hid hmem
        have hnot := (List.mem_filter.mp hid).2
        simp [List.mem_of_mem_take hmem] at hnot
      refine .bind (lives_drain hfirst hsecond hapart) fun _ j₅ h₅ _ => ?_
      split
      · refine .bind (lives_drain ⟨h₅.keyed, fun s hs id hid => ?_⟩
          (.nothing h₅.keyed) (by simp)) fun _ j₆ h₆ _ => h₆.keyed
        exact h₅.staying s hs id (List.mem_of_mem_take hid)
      · exact h₅.keyed

theorem isGentle_of_keepsOrStores {event : UpgradeEvent} {c : Call} (h : keepsOrStores event c) :
    c.isGentle = true := by
  obtain h | ⟨changed, rfl, -⟩ := h
  · unfold keeps at h
    split at h
    · cases h
    · rename_i hdrain
      unfold acts at h
      split at h <;> first | rfl | exact (hdrain _ _ rfl).elim | exact Call.isGentle_of_isRead h
  · rfl

theorem lives_step (config : ReplacementSettings) (event : UpgradeEvent)
    (hj : j.state.tables.Keyed) :
    LivesOn name raises (step config event) j := by
  by_cases hs : event.state = UpgradeState.replacing
  · simp only [step, hs]
    exact lives_replacing event hj
  · have hkeeps := meets_step_of_ne_replacing (E := fun _ => True) (fun _ _ => trivial) config
      event hs fun _ _ => trivial
    exact lives_of_gentle (hkeeps.mono (fun _ => isGentle_of_keepsOrStores) fun _ _ => trivial) hj

theorem gentle_onTimeout (event : UpgradeEvent) (source : UpgradeState) :
    (onTimeout event source).Only (·.isGentle = true) := by
  refine Only.mono (only_onTimeout event source) fun c hc => ?_
  obtain hc | rfl := hc
  · exact Call.isGentle_of_isRead hc
  · rfl

end Replacement

/-! ## Image checks -/

namespace ImageCheck

theorem isGentle_of_tidies {c : Call} (h : tidies c = true) : c.isGentle = true := by
  unfold tidies at h
  split at h <;> first | rfl | exact Call.isGentle_of_isRead h

/-- The host that a check records was launched by the call before. -/
theorem lives_init (config : ImageCheckSettings) (check : HealthCheck) (now : Instant)
    (hj : j.state.tables.Keyed) :
    LivesOn name raises (init config check now) j := by
  refine .bind (Q := fun launched j' => j'.state.tables.Keyed ∧ ((∀ a ∈ j'.log, a.LaunchesNew) →
    ∀ id ∈ launched, ∀ s, j'.state.store = some s → s.hosts.contains id = false)) ?_ ?_
  · refine lives_perform hj (fun _ _ _ => trivial) fun launched w hb hk =>
      ⟨hk, fun hnew id hid s hs => ?_⟩
    have hunknown := hnew _ List.mem_cons_self id hid
    have hsame : w.store = j.state.store := hb.store_of_request
    rwa [World.tables_eq (hsame.symm.trans hs)] at hunknown
  · rintro launched j₁ ⟨h₁, hunknown⟩ -
    split
    · refine lives_of_gentle (.bind ?_ fun _ => only_done _) h₁
      refine Only.mono (within_alert (fun _ _ => trivial) config check _ _) fun _ => ?_
      exact Call.isGentle_of_isRead
    · refine .bind (Q := fun _ j' => j'.state.tables.Keyed) ?_ fun _ j₂ h₂ _ => h₂
      exact lives_perform h₁ (fun hnew s hs => hunknown hnew _ List.mem_cons_self s hs)
        fun _ _ _ hk => hk

theorem lives_step (config : ImageCheckSettings) (check : HealthCheck) (now : Instant)
    (hj : j.state.tables.Keyed) :
    LivesOn name raises (step config check now) j := by
  by_cases hs : check.state = HealthCheckState.init
  · simp only [step, hs]
    exact lives_init config check now hj
  · have hacts := meets_step (E := fun _ => True) (fun _ _ => trivial) config check now
      (fun _ _ => trivial) fun _ _ _ => trivial
    refine lives_of_gentle (hacts.mono (fun c hc => ?_) fun _ _ => trivial) hj
    rw [stepActs, if_neg hs] at hc
    exact hc.elim isGentle_of_tidies Call.isGentle_of_locks

theorem gentle_onTimeout (config : ImageCheckSettings) (check : HealthCheck) :
    (onTimeout config check).Only (·.isGentle = true) := by
  refine Only.mono (within_onTimeout (fun _ _ => trivial) config check) fun c hc => ?_
  obtain hc | ⟨-, rfl⟩ := hc
  · exact isGentle_of_tidies hc
  · rfl

end ImageCheck

/-- The processing of an item lets hosts age if its steps do. -/
theorem Lifecycle.lives_process {k : ItemKind} {l : Lifecycle k}
    (hpaused : ∀ y, l.isPaused y = clusterIsPaused y.cluster)
    (htimeout : ∀ y source, (l.onTimeout y source).Only (·.isGentle = true))
    (hstep : ∀ y now j, j.state.tables.Keyed → LivesOn name raises (l.step y now) j)
    (id : ItemId) (hj : j.state.tables.Keyed) :
    LivesOn name raises (l.controller.process id) j := by
  have hcall : ∀ {c : Call} {j}, c.isGentle = true → j.state.tables.Keyed →
      LivesOn name raises (perform c) j :=
    fun hc hj => lives_of_gentle (only_perform.mpr hc) hj
  refine .bind (hcall rfl hj) fun now j₁ h₁ _ => ?_
  refine .bind (Q := fun _ j' => j'.state.tables.Keyed) ?_ fun _ j₂ h₂ _ => h₂
  rw [advance_eq]
  refine .bind (hcall rfl h₁) fun found j₂ h₂ _ => ?_
  cases found with
  | none => exact h₂
  | some y =>
      dsimp only
      rw [work]
      split
      · exact h₂
      · rw [hpaused]
        have hlook : (clusterIsPaused y.cluster).Only (·.isGentle = true) :=
          only_clusterIsPaused (fun _ => Call.isGentle_of_isRead) _
        refine .bind (lives_of_gentle hlook h₂) fun paused j₃ h₃ _ => ?_
        split
        · exact .bind (hcall rfl h₃) fun _ j₄ h₄ _ => h₄
        · refine .bind (lives_of_gentle (only_done _) h₃) fun limit j₄ h₄ _ => ?_
          split
          · refine .bind (hcall rfl h₄) fun _ j₅ h₅ _ => ?_
            exact .bind (lives_of_gentle (htimeout _ _).attempt h₅) fun _ j₆ h₆ _ => h₆
          · refine .bind (hstep y now j₄ h₄) fun result j₅ h₅ _ => ?_
            refine .bind (hcall rfl h₅) fun _ j₆ h₆ _ => ?_
            split <;> exact h₆

/-! ## The termination of hosts -/

namespace Decommission

/-- A record of a host is still the one that was read. -/
def Reads (host : Host) (w : World) : Prop :=
  ∀ s, w.store = some s → s.hosts.get? host.id = some host

/-- Right after the provider has reported a host terminated that is on its way out, it may be
forgotten. -/
theorem lives_deleteHost {known : Host} (hl : known.state.isLeaving = true)
    (hj : j.state.tables.Keyed) (hr : Reads known j.state)
    (hreport : ∃ report, j.log.head? = some report ∧ known.id ∈ report.gone) :
    LivesOn controller.name raises (ask (.deleteHost known.id)) j := by
  refine follows_perform.mpr fun r w hb => ⟨fun _ s s' hs hs' id host hget => ?_, ?_⟩
  · rcases hb.store_cases fun _ hv => hv with hsame | ⟨q, hq, heffect⟩
    · cases (hs'.symm.trans hsame).trans hs
      exact .inl ⟨host, hget, .refl host⟩
    · cases hq
      obtain ⟨s₀, clock, hs₀, he⟩ := heffect s' hs'
      cases hs.symm.trans hs₀
      cases he with
      | nothing => exact .inl ⟨host, hget, .refl host⟩
      | deleteHost =>
          obtain hkept | ⟨rfl, hunrecorded, hagentless⟩ := Store.deleteHost_cases known.id hget
          · exact .inl ⟨host, hkept, .refl host⟩
          · cases hget.symm.trans (hr s hs)
            exact .inr ⟨rfl, rfl, hl, hreport, hunrecorded, hagentless⟩
  · have hend := hb.keyed hj
    cases r <;> exact hend

theorem lives_forgetIfGone {known : Host} (hl : known.state.isLeaving = true)
    (hj : j.state.tables.Keyed) (hr : Reads known j.state) :
    LivesOn controller.name raises (forgetIfGone known) j := by
  refine .bind (Q := fun gone j' => j'.state.tables.Keyed ∧ Reads known j'.state ∧
    ∃ report, j'.log.head? = some report ∧ report.gone = gone.toList) ?_ ?_
  · refine lives_perform hj (fun _ _ _ => trivial) fun gone w hb hk =>
      ⟨hk, fun s hs => ?_, _, rfl, rfl⟩
    exact hr s (hb.store_of_request.symm.trans hs)
  · rintro gone j₁ ⟨h₁, hr₁, report, hlast, hgone⟩ -
    split
    · rename_i hmem
      have hreport : known.id ∈ report.gone := hgone ▸ IdSet.mem_toList.mpr hmem
      exact .bind (lives_deleteHost hl h₁ hr₁ ⟨report, hlast, hreport⟩) fun _ j₂ h₂ _ => h₂
    · exact h₁

theorem gentle_terminateIfIdle (host : Host) :
    (terminateIfIdle host).Only (·.isGentle = true) := by
  refine .bind (only_ask.mpr rfl) fun agents => ?_
  split
  · exact .bind (only_request.mpr rfl) fun _ => only_ask.mpr rfl
  · exact only_done _

theorem lives_process (id : HostId) (hj : j.state.tables.Keyed) :
    LivesOn controller.name raises (process id) j := by
  refine .bind (Q := fun found j' => j'.state.tables.Keyed ∧
    ∀ host, found = some host → Reads host j'.state) ?_ ?_
  · refine lives_perform hj (fun _ _ _ => trivial) fun found w hb hk =>
      ⟨hk, fun host hfound s hs => ?_⟩
    obtain ⟨t, clock, ht, ht', ha⟩ := hb.store_of_isRead (fun _ hv => hv) rfl
    obtain rfl : t = s := Option.some.inj (ht'.symm.trans hs)
    have hget : t.hosts.get? id = some host := by
      rw [← hfound]
      exact Except.ok.inj ha
    have hkeyed : t.Keyed := World.tables_eq ht ▸ hj
    rwa [hkeyed.hosts id host hget]
  · rintro found j₁ ⟨h₁, hfound⟩ -
    cases found with
    | none => exact h₁
    | some host =>
        dsimp only
        split
        · exact h₁
        · rename_i hl
          have hleaving : host.state.isLeaving = true := by simpa using hl
          refine .bind (lives_forgetIfGone hleaving h₁ (hfound host rfl)) fun removed j₂ h₂ _ => ?_
          split
          · exact lives_of_gentle (gentle_terminateIfIdle host) h₂
          · exact h₂

end Decommission

/-! ## Passes -/

theorem Promotion.isGentle_of_actsOrLocks {c : Call} (h : actsOrLocks c) : c.isGentle = true := by
  obtain h | h := h
  · unfold acts at h
    split at h <;> first | rfl | exact Call.isGentle_of_isRead h
  · exact Call.isGentle_of_locks h

theorem TagCoverage.isGentle_of_acts {c : Call} (h : acts c = true) : c.isGentle = true := by
  unfold acts at h
  split at h <;> first | rfl | exact Call.isGentle_of_isRead h

theorem lives_pass {c : Controller} (hcandidates : c.candidates.Only (·.isGentle = true))
    (hprocess : ∀ id j, j.state.tables.Keyed → LivesOn name raises (c.process id) j)
    (hj : j.state.tables.Keyed) : LivesOn name raises c.pass j :=
  follows_pass gentle_entry (fun _ => rfl) (fun _ _ => rfl) (fun _ => rfl) hcandidates hprocess hj

/-- A pass of any worker keeps the rule of ages. -/
theorem lives_workers {config : Config} {worker : Scheduled} (h : worker ∈ config.workers)
    (hj : j.state.tables.Keyed) :
    LivesOn worker.controller.name raises worker.controller.pass j := by
  refine Config.of_mem_workers (P := fun c => LivesOn c.name raises c.pass j) h ?_ ?_ ?_ ?_ ?_
  · exact lives_pass (only_ask.mpr rfl) (fun id _ => Lifecycle.lives_process (fun _ => rfl)
      Replacement.gentle_onTimeout (fun y _ _ => Replacement.lives_step _ y) id) hj
  · exact lives_pass (only_ask.mpr rfl) (fun id _ => Lifecycle.lives_process (fun _ => rfl)
      (fun y _ => ImageCheck.gentle_onTimeout _ y)
      (fun y now _ => ImageCheck.lives_step _ y now) id) hj
  · refine lives_pass (only_ask.mpr rfl) (fun id _ => lives_of_gentle ?_) hj
    exact (Promotion.only_process _ id).mono fun _ => Promotion.isGentle_of_actsOrLocks
  · refine lives_pass ?_ (fun id _ => Decommission.lives_process id) hj
    exact .bind (only_ask.mpr rfl) fun _ => only_done _
  · refine lives_pass (only_ask.mpr rfl) (fun id _ => lives_of_gentle ?_) hj
    exact Only.mono (TagCoverage.within_process _ id) fun _ => TagCoverage.isGentle_of_acts

end

/-! ## The law of ages -/

section

variable {raises : Fault → Prop} {w : World} {j j' : Journal World}

theorem Passes.keyed (h : Passes raises j j') (hj : j.state.tables.Keyed) :
    j'.state.tables.Keyed := by
  obtain ⟨config, worker, r, hworker, he⟩ := h
  have hlives : LivesOn worker.controller.name raises worker.controller.pass j :=
    lives_workers hworker hj
  have hend := hlives.ends he
  cases r <;> exact hend

theorem Passes.admits (h : Passes raises j j') (hj : j.state.tables.Keyed)
    (hlog : Rule.Admits (fun past e => ∃ name, agesIfNew name past e) j.log) :
    Rule.Admits (fun past e => ∃ name, agesIfNew name past e) j'.log := by
  obtain ⟨config, worker, r, hworker, he⟩ := h
  have hlives : LivesOn worker.controller.name raises worker.controller.pass j :=
    lives_workers hworker hj
  exact (hlives.mono (fun _ _ hage => ⟨_, hage⟩) (fun _ => id) fun _ _ => id).admits he hlog

/-- What holds of the journal after any number of passes. -/
theorem keyed_and_admits (hk : w.tables.Keyed)
    (hrun : Relation.ReflTransGen (Passes raises) (.start w) j) : j.state.tables.Keyed ∧
      Rule.Admits (fun past e => ∃ name, agesIfNew name past e) j.log := by
  induction hrun with
  | refl => exact ⟨hk, trivial⟩
  | tail _ hpass ih => exact ⟨hpass.keyed ih.1, hpass.admits ih.1 ih.2⟩

theorem since_of_passes (h : Relation.ReflTransGen (Passes raises) j j') :
    ∃ span, j'.log = span ++ j.log ∧
      Traces (World.Possible World.SameStore raises) j.state span j'.state := by
  induction h with
  | refl => exact ⟨[], rfl, .nil⟩
  | tail _ hpass ih =>
      obtain ⟨config, worker, r, hworker, he⟩ := hpass
      obtain ⟨span, hspan, htraces⟩ := ih
      obtain ⟨more, hmore, hgoes⟩ := he.since
      refine ⟨more ++ span, ?_, Traces.append_iff.mpr ⟨_, htraces, hgoes⟩⟩
      rw [hmore, hspan, List.append_assoc]

/-- From one journal to a later one the hosts age, and what has become of a host in the
meantime may be forgotten by the termination controller. -/
def Journal.Ages (j j' : Journal World) : Prop :=
  ∀ s s', j.state.store = some s → j'.state.store = some s' →
    ∀ id host, s.hosts.get? id = some host →
      (∃ later, s'.hosts.get? id = some later ∧ host.Ages later) ∨
      ∃ later past e last left, j'.log = later ++ e :: past ∧ j.log <:+ past ∧ host.Ages last ∧
        e.Forgets Decommission.controller.name past id last left

/-- Entry by entry, the hosts age or are forgotten. -/
theorem Journal.ages_of_traces {span : List (Entry World)} {t : World}
    (h : Traces (World.Possible World.SameStore raises) j.state span t)
    (hage : Rule.Admits (fun past e => ∃ name, ages name past e) (span ++ j.log)) :
    j.Ages ⟨t, span ++ j.log⟩ := by
  induction h with
  | nil =>
      intro s s' hs hs' id host hget
      cases hs.symm.trans hs'
      exact .inl ⟨host, hget, .refl host⟩
  | @cons span t c r t' _ answer ih =>
      intro s s' hs hs' id host hget
      obtain ⟨u, hu⟩ := answer.exists_store hs'
      obtain ⟨name, hentry⟩ := hage.1
      obtain ⟨mid, hmid, hages⟩ | ⟨later, past, e, last, left, hlog, hrest⟩ :=
        ih hage.2 s u hs hu id host hget
      · obtain ⟨later, hlater, hages'⟩ | hforgets := hentry u s' hu hs' id mid hmid
        · exact .inl ⟨later, hlater, hages.trans hages'⟩
        · obtain rfl := hforgets.controller
          exact .inr ⟨[], _, _, mid, s', rfl, List.suffix_append _ _, hages, hforgets⟩
      · refine .inr ⟨⟨t, c, r, t'⟩ :: later, past, e, last, left, ?_, hrest⟩
        exact congrArg (_ :: ·) hlog

/-- In whole passes of any workers in any order, whatever fails, and as long as nothing is
launched under the id of a recorded host: each call of a pass lets every recorded host age, or
forgets it, and only a pass of the termination controller forgets one, that is on its way out,
right after the provider has reported it terminated, and with all its agents. So in the course
of any number of passes the state of a host never goes back, and its cluster, whether it is
retirable and when it was created never change. -/
theorem hosts_only_age (hk : w.tables.Keyed)
    (hrun : Relation.ReflTransGen (Passes raises) (.start w) j) :
    (∀ (config : Config) (worker : Scheduled) (r : Outcome PassReport) (j' : Journal World),
      worker ∈ config.workers →
      worker.controller.pass.Ends (World.Possible World.SameStore raises).recorded j r j' →
      (∀ e ∈ j'.log, e.LaunchesNew) →
      ∀ later past e, j'.log = later ++ e :: past → j.log <:+ past →
        ages worker.controller.name past e) ∧
    ∀ j', Relation.ReflTransGen (Passes raises) j j' → (∀ e ∈ j'.log, e.LaunchesNew) →
      j.Ages j' := by
  refine ⟨fun config worker r j' hworker he hnew later past e hlog hpast => ?_,
    fun j' hlater hnew => ?_⟩
  · have hlives : LivesOn worker.controller.name raises worker.controller.pass j :=
      lives_workers hworker (keyed_and_admits hk hrun).1
    refine hlives.allows he hlog hpast fun a ha => hnew a ?_
    rw [hlog]
    exact List.mem_append_right _ (List.mem_cons_of_mem _ ha)
  · have hadmits := admits_ages (keyed_and_admits hk (hrun.trans hlater)).2 hnew
    obtain ⟨span, hspan, htraces⟩ := since_of_passes hlater
    rw [hspan] at hadmits
    have hages := Journal.ages_of_traces htraces hadmits
    rwa [← hspan] at hages

/-- A new check of an image, and a host that was drained and has stopped. -/
def turnover : World :=
  let cluster : Cluster := ⟨"web", "prod", .normal, none, 0, ⟨[], [], none⟩, .epoch⟩
  let host : Host := ⟨"old", "web", .pendingTerminate, true, .epoch, .epoch⟩
  let agent : Agent := ⟨"old", "prod", .stopped, .succeeded, .normal, none, none, .epoch⟩
  let check := HealthCheck.new "check" "web" "prod" .manuallyTriggered "image" .epoch
  let store := ((Store.empty.insertHost host).putAgent agent).putItem .check check
  { World.initial .epoch (.seeded 0) with
    store := some { store with clusters := store.clusters.insert cluster.name cluster }
    provider := Provider.empty.addHost "web" "old" }

theorem keyed_turnover : turnover.tables.Keyed :=
  (((Store.keyed_empty.insertHost _).putAgent _).putItem .check _).insertCluster _

/-- The check launches a host, and the old one is terminated. -/
def turnedOver : Journal World :=
  Decommission.controller.pass.undisturbed
    ((ImageCheck.controller {}).pass.undisturbed (.start turnover))

/-- The old host is gone. -/
def turnedIn : Journal World := Decommission.controller.pass.undisturbed turnedOver

theorem passes_turnover : Relation.ReflTransGen (Passes fun _ => False) (.start turnover)
    turnedOver ∧ Passes (fun _ => False) turnedOver turnedIn := by
  have hcheck : ⟨"health_check", passInterval 30, ImageCheck.controller {}⟩ ∈
      Config.workers {} := by simp [Config.workers]
  have htermination : ⟨"termination", passInterval 30, Decommission.controller⟩ ∈
      Config.workers {} := by simp [Config.workers]
  exact ⟨.tail (.single (passes_undisturbed hcheck _)) (passes_undisturbed htermination _),
    passes_undisturbed htermination _⟩

/-- The old host is forgotten in the last pass. The host of the check is recorded as new. -/
theorem hosts_only_age_turnover :
    (∃ probe, turnedIn.state.tables.hosts.get? "i-mock-0001" = some probe ∧
      probe.state = .provisioned) ∧
    ∃ (past : List (Entry World)) (e : Entry World) (host last : Host) (left : Store),
      turnover.tables.hosts.get? "old" = some host ∧ host.state = .pendingTerminate ∧
        host.Ages last ∧ e.Forgets "termination" past "old" last left := by
  obtain ⟨hrun, hpass⟩ := passes_turnover
  have hnew : ∀ e ∈ turnedIn.log, e.LaunchesNew := by
    have hall : turnedIn.log.all (fun e => e.launched.all fun id =>
        !e.before.tables.hosts.contains id) = true := by decide +kernel
    intro e he id hid
    have hunknown := List.all_eq_true.mp (List.all_eq_true.mp hall e he) id hid
    simpa using hunknown
  have hage := (hosts_only_age keyed_turnover .refl).2 turnedIn (hrun.tail hpass) hnew
  obtain ⟨left, hleft⟩ := Option.isSome_iff_exists.mp
    (show turnedIn.state.store.isSome = true by decide +kernel)
  have hgone : (turnedIn.state.store.bind (·.hosts.get? "old")) = none := by decide +kernel
  rw [hleft, Option.bind_some] at hgone
  have hprobe : (turnedIn.state.tables.hosts.get? "i-mock-0001").any
      (fun host => decide (host.state = .provisioned)) = true := by decide +kernel
  obtain ⟨probe, hprobe, hstate⟩ := (Option.any_eq_true _ _).mp hprobe
  refine ⟨⟨probe, hprobe, of_decide_eq_true hstate⟩, ?_⟩
  obtain ⟨later, hlater, -⟩ | ⟨_, past, e, last, rest, -, -, hages, hforgets⟩ :=
    hage turnover.tables left rfl hleft "old" _ rfl
  · cases hgone.symm.trans hlater
  · exact ⟨past, e, _, last, rest, rfl, rfl, hages, hforgets⟩

end

end FleetControl
