import FleetControl.Proofs.Pause
import Mathlib.Logic.Relation

/-!
# Passes over a paused cluster

Whole passes of any controllers, in any order and whatever fails on the way. Nothing is
launched for a paused cluster, its record stays as it is, and of its items only the date of
the last advance changes. Its hosts are neither drained nor attached; one is terminated only if
it was drained before and all its agents have stopped, or for an item of another cluster that
tracks it.
-/
namespace FleetControl

open Program

variable {raises : Fault → Prop} {cluster : Cluster}
  {view : (k : ItemKind) → ItemId → Option (Item k)} {j : Journal World}

/-! ## Items of other clusters -/

/-- What an item tracks was read. -/
def Recalls {k : ItemKind} (y : Item k) (log : List (Entry World)) : Prop :=
  ∃ e ∈ log, e.readHosts y.cluster = y.trackedHosts

theorem Recalls.cons {k : ItemKind} {y : Item k} {log : List (Entry World)} (h : Recalls y log)
    (e : Entry World) : Recalls y (e :: log) := by
  obtain ⟨a, ha, hr⟩ := h
  exact ⟨a, List.mem_cons_of_mem _ ha, hr⟩

theorem Recalls.exists_mem {k : ItemKind} {y : Item k} {log : List (Entry World)} {id : HostId}
    (h : Recalls y log) (hid : id ∈ y.trackedHosts) : ∃ e ∈ log, id ∈ e.readHosts y.cluster := by
  obtain ⟨e, he, hr⟩ := h
  exact ⟨e, he, hr ▸ hid⟩

namespace Replacement

variable {event : UpgradeEvent} {past : List (Entry World)} {c : Call} {name : String}

theorem Conducts.respects (h : Conducts event past c) (hd : event.cluster ≠ name)
    (hv : view .upgrade event.id = none) : c.Respects name view := by
  cases h with
  | looks h => exact Call.respects_of_isHarmless (Call.isHarmless_of_isRead h)
  | @stores y hid hc =>
      have hy : y.outline name = none := if_neg (hc ▸ hd)
      exact hy.trans (hid ▸ hv).symm
  | resumes => exact hd
  | _ => trivial

theorem Conducts.rests {r : Outcome c.Reply} {w : World} (h : Conducts event j.log c)
    (hd : event.cluster ≠ cluster.name) (hj : Still cluster view j) (hr : Recalls event j.log) :
    rests cluster.name j.log ⟨j.state, c, r, w⟩ := by
  cases h with
  | looks h => exact Call.rests_of_isHarmless (Call.isHarmless_of_isRead h)
  | launches | resumes => exact hd
  | drains h =>
      intro id hid
      obtain ⟨e, he, hl⟩ := h id hid
      exact hj.listed e he _ hd id (.inr hl)
  | attaches _ h => exact ⟨hd, fun id hid _ => hr.exists_mem (h id hid)⟩
  | terminates h =>
      refine .inl ⟨hd, fun id hid hhas => ?_⟩
      rcases h id hid with htracked | ⟨e, he, hl⟩
      · exact hr.exists_mem htracked
      · exact absurd hhas (hj.listed e he _ hd id (.inl hl))
  | stores | marks => trivial

theorem holds_work (config : ReplacementSettings) (now : Instant) (hj : Still cluster view j)
    (hd : event.cluster ≠ cluster.name) (hv : view .upgrade event.id = none)
    (hr : Recalls event j.log) :
    Holds raises cluster view ((lifecycle config).work event now) j := by
  have hswaps : Swaps event j.log World.SameStore raises
      (fun _ j' => ∃ ids, Settled j.log ids j'.log) ((lifecycle config).work event now) j :=
    swaps_work config event now settled_base
  refine (hswaps.adapt (J := fun j' => Still cluster view j' ∧ Recalls event j'.log) ?_
    ⟨hj, hr⟩).mono (fun _ _ => id) (fun _ hE => hE.2.1) fun _ _ hq => hq.2.1
  rintro j c r w ⟨hj, hr⟩ hb ⟨hc, -⟩
  exact ⟨hc.rests hd hj hr, hj.enter hb (hc.respects hd hv), hr.cons _⟩

end Replacement

namespace ImageCheck

variable {check : HealthCheck} {c : Call} {name : String}

theorem Conducts.respects (h : Conducts check c) (hd : check.cluster ≠ name)
    (hv : view .check check.id = none) : c.Respects name view := by
  cases h with
  | looks h => exact Call.respects_of_isHarmless (Call.isHarmless_of_isRead h)
  | locks h => exact Call.respects_of_isHarmless (Call.isHarmless_of_locks h)
  | @stores y hid hc =>
      have hy : y.outline name = none := if_neg (hc ▸ hd)
      exact hy.trans (hid ▸ hv).symm
  | inserts h =>
      intro hc
      exact hd (h.symm.trans hc)
  | offers => exact hd
  | _ => trivial

theorem Conducts.rests {r : Outcome c.Reply} {w : World} (h : Conducts check c)
    (hd : check.cluster ≠ cluster.name) (hr : Recalls check j.log) :
    rests cluster.name j.log ⟨j.state, c, r, w⟩ := by
  cases h with
  | looks h => exact Call.rests_of_isHarmless (Call.isHarmless_of_isRead h)
  | locks h => exact Call.rests_of_isHarmless (Call.isHarmless_of_locks h)
  | launches | offers => exact hd
  | inserts h =>
      intro hc
      exact hd (h.symm.trans hc)
  | terminates h =>
      refine .inl ⟨hd, fun id hid _ => hr.exists_mem ?_⟩
      rw [List.mem_singleton.mp hid]
      exact Option.mem_toList.mpr h
  | stores | marks => trivial

theorem holds_work (config : ImageCheckSettings) (now : Instant) (hj : Still cluster view j)
    (hd : check.cluster ≠ cluster.name) (hv : view .check check.id = none)
    (hr : Recalls check j.log) :
    Holds raises cluster view ((lifecycle config).work check now) j := by
  have hfollows : ((lifecycle config).work check now).Follows
      (World.Possible World.SameStore raises) (rests cluster.name)
      (fun j' => Still cluster view j' ∧ Recalls check j'.log)
      (fun _ j' => True ∧ Still cluster view j' ∧ Recalls check j'.log) j := by
    refine Meets.follows (conducts_work config check now) (fun j c r w hc hj hb => ?_) ⟨hj, hr⟩
    exact ⟨hc.rests hd hj.2, hj.1.enter hb (hc.respects hd hv), hj.2.cons _⟩
  exact hfollows.mono (fun _ _ => id) (fun _ hE => hE.1) fun _ _ hq => hq.2.1

end ImageCheck

/-! ## Items of the paused cluster -/

namespace Lifecycle

variable {k : ItemKind} {l : Lifecycle k} {y : Item k}

theorem holds_isPaused (hs : cluster.state = .pause) (hj : Still cluster view j) :
    (clusterIsPaused cluster.name).Follows (World.Possible World.SameStore raises)
      (rests cluster.name) (Still cluster view)
      (fun paused j' => paused = true ∧ Still cluster view j') j := by
  refine .bind (Q := fun record j' => record = cluster ∧ Still cluster view j') ?_ ?_
  · refine .bind (Q := fun found j' => found = some cluster ∧ Still cluster view j')
      (holds_perform rfl hj fun found w hb hj' => ⟨?_, hj'⟩) ?_
    · obtain ⟨s, clock, hs, -, ha⟩ := hb.store_of_isRead (fun _ hv => hv) rfl
      exact (Except.ok.inj ha).symm.trans (hj.record s hs)
    · rintro _ j₁ ⟨rfl, h₁⟩ -
      exact ⟨rfl, h₁⟩
  · rintro _ j₁ ⟨rfl, h₁⟩ -
    exact ⟨beq_iff_eq.mpr hs, h₁⟩

/-- Of an item of the paused cluster only the heartbeat is refreshed. -/
theorem holds_work (now : Instant) (hp : l.isPaused y = clusterIsPaused y.cluster)
    (hy : y.cluster = cluster.name) (hs : cluster.state = .pause) (hj : Still cluster view j)
    (hv : view k y.id = y.outline cluster.name) :
    Holds raises cluster view (l.work y now) j := by
  rw [work]
  split
  · exact hj
  · rw [hp, hy]
    refine .bind (holds_isPaused hs hj) ?_
    rintro _ j₁ ⟨rfl, h₁⟩ -
    rw [if_pos rfl]
    have htouch : Holds raises cluster view (ask (.updateItem k (y.touch now))) j₁ := by
      refine follows_perform.mpr fun r w hb => ⟨trivial, ?_⟩
      have h₂ := h₁.enter hb (Eq.trans (Item.outline_touch _ y now) hv.symm)
      cases r <;> exact h₂
    exact .bind htouch fun _ j₂ h₂ _ => h₂

/-- The processing of any item, if that of items of other clusters is allowed. -/
theorem holds_process (hp : ∀ y, l.isPaused y = clusterIsPaused y.cluster)
    (hother : ∀ y now j, Still cluster view j → y.cluster ≠ cluster.name → view k y.id = none →
      Recalls y j.log → Holds raises cluster view (l.work y now) j)
    (hs : cluster.state = .pause) (id : ItemId) (hj : Still cluster view j) :
    Holds raises cluster view (l.controller.process id) j := by
  refine .bind (Q := fun _ j' => Still cluster view j') (holds_perform rfl hj fun _ _ _ h => h) ?_
  intro now j₁ h₁ _
  refine .bind (Q := fun _ j' => Still cluster view j') ?_ fun _ j₂ h₂ _ => h₂
  rw [advance_eq]
  refine .bind (Q := fun found j' => Still cluster view j' ∧ ∀ y, found = some y →
    view k y.id = y.outline cluster.name ∧ Recalls y j'.log)
      (holds_perform rfl h₁ fun found w hb h₂ => ⟨h₂, ?_⟩) ?_
  · rintro y rfl
    exact ⟨h₁.read hb, _, List.mem_cons_self, if_pos rfl⟩
  · rintro found j₂ ⟨h₂, hfound⟩ -
    cases found with
    | none => exact h₂
    | some y =>
        obtain ⟨hv, hr⟩ := hfound y rfl
        by_cases hy : y.cluster = cluster.name
        · exact holds_work now (hp y) hy hs h₂ hv
        · exact hother y now j₂ h₂ hy (hv.trans (if_neg hy)) hr

end Lifecycle

/-! ## The other controllers -/

namespace Promotion

theorem isHarmless_of_acts {c : Call} (h : acts c = true) : c.isHarmless = true := by
  unfold acts at h
  split at h
  · rfl
  · rfl
  · exact Call.isHarmless_of_isRead h

theorem isHarmless_of_actsOrLocks {c : Call} (h : actsOrLocks c) : c.isHarmless = true :=
  h.elim isHarmless_of_acts Call.isHarmless_of_locks

end Promotion

namespace Decommission

/-- A host is only terminated as one of its own cluster, and only when it was drained and its
agents have stopped. -/
theorem holds_terminateIfIdle {host : Host} {s : Store} (hj : Still cluster view j)
    (hs : j.state.store = some s) (hh : s.hosts.get? host.id = some host)
    (hleaving : host.state = .pendingTerminate) :
    Holds raises cluster view (terminateIfIdle host) j := by
  refine .bind (Q := fun agents j' => Still cluster view j' ∧ j'.state.store = some s ∧
    agents = s.agentsOn host.id) (holds_perform rfl hj fun agents w hb h => ⟨h, ?_⟩) ?_
  · obtain ⟨t, clock, ht, ht', ha⟩ := hb.store_of_isRead (fun _ hv => hv) rfl
    obtain rfl : s = t := Option.some.inj (hs.symm.trans ht)
    exact ⟨ht', (Except.ok.inj ha).symm⟩
  rintro _ j₁ ⟨h₁, hs₁, rfl⟩ -
  split
  · rename_i hstopped
    refine .bind (Q := fun _ j' => Still cluster view j') ?_ fun _ j₂ h₂ _ =>
      holds_perform rfl h₂ fun _ _ _ h => h
    refine follows_perform.mpr fun r w hb => ⟨?_, ?_⟩
    · by_cases hc : host.cluster = cluster.name
      · refine .inr ⟨hc, host.id, rfl, ?_⟩
        rw [World.tables_eq hs₁]
        exact ⟨host, hh, hc, hleaving, hstopped⟩
      · refine .inl ⟨hc, fun id hid hhas => ?_⟩
        rw [World.tables_eq hs₁, List.mem_singleton.mp hid] at hhas
        obtain ⟨found, hg, hf⟩ := hhas
        cases hh.symm.trans hg
        exact absurd hf hc
    · have h₂ := h₁.enter hb trivial
      cases r <;> exact h₂
  · exact h₁

theorem holds_process (id : HostId) (hj : Still cluster view j) :
    Holds raises cluster view (process id) j := by
  refine .bind (Q := fun found j' => Still cluster view j' ∧ ∀ host, found = some host →
    ∃ s, j'.state.store = some s ∧ s.hosts.get? host.id = some host)
      (holds_perform rfl hj fun found w hb h => ⟨h, ?_⟩) ?_
  · rintro host rfl
    obtain ⟨s, clock, hs, hs', ha⟩ := hb.store_of_isRead (fun _ hv => hv) rfl
    have hg : s.hosts.get? id = some host := Except.ok.inj ha
    have hk : s.Keyed := World.tables_eq hs ▸ hj.keyed
    exact ⟨s, hs', (hk.hosts id host hg).symm ▸ hg⟩
  rintro found j₁ ⟨h₁, hfound⟩ -
  cases found with
  | none => exact h₁
  | some host =>
      obtain ⟨s, hs, hh⟩ := hfound host rfl
      dsimp only
      split
      · exact h₁
      · refine .bind (Q := fun removed j' => Still cluster view j' ∧
          (removed = false → j'.state.store = some s)) ?_ ?_
        · refine .bind (Q := fun _ j' => Still cluster view j' ∧ j'.state.store = some s)
            (holds_perform rfl h₁ fun _ w hb h => ⟨h, hb.store_of_request.trans hs⟩) ?_
          rintro gone j₂ ⟨h₂, hs₂⟩ -
          split
          · refine .bind (Q := fun _ j' => Still cluster view j')
              (holds_perform rfl h₂ fun _ _ _ h => h) fun _ j₃ h₃ _ => ⟨h₃, ?_⟩
            intro he
            cases he
          · exact ⟨h₂, fun _ => hs₂⟩
        · rintro removed j₂ ⟨h₂, hs₂⟩ -
          split
          · rename_i hidle
            simp only [Bool.and_eq_true, Bool.not_eq_true', beq_iff_eq] at hidle
            exact holds_terminateIfIdle h₂ (hs₂ hidle.1) hh hidle.2
          · exact h₂

end Decommission

theorem TagCoverage.isHarmless_of_acts {c : Call} (h : acts c = true) : c.isHarmless = true := by
  unfold acts at h
  split at h
  · rfl
  · rfl
  · rfl
  · exact Call.isHarmless_of_isRead h

/-! ## Passes -/

theorem holds_pass {c : Controller} (hcandidates : c.candidates.Only (·.isHarmless = true))
    (hprocess : ∀ id j, Still cluster view j → Holds raises cluster view (c.process id) j)
    (hj : Still cluster view j) : Holds raises cluster view c.pass j :=
  follows_pass (fun _ _ _ _ hc hj hb => hj.harmless hc hb) (fun _ => rfl) (fun _ _ => rfl)
    (fun _ => rfl) hcandidates hprocess hj

/-- The pass of every controller does only what is done while a cluster is paused. -/
theorem holds_workers (config : Config) {worker : Scheduled} (h : worker ∈ config.workers)
    (hs : cluster.state = .pause) (hj : Still cluster view j) :
    Holds raises cluster view worker.controller.pass j := by
  refine Config.of_mem_workers (P := fun c => Holds raises cluster view c.pass j) h ?_ ?_ ?_ ?_ ?_
  · refine holds_pass (only_ask.mpr rfl) (fun id j hj => ?_) hj
    exact Lifecycle.holds_process (fun _ => rfl)
      (fun _ now _ => Replacement.holds_work _ now) hs id hj
  · refine holds_pass (only_ask.mpr rfl) (fun id j hj => ?_) hj
    exact Lifecycle.holds_process (fun _ => rfl)
      (fun _ now _ => ImageCheck.holds_work _ now) hs id hj
  · refine holds_pass (only_ask.mpr rfl) (fun id j hj => ?_) hj
    have hprocess : ((Promotion.controller config.promotion).process id).Only
        (·.isHarmless = true) :=
      (Promotion.only_process _ id).mono fun _ => Promotion.isHarmless_of_actsOrLocks
    exact hprocess.holds hj
  · refine holds_pass ?_ (fun id j hj => Decommission.holds_process id hj) hj
    exact .bind (only_ask.mpr rfl) fun _ => only_done _
  · refine holds_pass (only_ask.mpr rfl) (fun id j hj => ?_) hj
    have hprocess : (TagCoverage.process config.tagSync id).Only (·.isHarmless = true) :=
      Only.mono (TagCoverage.within_process _ id) fun _ => TagCoverage.isHarmless_of_acts
    exact hprocess.holds hj

/-! ## The law of paused clusters -/

/-- A whole pass of a controller that some configuration switches on. -/
def Passes (raises : Fault → Prop) (j j' : Journal World) : Prop :=
  ∃ (config : Config) (worker : Scheduled) (r : Outcome PassReport), worker ∈ config.workers ∧
    worker.controller.pass.Ends (World.Possible World.SameStore raises).recorded j r j'

theorem Still.passes {j' : Journal World} (h : Still cluster view j) (hs : cluster.state = .pause)
    (hR : (rests cluster.name).Admits j.log) (hpass : Passes raises j j') :
    (rests cluster.name).Admits j'.log ∧ Still cluster view j' := by
  obtain ⟨config, worker, r, hw, he⟩ := hpass
  have hholds : Holds raises cluster view worker.controller.pass j :=
    holds_workers config hw hs h
  have hstill : Wants (Still cluster view) (fun _ => Still cluster view) r j' :=
    Keeps.ends hholds he
  refine ⟨Keeps.admits hholds he hR, ?_⟩
  cases r <;> exact hstill

/-- A cluster that is paused. -/
def held : Cluster := ⟨"web", "prod", .pause, none, 0, ⟨[], [], none⟩, .epoch⟩

/-- The paused cluster, with a host that was drained and has stopped, and with an event that
has just begun. -/
def heldTables : Store :=
  let host : Host := ⟨"drained", "web", .pendingTerminate, true, .epoch, .epoch⟩
  let agent : Agent := ⟨"drained", "prod", .stopped, .succeeded, .normal, none, none, .epoch⟩
  let store := ((Store.empty.insertHost host).putAgent agent).putItem .upgrade
    (UpgradeEvent.new "event" "web" "prod" .epoch)
  { store with clusters := store.clusters.insert held.name held }

theorem keyed_heldTables : heldTables.Keyed :=
  (((Store.keyed_empty.insertHost _).putAgent _).putItem .upgrade _).insertCluster _

def heldWorld : World := { World.initial .epoch (.seeded 0) with store := some heldTables }

/-- The journal of a pass over the paused cluster in which no call fails. -/
def passHeld (c : Controller) : Journal World :=
  (c.pass.run (failing fun _ _ => none) (.start heldWorld)).2

/-- A pass in which no call fails is one of the possible passes. -/
theorem passes_undisturbed {config : Config} {worker : Scheduled} (h : worker ∈ config.workers)
    (j : Journal World) : Passes raises j (worker.controller.pass.undisturbed j) := by
  have hothers : ∀ w : World, World.SameStore w w := fun _ => rfl
  exact ⟨config, worker, _, h, ends_undisturbed hothers worker.controller.pass j⟩

theorem passes_passHeld {config : Config} {worker : Scheduled} (h : worker ∈ config.workers) :
    Passes (fun _ => False) (.start heldWorld) (passHeld worker.controller) :=
  passes_undisturbed h (.start heldWorld)

/-- While a cluster is paused, whatever the controllers do in whole passes, and whatever fails:
none of their calls launches or drains hosts of the cluster, changes its record, or records a
host as its own; one that attaches or terminates its hosts is made for an item of another
cluster that tracks them, or terminates a host that was drained before and whose agents have
all stopped. The record of the cluster stays as it is, and its items all but for the dates of
the last advance. -/
theorem paused_cluster_rests (raises : Fault → Prop) {w : World} {s : Store} {cluster : Cluster}
    {j : Journal World} (hw : w.store = some s) (hk : s.Keyed)
    (hc : s.clusters.get? cluster.name = some cluster) (hs : cluster.state = .pause)
    (hrun : Relation.ReflTransGen (Passes raises) (.start w) j) :
    (rests cluster.name).Admits j.log ∧ ∀ s', j.state.store = some s' →
      s'.clusters.get? cluster.name = some cluster ∧
        ∀ k id, s'.itemOf cluster.name k id = s.itemOf cluster.name k id := by
  have hstart : Still cluster (s.itemOf cluster.name) (.start w) := by
    have hall : ∀ {P : Store → Prop}, P s → ∀ t, w.store = some t → P t := by
      intro P hP t ht
      rwa [← Option.some.inj (hw.symm.trans ht)]
    refine ⟨World.tables_eq hw ▸ hk, hall hc, hall fun _ _ => rfl, ?_⟩
    simp [Journal.start]
  have hend : (rests cluster.name).Admits j.log ∧
      Still cluster (s.itemOf cluster.name) j := by
    induction hrun with
    | refl => exact ⟨trivial, hstart⟩
    | tail _ hpass ih => exact ih.2.passes hs ih.1 hpass
  exact ⟨hend.1, fun s' hs' => ⟨hend.2.record s' hs', hend.2.items s' hs'⟩⟩

/-- The law of paused clusters for a pass of replacements, which works on the event. -/
theorem paused_cluster_rests_held : ∃ j : Journal World, (rests held.name).Admits j.log ∧
    "event" ∈ j.state.tables.events.keys ∧ ∀ s', j.state.store = some s' →
      ∀ k id, s'.itemOf held.name k id = heldTables.itemOf held.name k id := by
  have hworker : ⟨"replacement", passInterval 30, Replacement.controller {}⟩ ∈
      Config.workers {} := by simp [Config.workers]
  have hlaw := paused_cluster_rests (fun _ => False) rfl keyed_heldTables
    (show heldTables.clusters.get? held.name = some held from rfl) rfl
    (.single (passes_passHeld hworker))
  have hevent : "event" ∈
      (passHeld (Replacement.controller {})).state.tables.events.keys := by
    decide +kernel
  exact ⟨_, hlaw.1, hevent, fun s' hs' => (hlaw.2 s' hs').2⟩

/-- A pass of the termination of hosts does not ask whether the cluster is paused. -/
theorem paused_host_terminated :
    heldWorld.tables.clusters.get? "web" = some held ∧ held.state = .pause ∧
      heldWorld.tables.HasHost "web" "drained" ∧
      (∃ raises, Passes raises (.start heldWorld) (passHeld Decommission.controller)) ∧
      "drained" ∈ (passHeld Decommission.controller).log.flatMap (·.call.terminated) := by
  have hworker : ⟨"termination", passInterval 30, Decommission.controller⟩ ∈
      Config.workers {} := by simp [Config.workers]
  refine ⟨rfl, rfl, ⟨_, rfl, rfl⟩, ⟨_, passes_passHeld hworker⟩, ?_⟩
  decide +kernel

end FleetControl
