import FleetControl.Proofs.Conduct
import Mathlib.Data.List.Basic

/-!
# Hosts that a tick attaches

A tick in COMPLETING attaches hosts to the pool that it has tracked so far. The next call
stores the event without them, and the rest of the tick neither tracks nor terminates them.
-/
namespace FleetControl

/-- The hosts that were attached to a pool. -/
def Entry.attached : Entry World → List HostId
  | ⟨_, .provider (.attachToPool ids _), .ok _, _⟩ => ids
  | _ => []

namespace Call

/-- The hosts that a call terminates. -/
def terminated : Call → List HostId
  | .provider (.terminateHosts _ ids _) => ids
  | _ => []

/-- The hosts that an event tracks which a call stores. -/
def tracked : Call → List HostId
  | .store (.updateItem .upgrade y) => y.hostIds.toList
  | _ => []

/-- Whether a call neither terminates a host nor stores an event that tracks it. -/
def Forgoes (id : HostId) (c : Call) : Prop := id ∉ c.terminated ∧ id ∉ c.tracked

/-- Whether a call stores an event that does not track a host. -/
def Untracks (id : HostId) (c : Call) : Prop :=
  ∃ y : UpgradeEvent, c = .store (.updateItem .upgrade y) ∧ id ∉ y.hostIds

end Call

/-- Only a call that attaches hosts attaches any. -/
theorem Entry.attached_eq_nil {e : Entry World} (h : e.call.isAttach = false) :
    e.attached = [] := by
  unfold attached
  split
  · cases h
  · rfl

open Program

namespace Replacement

section

variable {outside : World → World → Prop} {raises : Fault → Prop} {event changed : UpgradeEvent}
  {past : List (Entry World)} {j : Journal World}

/-- A host that was attached since the journal was `base`. -/
def AttachedSince (base log : List (Entry World)) (id : HostId) : Prop :=
  (∃ e ∈ log, id ∈ e.attached) ∧ ∀ e ∈ base, id ∉ e.attached

/-- Whether the last call attached no host. -/
def Rested (log : List (Entry World)) : Prop := ∀ e, log.head? = some e → e.attached = []

/-- After a host was attached, the next call stores an event that does not track it, and no
later one stores an event that does or terminates the host. -/
def letsBe (base : List (Entry World)) : Rule World := fun past e =>
  ∀ id, AttachedSince base past id → e.call.Forgoes id ∧
    ∀ last, past.head? = some last → id ∈ last.attached → e.call.Untracks id

/-- The hosts attached since `base` are among some, none of which the last call attached. -/
def Settled (base : List (Entry World)) (ids : List HostId) (log : List (Entry World)) : Prop :=
  (∀ id, AttachedSince base log id → id ∈ ids) ∧ (ids = [] ∨ Rested log)

/-- Following the rule of a version and letting attached hosts be. -/
abbrev Swaps (event : UpgradeEvent) (base : List (Entry World))
    (outside : World → World → Prop) (raises : Fault → Prop) {α : Type}
    (Q : α → Journal World → Prop) (p : Program α) (j : Journal World) : Prop :=
  p.Follows (World.Possible outside raises)
    (fun past e => conduct event past e ∧ letsBe base past e)
    (fun j' => ∃ ids, Settled base ids j'.log) Q j

variable {base : List (Entry World)} {attached : List HostId}

theorem settled_base : Settled base [] base :=
  ⟨fun _ ⟨⟨e, he, ha⟩, hn⟩ => absurd ha (hn e he), .inl rfl⟩

/-- An entry that attaches no host. -/
theorem Settled.cons {e : Entry World} (h : ∀ id, AttachedSince base past id → id ∈ attached)
    (hn : e.attached = []) : Settled base attached (e :: past) := by
  refine ⟨fun id hid => h id ⟨?_, hid.2⟩, .inr ?_⟩
  · obtain ⟨a, ha, hattach⟩ := hid.1
    rcases List.mem_cons.mp ha with rfl | ha
    · rw [hn] at hattach
      cases hattach
    · exact ⟨a, ha, hattach⟩
  · rintro a ha
    cases ha
    exact hn

theorem Settled.letsBe (h : Settled base attached past) {e : Entry World}
    (hf : ∀ id ∈ attached, e.call.Forgoes id) : letsBe base past e := by
  intro id hid
  have hmem := h.1 id hid
  refine ⟨hf id hmem, fun last hl ha => ?_⟩
  rcases h.2 with rfl | hr
  · cases hmem
  · rw [hr last hl] at ha
    cases ha

/-- A call that attaches no host, terminates none that were attached and stores no event that
tracks one of them. -/
theorem swaps_perform {c : Call} {Q : c.Reply → Journal World → Prop}
    (hc : Conducts event j.log c) (hn : c.isAttach = false) (h : Settled base attached j.log)
    (hf : ∀ id ∈ attached, c.Forgoes id)
    (hQ : ∀ a w, World.Possible outside raises c j.state (.ok a) w →
      Settled base attached (j.enter c (.ok a) w).log → Q a (j.enter c (.ok a) w)) :
    Swaps event base outside raises Q (perform c) j := by
  refine follows_perform.mpr fun r w hb => ⟨⟨hc, h.letsBe hf⟩, ?_⟩
  have hs : Settled base attached (j.enter c r w).log := .cons h.1 (Entry.attached_eq_nil hn)
  cases r with
  | ok a => exact hQ a w hb hs
  | error f => exact ⟨attached, hs⟩

/-- A program that attaches no host keeps it at that. -/
theorem swaps_of_follows {α : Type} {p : Program α} {Q : α → Journal World → Prop}
    (hp : p.Follows (World.Possible outside raises)
      (fun past e => conduct event past e ∧ e.call.isAttach = false) (fun _ => True) Q j)
    (h : Settled base [] j.log) :
    Swaps event base outside raises (fun a j' => Q a j' ∧ Settled base [] j'.log) p j := by
  refine (hp.adapt (J := fun j' => Settled base [] j'.log) ?_ h).mono (fun _ _ => id) ?_
    fun _ _ => id
  · intro j c r w hj _ hR
    exact ⟨⟨hR.1, hj.letsBe (by simp)⟩, .cons hj.1 (Entry.attached_eq_nil hR.2)⟩
  · exact fun j' hj => ⟨[], hj.2⟩

theorem swaps_of_meets {α : Type} {p : Program α} {P : Call → Prop} {Q : α → Prop}
    (hp : p.Meets P (fun _ => True) Q)
    (hP : ∀ c, P c → Conducts event [] c ∧ c.isAttach = false) (h : Settled base [] j.log) :
    Swaps event base outside raises (fun a j' => Q a ∧ Settled base [] j'.log) p j := by
  refine (swaps_of_follows (hp.follows (fun _ c _ _ hc _ _ => ?_) trivial) h).imp fun _ _ hq =>
    ⟨hq.1.1, hq.2⟩
  exact ⟨⟨(hP c hc).1.mono List.nil_suffix, (hP c hc).2⟩, trivial⟩

theorem swaps_of_reads {α : Type} {p : Program α} {Q : α → Prop}
    (hp : p.Meets (·.isRead = true) (fun _ => True) Q) (h : Settled base [] j.log) :
    Swaps event base outside raises (fun a j' => Q a ∧ Settled base [] j'.log) p j :=
  swaps_of_meets hp (fun _ hc => ⟨.looks hc, Call.not_isAttach_of_isRead hc⟩) h

theorem swaps_terminate {hosts : List HostId} {drain : Bool}
    (hc : ∀ id ∈ hosts, id ∈ event.hostIds ∨ ∃ e ∈ j.log, id ∈ e.failedHosts event.cluster)
    (h : Settled base attached j.log) (hd : ∀ id ∈ attached, id ∉ hosts) :
    Swaps event base outside raises (fun _ j' => Settled base attached j'.log)
      (terminate event.cluster hosts drain) j := by
  refine .bind (Q := fun _ j' => Settled base attached j'.log)
    (swaps_perform (.terminates hc) rfl h (fun id hid => ⟨hd id hid, List.not_mem_nil⟩)
      fun _ _ _ => id) ?_
  intro _ j' h' _
  exact swaps_perform (.marks hosts) rfl h' (fun _ _ => ⟨List.not_mem_nil, List.not_mem_nil⟩)
    fun _ _ _ => id

theorem swaps_store (hd : Amends event j.log changed) (h : Settled base attached j.log)
    (hf : ∀ id ∈ attached, id ∉ changed.hostIds) :
    Swaps event base outside raises
      (fun _ j' => Amends event j'.log changed ∧ Settled base attached j'.log)
      (ask (.updateItem .upgrade changed)) j :=
  swaps_perform hd.stores rfl h (fun id hid => ⟨List.not_mem_nil, hf id hid⟩)
    fun _ _ _ hs => ⟨hd.mono (List.suffix_cons _ _), hs⟩

theorem swaps_keepRunning {active : List HostId} (ha : active.Sublist event.hostIds.toList)
    (h : Settled base [] j.log) :
    Swaps event base outside raises
      (fun kept j' => Amends event j'.log kept ∧ Settled base [] j'.log)
      (keepRunning event active) j := by
  rw [keepRunning]
  split
  · exact ⟨.refl, h⟩
  · have hamends : Amends event j.log (event.withHostIds (.ofList active)) :=
      Amends.refl.shrink fun id hid => ha.subset (IdSet.mem_ofList.mp hid)
    exact .bind (swaps_store hamends h (by simp)) fun _ j' h' _ => h'

theorem swaps_discardFailed {failedTemps : List HostId}
    (ht : ∀ id ∈ failedTemps, id ∈ event.hostIds) (hd : Amends event j.log changed)
    (h : Settled base [] j.log) :
    Swaps event base outside raises
      (fun kept j' => Amends event j'.log kept ∧ Settled base [] j'.log)
      (discardFailed event.cluster changed failedTemps) j := by
  rw [discardFailed]
  split
  · exact ⟨hd, h⟩
  · refine .bind (swaps_terminate (fun id hid => .inl (ht id hid)) h (by simp)) ?_
    intro _ j₁ h₁ hlog
    refine .bind (swaps_store ((hd.mono hlog).shrink fun id hid => ?_) h₁ (by simp)) ?_
    · exact (IdSet.mem_eraseAll.mp hid).1
    · exact fun _ j₂ h₂ _ => h₂

/-- The hosts that take the places of others are let be from then on. -/
theorem swaps_swapIn (hs : event.state = UpgradeState.completing) {swaps : Nat}
    {healthy failedPool : List HostId}
    (hh : ∀ id ∈ healthy, id ∈ event.hostIds)
    (hp : ∀ id ∈ failedPool, id ∉ event.hostIds ∧ ∃ e ∈ j.log, id ∈ e.failedHosts event.cluster)
    (hd : Amends event j.log changed) (h : Settled base [] j.log) :
    Swaps event base outside raises
      (fun kept j' => Amends event j'.log kept ∧
        ∃ attached, attached ⊆ healthy.take swaps ∧ Settled base attached j'.log)
      (swapIn event.cluster changed swaps healthy failedPool) j := by
  rw [swapIn]
  split
  · exact ⟨hd, [], List.nil_subset _, h⟩
  · have hattach : ∀ id ∈ healthy.take swaps, id ∈ event.hostIds :=
      fun id hid => hh id (List.mem_of_mem_take hid)
    have hgone : ∀ id ∈ healthy.take swaps,
        id ∉ changed.hostIds.eraseAll (healthy.take swaps) :=
      fun id hid hmem => (IdSet.mem_eraseAll.mp hmem).2 hid
    refine .bind (Q := fun _ j' => ∀ id, AttachedSince base j'.log id → id ∈ healthy.take swaps)
      ?_ ?_
    · refine follows_perform.mpr fun r w _ => ⟨⟨.attaches hs hattach, h.letsBe (by simp)⟩, ?_⟩
      cases r with
      | error f => exact ⟨[], .cons h.1 rfl⟩
      | ok u =>
          rintro id ⟨⟨e, he, ha⟩, hbase⟩
          rcases List.mem_cons.mp he with rfl | he
          · exact ha
          · exact absurd (h.1 id ⟨⟨e, he, ha⟩, hbase⟩) List.not_mem_nil
    intro _ j₁ hatt hlog₁
    have hkept : Amends event j₁.log
        (changed.withHostIds (changed.hostIds.eraseAll (healthy.take swaps))) :=
      (hd.mono hlog₁).shrink fun id hid => (IdSet.mem_eraseAll.mp hid).1
    refine .bind (Q := fun kept j' => Amends event j'.log kept ∧
      Settled base (healthy.take swaps) j'.log) ?_ ?_
    · refine .bind (Q := fun _ j' => Amends event j'.log (changed.withHostIds
        (changed.hostIds.eraseAll (healthy.take swaps))) ∧
          Settled base (healthy.take swaps) j'.log) ?_ fun _ _ hq _ => hq
      -- the call right after the attachment stores the event without the attached hosts
      refine follows_perform.mpr fun r w _ => ⟨⟨hkept.stores, fun id hid => ?_⟩, ?_⟩
      · have hid' := hgone id (hatt id hid)
        exact ⟨⟨List.not_mem_nil, hid'⟩, fun _ _ _ => ⟨_, rfl, hid'⟩⟩
      · have hs : ∀ e : Entry World, e.call.isAttach = false →
            Settled base (healthy.take swaps) (e :: j₁.log) :=
          fun e he => .cons hatt (Entry.attached_eq_nil he)
        cases r with
        | error f => exact ⟨_, hs _ rfl⟩
        | ok u => exact ⟨hkept.mono (List.suffix_cons _ _), hs _ rfl⟩
    rintro kept j₂ ⟨hd₂, h₂⟩ hlog₂
    refine .bind (swaps_terminate (fun id hid => ?_) h₂ fun id hid hfail => ?_) ?_
    · obtain ⟨e, he, hl⟩ := (hp id (List.mem_of_mem_take hid)).2
      exact .inr ⟨e, (hlog₁.trans hlog₂).subset he, hl⟩
    · exact (hp id (List.mem_of_mem_take hfail)).1 (hattach id hid)
    · exact fun _ j₃ h₃ hlog₃ => ⟨hd₂.mono hlog₃, _, List.Subset.refl _, h₃⟩

/-- What is surplus was tracked and not attached. -/
theorem swaps_reconcile (hs : event.state = UpgradeState.completing) (h : Settled base [] j.log) :
    Swaps event base outside raises
      (fun kept j' => Amends event j'.log kept ∧
        ∃ attached, (∀ id ∈ attached, id ∉ kept.hostIds) ∧ Settled base attached j'.log)
      (reconcile event) j := by
  rw [reconcile_eq]
  refine .bind (Q := fun active j' => active.Sublist event.hostIds.toList ∧
    Settled base [] j'.log) (swaps_perform (.looks rfl) rfl h (by simp)
      fun active w hb hs' => ⟨hb.sublist_of_listRunning, hs'⟩) ?_
  rintro active j₁ ⟨hactive, h₁⟩ -
  refine .bind (swaps_keepRunning hactive h₁) ?_
  rintro kept j₂ ⟨hd₂, h₂⟩ -
  refine .bind (Q := fun failed j' => (∀ id ∈ failed,
    ∃ e ∈ j'.log, id ∈ e.failedHosts event.cluster) ∧ Settled base [] j'.log)
      (swaps_perform (.looks rfl) rfl h₂ (by simp) fun failed w _ hs' =>
        ⟨fun id hid => ⟨_, List.mem_cons_self, by simpa [Entry.failedHosts] using hid⟩, hs'⟩) ?_
  rintro failed j₃ ⟨hfailed, h₃⟩ hlog₃
  dsimp only
  have htracked : ∀ id ∈ active, id ∈ event.hostIds := fun id hid => hactive.subset hid
  refine .bind (swaps_discardFailed (fun id hid => ?_) (hd₂.mono hlog₃) h₃) ?_
  · exact htracked id (by simpa using (List.mem_filter.mp hid).2)
  rintro kept j₄ ⟨hd₄, h₄⟩ hlog₄
  refine .bind (swaps_swapIn hs (fun id hid => htracked id (List.mem_filter.mp hid).1)
    (fun id hid => ?_) hd₄ h₄) ?_
  · obtain ⟨hf, hn⟩ := List.mem_filter.mp hid
    obtain ⟨e, he, hl⟩ := hfailed id hf
    exact ⟨by simpa using hn, e, hlog₄.subset he, hl⟩
  rintro kept j₅ ⟨hd₅, attached, hsub, h₅⟩ -
  -- no host is listed twice, so none of the surplus is among those that were attached
  have hnodup : (active.filter fun id => !(failed.filter fun id => active.contains id).contains
      id).Nodup := (hactive.nodup event.hostIds.nodup).filter _
  refine .bind (Q := fun _ j' => Settled base attached j'.log) ?_ ?_
  · rw [terminateSurplus]
    split
    · refine swaps_terminate (fun id hid => .inl (htracked id ?_)) h₅ fun id hid hsurplus => ?_
      · exact (List.mem_filter.mp (List.mem_of_mem_drop hid)).1
      · exact List.disjoint_take_drop hnodup (Nat.le_refl _) (hsub hid) hsurplus
    · exact h₅
  · intro _ j₆ h₆ hlog₆
    exact ⟨(hd₅.mono hlog₆).shrink (by simp), attached, by simp, h₆⟩

theorem swaps_completing (hs : event.state = UpgradeState.completing)
    (h : Settled base [] j.log) :
    Swaps event base outside raises
      (fun result j' => Concludes event j'.log result ∧
        ∃ attached, (∀ id ∈ attached, id ∉ result.1.hostIds) ∧ Settled base attached j'.log)
      (completing event) j := by
  rw [completing_eq]
  refine .bind (Q := fun _ j' => Settled base [] j'.log)
    (swaps_perform (.looks rfl) rfl h (by simp) fun _ _ _ => id) ?_
  intro serving j₁ h₁ _
  refine .bind (Q := fun _ j' => Settled base [] j'.log)
    (swaps_perform (.looks rfl) rfl h₁ (by simp) fun _ _ _ => id) ?_
  intro poolSize j₂ h₂ _
  refine .bind (Q := fun kept j' => Amends event j'.log kept ∧
    ∃ attached, (∀ id ∈ attached, id ∉ kept.hostIds) ∧ Settled base attached j'.log) ?_ ?_
  · rw [reconcileIfDue]
    split
    · exact ⟨.refl, [], by simp, h₂⟩
    · exact swaps_reconcile hs h₂
  rintro kept j₃ ⟨hd, attached, hkept, h₃⟩ -
  obtain ⟨⟨ids, rfl⟩, -⟩ := id hd
  refine .bind (Q := fun _ j' => Amends event j'.log (event.withHostIds ids) ∧
    Settled base attached j'.log) ?_ ?_
  · exact swaps_perform .resumes rfl h₃ (fun _ _ => ⟨List.not_mem_nil, List.not_mem_nil⟩)
      fun _ _ _ hs' => ⟨hd.mono (List.suffix_cons _ _), hs'⟩
  · rintro _ j₄ ⟨hd₄, h₄⟩ -
    exact ⟨⟨hd₄, by rw [hs]; exact .finished⟩, attached, hkept, h₄⟩

/-- A step ends with the event as its state leaves it, without the hosts that it attached. -/
theorem swaps_step (config : ReplacementSettings)
    (hs : event.state ≠ UpgradeState.completed) (h : Settled base [] j.log) :
    Swaps event base outside raises
      (fun result j' => Concludes event j'.log result ∧
        ∃ attached, (∀ id ∈ attached, id ∉ result.1.hostIds) ∧ Settled base attached j'.log)
      (step config event) j := by
  have hlift : ∀ {p : Program (UpgradeEvent × Decision UpgradeState)},
      event.state ≠ UpgradeState.completing →
      Treats event outside raises (fun result j' => Concludes event j'.log result) p j →
      Swaps event base outside raises (fun result j' => Concludes event j'.log result ∧
        ∃ attached, (∀ id ∈ attached, id ∉ result.1.hostIds) ∧
          Settled base attached j'.log) p j := by
    intro p hc hp
    have hp' : p.Follows (World.Possible outside raises)
        (fun past e => conduct event past e ∧ e.call.isAttach = false) (fun _ => True)
        (fun result j' => Concludes event j'.log result) j :=
      hp.mono (fun past e he => ⟨he, Conducts.not_isAttach he hc⟩) (fun _ => id) fun _ _ => id
    exact (swaps_of_follows hp' h).imp fun _ _ hq => ⟨hq.1, [], by simp, hq.2⟩
  simp only [step]
  split <;> rename_i he
  · exact hlift (by rw [he]; decide) (treats_init config he)
  · exact hlift (by rw [he]; decide) (treats_launching he)
  · exact hlift (by rw [he]; decide) (treats_replacing he)
  · exact swaps_completing he h
  · exact absurd he hs

theorem only_onTimeout (event : UpgradeEvent) (source : UpgradeState) :
    (onTimeout event source).Only fun c =>
      c.isRead = true ∨ c = .store (.setClusterState event.cluster .normal) := by
  refine .bind (only_ask.mpr (.inr rfl)) fun _ => .bind ?_ fun env => only_notify.mpr (.inl rfl)
  exact within_requireEnvironment (.inl rfl) trivial

/-- Whatever its state, a tick follows the rule of the version that it works on, and lets hosts
be that it has attached. -/
theorem swaps_work (config : ReplacementSettings) (event : UpgradeEvent) (now : Instant)
    (h : Settled base [] j.log) :
    Swaps event base outside raises (fun _ j' => ∃ ids, Settled base ids j'.log)
      ((lifecycle config).work event now) j := by
  rw [Lifecycle.work]
  split
  · exact ⟨[], h⟩
  · rename_i hterminal
    have hs : event.state ≠ UpgradeState.completed := fun he =>
      hterminal (Item.isTerminal_iff.mpr he)
    refine .bind (swaps_of_reads (within_clusterIsPaused rfl trivial) h) ?_
    rintro paused j₁ ⟨-, h₁⟩ -
    have hstore : ∀ y : UpgradeEvent, y.id = event.id → y.cluster = event.cluster →
        (Finishing event.state → Finishing y.state) →
        y.hostIds = event.hostIds →
        Swaps event base outside raises (fun _ j' => Settled base [] j'.log)
          (ask (.updateItem .upgrade y)) j₁ := by
      intro y hid hc hy hh
      exact swaps_perform (.stores hid hc hy fun id hmem => .inl (hh ▸ hmem)) rfl h₁ (by simp)
        fun _ _ _ => id
    split
    · exact .bind (hstore _ rfl rfl id rfl) fun _ j₂ h₂ _ => ⟨[], h₂⟩
    · cases (lifecycle config).timeout with
      | error f => exact ⟨[], h₁⟩
      | ok limit =>
          simp only [ofOutcome, Program.bind]
          split
          · refine .bind (hstore _ rfl rfl (fun he => ?_) rfl) fun _ j₂ h₂ _ => ?_
            · refine .inr ?_
              rcases he with he | he <;> simp [Item.afterTimeout, lifecycle, he, timeoutTarget]
            · have hafter : Swaps event base outside raises
                  (fun _ j' => ∃ ids, Settled base ids j'.log)
                  (onTimeout (event.afterTimeout now (timeoutTarget event.state)
                    ((lifecycle config).timeoutMessage event)) event.state) j₂ := by
                refine (swaps_of_meets (only_onTimeout _ _) (fun c hc => ?_) h₂).imp
                  fun _ _ hq => ⟨[], hq.2⟩
                rcases hc with hc | rfl
                · exact ⟨.looks hc, Call.not_isAttach_of_isRead hc⟩
                · exact ⟨.resumes, rfl⟩
              exact .bind hafter.attempt fun _ j₃ h₃ _ => h₃.same
          · refine .bind (swaps_step config hs h₁) ?_
            rintro ⟨changed, d⟩ j₂ ⟨hc, attached, hkept, h₂⟩ -
            refine .bind (Q := fun _ j' => ∃ ids, Settled base ids j'.log) ?_ fun _ j₃ h₃ _ => ?_
            · refine swaps_perform (hc.stores now) rfl h₂ (fun id hid => ⟨List.not_mem_nil, ?_⟩)
                fun _ _ _ hs' => ⟨attached, hs'⟩
              cases d <;> exact hkept id hid
            · cases d <;> exact h₃

end

end Replacement

end FleetControl
