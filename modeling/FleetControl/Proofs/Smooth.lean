import FleetControl.Proofs.Draining
import FleetControl.Proofs.Holding

/-!
# Smooth runs

A run is smooth if every call gets its reply and nobody interferes. What such a run makes of
the world is determined: each call leaves what its answer leaves. An event that is neither
paused nor overdue takes the step of its state, and the result is stored.
-/
namespace FleetControl

open Program

variable {α β : Type} {raises : Fault → Prop} {j j' : Journal World}

/-- Whatever a smooth run ends with is as `Q` wants it. -/
abbrev Program.Smooth (raises : Fault → Prop) (Q : α → Journal World → Prop) (p : Program α)
    (j : Journal World) : Prop :=
  p.Follows (World.Possible Eq raises).flawless (fun _ _ => True) (fun _ => False) Q j

namespace Program

theorem smooth_perform {c : Call} {Q : c.Reply → Journal World → Prop}
    (h : ∀ a w, World.answer c j.state = (.ok a, w) → Q a (j.enter c (.ok a) w)) :
    (perform c).Smooth raises Q j := by
  refine follows_perform.mpr fun r w hb => ⟨trivial, ?_⟩
  obtain ⟨⟨v, rfl, ha | ⟨f, -, rfl, -⟩⟩, a, hr⟩ := hb
  · subst hr
    exact h a w ha
  · cases hr

/-- A call whose answer is known. -/
theorem smooth_known {c : Call} {a : c.Reply} {w : World} {Q : c.Reply → Journal World → Prop}
    (ha : World.answer c j.state = (.ok a, w)) (h : Q a (j.enter c (.ok a) w)) :
    (perform c).Smooth raises Q j := by
  refine smooth_perform fun b v hb => ?_
  cases ha.symm.trans hb
  exact h

/-- The first part of a sequence makes a call whose answer is known. -/
theorem Smooth.next {c : Call} {a : c.Reply} {w : World} {f : c.Reply → Program β}
    {Q : β → Journal World → Prop} (ha : World.answer c j.state = (.ok a, w))
    (h : (f a).Smooth raises Q (j.enter c (.ok a) w)) :
    ((perform c).bind f).Smooth raises Q j := by
  refine .bind (smooth_known (Q := fun b j' => b = a ∧ j' = j.enter c (.ok a) w) ha ⟨rfl, rfl⟩) ?_
  rintro _ _ ⟨rfl, rfl⟩ -
  exact h

/-- What every smooth run has is what a smooth run ends with. -/
theorem Smooth.ends {p : Program α} {Q : α → Journal World → Prop} {r : Outcome α}
    (h : p.Smooth raises Q j) (he : p.Ends (World.Possible Eq raises).flawless.recorded j r j') :
    ∃ a, r = .ok a ∧ Q a j' := by
  have hend := Keeps.ends h he
  cases r with
  | ok a => exact ⟨a, rfl, hend⟩
  | error f => exact hend.elim

/-- A run in which nobody interferes is smooth if every call gets its reply. -/
theorem ends_smooth (raises : Fault → Prop) {p : Program α} {w : World}
    (hok : (p.undisturbed (.start w)).log.all (·.reply.isOk) = true) :
    p.Ends (World.Possible Eq raises).flawless.recorded (.start w)
      (p.run (failing fun _ _ => none) (.start w)).1 (p.undisturbed (.start w)) :=
  (ends_undisturbed (fun _ => rfl) p _).flawless (List.all_eq_true.mp hok)

end Program

/-! ## What answers leave -/

namespace World

variable {w v : World} {s : Store}

/-- A world with other tables. -/
abbrev withStore (w : World) (s : Store) : World := { w with store := some s }

/-- A store that answers is what its answer left of it, and nothing else changed. -/
theorem eq_of_ask {q : StoreCall} {a : q.Reply} (hs : w.store = some s)
    (h : answer (.store q) w = (.ok a, v)) :
    ∃ s', s.answer w.now q = (.ok a, s') ∧ v = w.withStore s' := by
  simp only [answer, useStore, hs] at h
  split at h
  · cases h
  · rename_i r s' _ he
    cases h
    exact ⟨s', he, rfl⟩

/-- A deploy that is created is one the store makes by the clock of its world. -/
theorem eq_of_createDeploy {new : NewDeploy} {d : Deploy} (hs : w.store = some s)
    (h : answer (.store (.createDeploy new)) w = (.ok d, v)) :
    ∃ s', s.createDeploy w.now new = .ok (d, s') ∧ v = w.withStore s' := by
  obtain ⟨s', ha, rfl⟩ := eq_of_ask hs h
  refine ⟨s', ?_, rfl⟩
  simp only [Store.answer] at ha
  split at ha
  · rename_i hcreated
    cases ha
    exact hcreated
  · cases ha

theorem eq_of_update {k : ItemKind} {i : Item k} {u : Unit} (hs : w.store = some s)
    (h : answer (.store (.updateItem k i)) w = (.ok u, v)) :
    v = w.withStore (s.putItem k i) := by
  obtain ⟨s', ha, rfl⟩ := eq_of_ask hs h
  simp only [Store.answer] at ha
  cases hu : s.updateItem k i with
  | error e =>
      rw [hu] at ha
      cases ha
  | ok t =>
      rw [hu] at ha
      cases ha
      rw [(Store.updateItem_eq_ok_iff.mp hu).2]

/-- A change of some hosts is dated by the clock. -/
theorem eq_of_setHostState {ids : List HostId} {state : HostState} {u : Unit}
    (hs : w.store = some s) (h : answer (.store (.setHostState ids state)) w = (.ok u, v)) :
    v = w.withStore (s.setHostState w.clock ids state) := by
  obtain ⟨s', ha, rfl⟩ := eq_of_ask hs h
  simp only [Store.answer, World.now] at ha
  cases hn : Clock.read w.clock with
  | error f =>
      rw [hn] at ha
      cases ha
  | ok now =>
      obtain rfl := Clock.eq_of_read hn
      rw [hn] at ha
      cases ha
      rfl

theorem eq_of_setClusterState {name : String} {state : ClusterState} {u : Unit}
    (hs : w.store = some s) (h : answer (.store (.setClusterState name state)) w = (.ok u, v)) :
    v = w.withStore { s with clusters := s.clusters.modify name fun c =>
      { c with state := state, lastUpdate := w.clock } } := by
  obtain ⟨s', ha, rfl⟩ := eq_of_ask hs h
  simp only [Store.answer, Store.setClusterState] at ha
  cases hu : s.changeCluster w.now name fun c => { c with state := state } with
  | error f =>
      rw [hu] at ha
      cases ha
  | ok t =>
      rw [hu] at ha
      cases ha
      obtain ⟨-, now, hn, rfl⟩ := Store.eq_of_changeCluster hu
      rw [Clock.eq_of_read hn]

end World

/-! ## The steps of events -/

/-- What a tick reports of a step that has decided. -/
def Decision.progress {S : Type} (source : S) : Decision S → Progress S
  | .stay => .stayed
  | .move target _ _ => .transitioned source target

namespace Replacement

variable {config : ReplacementSettings} {event : UpgradeEvent} {s : Store} {w : World}
  {id : ItemId} {now : Instant} {limit : Span}

/-- An event that is due for the step of its state: it is stored under its name, its cluster is
not paused, and it is not overdue. -/
structure Due (config : ReplacementSettings) (event : UpgradeEvent) (now : Instant) (w : World)
    (s : Store) : Prop where
  store : w.store = some s
  keyed : s.Keyed
  stored : s.getItem .upgrade event.id = some event
  unpaused : ∃ cluster, s.clusters.get? event.cluster = some cluster ∧ cluster.state ≠ .pause
  timely : ∃ limit, Span.ofSetting config.timeoutSecs = .ok limit ∧
    ¬limit < now.since event.header.lastWorkedOn

/-- A tick of an event that is due takes its step. Before that it only looks. -/
theorem smooth_advance {Q : Progress UpgradeState → Journal World → Prop}
    (h : Due config event now w s) (hopen : event.state ≠ UpgradeState.completed)
    (hstep : ∀ j, j.state = w → (∀ e ∈ j.log, e.call.isRead = true) →
      ((lifecycle config).takeStep event now).Smooth raises Q j) :
    ((lifecycle config).advance event.id now).Smooth raises Q (.start w) := by
  obtain ⟨cluster, hcluster, hnormal⟩ := h.unpaused
  obtain ⟨limit, hlimit, htimely⟩ := h.timely
  rw [Lifecycle.advance_eq]
  refine .next (World.answer_ask (a := some event) h.store ?_) ?_
  · rw [Store.answer, h.stored]
  · simp only [Lifecycle.work, Item.isTerminal_iff, ItemKind.terminal, if_neg hopen, lifecycle,
      clusterIsPaused, requireCluster, bind_eq, pure_eq, bind_assoc]
    refine .next (World.answer_ask (a := some cluster) h.store ?_) ?_
    · rw [Store.answer, hcluster]
    · simp only [orFail, Program.bind, hlimit, ofOutcome, Lifecycle.heartbeat, beq_iff_eq,
        if_neg hnormal, if_neg htimely]
      refine hstep _ rfl fun e he => ?_
      simp only [Journal.enter, Journal.start, List.mem_cons, List.not_mem_nil, or_false] at he
      obtain rfl | rfl := he <;> rfl

/-- What a step has decided is stored and reported. -/
theorem smooth_takeStep {Q : Progress UpgradeState → Journal World → Prop}
    (hstep : ((lifecycle config).step event now).Smooth raises (fun result j' =>
      ∃ s', j'.state.store = some s' ∧
        let stored := result.1.afterStep now result.2
        Q (result.2.progress event.state) (j'.enter (.store (.updateItem .upgrade stored))
          (.ok ()) (j'.state.withStore (s'.putItem .upgrade stored)))) j) :
    ((lifecycle config).takeStep event now).Smooth raises Q j := by
  refine .bind hstep ?_
  rintro ⟨changed, d⟩ j₁ ⟨s', hs', hq⟩ -
  refine .bind (smooth_perform (Q := fun _ j' => Q (d.progress event.state) j') ?_) ?_
  · intro u v ha
    rw [World.eq_of_update hs' ha]
    exact hq
  · rintro u j₂ h₂ -
    cases d <;> exact h₂

end Replacement

end FleetControl
