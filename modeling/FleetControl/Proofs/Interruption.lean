import FleetControl.Proofs.Launching
import FleetControl.Proofs.Leaving

/-!
# A pause in the middle of a tick

An operator may pause a cluster between any two calls of a tick. A tick asks once whether the
cluster is paused, before it works on its item, and later a replacement gives the cluster back
without asking again: at its end, and after a timeout. So a pause is lost just if it comes after
the question and before the call that gives the cluster back.
-/
namespace FleetControl

open Program

/-- Whether a call sets the state of a cluster. -/
def Call.setsState : Call → Bool
  | .store (.setClusterState _ _) => true
  | _ => false

theorem Call.not_setsState_of_isRead {c : Call} (h : c.isRead = true) : c.setsState = false := by
  unfold setsState
  split
  · cases h
  · rfl

theorem Call.eq_of_setsState {c : Call} (h : c.setsState = true) :
    ∃ name state, c = .store (.setClusterState name state) := by
  unfold setsState at h
  split at h
  · exact ⟨_, _, rfl⟩
  · cases h

/-- Whether an item has gone without progress for too long. -/
def Lifecycle.IsOverdue {k : ItemKind} (l : Lifecycle k) (item : Item k) (now : Instant) : Prop :=
  ∃ limit, l.timeout = .ok limit ∧ limit < now.since (l.timeoutBasis item)

/-- An event whose cluster is given back in the tick that works on it: it has only to be ended,
or it is overdue. -/
def IsDue (config : Config) (now : Instant) (event : UpgradeEvent) : Prop :=
  event.state = UpgradeState.completing ∨ (config.lifecycle .upgrade).IsOverdue event now

/-- The calls of a tick that works on an event and has set no state yet. -/
structure Begun (id : ItemId) (event : UpgradeEvent) (log : List (Entry Unit)) : Prop where
  read : log.getLast? = some (.bare (.store (.getItem .upgrade id)) (.ok (some event)))
  unset : ∀ e ∈ log, e.call.setsState = false

/-- The tick has found the cluster of the event not paused. -/
structure Going (id : ItemId) (event : UpgradeEvent) (log : List (Entry Unit)) : Prop
    extends Begun id event log where
  looked : ∃ cluster : Cluster, cluster.state ≠ .pause ∧
    .bare (.store (.getCluster event.cluster)) (.ok (some cluster)) ∈ log

/-- A tick is still to give a cluster back. -/
def MayResume (config : Config) (k : ItemKind) (id : ItemId) (now : Instant) (name : String)
    (log : List (Entry Unit)) : Prop :=
  k = .upgrade ∧ ∃ event, Going id event log ∧ event.cluster = name ∧ IsDue config now event

/-- The only state that a tick sets is that of a cluster that it is to give back. -/
def resumes (config : Config) (k : ItemKind) (id : ItemId) (now : Instant) : Rule Unit :=
  fun past e => ∀ name state, e.call = .store (.setClusterState name state) →
    state = .normal ∧ MayResume config k id now name past

/-- A tick has found no cluster that is not paused. -/
def Held (log : List (Entry Unit)) : Prop := ∀ name (cluster : Cluster),
  .bare (.store (.getCluster name)) (.ok (some cluster)) ∈ log → cluster.state = .pause

/-- A tick has set a state, or has none to set. -/
inductive Over (config : Config) (id : ItemId) (now : Instant) (log : List (Entry Unit)) :
    Prop where
  | set {e : Entry Unit} (he : e ∈ log) (hs : e.call.setsState = true)
  | idle {event : UpgradeEvent} (h : Begun id event log) (hd : ¬IsDue config now event)

section

variable {config : Config} {k : ItemKind} {id : ItemId} {now : Instant} {event : UpgradeEvent}
  {past log : List (Entry Unit)} {e : Entry Unit} {name : String}

theorem resumes_of_quiet (h : e.call.setsState = false) :
    resumes config k id now past e := by
  intro name state he
  rw [he] at h
  cases h

theorem Begun.cons (h : Begun id event past) (he : e.call.setsState = false) :
    Begun id event (e :: past) where
  read := by
    cases past with
    | nil => cases h.read
    | cons a past => exact h.read
  unset := List.forall_mem_cons.mpr ⟨he, h.unset⟩

theorem Going.cons (h : Going id event past) (he : e.call.setsState = false) :
    Going id event (e :: past) where
  toBegun := h.toBegun.cons he
  looked := h.looked.imp fun _ => And.imp_right (List.mem_cons_of_mem _)

/-- A tick that goes on did so one call before, unless this call has asked for the cluster. -/
theorem Going.of_cons (h : Going id event (e :: past)) (he : ∀ cluster : Cluster,
      e = .bare (.store (.getCluster event.cluster)) (.ok (some cluster)) →
        cluster.state = .pause) : Going id event past := by
  have hlooked : ∃ cluster : Cluster, cluster.state ≠ .pause ∧
      .bare (.store (.getCluster event.cluster)) (.ok (some cluster)) ∈ past := by
    obtain ⟨cluster, hs, hmem⟩ := h.looked
    rcases List.mem_cons.mp hmem with hc | hmem
    · exact absurd (he cluster hc.symm) hs
    · exact ⟨cluster, hs, hmem⟩
  have hne : past ≠ [] := by
    rintro rfl
    obtain ⟨_, -, hmem⟩ := hlooked
    cases hmem
  refine ⟨⟨?_, fun a ha => h.unset a (List.mem_cons_of_mem _ ha)⟩, hlooked⟩
  rw [← List.getLast?_cons_of_ne_nil hne]
  exact h.read

/-- A tick works on one event only. -/
theorem Begun.event_eq {event' : UpgradeEvent} (h : Begun id event log)
    (h' : Begun id event' log) : event = event' := by
  cases h.read.symm.trans h'.read
  rfl

theorem MayResume.cons (h : MayResume config k id now name past) (he : e.call.setsState = false) :
    MayResume config k id now name (e :: past) := by
  obtain ⟨hk, event, hg, hevent⟩ := h
  exact ⟨hk, event, hg.cons he, hevent⟩

theorem MayResume.name_eq {name' : String} (h : MayResume config k id now name log)
    (h' : MayResume config k id now name' log) : name = name' := by
  obtain ⟨-, event, hg, rfl, -⟩ := h
  obtain ⟨-, event', hg', rfl, -⟩ := h'
  rw [hg.event_eq hg'.toBegun]

theorem Held.not_mayResume (h : Held log) : ¬MayResume config k id now name log := by
  rintro ⟨-, event, hg, -, -⟩
  obtain ⟨cluster, hs, hmem⟩ := hg.looked
  exact hs (h _ cluster hmem)

theorem Over.not_mayResume (h : Over config id now log) :
    ¬MayResume config k id now name log := by
  rintro ⟨-, event, hg, -, hd⟩
  cases h with
  | set he hs =>
      rw [hg.unset _ he] at hs
      cases hs
  | idle h hd' =>
      rw [h.event_eq hg.toBegun] at hd'
      exact hd' hd

theorem Over.cons (h : Over config id now past) (he : e.call.setsState = false) :
    Over config id now (e :: past) := by
  cases h with
  | set hmem hs => exact .set (List.mem_cons_of_mem _ hmem) hs
  | idle h hd => exact .idle (h.cons he) hd

end

/-! ## Replacements -/

namespace Replacement

theorem not_setsState_of_worksOrStores {event : UpgradeEvent} {c : Call}
    (h : worksOrStores event c) : c.setsState = false := by
  rcases h with h | ⟨changed, rfl, -⟩
  · unfold Call.setsState
    split
    · cases h
    · rfl
  · rfl

section

variable {config : Config} {id : ItemId} {now : Instant} {event : UpgradeEvent}
  {B : Behaviour Unit} {j : Journal Unit} {α : Type} {p : Program α}

/-- Whatever is answered, a tick sets no state but that of a cluster that it is to give back. -/
abbrev Resumes (config : Config) (id : ItemId) (now : Instant) (B : Behaviour Unit)
    (E : Journal Unit → Prop) (Q : α → Journal Unit → Prop) (p : Program α) (j : Journal Unit) :
    Prop :=
  p.Follows B (resumes config .upgrade id now) E Q j

/-- Programs that set no state keep what such calls keep. -/
theorem resumes_of_meets {J : List (Entry Unit) → Prop} {Q : α → Prop}
    (hp : p.Meets (·.setsState = false) (fun _ => True) Q)
    (hJ : ∀ past e, e.call.setsState = false → J past → J (e :: past)) (h : J j.log) :
    Resumes config id now B (fun j' => J j'.log) (fun a j' => Q a ∧ J j'.log) p j :=
  hp.follows (fun _ _ _ _ hc hj _ => ⟨resumes_of_quiet hc, hJ _ _ hc hj⟩) h

/-- Programs that set no state leave it open whether the cluster is given back. -/
theorem going_of_meets {Q : α → Prop} (hp : p.Meets (·.setsState = false) (fun _ => True) Q)
    (h : Going id event j.log) :
    Resumes config id now B (fun _ => True) (fun a j' => Q a ∧ Going id event j'.log) p j :=
  (resumes_of_meets hp (fun _ _ hc hj => hj.cons hc) h).mono (fun _ _ hR => hR)
    (fun _ _ => trivial) fun _ _ hq => hq

/-- The tick asks whether the cluster is paused. -/
theorem begun_isPaused (h : Begun id event j.log) (hj : Held j.log) :
    Resumes config id now B (fun _ => True)
      (fun paused j' => if paused then Held j'.log else Going id event j'.log)
      (clusterIsPaused event.cluster) j := by
  refine .bind (Q := fun cluster j' =>
    if cluster.state = .pause then Held j'.log else Going id event j'.log) ?_ ?_
  · refine .bind (Q := fun found j' => ∀ cluster, found = some cluster →
      if cluster.state = .pause then Held j'.log else Going id event j'.log) ?_ ?_
    · refine follows_perform.mpr fun r s _ => ⟨resumes_of_quiet rfl, ?_⟩
      cases r with
      | error f => trivial
      | ok found =>
          rintro cluster rfl
          split
          · rename_i hp
            intro name other hmem
            rcases List.mem_cons.mp hmem with he | hmem
            · cases he
              exact hp
            · exact hj name other hmem
          · rename_i hn
            exact ⟨h.cons rfl, cluster, hn, List.mem_cons_self⟩
    · rintro (_ | cluster) j' hj' -
      · trivial
      · exact hj' cluster rfl
  · intro cluster j' hj' _
    by_cases hp : cluster.state = .pause
    · simpa [Wants, hp] using hj'
    · simpa [Wants, hp] using hj'

/-- The cluster is given back, or that fails. -/
theorem over_resume (h : Going id event j.log) (hd : IsDue config now event) :
    Resumes config id now B (fun j' => Over config id now j'.log)
      (fun _ j' => Over config id now j'.log) (resumeCluster event.cluster) j := by
  refine follows_perform.mpr fun r s _ => ⟨?_, ?_⟩
  · intro name state he
    cases he
    exact ⟨rfl, rfl, event, h, rfl, hd⟩
  · have hover : Over config id now
        (j.enter (.store (.setClusterState event.cluster .normal)) r s).log :=
      .set List.mem_cons_self rfl
    cases r <;> exact hover

theorem over_completing (h : Going id event j.log) (hs : event.state = UpgradeState.completing) :
    Resumes config id now B (fun _ => True) (fun _ j' => Over config id now j'.log)
      (completing event) j := by
  have hdue : ∀ serving poolSize, (reconcileIfDue event serving poolSize).Meets
      (·.setsState = false) (fun _ => True) fun changed => changed.cluster = event.cluster := by
    intro serving poolSize
    refine (meets_reconcileIfDue event serving poolSize).mono
      (fun _ hc => not_setsState_of_worksOrStores (works_of_tendsOrStores hc)) ?_
    rintro _ ⟨ids, rfl⟩
    rfl
  rw [completing_eq]
  refine .bind (going_of_meets (only_ask.mpr rfl) h) fun serving j₁ h₁ _ => ?_
  refine .bind (going_of_meets (only_request.mpr rfl) h₁.2) fun poolSize j₂ h₂ _ => ?_
  refine .bind (going_of_meets (hdue serving poolSize) h₂.2) ?_
  rintro changed j₃ ⟨hcluster, h₃⟩ -
  rw [hcluster]
  refine .bind (Follows.mono (over_resume h₃ (.inl hs)) (fun _ _ hR => hR) (fun _ _ => trivial)
    fun _ _ hq => hq) fun _ j₄ h₄ _ => h₄

/-- A step gives the cluster of its event back if the event has only to be ended. -/
theorem over_step (h : Going id event j.log)
    (hn : ¬(config.lifecycle .upgrade).IsOverdue event now) :
    Resumes config id now B (fun _ => True) (fun _ j' => Over config id now j'.log)
      (step config.replacement event) j := by
  by_cases hs : event.state = UpgradeState.completing
  · simp only [step, hs]
    exact over_completing h hs
  · have hidle : ¬IsDue config now event := by
      rintro (hc | ho)
      · exact hs hc
      · exact hn ho
    have hquiet : (step config.replacement event).Only (·.setsState = false) :=
      (meets_step_of_ne (fun _ _ => trivial) config.replacement event hs
        fun _ _ => trivial).mono (fun _ => not_setsState_of_worksOrStores) fun _ _ => trivial
    exact (going_of_meets hquiet h).imp fun _ j' hq => .idle hq.2.toBegun hidle

theorem over_takeStep (h : Going id event j.log)
    (hn : ¬(config.lifecycle .upgrade).IsOverdue event now) :
    Resumes config id now B (fun _ => True) (fun _ j' => Over config id now j'.log)
      ((config.lifecycle .upgrade).takeStep event now) j := by
  have hstore : ∀ (y : UpgradeEvent) (progress : Progress UpgradeState),
      ((ask (.updateItem .upgrade y)).bind fun _ => done (.ok progress)).Only
        (·.setsState = false) := fun y _ => .bind (only_ask.mpr rfl) fun _ => only_done _
  refine .bind (over_step h hn) ?_
  rintro ⟨changed, d⟩ j₁ h₁ -
  have hkept : ∀ progress : Progress UpgradeState, Resumes config id now B (fun _ => True)
      (fun _ j' => Over config id now j'.log)
      ((ask (.updateItem .upgrade (changed.afterStep now d))).bind fun _ =>
        done (.ok progress)) j₁ := fun progress =>
    (resumes_of_meets (hstore _ progress) (fun _ _ hc hj => hj.cons hc) h₁).mono
      (fun _ _ hR => hR) (fun _ _ => trivial) fun _ _ hq => hq.2
  cases d with
  | stay => exact hkept .stayed
  | move target status error => exact hkept (.transitioned event.state target)

/-- What follows a timeout gives the cluster back, whether or not the rest of it fails. -/
theorem over_onTimeout {stored : UpgradeEvent} (hstored : stored.cluster = event.cluster)
    (source : UpgradeState) (h : Going id event j.log) (hd : IsDue config now event) :
    Resumes config id now B (fun j' => Over config id now j'.log)
      (fun _ j' => Over config id now j'.log) (onTimeout stored source) j := by
  have hresume : Resumes config id now B (fun j' => Over config id now j'.log)
      (fun _ j' => Over config id now j'.log) (resumeCluster stored.cluster) j := by
    rw [hstored]
    exact over_resume h hd
  have htell : ((requireEnvironment stored.envId).bind fun env =>
      notify (timeoutAlert stored.cluster source env.recipients)).Only (·.setsState = false) :=
    .bind (within_requireEnvironment rfl trivial) fun _ =>
      only_perform.mpr rfl
  refine .bind hresume fun _ j₁ h₁ _ => ?_
  exact (resumes_of_meets htell (fun _ _ hc hj => hj.cons hc) h₁).imp fun _ _ hq => hq.2

theorem over_timeOut (h : Going id event j.log)
    (ho : (config.lifecycle .upgrade).IsOverdue event now) :
    Resumes config id now B (fun _ => True) (fun _ j' => Over config id now j'.log)
      ((config.lifecycle .upgrade).timeOut event now) j := by
  have hstore : ∀ y : UpgradeEvent,
      (ask (.updateItem .upgrade y)).Only (·.setsState = false) := fun y => only_ask.mpr rfl
  refine .bind (going_of_meets (hstore _) h) fun _ j₁ h₁ _ => ?_
  refine .bind (Q := fun _ j' => Over config id now j'.log) ?_ fun _ _ hover _ => hover
  refine (over_onTimeout rfl _ h₁.2 (.inr ho)).attempt.mono (fun _ _ hR => hR)
    (fun _ _ => trivial) fun _ _ hq => hq.same

/-- When a tick that works on an event has ended with a value, nothing is still to be given
back. -/
theorem resumes_work (h : Begun id event j.log) (hj : Held j.log) :
    Resumes config id now B (fun _ => True)
      (fun _ j' => ∀ name, ¬MayResume config .upgrade id now name j'.log)
      ((config.lifecycle .upgrade).work event now) j := by
  have hover : ∀ {p : Program (Progress UpgradeState)} {j : Journal Unit},
      Resumes config id now B (fun _ => True) (fun _ j' => Over config id now j'.log) p j →
      Resumes config id now B (fun _ => True)
        (fun _ j' => ∀ name, ¬MayResume config .upgrade id now name j'.log) p j :=
    fun hp => hp.imp fun _ _ hq _ => hq.not_mayResume
  rw [Lifecycle.work]
  split
  · exact fun name => hj.not_mayResume
  · refine .bind (begun_isPaused h hj) fun paused j₁ h₁ _ => ?_
    cases paused with
    | true =>
        have hheld : Held j₁.log := h₁
        refine .bind (Q := fun _ j' => Held j'.log) ?_ fun _ _ hq _ _ => hq.not_mayResume
        refine follows_perform.mpr fun r s _ => ⟨resumes_of_quiet rfl, ?_⟩
        cases r with
        | error f => trivial
        | ok u =>
            intro name cluster hmem
            exact hheld name cluster (List.mem_of_ne_of_mem (by simp) hmem)
    | false =>
        have hgoing : Going id event j₁.log := h₁
        simp only [Bool.false_eq_true, if_false]
        cases hlimit : (config.lifecycle .upgrade).timeout with
        | error f => trivial
        | ok limit =>
            simp only [ofOutcome, Program.bind]
            split
            · rename_i hlate
              exact hover (over_timeOut hgoing ⟨limit, hlimit, hlate⟩)
            · rename_i hearly
              refine hover (over_takeStep hgoing ?_)
              rintro ⟨limit', hlimit', hlate⟩
              cases hlimit.symm.trans hlimit'
              exact hearly hlate

end

end Replacement

/-! ## Any tick -/

theorem ImageCheck.Conducts.not_setsState {check : HealthCheck} {c : Call}
    (h : Conducts check c) : c.setsState = false := by
  cases h with
  | looks h => exact Call.not_setsState_of_isRead h
  | locks h => cases c <;> first | rfl | cases h
  | _ => rfl

/-- A tick sets no state but that of a cluster that it is to give back, and when it has ended
with a value it is to give none back any more. -/
theorem resumes_advance (config : Config) (k : ItemKind) (id : ItemId) (now : Instant)
    (B : Behaviour Unit) :
    ((config.lifecycle k).advance id now).Follows B (resumes config k id now) (fun _ => True)
      (fun _ j' => ∀ name, ¬MayResume config k id now name j'.log) (.start ()) := by
  rw [Lifecycle.advance_eq]
  cases k with
  | upgrade =>
      refine .bind (Q := fun found j' => ∀ event, found = some event →
        Begun id event j'.log ∧ Held j'.log) ?_ ?_
      · refine follows_perform.mpr fun r s _ => ⟨resumes_of_quiet rfl, ?_⟩
        cases r with
        | error f => trivial
        | ok found =>
            rintro event rfl
            refine ⟨⟨rfl, ?_⟩, ?_⟩
            · simp [Journal.enter, Journal.start, Call.setsState]
            · simp [Held, Journal.enter, Journal.start]
      · rintro (_ | event) j hj -
        · trivial
        · obtain ⟨hbegun, hheld⟩ := hj event rfl
          exact Replacement.resumes_work hbegun hheld
  | check =>
      have hcheck : ∀ j name, ¬MayResume config .check id now name j := fun _ _ h => by cases h.1
      refine (Meets.follows (P := (·.setsState = false)) (Q := fun _ => True) ?_
        (fun _ _ _ _ hc _ _ => ⟨resumes_of_quiet hc, trivial⟩) trivial).imp fun _ _ _ => hcheck _
      refine Only.bind (only_ask.mpr rfl) ?_
      rintro (_ | check)
      · exact only_fail _
      · exact Only.mono (ImageCheck.conducts_work _ check now) fun _ hc => hc.not_setsState

/-! ## The pause -/

/-- A cluster is in a state, as far as can be seen. -/
def World.InState (name : String) (state : ClusterState) (w : World) : Prop :=
  ∀ s, w.store = some s → (s.clusters.get? name).map Cluster.state = some state

/-- A cluster stays in its state while nobody sets it. -/
theorem Store.Effect.clusterState {s s' : Store} {clock : Outcome Instant} {c : StoreCall}
    {name : String} (he : Effect s clock c s')
    (hc : ∀ state, c ≠ .setClusterState name state) :
    (s'.clusters.get? name).map Cluster.state = (s.clusters.get? name).map Cluster.state := by
  obtain h | ⟨state, now, hset, -⟩ | ⟨image, now, -, h⟩ := he.cluster_cases name
  · rw [h]
  · exact absurd hset (hc state)
  · rw [h, Option.map_map]
    rfl

/-- A cluster whose state was set is in that state. -/
theorem Store.clusterState_of_set {s s' : Store} {clock : Outcome Instant} {name : String}
    {state : ClusterState} {u : Unit}
    (h : s.answer clock (.setClusterState name state) = (.ok u, s')) :
    (s'.clusters.get? name).map Cluster.state = some state := by
  simp only [Store.answer, settle] at h
  split at h
  · rename_i t ht
    cases h
    obtain ⟨hname, now, -, rfl⟩ := eq_of_changeCluster ht
    obtain ⟨cluster, hg⟩ := Option.isSome_iff_exists.mp hname
    rw [Table.get?_modify, if_pos rfl, hg]
    rfl
  · cases h

namespace World

variable {outside : World → World → Prop} {raises : Fault → Prop} {name : String}
  {state : ClusterState} {w w' : World}

/-- A call that does not set the state of a cluster leaves it as it is, if the others do. -/
theorem Possible.inState {c : Call} {r : Outcome c.Reply} (hb : Possible outside raises c w r w')
    (ho : ∀ u u', outside u u' → u.InState name state → u'.InState name state)
    (hc : ∀ st, c ≠ .store (.setClusterState name st)) (h : w.InState name state) :
    w'.InState name state := by
  refine hb.preserves (ho w) (fun v hv s' hs' => ?_) h
  have hanswer : Possible Eq (fun _ => False) c v (answer c v).1 (answer c v).2 :=
    ⟨v, rfl, .inl rfl⟩
  rcases hanswer.store_cases fun _ hu => hu ▸ rfl with hs | ⟨q, rfl, hs⟩
  · exact hv s' (hs ▸ hs')
  · obtain ⟨s, clock, hstore, he⟩ := hs s' hs'
    rw [he.clusterState fun st hq => hc st (congrArg _ hq)]
    exact hv s hstore

/-- The state of a cluster that is found. -/
theorem Possible.state_eq {cluster : Cluster} (ho : ∀ v, outside w v → v.InState name state)
    (hb : Possible outside raises (.store (.getCluster name)) w (.ok (some cluster)) w') :
    cluster.state = state := by
  obtain ⟨v, s, _, _, hout, hs, ha, -⟩ := hb.store_of_ok
  have hfound : s.clusters.get? name = some cluster := Except.ok.inj (Prod.mk.inj ha).1
  have hp := ho v hout s hs
  rw [hfound] at hp
  exact Option.some.inj hp

theorem Possible.inState_of_set {u : Unit}
    (hb : Possible outside raises (.store (.setClusterState name state)) w (.ok u) w') :
    w'.InState name state := by
  obtain ⟨v, s, s', clock, -, -, ha, hs'⟩ := hb.store_of_ok
  intro t ht
  cases hs'.symm.trans ht
  exact Store.clusterState_of_set ha

end World

/-- The entries of a journal without the states. -/
def Journal.replies (j : Journal World) : Journal Unit := ⟨(), heard j.log⟩

/-- Calls may be answered in any way. -/
def anyhow : Behaviour Unit := fun _ _ _ _ => True

theorem recorded_replies {B : Behaviour World} {c : Call} {j j' : Journal World}
    {r : Outcome c.Reply} (h : B.recorded c j r j') :
    anyhow.recorded c j.replies r j'.replies := by
  obtain ⟨w, -, rfl⟩ := h
  exact ⟨(), trivial, rfl⟩

section

variable {outside : World → World → Prop} {raises : Fault → Prop} {config : Config}
  {k : ItemKind} {id : ItemId} {now : Instant} {name : String} {c : Call}
  {j j' : Journal World} {r : Outcome c.Reply}

/-- While a cluster is paused, a tick that is not to give it back does not, and cannot come to. -/
theorem pause_kept_by_call
    (ho : ∀ state u u', outside u u' → u.InState name state → u'.InState name state)
    (hb : (World.Possible outside raises).recorded c j r j')
    (hR : Journal.Adds (resumes config k id now) j.replies j'.replies)
    (h : j.state.InState name .pause ∧ ¬MayResume config k id now name (heard j.log)) :
    j'.state.InState name .pause ∧ ¬MayResume config k id now name (heard j'.log) := by
  obtain ⟨w, hb, rfl⟩ := hb
  obtain ⟨e, he, hR⟩ := hR
  cases he
  have hunset : ∀ state, c ≠ .store (.setClusterState name state) :=
    fun state hc => h.2 (hR name state hc).2
  refine ⟨hb.inState (ho _) hunset h.1, fun ⟨hk, event, hg, hname, hd⟩ => ?_⟩
  refine h.2 ⟨hk, event, hg.of_cons fun cluster hc => ?_, hname, hd⟩
  subst hname
  cases hc
  exact hb.state_eq fun u hu => ho _ _ u hu h.1

/-- Once the call that gives a cluster back was answered, the cluster is in normal operation. -/
theorem pause_lost_by_call
    (ho : ∀ state u u', outside u u' → u.InState name state → u'.InState name state)
    (hb : (World.Possible outside raises).flawless.recorded c j r j')
    (hR : Journal.Adds (resumes config k id now) j.replies j'.replies)
    (h : MayResume config k id now name (heard j.log) ∨ j.state.InState name .normal) :
    MayResume config k id now name (heard j'.log) ∨ j'.state.InState name .normal := by
  obtain ⟨w, ⟨hb, a, rfl⟩, rfl⟩ := hb
  obtain ⟨e, he, hR⟩ := hR
  cases he
  by_cases hset : ∃ state, c = .store (.setClusterState name state)
  · obtain ⟨state, rfl⟩ := hset
    obtain ⟨rfl, -⟩ := hR name state rfl
    exact .inr hb.inState_of_set
  · have hunset : ∀ state, c ≠ .store (.setClusterState name state) :=
      fun state hc => hset ⟨state, hc⟩
    refine h.imp (fun hmay => hmay.cons ?_) fun hs => hb.inState (ho _) hunset hs
    cases hc : c.setsState with
    | false => rfl
    | true =>
        obtain ⟨name', state, rfl⟩ := Call.eq_of_setsState hc
        obtain ⟨-, hmay'⟩ := hR name' state rfl
        exact absurd ⟨state, by rw [hmay.name_eq hmay']⟩ hset

end

/-- An operator pauses a cluster. -/
def World.pause (name : String) (w : World) : World :=
  (World.answer (.store (.setClusterState name .pause)) w).2

theorem World.inState_pause {name : String} {w : World}
    (h : (World.answer (.store (.setClusterState name .pause)) w).1 = .ok ()) :
    (w.pause name).InState name .pause := by
  have hb : World.Possible Eq (fun _ => False) (.store (.setClusterState name .pause)) w (.ok ())
      (w.pause name) := ⟨w, rfl, .inl (Prod.ext h rfl)⟩
  exact hb.inState_of_set

/-- A cluster, and an event of it that has only to be ended. -/
def ending : World :=
  let cluster : Cluster := ⟨"web", "prod", .normal, none, 0, ⟨[], [], none⟩, .epoch⟩
  let event : UpgradeEvent := { UpgradeEvent.new "event" "web" "prod" .epoch with
    state := UpgradeState.completing }
  { World.initial .epoch (.seeded 0) with
    store := some { Store.empty.putItem .upgrade event with
      clusters := Table.empty.insert cluster.name cluster } }

/-- A tick of the event. -/
def endingTick : Program (Progress UpgradeState) :=
  (Config.lifecycle {} .upgrade).advance "event" .epoch

/-- Some calls of a tick of the event. -/
def begun (n : Nat) : Program (Progress UpgradeState) × Journal World :=
  endingTick.follow (failing fun _ _ => none) n (.start ending)

/-- The end of a tick of the event in which the cluster is paused after so many calls. -/
def interrupted (n : Nat) : Outcome (Progress UpgradeState) × Journal World :=
  (begun n).1.run (failing fun _ _ => none)
    ⟨(begun n).2.state.pause "web", (begun n).2.log⟩

/-- Nobody but the tick does anything, and no call fails. -/
abbrev alone : Behaviour (Journal World) := (World.Possible Eq fun _ => False).recorded

theorem alone_failing (c : Call) (j : Journal World) :
    alone c j (failing (fun _ _ => none) c j).1 (failing (fun _ _ => none) c j).2 :=
  ⟨_, ⟨j.state, rfl, .inl rfl⟩, rfl⟩

/-- A cluster that is paused between two calls of a tick is still paused when the tick has
ended, however it ends, unless the tick was still to give the cluster back: it works on an event
of the cluster that has only to be ended or is overdue, it has found the cluster not paused, and
it has set no state since. In that case a tick that ends with a value and without a failed call
has put the cluster into normal operation. -/
theorem pause_kept_iff {outside outside' : World → World → Prop} {raises : Fault → Prop}
    {config : Config} {k : ItemKind} {id : ItemId} {now : Instant} {name : String} {w v : World}
    {rest : Program (Progress k.State)} {r : Outcome (Progress k.State)} {j j' : Journal World}
    (hb : ((config.lifecycle k).advance id now).Leads (World.Possible outside raises).recorded
      (.start w) rest j)
    (hv : v.InState name .pause)
    (ho : ∀ state u u', outside' u u' → u.InState name state → u'.InState name state)
    (he : rest.Ends (World.Possible outside' raises).recorded ⟨v, j.log⟩ r j') :
    (¬MayResume config k id now name (heard j.log) → j'.state.InState name .pause) ∧
    (MayResume config k id now name (heard j.log) → r.isOk = true →
      (∀ e ∈ j'.log, e.reply.isOk = true) → j'.state.InState name .normal) := by
  have hfollows : rest.Follows anyhow (resumes config k id now) (fun _ => True)
      (fun _ j' => ∀ name, ¬MayResume config k id now name j'.log) j.replies :=
    Keeps.leads (resumes_advance config k id now anyhow)
      (hb.along Journal.replies fun _ _ _ _ => recorded_replies)
  constructor
  · intro hmay
    have hrest := Keeps.along Journal.replies (C := (World.Possible outside' raises).recorded)
      (fun _ _ _ _ => recorded_replies) (t := ⟨v, j.log⟩) hfollows
    exact (hrest.preserves (fun _ _ _ _ hj hb hR => pause_kept_by_call ho hb hR hj) he
      ⟨hv, hmay⟩).1
  · intro hmay hok hflawless
    have hrest := Keeps.along Journal.replies
      (C := (World.Possible outside' raises).flawless.recorded)
      (fun _ _ _ _ => recorded_replies) (t := ⟨v, j.log⟩) hfollows
    have he' := he.flawless hflawless
    have hend := hrest.preserves (fun _ _ _ _ hj hb hR => pause_lost_by_call ho hb hR hj) he'
      (.inl hmay)
    cases r with
    | error f => cases hok
    | ok progress =>
        have hover : ∀ name, ¬MayResume config k id now name (heard j'.log) := hrest.ends he'
        exact hend.resolve_left (hover name)

/-- The law of pauses for a tick of the event that is interrupted after it has given the cluster
back. -/
theorem pause_kept_iff_late : (interrupted 5).1 = .ok (.transitioned .completing .completed) ∧
    (interrupted 5).2.state.InState "web" .pause := by
  have hset : (heard (begun 5).2.log).any (·.call.setsState) = true := by decide +kernel
  obtain ⟨e, he, hs⟩ := List.any_eq_true.mp hset
  have hover : ¬MayResume {} .upgrade "event" .epoch "web" (heard (begun 5).2.log) :=
    (Over.set he hs).not_mayResume
  have hpaused : ((begun 5).2.state.pause "web").InState "web" .pause :=
    World.inState_pause (by decide +kernel)
  refine ⟨by decide +kernel, ?_⟩
  refine (pause_kept_iff (leads_follow alone_failing 5 endingTick _) hpaused ?_
    (ends_handler alone_failing _ _)).1 hover
  rintro state u _ rfl h
  exact h

/-- A cluster is paused right before an event that has only to be ended gives it back, and is in
normal operation when the tick has ended. -/
theorem pause_lost :
    endingTick.Leads alone (.start ending) (begun 4).1 (begun 4).2 ∧
      ((begun 4).2.state.pause "web").InState "web" .pause ∧
      ∃ r j, (begun 4).1.Ends alone ⟨(begun 4).2.state.pause "web", (begun 4).2.log⟩ r j ∧
        r = .ok (.transitioned .completing .completed) ∧
        (j.state.tables.clusters.get? "web").map Cluster.state = some .normal := by
  refine ⟨leads_follow alone_failing 4 endingTick _, World.inState_pause (by decide +kernel), ?_⟩
  refine ⟨_, _, ends_handler alone_failing _ _, ?_⟩
  decide +kernel

end FleetControl
