import FleetControl.Proofs.Swapping

/-!
# What becomes of the hosts that an event tracks

A tick stores versions of its event. Each of them tracks every host of the versions before it,
unless the host was attached to the pool, was not reported running, or was terminated, and none
tracks a host that was terminated for it. A version in COMPLETED tracks no host at all, unless
the pool lacked serving capacity or the event had timed out.
-/
namespace FleetControl

namespace Entry

/-- The hosts that were asked about and are not reported running. -/
def absent : Entry World → List HostId
  | ⟨_, .provider (.listRunning ids), .ok running, _⟩ => ids.filter fun id => !running.contains id
  | _ => []

/-- The hosts whose termination was accepted. -/
def dismissed : Entry World → List HostId
  | ⟨_, .provider (.terminateHosts _ ids _), .ok _, _⟩ => ids
  | _ => []

/-- The hosts whose termination was accepted without leave to finish their work. -/
def replaced : Entry World → List HostId
  | ⟨_, .provider (.terminateHosts _ ids false), .ok _, _⟩ => ids
  | _ => []

/-- The hosts that were recorded as terminating. -/
def marked : Entry World → List HostId
  | ⟨_, .store (.setHostState ids .terminating), .ok _, _⟩ => ids
  | _ => []

/-- How many agents were counted as serving. -/
def serving : Entry World → Option Nat
  | ⟨_, .store (.countServing _), .ok count, _⟩ => some count
  | _ => none

/-- The size of the pool that was asked for. -/
def poolSize : Entry World → Option Nat
  | ⟨_, .provider (.currentPoolSize _), .ok size, _⟩ => some size
  | _ => none

end Entry

namespace Call

/-- Whether a call stores an event. -/
def storesEvent : Call → Bool
  | .store (.updateItem .upgrade _) => true
  | _ => false

/-- Whether a call drains hosts. -/
def isDrain : Call → Bool
  | .store (.drainHosts _ _) => true
  | _ => false

/-- Whether a call neither stores an event nor records the state of hosts nor drains any. -/
def isPlain : Call → Bool
  | .store (.updateItem .upgrade _) | .store (.setHostState _ _) | .store (.drainHosts _ _) =>
      false
  | _ => true

theorem isPlain_of_isRead {c : Call} (h : c.isRead = true) : c.isPlain = true := by
  unfold isPlain
  split
  · cases h
  · cases h
  · cases h
  · rfl

theorem storesEvent_of_isPlain {c : Call} (h : c.isPlain = true) : c.storesEvent = false := by
  unfold storesEvent
  split
  · cases h
  · rfl

theorem storesEvent_of_isDrain {c : Call} (h : c.isDrain = true) : c.storesEvent = false := by
  unfold storesEvent
  split
  · cases h
  · rfl

theorem tracked_of_not_storesEvent {c : Call} (h : c.storesEvent = false) : c.tracked = [] := by
  unfold tracked
  split
  · cases h
  · rfl

end Call

namespace Entry

variable {e : Entry World}

theorem marked_of_isPlain (h : e.call.isPlain = true) : e.marked = [] := by
  unfold marked
  split
  · cases h
  · rfl

theorem marked_of_isDrain (h : e.call.isDrain = true) : e.marked = [] := by
  unfold marked
  split
  · cases h
  · rfl

end Entry

open Program

namespace Replacement

section

variable {event changed y : UpgradeEvent} {past log : List (Entry World)} {id : HostId}
  {ids : List HostId} {kept : IdSet}

/-- How a host comes to be tracked no longer. -/
inductive Parted (log : List (Entry World)) (id : HostId) : Prop where
  | attached {e : Entry World} (he : e ∈ log) (h : id ∈ e.attached)
  | absent {e : Entry World} (he : e ∈ log) (h : id ∈ e.absent)
  | terminated {e e' : Entry World} (he : e ∈ log) (h : id ∈ e.dismissed) (he' : e' ∈ log)
      (h' : id ∈ e'.marked)

theorem Parted.mono (h : Parted past id) (hp : past ⊆ log) : Parted log id := by
  cases h with
  | attached he h => exact .attached (hp he) h
  | absent he h => exact .absent (hp he) h
  | terminated he h he' h' => exact .terminated (hp he) h (hp he') h'

/-- The hosts recorded as terminating since an event was stored. -/
def pending : List (Entry World) → List HostId
  | [] => []
  | e :: past => if e.call.storesEvent then [] else e.marked ++ pending past

theorem pending_cons {e : Entry World} (hs : e.call.storesEvent = false) (hm : e.marked = []) :
    pending (e :: past) = pending past := by
  rw [pending, hs, hm]
  rfl

theorem pending_cons_of_isPlain {e : Entry World} (h : e.call.isPlain = true) :
    pending (e :: past) = pending past :=
  pending_cons (Call.storesEvent_of_isPlain h) (Entry.marked_of_isPlain h)

/-- The hosts recorded as terminating in a tick. -/
def markedIn (log : List (Entry World)) : List HostId := log.flatMap Entry.marked

theorem markedIn_cons {e : Entry World} (hm : e.marked = []) :
    markedIn (e :: past) = markedIn past := by
  rw [markedIn, List.flatMap_cons, hm]
  rfl

/-- No host waits for the event to be stored without it, unless the last call failed. -/
def Squared (log : List (Entry World)) : Prop :=
  pending log = [] ∨ ∃ e f, log.head? = some e ∧ e.reply = .error f

/-- Whether an event or one of those that were stored tracks a host. -/
def EverTracked (event : UpgradeEvent) (log : List (Entry World)) (id : HostId) : Prop :=
  id ∈ event.hostIds ∨ ∃ e ∈ log, id ∈ e.call.tracked

/-- No more agents were counted as serving than the pool is to have hosts. -/
def Scarce (log : List (Entry World)) : Prop :=
  ∃ count size, (∃ e ∈ log, e.serving = some count) ∧ (∃ e ∈ log, e.poolSize = some size) ∧
    count ≤ size

/-- An event after a timeout in COMPLETING. -/
def GivenUp (y : UpgradeEvent) : Prop := ∃ (x : UpgradeEvent) (now : Instant) (message : String),
  x.state = UpgradeState.completing ∧ y = x.afterTimeout now .completed message

/-- What a tick may store, given the version that it has read. -/
structure Accounts (event : UpgradeEvent) (past : List (Entry World)) (y : UpgradeEvent) :
    Prop where
  kept : ∀ id, EverTracked event past id → id ∈ y.hostIds ∨ Parted past id
  free : ∀ id ∈ y.hostIds, id ∉ markedIn past
  ended : y.state = UpgradeState.completed → y.hostIds = .empty ∨ Scarce past ∨ GivenUp y

/-- A tick accounts for the hosts of the version that it has read. It records as terminating
only those and the failed hosts that they replace, and it drains hosts in REPLACING only, before
it stores the event. -/
def accounts (event : UpgradeEvent) : Rule World := fun past e =>
  (∀ y, e.call = .store (.updateItem .upgrade y) → Accounts event past y) ∧
    (∀ ids s, e.call = .store (.setHostState ids s) →
      ∀ id ∈ ids, id ∈ event.hostIds ∨ ∃ a ∈ past, id ∈ a.replaced) ∧
    (e.call.isDrain = true → event.state = UpgradeState.replacing ∧
      ∀ a ∈ past, a.call.storesEvent = false)

theorem accounts_of_isPlain {e : Entry World} (h : e.call.isPlain = true) :
    accounts event past e := by
  refine ⟨fun y hy => ?_, fun ids s hs => ?_, fun hd => ?_⟩
  · rw [hy] at h
    cases h
  · rw [hs] at h
    cases h
  · unfold Call.isDrain at hd
    split at hd
    · rename_i hc
      rw [hc] at h
      cases h
    · cases hd

/-- The version that a step has in hand accounts for all hosts. -/
structure Carries (event : UpgradeEvent) (log : List (Entry World)) (changed : UpgradeEvent) :
    Prop where
  state : changed.state = event.state
  kept : ∀ id, EverTracked event log id → id ∈ changed.hostIds ∨ Parted log id
  free : ∀ id ∈ changed.hostIds, id ∉ markedIn log
  /-- While hosts are launched none is recorded as terminating. -/
  unmarked : event.state = UpgradeState.init → markedIn log = []
  /-- While hosts are drained the event is not stored. -/
  unstored : event.state = UpgradeState.replacing → ∀ e ∈ log, e.call.storesEvent = false

theorem EverTracked.of_cons {e : Entry World} (h : EverTracked event (e :: past) id)
    (hc : e.call.tracked = []) : EverTracked event past id := by
  refine h.imp_right ?_
  rintro ⟨a, ha, hid⟩
  rcases List.mem_cons.mp ha with rfl | ha
  · rw [hc] at hid
    cases hid
  · exact ⟨a, ha, hid⟩

theorem Carries.start : Carries event [] event :=
  ⟨rfl, fun _ h => .inl (h.resolve_right (by simp)), by simp [markedIn], fun _ => rfl, by simp⟩

theorem Carries.cons (h : Carries event past changed) {e : Entry World}
    (hs : e.call.storesEvent = false) (hm : e.marked = []) :
    Carries event (e :: past) changed := by
  refine ⟨h.state, fun id hid => ?_, ?_, ?_, fun hr => ?_⟩
  · have hkept := h.kept id (hid.of_cons (Call.tracked_of_not_storesEvent hs))
    exact hkept.imp_right fun hp => hp.mono (List.subset_cons_self _ _)
  · rw [markedIn_cons hm]
    exact h.free
  · rw [markedIn_cons hm]
    exact h.unmarked
  · exact List.forall_mem_cons.mpr ⟨hs, h.unstored hr⟩

theorem Carries.plain (h : Carries event past changed) {e : Entry World}
    (hc : e.call.isPlain = true) : Carries event (e :: past) changed :=
  h.cons (Call.storesEvent_of_isPlain hc) (Entry.marked_of_isPlain hc)

/-- Hosts may be dropped that are accounted for. -/
theorem Carries.shrink (h : Carries event log changed) (hkept : ∀ id ∈ kept, id ∈ changed.hostIds)
    (hparted : ∀ id ∈ changed.hostIds, id ∈ kept ∨ Parted log id) :
    Carries event log (changed.withHostIds kept) := by
  refine ⟨h.state, fun id hid => ?_, fun id hid => h.free id (hkept id hid), h.unmarked,
    h.unstored⟩
  rcases h.kept id hid with hid | hp
  · exact hparted id hid
  · exact .inr hp

/-- Hosts that are recorded as terminating have to leave the version in hand. -/
theorem Carries.marks (h : Carries event past changed) (hi : event.state ≠ UpgradeState.init)
    {e e' : Entry World} (he : e ∈ past) (hdismissed : ids = e.dismissed)
    (hs : e'.call.storesEvent = false) (hm : e'.marked = ids) :
    Carries event (e' :: past) (changed.withHostIds (changed.hostIds.eraseAll ids)) := by
  refine ⟨h.state, fun id hid => ?_, fun id hid hmem => ?_, fun he => absurd he hi, fun hr =>
    List.forall_mem_cons.mpr ⟨hs, h.unstored hr⟩⟩
  · by_cases hmem : id ∈ ids
    · exact .inr (.terminated (List.mem_cons_of_mem _ he) (hdismissed ▸ hmem)
        List.mem_cons_self (hm ▸ hmem))
    · rcases h.kept id (hid.of_cons (Call.tracked_of_not_storesEvent hs)) with hid | hp
      · exact .inl (IdSet.mem_eraseAll.mpr ⟨hid, hmem⟩)
      · exact .inr (hp.mono (List.subset_cons_self _ _))
  · obtain ⟨hid, hn⟩ := IdSet.mem_eraseAll.mp hid
    rw [markedIn, List.flatMap_cons, hm] at hmem
    rcases List.mem_append.mp hmem with hmem | hmem
    · exact hn hmem
    · exact h.free id hid hmem

theorem Carries.accounts (h : Carries event past changed)
    (hs : event.state ≠ UpgradeState.completed) : Accounts event past changed :=
  ⟨h.kept, h.free, fun hc => absurd (h.state.symm.trans hc) hs⟩

theorem Carries.stored (h : Carries event past changed) {e : Entry World}
    (hr : event.state ≠ UpgradeState.replacing)
    (he : e.call = .store (.updateItem .upgrade changed)) :
    Carries event (e :: past) changed ∧ pending (e :: past) = [] := by
  have hpending : pending (e :: past) = [] := by
    rw [pending, he]
    rfl
  have hmarked : markedIn (e :: past) = markedIn past := markedIn_cons <| by
    unfold Entry.marked
    split
    · cases he
    · rfl
  refine ⟨⟨h.state, fun id hid => ?_, hmarked ▸ h.free, hmarked ▸ h.unmarked,
    fun hs => absurd hs hr⟩, hpending⟩
  have hkept : ∀ {id}, EverTracked event past id → id ∈ changed.hostIds ∨ Parted (e :: past) id :=
    fun hid => (h.kept _ hid).imp_right fun hp => hp.mono (List.subset_cons_self _ _)
  rcases hid with hid | ⟨a, ha, hid⟩
  · exact hkept (.inl hid)
  · rcases List.mem_cons.mp ha with rfl | ha
    · rw [he] at hid
      exact .inl hid
    · exact hkept (.inr ⟨a, ha, hid⟩)

end

section

variable {outside : World → World → Prop} {raises : Fault → Prop} {event changed : UpgradeEvent}
  {j : Journal World} {ids : List HostId}

/-- Following the rule of a version, with no host left pending at the end. -/
abbrev Accounted (event : UpgradeEvent) (outside : World → World → Prop) (raises : Fault → Prop)
    {α : Type} (Q : α → Journal World → Prop) (p : Program α) (j : Journal World) : Prop :=
  p.Follows (World.Possible outside raises) (accounts event) (fun j' => Squared j'.log) Q j

/-- A call is accounted for if it is allowed; whatever it is, nothing follows if it fails. -/
theorem accounted_perform {c : Call} {Q : c.Reply → Journal World → Prop}
    (hc : ∀ r w, accounts event j.log ⟨j.state, c, r, w⟩)
    (hQ : ∀ a w, World.Possible outside raises c j.state (.ok a) w → Q a (j.enter c (.ok a) w)) :
    Accounted event outside raises Q (perform c) j := by
  refine follows_perform.mpr fun r w hb => ⟨hc r w, ?_⟩
  cases r with
  | ok a => exact hQ a w hb
  | error f => exact .inr ⟨_, f, rfl, rfl⟩

/-- A plain call leaves the version in hand as it is. -/
theorem accounted_plain {c : Call} (hc : c.isPlain = true) {Q : c.Reply → Journal World → Prop}
    (h : Carries event j.log changed)
    (hQ : ∀ a w, World.Possible outside raises c j.state (.ok a) w →
      Carries event (j.enter c (.ok a) w).log changed →
        pending (j.enter c (.ok a) w).log = pending j.log → Q a (j.enter c (.ok a) w)) :
    Accounted event outside raises Q (perform c) j :=
  accounted_perform (fun _ _ => accounts_of_isPlain hc) fun a w hb =>
    hQ a w hb (h.plain hc) (pending_cons_of_isPlain hc)

/-- Programs that make plain calls only. -/
theorem accounted_of_plain {α : Type} {p : Program α} {Q : α → Prop}
    (hp : p.Meets (·.isPlain = true) (fun _ => True) Q) (h : Carries event j.log changed)
    (hj : pending j.log = []) :
    Accounted event outside raises
      (fun a j' => Q a ∧ Carries event j'.log changed ∧ pending j'.log = []) p j := by
  refine (hp.follows (E := fun j' => Carries event j'.log changed ∧ pending j'.log = [])
    (fun j c r w hc hj _ => ?_) ⟨h, hj⟩).mono (fun _ _ => id) (fun _ hj => .inl hj.2)
      fun _ _ => id
  exact ⟨accounts_of_isPlain hc, hj.1.plain hc, (pending_cons_of_isPlain hc).trans hj.2⟩

theorem accounted_store (h : Carries event j.log changed)
    (hs : event.state = UpgradeState.init ∨ event.state = UpgradeState.completing) :
    Accounted event outside raises
      (fun _ j' => Carries event j'.log changed ∧ pending j'.log = [])
      (ask (.updateItem .upgrade changed)) j := by
  have hne : ∀ s : UpgradeState, s ≠ .init → s ≠ .completing → event.state ≠ s := by
    rintro s hi hc rfl
    rcases hs with hs | hs
    · exact hi hs
    · exact hc hs
  refine accounted_perform (fun r w => ⟨fun y hy => ?_, nofun, nofun⟩) fun a w _ =>
    h.stored (hne .replacing (by decide) (by decide)) rfl
  cases hy
  exact h.accounts (hne .completed (by decide) (by decide))

/-- A host is terminated first and recorded after that. -/
theorem accounted_terminate {cluster : String} {drain : Bool}
    (hs : event.state = UpgradeState.launching ∨ event.state = UpgradeState.completing)
    (hids : ∀ id ∈ ids, id ∈ event.hostIds ∨ drain = false) (h : Carries event j.log changed) :
    Accounted event outside raises
      (fun _ j' => Carries event j'.log (changed.withHostIds (changed.hostIds.eraseAll ids)))
      (terminate cluster ids drain) j := by
  have hi : event.state ≠ UpgradeState.init := by
    rintro he
    rcases hs with hs | hs
    · exact absurd (he.symm.trans hs) (by decide)
    · exact absurd (he.symm.trans hs) (by decide)
  refine .bind (Q := fun _ j' => Carries event j'.log changed ∧
    ∃ e ∈ j'.log, ids = e.dismissed ∧ (drain = false → ids = e.replaced)) ?_ ?_
  · refine accounted_plain rfl h fun _ w _ hc _ => ⟨hc, _, List.mem_cons_self, rfl, ?_⟩
    rintro rfl
    rfl
  rintro _ j₁ ⟨h₁, e, he, hdismissed, hreplaced⟩ -
  refine accounted_perform (fun r w => ⟨fun _ hc => ?_, fun _ _ hc id hid => ?_, fun hd => ?_⟩)
    fun a w _ => h₁.marks hi he hdismissed rfl rfl
  · cases hc
  · cases hc
    exact (hids id hid).imp_right fun hd => ⟨e, he, hreplaced hd ▸ hid⟩
  · cases hd

/-- Erasing hosts that an event does not track changes nothing. -/
theorem withHostIds_eraseAll (h : ∀ id ∈ ids, id ∉ changed.hostIds) :
    changed.withHostIds (changed.hostIds.eraseAll ids) = changed := by
  have he : changed.hostIds.eraseAll ids = changed.hostIds :=
    IdSet.ext fun id => ⟨fun hid => (IdSet.mem_eraseAll.mp hid).1, fun hid =>
      IdSet.mem_eraseAll.mpr ⟨hid, fun hmem => h id hmem hid⟩⟩
  rw [he]
  rfl

/-! ## The states before COMPLETING -/

/-- What a step ends with: the version to be stored, which is in COMPLETED with no host unless
the pool lacked serving capacity. -/
structure Concluded (event : UpgradeEvent) (log : List (Entry World))
    (result : UpgradeEvent × Decision UpgradeState) : Prop where
  carries : Carries event log result.1
  ended : ∀ now, (result.1.afterStep now result.2).state = UpgradeState.completed →
    result.1.hostIds = .empty ∨ Scarce log

/-- Only COMPLETING leads to the end. -/
theorem Carries.concluded {log : List (Entry World)} {d : Decision UpgradeState}
    (h : Carries event log changed) (hd : Decides event.state d)
    (hs : event.state ≠ UpgradeState.completing) (ht : event.state ≠ UpgradeState.completed) :
    Concluded event log (changed, d) := by
  refine ⟨h, fun now hc => ?_⟩
  have hstate := h.state
  generalize event.state = s at hd hs ht hstate
  cases hd with
  | wait => exact absurd (hstate.symm.trans hc) ht
  | finished => exact absurd rfl hs
  | _ => cases hc

theorem accounted_launchMissing (config : ReplacementSettings) (env : Environment)
    (hs : event.state = UpgradeState.init) (limit needed : Nat) (launchedAny : Bool)
    (h : Carries event j.log changed) (hj : pending j.log = []) :
    Accounted event outside raises (fun result j' => Concluded event j'.log result)
      (launchMissing config env limit needed launchedAny changed) j := by
  have hends : ∀ {log : List (Entry World)} {changed : UpgradeEvent}
      {d : Decision UpgradeState}, Carries event log changed → Decides .init d →
        Concluded event log (changed, d) :=
    fun h hd => h.concluded (by rwa [hs]) (by rw [hs]; decide) (by rw [hs]; decide)
  induction limit generalizing needed launchedAny changed j with
  | zero => exact hends h .launched
  | succ limit ih =>
      rw [launchMissing]
      split
      · exact hends h .launched
      · refine .bind (Q := fun _ j' => Carries event j'.log changed ∧ pending j'.log = [])
          (accounted_plain rfl h fun _ _ _ hc hp => ⟨hc, hp.trans hj⟩) ?_
        rintro launched j₁ ⟨h₁, hj₁⟩ -
        dsimp only
        split
        · refine .bind (accounted_of_plain (within_notify.mpr rfl) h₁ hj₁) ?_
          rintro _ j₂ ⟨-, h₂, hj₂⟩ -
          split
          · exact hends h₂ (.wait _)
          · exact .inl hj₂
        · have hgrown : Carries event j₁.log
              (changed.withHostIds (changed.hostIds.insertAll launched)) := by
            refine ⟨h₁.state, fun id hid => ?_, by simp [h₁.unmarked hs], h₁.unmarked,
              h₁.unstored⟩
            exact (h₁.kept id hid).imp_left fun hid => IdSet.mem_insertAll.mpr (.inr hid)
          refine .bind (accounted_store hgrown (.inl hs)) ?_
          rintro _ j₂ ⟨h₂, hj₂⟩ -
          exact ih _ _ h₂ hj₂

theorem accounted_init (config : ReplacementSettings) (hs : event.state = UpgradeState.init)
    (h : Carries event j.log event) (hj : pending j.log = []) :
    Accounted event outside raises (fun result j' => Concluded event j'.log result)
      (init config event) j := by
  have henv : (requireEnvironment event.envId).Meets (·.isPlain = true) (fun _ => True)
      fun _ => True :=
    within_requireEnvironment rfl trivial
  refine .bind (accounted_of_plain henv h hj) ?_
  rintro env j₁ ⟨-, h₁, hj₁⟩ -
  exact accounted_launchMissing config env hs _ _ _ h₁ hj₁

theorem accounted_launching (hs : event.state = UpgradeState.launching)
    (h : Carries event j.log event) (hj : pending j.log = []) :
    Accounted event outside raises (fun result j' => Concluded event j'.log result)
      (launching event) j := by
  have hends : ∀ {log : List (Entry World)} {changed : UpgradeEvent}
      {d : Decision UpgradeState}, Carries event log changed → Decides .launching d →
        Concluded event log (changed, d) :=
    fun h hd => h.concluded (by rwa [hs]) (by rw [hs]; decide) (by rw [hs]; decide)
  rw [launching]
  split
  · exact hends h .lost
  · refine .bind (Q := fun gone j' => (∀ id ∈ gone, id ∈ event.hostIds) ∧
        Carries event j'.log event ∧ pending j'.log = [])
      (accounted_plain rfl h fun gone w hb hc hp =>
        ⟨hb.subset_of_listTerminated, hc, hp.trans hj⟩) ?_
    rintro gone j₁ ⟨hgone, h₁, hj₁⟩ -
    refine .bind (Q := fun running j' => List.Sublist running event.hostIds.toList ∧
        Carries event j'.log event ∧ pending j'.log = [])
      (accounted_plain rfl h₁ fun running w hb hc hp =>
        ⟨hb.sublist_of_listRunning, hc, hp.trans hj₁⟩) ?_
    rintro running j₂ ⟨hrunning, h₂, hj₂⟩ -
    refine .bind (accounted_of_plain ((meets_inspect running _ gone).mono
      (fun _ => Call.isPlain_of_isRead) fun _ => id) h₂ hj₂) ?_
    rintro ⟨ready, failed⟩ j₃ ⟨hfailed, h₃, -⟩ -
    have htracked : ∀ id ∈ failed, id ∈ event.hostIds := by
      intro id hid
      rcases hfailed id hid with hid | hid
      · exact hgone id hid
      · exact hrunning.subset hid
    dsimp only
    split
    · refine hends h₃ ?_
      split
      · exact .ready
      · exact .wait _
    · refine .bind (accounted_terminate (.inl hs) (fun id hid => .inl (htracked id hid)) h₃) ?_
      exact fun _ j₄ h₄ _ => hends h₄ .lost

/-- Draining hosts, apart from plain calls. -/
def drainsOnly (c : Call) : Prop := c.isPlain = true ∨ c.isDrain = true

theorem drainsOnly_drain (event : UpgradeEvent) (ids : List HostId) :
    (drain event ids).Only drainsOnly := by
  rw [drain]
  split
  · trivial
  · exact only_ask.mpr (.inr rfl)

theorem drainsOnly_replacing (event : UpgradeEvent) :
    (replacing event).Meets drainsOnly (fun _ => True)
      fun result => result.1 = event ∧ Decides .replacing result.2 := by
  refine .seq (only_ask.mpr (.inl rfl)) fun retirable => ?_
  split
  · exact ⟨rfl, .drained⟩
  · refine .seq (only_request.mpr (.inl rfl)) fun poolSize =>
      .seq (only_ask.mpr (.inl rfl)) fun serving => ?_
    split
    · exact ⟨rfl, .wait _⟩
    · refine .seq (only_ask.mpr (.inl rfl)) fun failed =>
        .seq (drainsOnly_drain _ _) fun _ => ?_
      split
      · exact .seq (drainsOnly_drain _ _) fun _ => ⟨rfl, .wait _⟩
      · exact ⟨rfl, .wait _⟩

/-- In REPLACING hosts may be drained, and the version in hand stays as it is. -/
theorem accounted_of_drainsOnly {α : Type} {p : Program α} {Q : α → Prop}
    (hs : event.state = UpgradeState.replacing) (hp : p.Meets drainsOnly (fun _ => True) Q)
    (h : Carries event j.log changed) (hj : pending j.log = []) :
    Accounted event outside raises (fun a j' => Q a ∧ Carries event j'.log changed) p j := by
  refine (hp.follows (E := fun j' => Carries event j'.log changed ∧ pending j'.log = [])
    (fun j c r w hc hj _ => ?_) ⟨h, hj⟩).mono (fun _ _ => id) (fun _ hj => .inl hj.2)
      fun _ _ hq => ⟨hq.1, hq.2.1⟩
  rcases hc with hc | hc
  · exact ⟨accounts_of_isPlain hc, hj.1.plain hc, (pending_cons_of_isPlain hc).trans hj.2⟩
  · have hstores := Call.storesEvent_of_isDrain hc
    refine ⟨⟨?_, ?_, fun _ => ⟨hs, hj.1.unstored hs⟩⟩, hj.1.cons hstores
      (Entry.marked_of_isDrain hc), (pending_cons hstores (Entry.marked_of_isDrain hc)).trans hj.2⟩
    · rintro y rfl
      cases hc
    · rintro ids s rfl
      cases hc

theorem accounted_replacing (hs : event.state = UpgradeState.replacing)
    (h : Carries event j.log event) (hj : pending j.log = []) :
    Accounted event outside raises (fun result j' => Concluded event j'.log result)
      (replacing event) j := by
  refine (accounted_of_drainsOnly hs (drainsOnly_replacing event) h hj).imp ?_
  rintro ⟨changed, d⟩ j' ⟨⟨rfl, hd⟩, h'⟩
  exact h'.concluded (by rwa [hs]) (by rw [hs]; decide) (by rw [hs]; decide)

/-! ## COMPLETING -/

/-- A version that tracks hosts of a list only, and the hosts that it does not track are
accounted for. -/
def CarriesOnly (event : UpgradeEvent) (log : List (Entry World)) (changed : UpgradeEvent)
    (hosts : List HostId) : Prop :=
  Carries event log changed ∧ ∀ id ∈ changed.hostIds, id ∈ hosts

theorem accounted_untrack (hs : event.state = UpgradeState.completing)
    (h : Carries event j.log (changed.withHostIds (changed.hostIds.eraseAll ids))) :
    Accounted event outside raises
      (fun kept j' => Carries event j'.log kept ∧ pending j'.log = [] ∧
        ∀ id ∈ kept.hostIds, id ∈ changed.hostIds ∧ id ∉ ids)
      (untrack changed ids) j := by
  refine .bind (accounted_store h (.inr hs)) ?_
  rintro _ j₁ ⟨h₁, hj₁⟩ -
  exact ⟨h₁, hj₁, fun id hid => IdSet.mem_eraseAll.mp hid⟩

theorem accounted_keepRunning {active : List HostId} (hs : event.state = UpgradeState.completing)
    (ha : active.Sublist event.hostIds.toList) (h : Carries event j.log event)
    (hj : pending j.log = []) (habsent : ∀ id ∈ event.hostIds, id ∈ active ∨ Parted j.log id) :
    Accounted event outside raises
      (fun kept j' => CarriesOnly event j'.log kept active ∧ pending j'.log = [])
      (keepRunning event active) j := by
  rw [keepRunning]
  split
  · rename_i hsize
    have hall : active = event.hostIds.toList := ha.eq_of_length (eq_of_beq hsize)
    exact ⟨⟨h, fun id hid => by rw [hall]; exact hid⟩, hj⟩
  · have hkept : Carries event j.log (event.withHostIds (.ofList active)) := by
      refine h.shrink (fun id hid => ha.subset (IdSet.mem_ofList.mp hid)) fun id hid => ?_
      exact (habsent id hid).imp_left fun hmem => IdSet.mem_ofList.mpr hmem
    refine .bind (accounted_store hkept (.inr hs)) ?_
    rintro _ j₁ ⟨h₁, hj₁⟩ -
    exact ⟨⟨h₁, fun id hid => IdSet.mem_ofList.mp hid⟩, hj₁⟩

theorem accounted_discardFailed {hosts failedTemps : List HostId}
    (hs : event.state = UpgradeState.completing) (ht : ∀ id ∈ failedTemps, id ∈ event.hostIds)
    (h : CarriesOnly event j.log changed hosts) (hj : pending j.log = []) :
    Accounted event outside raises
      (fun kept j' => CarriesOnly event j'.log kept (hosts.filter fun id =>
        !failedTemps.contains id) ∧ pending j'.log = [])
      (discardFailed event.cluster changed failedTemps) j := by
  rw [discardFailed]
  split
  · rename_i hnone
    rw [List.isEmpty_iff.mp hnone]
    exact ⟨⟨h.1, fun id hid => List.mem_filter.mpr ⟨h.2 id hid, rfl⟩⟩, hj⟩
  · refine .bind (accounted_terminate (.inr hs) (fun id hid => .inl (ht id hid)) h.1) ?_
    intro _ j₁ h₁ _
    refine (accounted_untrack hs h₁).imp fun kept j₂ h₂ => ⟨⟨h₂.1, fun id hid => ?_⟩, h₂.2.1⟩
    obtain ⟨hmem, hn⟩ := h₂.2.2 id hid
    exact List.mem_filter.mpr ⟨h.2 id hmem, by simpa using hn⟩

/-- The failed hosts that are replaced are not tracked, so nothing has to leave the event for
them. -/
theorem accounted_swapIn {swaps : Nat} {healthy failedPool : List HostId}
    (hs : event.state = UpgradeState.completing) (hp : ∀ id ∈ failedPool, id ∉ healthy)
    (h : CarriesOnly event j.log changed healthy) (hj : pending j.log = []) :
    Accounted event outside raises
      (fun kept j' => CarriesOnly event j'.log kept (healthy.drop swaps))
      (swapIn event.cluster changed swaps healthy failedPool) j := by
  rw [swapIn]
  split
  · rename_i hzero
    rw [hzero]
    exact h
  · refine .bind (Q := fun _ j' => Carries event j'.log changed ∧ pending j'.log = [] ∧
      ∀ id ∈ healthy.take swaps, Parted j'.log id) (accounted_plain rfl h.1 fun _ w _ hc hpend =>
        ⟨hc, hpend.trans hj, fun id hid => .attached List.mem_cons_self hid⟩) ?_
    rintro _ j₁ ⟨h₁, -, hparted⟩ -
    have hgone : Carries event j₁.log
        (changed.withHostIds (changed.hostIds.eraseAll (healthy.take swaps))) := by
      refine h₁.shrink (fun id hid => (IdSet.mem_eraseAll.mp hid).1) fun id hid => ?_
      by_cases hmem : id ∈ healthy.take swaps
      · exact .inr (hparted id hmem)
      · exact .inl (IdSet.mem_eraseAll.mpr ⟨hid, hmem⟩)
    refine .bind (accounted_untrack hs hgone) ?_
    rintro kept j₂ ⟨h₂, -, hkept⟩ -
    have hrest : ∀ id ∈ kept.hostIds, id ∈ healthy.drop swaps := by
      intro id hid
      obtain ⟨hmem, hn⟩ := hkept id hid
      have hhealthy := h.2 id hmem
      rw [← List.take_append_drop swaps healthy] at hhealthy
      exact (List.mem_append.mp hhealthy).resolve_left hn
    have hpool : ∀ id ∈ failedPool.take swaps, id ∉ kept.hostIds := fun id hid hmem =>
      hp id (List.mem_of_mem_take hid) (h.2 id (hkept id hmem).1)
    refine .bind (accounted_terminate (.inr hs) (fun _ _ => .inr rfl) h₂) fun _ j₃ h₃ _ => ?_
    rw [withHostIds_eraseAll hpool] at h₃
    exact ⟨h₃, hrest⟩

/-- Nothing is left to track once the surplus is terminated. -/
theorem accounted_terminateSurplus {surplus : List HostId}
    (hs : event.state = UpgradeState.completing) (hids : ∀ id ∈ surplus, id ∈ event.hostIds)
    (h : CarriesOnly event j.log changed surplus) :
    Accounted event outside raises
      (fun _ j' => Carries event j'.log (changed.withHostIds .empty))
      (terminateSurplus event.cluster surplus) j := by
  have hempty : ∀ {kept : IdSet}, (∀ id, id ∉ kept) → kept = .empty := fun hk =>
    IdSet.ext fun id => ⟨fun hid => absurd hid (hk id), fun hid => absurd hid (by simp)⟩
  rw [terminateSurplus]
  split
  · refine (accounted_terminate (.inr hs) (fun id hid => .inl (hids id hid)) h.1).imp ?_
    intro _ j₁ h₁
    rwa [hempty fun id hid => (IdSet.mem_eraseAll.mp hid).2
      (h.2 id (IdSet.mem_eraseAll.mp hid).1)] at h₁
  · rename_i hnone
    have hsurplus : surplus = [] := by simpa using hnone
    have hnone : changed.hostIds = .empty := hempty fun id hid => by
      have hmem := h.2 id hid
      rw [hsurplus] at hmem
      cases hmem
    rw [← hnone]
    exact h.1

theorem accounted_reconcile (hs : event.state = UpgradeState.completing)
    (h : Carries event j.log event) (hj : pending j.log = []) :
    Accounted event outside raises
      (fun kept j' => Carries event j'.log kept ∧ kept.hostIds = .empty) (reconcile event) j := by
  rw [reconcile_eq]
  refine .bind (Q := fun active j' => active.Sublist event.hostIds.toList ∧
    Carries event j'.log event ∧ pending j'.log = [] ∧
      ∀ id ∈ event.hostIds, id ∈ active ∨ Parted j'.log id)
    (accounted_plain rfl h fun active w hb hc hp => ⟨hb.sublist_of_listRunning, hc,
      hp.trans hj, fun id hid => ?_⟩) ?_
  · by_cases hmem : id ∈ active
    · exact .inl hmem
    · exact .inr (.absent List.mem_cons_self (List.mem_filter.mpr ⟨hid, by simpa using hmem⟩))
  rintro active j₁ ⟨hactive, h₁, hj₁, habsent⟩ -
  have htracked : ∀ id ∈ active, id ∈ event.hostIds := fun id hid => hactive.subset hid
  refine .bind (accounted_keepRunning hs hactive h₁ hj₁ habsent) ?_
  rintro kept j₂ ⟨h₂, hj₂⟩ -
  refine .bind (Q := fun _ j' => CarriesOnly event j'.log kept active ∧ pending j'.log = [])
    (accounted_plain rfl h₂.1 fun _ w _ hc hp => ⟨⟨hc, h₂.2⟩, hp.trans hj₂⟩) ?_
  rintro failed j₃ ⟨h₃, hj₃⟩ -
  dsimp only
  refine .bind (accounted_discardFailed hs (fun id hid => ?_) h₃ hj₃) ?_
  · exact htracked id (by simpa using (List.mem_filter.mp hid).2)
  rintro kept j₄ ⟨h₄, hj₄⟩ -
  refine .bind (accounted_swapIn hs (fun id hid hmem => ?_) h₄ hj₄) ?_
  · have hn : id ∉ event.hostIds := by simpa using (List.mem_filter.mp hid).2
    exact hn (htracked id (List.mem_filter.mp hmem).1)
  intro kept j₅ h₅ _
  refine .bind (accounted_terminateSurplus hs (fun id hid => ?_) h₅) ?_
  · exact htracked id (List.mem_filter.mp (List.mem_of_mem_drop hid)).1
  · exact fun _ j₆ h₆ _ => ⟨h₆, rfl⟩

theorem accounted_completing (hs : event.state = UpgradeState.completing)
    (h : Carries event j.log event) (hj : pending j.log = []) :
    Accounted event outside raises (fun result j' => Concluded event j'.log result)
      (completing event) j := by
  rw [completing_eq]
  refine .bind (Q := fun count j' => Carries event j'.log event ∧ pending j'.log = [] ∧
      ∃ e ∈ j'.log, e.serving = some count)
    (accounted_plain rfl h fun _ _ _ hc hp => ⟨hc, hp.trans hj, _, List.mem_cons_self, rfl⟩) ?_
  rintro count j₁ ⟨h₁, hj₁, hcount⟩ -
  refine .bind (Q := fun size j' => Carries event j'.log event ∧ pending j'.log = [] ∧
      (∃ e ∈ j'.log, e.serving = some count) ∧ ∃ e ∈ j'.log, e.poolSize = some size)
    (accounted_plain rfl h₁ fun _ _ _ hc hp => ⟨hc, hp.trans hj₁, ?_, _, List.mem_cons_self,
      rfl⟩) ?_
  · exact hcount.imp fun _ he => ⟨List.mem_cons_of_mem _ he.1, he.2⟩
  rintro size j₂ ⟨h₂, hj₂, hcount, hsize⟩ hlog₂
  refine .bind (Q := fun kept j' => Carries event j'.log kept ∧
    (kept.hostIds = .empty ∨ Scarce j'.log)) ?_ ?_
  · rw [reconcileIfDue]
    split
    · rename_i hdue
      refine ⟨h₂, ?_⟩
      rcases Bool.or_eq_true_iff.mp hdue with hnone | hscarce
      · left
        exact IdSet.ext fun id => by simp [← IdSet.mem_toList, List.isEmpty_iff.mp hnone]
      · exact .inr ⟨count, size, hcount, hsize, of_decide_eq_true hscarce⟩
    · exact (accounted_reconcile hs h₂ hj₂).imp fun _ _ hq => ⟨hq.1, .inl hq.2⟩
  rintro kept j₃ ⟨h₃, hended⟩ -
  refine .bind (Q := fun _ j' => Carries event j'.log kept ∧
    (kept.hostIds = .empty ∨ Scarce j'.log)) (accounted_plain rfl h₃ fun _ _ _ hc _ =>
      ⟨hc, hended.imp_right ?_⟩) fun _ j₄ h₄ _ => ⟨h₄.1, fun _ _ => h₄.2⟩
  rintro ⟨count, size, ⟨e, he, hcount⟩, ⟨e', he', hsize⟩, hle⟩
  exact ⟨count, size, ⟨e, List.mem_cons_of_mem _ he, hcount⟩,
    ⟨e', List.mem_cons_of_mem _ he', hsize⟩, hle⟩

/-! ## A whole tick -/

theorem accounted_step (config : ReplacementSettings)
    (hs : event.state ≠ UpgradeState.completed) (h : Carries event j.log event)
    (hj : pending j.log = []) :
    Accounted event outside raises (fun result j' => Concluded event j'.log result)
      (step config event) j := by
  simp only [step]
  split <;> rename_i he
  · exact accounted_init config he h hj
  · exact accounted_launching he h hj
  · exact accounted_replacing he h hj
  · exact accounted_completing he h hj
  · exact absurd he hs

/-- A call that stores what a step or a timeout has made of the event. -/
theorem accounted_finish (h : Carries event j.log changed) {y : UpgradeEvent}
    (hh : y.hostIds = changed.hostIds)
    (hended : y.state = UpgradeState.completed →
      y.hostIds = .empty ∨ Scarce j.log ∨ GivenUp y) :
    Accounted event outside raises (fun _ j' => pending j'.log = [])
      (ask (.updateItem .upgrade y)) j := by
  refine accounted_perform (fun r w => ⟨fun z hz => ?_, nofun, nofun⟩) fun _ _ _ => rfl
  cases hz
  exact ⟨by rw [hh]; exact h.kept, by rw [hh]; exact h.free, hended⟩

/-- Programs that make plain calls only leave no host pending. -/
theorem accounted_of_settled {α : Type} {p : Program α} (hp : p.Only (·.isPlain = true))
    (hj : pending j.log = []) :
    Accounted event outside raises (fun _ j' => pending j'.log = []) p j := by
  refine (hp.follows (E := fun j' => pending j'.log = []) (fun j c r w hc hj _ => ?_) hj).mono
    (fun _ _ => id) (fun _ => .inl) fun _ _ hq => hq.2
  exact ⟨accounts_of_isPlain hc, (pending_cons_of_isPlain hc).trans hj⟩

/-- Only an event in COMPLETING ends by a timeout. -/
theorem completing_of_timeoutTarget {s : UpgradeState} (h : timeoutTarget s = .completed)
    (hs : s ≠ .completed) : s = .completing := by
  cases s with
  | completing => rfl
  | completed => exact absurd rfl hs
  | _ => cases h

theorem accounted_work (config : ReplacementSettings) (now : Instant)
    (h : Carries event j.log event) (hj : pending j.log = []) :
    Accounted event outside raises (fun _ j' => pending j'.log = [])
      ((lifecycle config).work event now) j := by
  rw [Lifecycle.work]
  split
  · exact hj
  · rename_i hterminal
    have hs : event.state ≠ UpgradeState.completed := fun he =>
      hterminal (Item.isTerminal_iff.mpr he)
    have hpaused : ((lifecycle config).isPaused event).Meets (·.isPlain = true) (fun _ => True)
        fun _ => True := only_clusterIsPaused (fun _ => Call.isPlain_of_isRead) _
    refine .bind (accounted_of_plain hpaused h hj) ?_
    rintro paused j₁ ⟨-, h₁, hj₁⟩ -
    split
    · exact .bind (accounted_finish h₁ rfl fun hc => absurd hc hs) fun _ j₂ hj₂ _ => hj₂
    · cases (lifecycle config).timeout with
      | error f => exact .inl hj₁
      | ok limit =>
          simp only [ofOutcome, Program.bind]
          split
          · refine .bind (accounted_finish h₁ rfl fun hc => .inr (.inr ?_)) ?_
            · exact ⟨event, now, _, completing_of_timeoutTarget hc hs, by rw [← hc]; rfl⟩
            · intro _ j₂ hj₂ _
              refine .bind (Q := fun _ j' => pending j'.log = []) ?_ fun _ j₃ hj₃ _ => hj₃
              refine accounted_of_settled (Only.attempt ?_) hj₂
              refine Only.mono (only_onTimeout _ _) fun c hc => ?_
              rcases hc with hc | rfl
              · exact Call.isPlain_of_isRead hc
              · rfl
          · refine .bind (accounted_step config hs h₁ hj₁) ?_
            rintro ⟨changed, d⟩ j₂ hc -
            refine .bind (accounted_finish hc.carries (by cases d <;> rfl) fun hd => ?_)
              fun _ j₃ hj₃ _ => ?_
            · rcases hc.ended now hd with hnone | hscarce
              · left
                cases d <;> exact hnone
              · exact .inr (.inl hscarce)
            · cases d <;> exact hj₃

/-- A tick accounts for the hosts of the version that it reads. -/
theorem accounted_advance (config : ReplacementSettings) (id : ItemId) (now : Instant)
    (hread : ∀ r w, World.Possible outside raises (.store (.getItem .upgrade id)) j.state
      (.ok r) w → r = some event)
    (hj : j.log = []) :
    Accounted event outside raises (fun _ j' => pending j'.log = [])
      ((lifecycle config).advance id now) j := by
  rw [Lifecycle.advance_eq]
  refine .bind (Q := fun found j' => found = some event ∧ Carries event j'.log event ∧
    pending j'.log = []) (accounted_plain rfl (by rw [hj]; exact .start) fun found w hb hc hp =>
      ⟨hread found w hb, hc, by rw [hp, hj]; rfl⟩) ?_
  rintro _ j₁ ⟨rfl, h₁, hj₁⟩ -
  exact accounted_work config now h₁ hj₁

end

end Replacement

end FleetControl
