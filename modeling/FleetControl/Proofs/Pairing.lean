import FleetControl.Proofs.Disposal
import FleetControl.Proofs.Leaving

/-!
# One for one

A tick in COMPLETING attaches as many hosts to the pool as it terminates in their place, unless
one of the calls of this swap fails: attaching the hosts, storing the event without them,
terminating the failed hosts of the pool, and recording that. Over the ticks of an event no host
is attached twice or terminated twice as long as no swap is cut off. A host that the event
tracked when it came to COMPLETING is never taken for a failed host of the pool, unless it was
attached or not reported running by an earlier tick.
-/
namespace FleetControl

namespace Call

/-- Whether a call attaches hosts to a pool or terminates those whose places they take. -/
def swaps : Call → Bool
  | .provider (.attachToPool _ _) | .provider (.terminateHosts _ _ false) => true
  | _ => false

theorem not_swaps_of_isRead {c : Call} (h : c.isRead = true) : c.swaps = false := by
  unfold swaps
  split
  · cases h
  · cases h
  · rfl

end Call

namespace Entry

/-- A call that does not swap, or fails, has neither attached nor replaced a host. -/
theorem swaps_nothing {e : Entry World} (h : e.call.swaps = false ∨ ∃ f, e.reply = .error f) :
    e.attached = [] ∧ e.replaced = [] := by
  constructor
  · unfold attached
    split
    · rcases h with h | ⟨f, h⟩ <;> cases h
    · rfl
  · unfold replaced
    split
    · rcases h with h | ⟨f, h⟩ <;> cases h
    · rfl

end Entry

open Program

namespace Replacement

section

variable {event changed y : UpgradeEvent} {past log : List (Entry World)} {e : Entry World}

/-- The hosts that were attached in a tick. -/
def attachedIn (log : List (Entry World)) : List HostId := log.flatMap Entry.attached

/-- The failed hosts of the pool that were terminated in a tick to be replaced. -/
def replacedIn (log : List (Entry World)) : List HostId := log.flatMap Entry.replaced

/-- The hosts that were attached since an event was stored. -/
def unsettled : List (Entry World) → List HostId
  | [] => []
  | e :: past =>
      if e.call.storesEvent && e.reply.isOk then [] else e.attached ++ unsettled past

/-- The last call failed, and it was one of a swap. -/
def CutOff (log : List (Entry World)) : Prop :=
  ∃ e past f, log = e :: past ∧ e.reply = .error f ∧
    (e.call.swaps = true ∨ ∃ a rest, past = a :: rest ∧ a.call.swaps = true)

/-- What holds of the swap of a tick wherever it ends. -/
structure Pairs (event : UpgradeEvent) (log : List (Entry World)) : Prop where
  attached : (attachedIn log).Sublist event.hostIds.toList
  replaced : replacedIn log = [] ∨ (replacedIn log).length = (attachedIn log).length ∧
    ∃ e ∈ log, (replacedIn log).Sublist (e.failedHosts event.cluster)
  untracked : ∀ id ∈ replacedIn log, id ∉ event.hostIds

/-- What holds of the swap of a tick when it is over. -/
structure Even (log : List (Entry World)) : Prop where
  length : (replacedIn log).length = (attachedIn log).length
  marked : ∀ id ∈ replacedIn log, ∃ e ∈ log, id ∈ e.marked
  settled : unsettled log = []

/-- No swap has begun. -/
structure Idle (log : List (Entry World)) : Prop where
  attached : attachedIn log = []
  replaced : replacedIn log = []
  settled : unsettled log = []

theorem Idle.start : Idle [] := ⟨rfl, rfl, rfl⟩

theorem Idle.pairs (h : Idle log) : Pairs event log :=
  ⟨by simp [h.attached], .inl h.replaced, by simp [h.replaced]⟩

theorem Idle.even (h : Idle log) : Even log :=
  ⟨by rw [h.attached, h.replaced], by simp [h.replaced], h.settled⟩

theorem attachedIn_cons (he : e.attached = []) : attachedIn (e :: past) = attachedIn past := by
  rw [attachedIn, List.flatMap_cons, he]
  rfl

theorem replacedIn_cons (he : e.replaced = []) : replacedIn (e :: past) = replacedIn past := by
  rw [replacedIn, List.flatMap_cons, he]
  rfl

theorem unsettled_cons (h : unsettled past = []) (he : e.attached = []) :
    unsettled (e :: past) = [] := by
  rw [unsettled, h, he]
  split <;> rfl

theorem Idle.cons (h : Idle past) (he : e.call.swaps = false) : Idle (e :: past) := by
  obtain ⟨ha, hr⟩ := Entry.swaps_nothing (.inl he)
  exact ⟨(attachedIn_cons ha).trans h.attached, (replacedIn_cons hr).trans h.replaced,
    unsettled_cons h.settled ha⟩

/-- A call that does not swap leaves the swap as it is, and so does one that fails. -/
theorem Pairs.cons (h : Pairs event past)
    (he : e.call.swaps = false ∨ ∃ f, e.reply = .error f) : Pairs event (e :: past) := by
  obtain ⟨ha, hr⟩ := Entry.swaps_nothing he
  obtain ⟨hattached, hreplaced, huntracked⟩ := h
  rw [← attachedIn_cons ha] at hattached
  rw [← replacedIn_cons hr] at huntracked
  refine ⟨hattached, ?_, huntracked⟩
  rw [attachedIn_cons ha, replacedIn_cons hr]
  refine hreplaced.imp_right ?_
  rintro ⟨hlength, a, hmem, hsub⟩
  exact ⟨hlength, a, List.mem_cons_of_mem _ hmem, hsub⟩

theorem Even.cons (h : Even past) (he : e.call.swaps = false) : Even (e :: past) := by
  obtain ⟨ha, hr⟩ := Entry.swaps_nothing (.inl he)
  obtain ⟨hlength, hmarked, hsettled⟩ := h
  rw [← attachedIn_cons ha, ← replacedIn_cons hr] at hlength
  rw [← replacedIn_cons hr] at hmarked
  refine ⟨hlength, fun id hid => ?_, unsettled_cons hsettled ha⟩
  obtain ⟨a, hmem, hid⟩ := hmarked id hid
  exact ⟨a, List.mem_cons_of_mem _ hmem, hid⟩

end

/-! ## Programs that do not swap -/

section

variable {event changed : UpgradeEvent} {ids : List HostId}

theorem calm_terminate (cluster : String) (ids : List HostId) :
    (terminate cluster ids true).Only (·.swaps = false) :=
  .bind (only_request.mpr rfl) fun _ => only_ask.mpr rfl

theorem calm_keepRunning (event : UpgradeEvent) (active : List HostId) :
    (keepRunning event active).Only (·.swaps = false) := by
  rw [keepRunning]
  split
  · trivial
  · exact .bind (only_ask.mpr rfl) fun _ => trivial

theorem calm_discardFailed (cluster : String) (event : UpgradeEvent) (ids : List HostId) :
    (discardFailed cluster event ids).Only (·.swaps = false) := by
  rw [discardFailed]
  split
  · trivial
  · exact .bind (calm_terminate _ _) fun _ => .bind (only_ask.mpr rfl) fun _ => trivial

theorem calm_terminateSurplus (cluster : String) (ids : List HostId) :
    (terminateSurplus cluster ids).Only (·.swaps = false) := by
  rw [terminateSurplus]
  split
  · exact calm_terminate _ _
  · trivial

end

/-! ## The swap -/

section

variable {outside : World → World → Prop} {raises : Fault → Prop} {event changed : UpgradeEvent}
  {j : Journal World}

/-- Swapping one for one, unless cut off. -/
abbrev Paired (event : UpgradeEvent) (outside : World → World → Prop) (raises : Fault → Prop)
    {α : Type} (Q : α → Journal World → Prop) (p : Program α) (j : Journal World) : Prop :=
  p.Follows (World.Possible outside raises) (fun _ _ => True)
    (fun j' => Pairs event j'.log ∧ (CutOff j'.log ∨ Even j'.log)) Q j

/-- Where nothing is swapped yet, programs that do not swap leave it at that. -/
theorem paired_idle {α : Type} {p : Program α} (hp : p.Only (·.swaps = false))
    (h : Idle j.log) : Paired event outside raises (fun _ j' => Idle j'.log) p j :=
  (hp.follows (E := fun j' => Idle j'.log) (fun _ _ _ _ hc hj _ => ⟨trivial, hj.cons hc⟩) h).mono
    (fun _ _ => id) (fun _ hj => ⟨hj.pairs, .inr hj.even⟩) fun _ _ hq => hq.2

theorem paired_idle_perform {c : Call} {Q : c.Reply → Journal World → Prop}
    (hc : c.swaps = false) (h : Idle j.log)
    (hQ : ∀ a w, World.Possible outside raises c j.state (.ok a) w →
      Idle (j.enter c (.ok a) w).log → Q a (j.enter c (.ok a) w)) :
    Paired event outside raises Q (perform c) j := by
  refine follows_perform.mpr fun r w hb => ⟨trivial, ?_⟩
  have hidle : Idle (j.enter c r w).log := h.cons hc
  cases r with
  | ok a => exact hQ a w hb hidle
  | error f => exact ⟨hidle.pairs, .inr hidle.even⟩

/-- When the swap is over, programs that do not swap leave it so. -/
theorem paired_even {α : Type} {p : Program α} (hp : p.Only (·.swaps = false))
    (h : Pairs event j.log) (he : Even j.log) :
    Paired event outside raises (fun _ j' => Pairs event j'.log ∧ Even j'.log) p j :=
  (hp.follows (E := fun j' => Pairs event j'.log ∧ Even j'.log)
    (fun _ _ _ _ hc hj _ => ⟨trivial, hj.1.cons (.inl hc), hj.2.cons hc⟩) ⟨h, he⟩).mono
      (fun _ _ => id) (fun _ hj => ⟨hj.1, .inr hj.2⟩) fun _ _ hq => hq.2

/-- A call of a swap cuts it off if it fails. -/
theorem paired_swap_perform {c : Call} {Q : c.Reply → Journal World → Prop}
    (hc : c.swaps = true ∨ ∃ a rest, j.log = a :: rest ∧ a.call.swaps = true)
    (h : Pairs event j.log) (hQ : ∀ a w, Q a (j.enter c (.ok a) w)) :
    Paired event outside raises Q (perform c) j := by
  refine follows_perform.mpr fun r w _ => ⟨trivial, ?_⟩
  cases r with
  | ok a => exact hQ a w
  | error f => exact ⟨h.cons (.inr ⟨f, rfl⟩), .inl ⟨_, _, f, rfl, rfl, hc⟩⟩

/-- The four calls of a swap. -/
theorem paired_swapIn {swaps : Nat} {healthy failedPool : List HostId}
    (hh : healthy.Sublist event.hostIds.toList)
    (hp : ∃ e ∈ j.log, failedPool.Sublist (e.failedHosts event.cluster))
    (hn : ∀ id ∈ failedPool, id ∉ event.hostIds)
    (hle : swaps ≤ failedPool.length ∧ swaps ≤ healthy.length) (h : Idle j.log) :
    Paired event outside raises (fun _ j' => Pairs event j'.log ∧ Even j'.log)
      (swapIn event.cluster changed swaps healthy failedPool) j := by
  rw [swapIn]
  split
  · exact ⟨h.pairs, h.even⟩
  obtain ⟨e, he, hlisted⟩ := hp
  have htake : (healthy.take swaps).Sublist event.hostIds.toList :=
    (List.take_sublist _ _).trans hh
  have hpairs : ∀ {log}, attachedIn log = healthy.take swaps → replacedIn log = [] →
      Pairs event log :=
    fun ha hr => ⟨ha ▸ htake, .inl hr, by simp [hr]⟩
  -- the hosts are attached
  refine .bind (Q := fun _ j₁ => (∃ a rest, j₁.log = a :: rest ∧ a.call.swaps = true) ∧
      attachedIn j₁.log = healthy.take swaps ∧ replacedIn j₁.log = [])
    (paired_swap_perform (.inl rfl) h.pairs fun _ w => ⟨⟨_, _, rfl, rfl⟩, ?_, h.replaced⟩) ?_
  · exact (congrArg (healthy.take swaps ++ ·) h.attached).trans (List.append_nil _)
  rintro _ j₁ ⟨hlast₁, ha₁, hr₁⟩ hlog₁
  -- the event is stored without them
  refine .bind (Q := fun _ j₂ => attachedIn j₂.log = healthy.take swaps ∧
      replacedIn j₂.log = [] ∧ unsettled j₂.log = []) ?_ ?_
  · refine .bind (Q := fun _ j₂ => attachedIn j₂.log = healthy.take swaps ∧
        replacedIn j₂.log = [] ∧ unsettled j₂.log = [])
      (paired_swap_perform (.inr hlast₁) (hpairs ha₁ hr₁) fun _ w => ?_) fun _ _ hq _ => hq
    exact ⟨(attachedIn_cons rfl).trans ha₁, (replacedIn_cons rfl).trans hr₁, rfl⟩
  rintro _ j₂ ⟨ha₂, hr₂, hu₂⟩ hlog₂
  -- the failed hosts are terminated, and recorded so
  refine .bind (Q := fun _ j₄ => Pairs event j₄.log ∧ Even j₄.log) ?_ fun _ _ hq _ => hq
  refine .bind (Q := fun _ j₃ => (∃ a rest, j₃.log = a :: rest ∧ a.call.swaps = true) ∧
      attachedIn j₃.log = healthy.take swaps ∧ replacedIn j₃.log = failedPool.take swaps ∧
        unsettled j₃.log = []) (paired_swap_perform (.inl rfl) (hpairs ha₂ hr₂) fun _ w =>
          ⟨⟨_, _, rfl, rfl⟩, ha₂, ?_, hu₂⟩) ?_
  · exact (congrArg (failedPool.take swaps ++ ·) hr₂).trans (List.append_nil _)
  rintro _ j₃ ⟨hlast₃, ha₃, hr₃, hu₃⟩ hlog₃
  have hlength : (replacedIn j₃.log).length = (attachedIn j₃.log).length := by
    rw [hr₃, ha₃, List.length_take, List.length_take]
    omega
  have hpairs₃ : Pairs event j₃.log := by
    refine ⟨ha₃ ▸ htake, .inr ⟨hlength, e, ?_, hr₃ ▸ (List.take_sublist _ _).trans hlisted⟩, ?_⟩
    · exact ((hlog₁.trans hlog₂).trans hlog₃).subset he
    · exact fun id hid => hn id (List.mem_of_mem_take (hr₃ ▸ hid))
  refine paired_swap_perform (.inr hlast₃) hpairs₃ fun u w => ⟨hpairs₃.cons (.inl rfl), ?_⟩
  have hr₄ : replacedIn (j₃.enter (.store (.setHostState (failedPool.take swaps) .terminating))
      (.ok u) w).log = failedPool.take swaps := (replacedIn_cons rfl).trans hr₃
  refine ⟨?_, fun id hid => ⟨_, List.mem_cons_self, hr₄ ▸ hid⟩, unsettled_cons hu₃ rfl⟩
  exact (congrArg List.length (hr₄.trans hr₃.symm)).trans
    (hlength.trans (congrArg List.length (attachedIn_cons rfl)).symm)

theorem paired_reconcile (h : Idle j.log) :
    Paired event outside raises (fun _ j' => Pairs event j'.log ∧ Even j'.log)
      (reconcile event) j := by
  rw [reconcile_eq]
  refine .bind (Q := fun active j' => active.Sublist event.hostIds.toList ∧ Idle j'.log)
    (paired_idle_perform rfl h fun active w hb hi => ⟨hb.sublist_of_listRunning, hi⟩) ?_
  rintro active j₁ ⟨hactive, h₁⟩ -
  refine .bind (paired_idle (calm_keepRunning _ _) h₁) fun kept j₂ h₂ _ => ?_
  refine .bind (Q := fun failed j' => (∃ e ∈ j'.log, failed = e.failedHosts event.cluster) ∧
      Idle j'.log)
    (paired_idle_perform rfl h₂ fun failed w _ hi => ⟨⟨_, List.mem_cons_self, ?_⟩, hi⟩) ?_
  · simp [Entry.failedHosts]
  rintro failed j₃ ⟨⟨e, he, hlisted⟩, h₃⟩ -
  dsimp only
  refine .bind (paired_idle (calm_discardFailed _ _ _) h₃) fun kept j₄ h₄ hlog₄ => ?_
  refine .bind (paired_swapIn (List.filter_sublist.trans hactive)
    ⟨e, hlog₄.subset he, hlisted ▸ List.filter_sublist⟩ (fun id hid => ?_)
      ⟨Nat.min_le_left _ _, Nat.min_le_right _ _⟩ h₄) ?_
  · simpa using (List.mem_filter.mp hid).2
  rintro kept j₅ ⟨hp, he⟩ -
  exact .bind (paired_even (calm_terminateSurplus _ _) hp he) fun _ _ hq _ => hq

theorem paired_completing (h : Idle j.log) :
    Paired event outside raises (fun _ j' => Pairs event j'.log ∧ Even j'.log)
      (completing event) j := by
  rw [completing_eq]
  refine .bind (paired_idle (only_ask.mpr rfl) h) fun serving j₁ h₁ _ => ?_
  refine .bind (paired_idle (only_request.mpr rfl) h₁) fun poolSize j₂ h₂ _ => ?_
  refine .bind (Q := fun _ j' => Pairs event j'.log ∧ Even j'.log) ?_ ?_
  · rw [reconcileIfDue]
    split
    · exact ⟨h₂.pairs, h₂.even⟩
    · exact paired_reconcile h₂
  rintro kept j₃ ⟨hp, he⟩ -
  exact .bind (paired_even (only_ask.mpr rfl) hp he) fun _ _ hq _ => hq

/-- A tick of an event that has nothing left to do but to finish. -/
theorem paired_work (config : ReplacementSettings) (now : Instant) (hs : Finishing event.state)
    (h : Idle j.log) :
    Paired event outside raises (fun _ j' => Pairs event j'.log ∧ Even j'.log)
      ((lifecycle config).work event now) j := by
  have hstore : ∀ y : UpgradeEvent,
      (ask (.updateItem .upgrade y)).Only (·.swaps = false) := fun y => only_ask.mpr rfl
  rw [Lifecycle.work]
  split
  · exact ⟨h.pairs, h.even⟩
  rename_i hterminal
  have hcompleting : event.state = UpgradeState.completing :=
    hs.resolve_right fun he => hterminal (Item.isTerminal_iff.mpr he)
  refine .bind (paired_idle (only_clusterIsPaused (fun _ => Call.not_swaps_of_isRead) _) h)
    fun paused j₁ h₁ _ => ?_
  split
  · exact .bind (paired_idle (hstore _) h₁) fun _ j₂ h₂ _ => ⟨h₂.pairs, h₂.even⟩
  · cases (lifecycle config).timeout with
    | error f => exact ⟨h₁.pairs, .inr h₁.even⟩
    | ok limit =>
        simp only [ofOutcome, Program.bind]
        split
        · refine .bind (paired_idle (hstore _) h₁) fun _ j₂ h₂ _ => ?_
          refine .bind (paired_idle (Only.attempt (Only.mono (only_onTimeout _ _) fun c hc => ?_))
            h₂) fun _ j₃ h₃ _ => ⟨h₃.pairs, h₃.even⟩
          rcases hc with hc | rfl
          · exact Call.not_swaps_of_isRead hc
          · rfl
        · have hstep : (lifecycle config).step event now = completing event := by
            simp only [lifecycle, step, hcompleting]
          rw [Lifecycle.takeStep, hstep]
          refine .bind (paired_completing h₁) ?_
          rintro ⟨changed, d⟩ j₂ ⟨hp, he⟩ -
          refine .bind (paired_even (hstore _) hp he) ?_
          rintro _ j₃ ⟨hp₃, he₃⟩ -
          cases d <;> exact ⟨hp₃, he₃⟩

end

/-! ## Ticks while nobody else touches the hosts -/

/-- Others may change anything but an event and the records of hosts. -/
structure World.Aloof (id : ItemId) (w v : World) : Prop where
  untouched : World.Untouched .upgrade id w v
  hosts : ∀ t, v.store = some t → ∃ s, w.store = some s ∧ t.hosts = s.hosts
  keyed : w.tables.Keyed → v.tables.Keyed

theorem World.Aloof.isStaying {id : ItemId} {w v : World} {host : HostId}
    (h : World.Aloof id w v) (hw : w.tables.isStaying host = false) :
    v.tables.isStaying host = false := by
  cases hv : v.store with
  | none =>
      rw [World.tables, hv]
      rfl
  | some t =>
      obtain ⟨s, hs, he⟩ := h.hosts t hv
      rw [World.tables_eq hs] at hw
      rw [World.tables_eq hv, Store.isStaying, he]
      exact hw

/-- The version that the first call of a tick has read. -/
def Opens (log : List (Entry World)) (y : UpgradeEvent) : Prop :=
  ∃ before after id later,
    log = later ++ [⟨before, .store (.getItem .upgrade id), .ok (some y), after⟩]

section

variable {raises : Fault → Prop} {id : ItemId} {event x y : UpgradeEvent} {w w' t : World}
  {log : List (Entry World)} {logs : List (List (Entry World))} {host : HostId}
  {config : ReplacementSettings} {now : Instant} {r : Outcome (Progress UpgradeState)}
  {j : Journal World}

theorem paired_of_tick (h : World.Shows id w y) (hs : Finishing y.state)
    (he : ((lifecycle config).advance id now).Ends (aside id raises).recorded (.start w) r j) :
    Pairs y j.log ∧ (CutOff j.log ∨ Even j.log) := by
  have hfollows : Paired y (World.Untouched .upgrade id) raises
      (fun _ j' => Pairs y j'.log ∧ Even j'.log) ((lifecycle config).advance id now)
      (.start w) := by
    rw [Lifecycle.advance_eq]
    refine .bind (Q := fun found j' => found = some y ∧ Idle j'.log)
      (paired_idle_perform rfl .start fun found v hb hi => ⟨h.read hb, hi⟩) ?_
    rintro _ j₁ ⟨rfl, h₁⟩ -
    exact paired_work config now hs h₁
  have hend := Keeps.ends hfollows he
  cases r with
  | ok progress => exact ⟨hend.1, .inr hend.2⟩
  | error f => exact hend

/-- What a tick reads first is the version that is stored when it begins. -/
theorem Opens.eq_of_tick {z : UpgradeEvent} (h : World.Shows id w y)
    (he : ((lifecycle config).advance id now).Ends (aside id raises).recorded (.start w) r j)
    (hz : Opens j.log z) : z = y := by
  obtain ⟨before, after, id', later, hlog⟩ := hz
  rw [Lifecycle.advance_eq] at he
  cases he with
  | call hb hrest =>
      obtain ⟨v, hb, rfl⟩ := hb
      obtain ⟨more, hmore⟩ := hrest.suffix
      have hlast := congrArg List.getLast? (hlog.symm.trans hmore.symm)
      simp only [Journal.enter, Journal.start, List.getLast?_append,
        List.getLast?_singleton] at hlast
      cases hlast
      exact Option.some.inj (h.read hb)

/-! ## What a tick leaves -/

theorem mem_attachedIn : host ∈ attachedIn log ↔ ∃ e ∈ log, host ∈ e.attached :=
  List.mem_flatMap

/-- A call that stores an event and is answered stores it. -/
theorem stored_of_answered {c : Call} {r : Outcome c.Reply} {past : List (Entry World)}
    {E : Fault → Prop} {x' : UpgradeEvent} (hp : Item.Possible .upgrade event.id E c x r x')
    (hc : Conducts y past c) (hy : y.id = event.id) (hstores : c.storesEvent = true)
    (hr : r.isOk = true) : c = .store (.updateItem .upgrade x') := by
  cases hc with
  | looks h =>
      unfold Call.storesEvent at hstores
      split at hstores
      · cases h
      · cases hstores
  | stores hid =>
      rcases hp.of_update (hid.trans hy) with rfl | ⟨-, f, rfl⟩
      · rfl
      · cases hr
  | _ => cases hstores

/-- What a tick in COMPLETING leaves of an event: fewer hosts than it began with, and of those
that it has attached only such as were attached since the event was last stored. -/
structure Finishes (event y : UpgradeEvent) (log : List (Entry World)) (x : UpgradeEvent) :
    Prop where
  succeeds : Succeeds event x
  fewer : ∀ id ∈ x.hostIds, id ∈ y.hostIds
  out : ∀ id ∈ x.hostIds, id ∈ attachedIn log → id ∈ unsettled log

theorem finishes_of_traces (hy : Succeeds event y) (h : World.Shows event.id w y)
    (ht : Traces (aside event.id raises) w log t) (hR : (tickRule y).Admits log)
    (hA : (accounts y).Admits log) :
    ∃ x, Stands event.id y log t x ∧ Finishes event y log x := by
  induction ht with
  | nil => exact ⟨y, .start h, hy, fun _ hid => hid, by simp [attachedIn]⟩
  | @cons log u c r u' _ hb ih =>
      obtain ⟨x, hx, hf⟩ := ih hR.2 hA.2
      obtain ⟨x', hp, hx'⟩ := hx.entry hb hA.1
      refine ⟨x', hx', ?_⟩
      -- a version that the call stores tracks none of the hosts attached before
      have hstored : c = .store (.updateItem .upgrade x') →
          Finishes event y (⟨u, c, r, u'⟩ :: log) x' := by
        rintro rfl
        obtain ⟨hs, hsub⟩ := Conducts.succeeds hR.1.1 hy rfl
        refine ⟨hs, hsub, fun id hid hatt => ?_⟩
        rw [attachedIn_cons rfl] at hatt
        have hforgoes := (hR.1.2 id ⟨mem_attachedIn.mp hatt, by simp⟩).1
        exact absurd hid hforgoes.2
      by_cases hanswered : c.storesEvent = true ∧ r.isOk = true
      · exact hstored (stored_of_answered hp hR.1.1 hy.id hanswered.1 hanswered.2)
      rcases hp.eq_or_stored with rfl | ⟨-, hc⟩
      · refine ⟨hf.succeeds, hf.fewer, fun id hid hatt => ?_⟩
        rw [unsettled, if_neg (by simpa using hanswered)]
        rcases List.mem_append.mp hatt with hatt | hatt
        · exact List.mem_append_left _ hatt
        · exact List.mem_append_right _ (hf.out id hid hatt)
      · exact hstored hc

/-- Where failed hosts are listed. -/
theorem failedHosts_cases (e : Entry World) (cluster : String) : e.failedHosts cluster = [] ∨
    ∃ before ids after, e = ⟨before, .store (.failedHostIds cluster), .ok ids, after⟩ ∧
      e.failedHosts cluster = ids := by
  unfold Entry.failedHosts
  split
  · split
    · rename_i he
      subst he
      exact .inr ⟨_, _, _, rfl, rfl⟩
    · exact .inl rfl
  · exact .inl rfl

/-- Where hosts are recorded as terminating. -/
theorem marked_cases {e : Entry World} (h : host ∈ e.marked) : ∃ before ids u after,
    e = ⟨before, .store (.setHostState ids .terminating), .ok u, after⟩ ∧ host ∈ ids := by
  unfold Entry.marked at h
  split at h
  · exact ⟨_, _, _, _, rfl, h⟩
  · cases h

theorem keyed_of_aloof {c : Call} {r : Outcome c.Reply}
    (hb : World.Possible (World.Aloof id) raises c w r w') (h : w.tables.Keyed) :
    w'.tables.Keyed :=
  hb.preserves (I := fun w => w.tables.Keyed) (fun _ hv => hv.keyed)
    (fun _ hv => World.keyed_answer hv c) h

/-- No host is listed as failed twice, and none that does not stay. -/
theorem failedHosts_of_aloof {c : Call} {r : Outcome c.Reply}
    (hb : World.Possible (World.Aloof id) raises c w r w') (h : w.tables.Keyed)
    (cluster : String) : (Entry.failedHosts cluster ⟨w, c, r, w'⟩).Nodup ∧
      ∀ host, w.tables.isStaying host = false →
        host ∉ Entry.failedHosts cluster ⟨w, c, r, w'⟩ := by
  rcases failedHosts_cases ⟨w, c, r, w'⟩ cluster with he | ⟨_, ids, _, heq, he⟩
  · rw [he]
    exact ⟨.nil, fun _ _ => List.not_mem_nil⟩
  · rw [he]
    cases heq
    obtain ⟨hn, v, hv, hstays⟩ := hb.failedHostIds fun v hv => hv.keyed h
    refine ⟨hn, fun host hw hid => ?_⟩
    have hv' := hv.isStaying hw
    rw [hstays host hid] at hv'
    cases hv'

/-- What a tick leaves of the hosts: none that it does not find staying is listed as failed,
none is listed twice, and those that it recorded as terminating do not stay. -/
structure Leaves (w : World) (log : List (Entry World)) (t : World) : Prop where
  keyed : t.tables.Keyed
  gone : ∀ host, w.tables.isStaying host = false → t.tables.isStaying host = false
  unlisted : ∀ host, w.tables.isStaying host = false → ∀ cluster, ∀ e ∈ log,
    host ∉ e.failedHosts cluster
  nodup : ∀ cluster, ∀ e ∈ log, (e.failedHosts cluster).Nodup
  marked : ∀ e ∈ log, ∀ host ∈ e.marked, t.tables.isStaying host = false

theorem leaves_of_traces (ht : Traces (World.Possible (World.Aloof id) raises) w log t)
    (hall : ∀ e ∈ log, e.call.admits = false) (hk : w.tables.Keyed) : Leaves w log t := by
  induction ht with
  | nil => exact ⟨hk, fun _ hw => hw, by simp, by simp, by simp⟩
  | @cons log u c r u' _ hb ih =>
      obtain ⟨hkeyed, hgone, hunlisted, hnodup, hmarked⟩ :=
        ih fun e he => hall e (List.mem_cons_of_mem _ he)
      have hstep : ∀ {host}, u.tables.isStaying host = false →
          u'.tables.isStaying host = false :=
        hb.isStaying (hall _ List.mem_cons_self) fun _ hv => hv.isStaying
      have hlisted := failedHosts_of_aloof hb hkeyed
      refine ⟨keyed_of_aloof hb hkeyed, fun host hw => hstep (hgone host hw), ?_, ?_, ?_⟩
      · intro host hw cluster e he
        rcases List.mem_cons.mp he with rfl | he
        · exact (hlisted cluster).2 host (hgone host hw)
        · exact hunlisted host hw cluster e he
      · intro cluster e he
        rcases List.mem_cons.mp he with rfl | he
        · exact (hlisted cluster).1
        · exact hnodup cluster e he
      · intro e he host hm
        rcases List.mem_cons.mp he with rfl | he
        · obtain ⟨_, ids, _, _, heq, hid⟩ := marked_cases hm
          cases heq
          exact hb.not_isStaying_of_marked hid
        · exact hstep (hmarked e he host hm)

/-! ## The law of the swap -/

/-- Ticks of an event, with their calls, the last one first. Between them and during them the
others do what is allowed. -/
inductive Rounds (outside : World → World → Prop) (raises : Fault → Prop) (id : ItemId)
    (w : World) : List (List (Entry World)) → World → Prop where
  | start : Rounds outside raises id w [] w
  | others {logs : List (List (Entry World))} {v v' : World}
      (past : Rounds outside raises id w logs v) (h : outside v v') :
      Rounds outside raises id w logs v'
  | tick {logs : List (List (Entry World))} {v : World}
      (past : Rounds outside raises id w logs v) {config : ReplacementSettings} {now : Instant}
      {r : Outcome (Progress UpgradeState)} {j : Journal World}
      (h : ((lifecycle config).advance id now).Ends (World.Possible outside raises).recorded
        (.start v) r j) : Rounds outside raises id w (j.log :: logs) j.state

/-- In each tick, a host that the event tracked at first and does not track any longer is taken
for a failed host of the pool only if an earlier tick has attached it or found it not running. -/
def Respects (event : UpgradeEvent) (logs : List (List (Entry World))) : Prop :=
  ∀ newer log older, logs = newer ++ log :: older → ∀ y, Opens log y →
    ∀ e ∈ log, ∀ host ∈ e.failedHosts event.cluster, host ∉ y.hostIds → host ∈ event.hostIds →
      ∃ log ∈ older, ∃ e ∈ log, host ∈ e.attached ∨ host ∈ e.absent

/-- As many hosts were attached as were terminated in their place, and none of them twice. -/
structure OneForOne (logs : List (List (Entry World))) : Prop where
  length : (logs.flatMap attachedIn).length = (logs.flatMap replacedIn).length
  attached : (logs.flatMap attachedIn).Nodup
  replaced : (logs.flatMap replacedIn).Nodup

/-- Where a run of ticks stands with its swaps. -/
structure Tally (event : UpgradeEvent) (logs : List (List (Entry World))) (w : World)
    (x : UpgradeEvent) : Prop where
  standing : Standing event logs w x
  succeeds : Succeeds event x
  keyed : w.tables.Keyed
  marked : ∀ log ∈ logs, ∀ e ∈ log, ∀ host ∈ e.marked, w.tables.isStaying host = false
  pairs : ∀ log ∈ logs, ∃ y, (∀ z, Opens log z → z = y) ∧ Pairs y log ∧ (CutOff log ∨ Even log)
  even : (∀ log ∈ logs, ¬ CutOff log) →
    OneForOne logs ∧ ∀ host ∈ logs.flatMap attachedIn, host ∉ x.hostIds
  respects : Respects event logs

theorem Tally.start (hw : World.Shows event.id w event)
    (hs : event.state = UpgradeState.completing) (hk : w.tables.Keyed) :
    Tally event [] w event where
  standing := .start hw (by rw [hs]; decide)
  succeeds := ⟨rfl, rfl, .inl hs⟩
  keyed := hk
  marked := by simp
  pairs := by simp
  even := fun _ => ⟨⟨rfl, .nil, .nil⟩, by simp⟩
  respects := by
    intro newer log older h
    simp at h

theorem Tally.others (h : Tally event logs w x) (ho : World.Aloof event.id w w') :
    Tally event logs w' x where
  standing := h.standing.others ho.untouched
  succeeds := h.succeeds
  keyed := ho.keyed h.keyed
  marked := fun log hlog e he host hm => ho.isStaying (h.marked log hlog e he host hm)
  pairs := h.pairs
  even := h.even
  respects := h.respects

/-- A host that was accounted for as terminated does not stay, so no tick takes it for a failed
host of the pool. -/
theorem Tally.respects_cons (h : Tally event logs w y) (hleaves : Leaves w log t)
    (hopens : ∀ z, Opens log z → z = y) : Respects event (log :: logs) := by
  intro newer log' older hlogs z hz e he host hfailed hn hmem
  cases newer with
  | cons first newer =>
      obtain ⟨-, htail⟩ := List.cons.inj hlogs
      exact h.respects newer log' older htail z hz e he host hfailed hn hmem
  | nil =>
      obtain ⟨rfl, rfl⟩ := List.cons.inj hlogs
      obtain rfl := hopens z hz
      have hin : ∀ {a : Entry World}, a ∈ logs.flatten → ∃ log ∈ logs, a ∈ log := fun ha =>
        List.mem_flatten.mp ha
      rcases h.standing.kept host (.inl hmem) with htracked | hparted
      · exact absurd htracked hn
      · cases hparted with
        | attached ha hhost =>
            obtain ⟨l, hl, ha⟩ := hin ha
            exact ⟨l, hl, _, ha, .inl hhost⟩
        | absent ha hhost =>
            obtain ⟨l, hl, ha⟩ := hin ha
            exact ⟨l, hl, _, ha, .inr hhost⟩
        | terminated _ _ ha hhost =>
            obtain ⟨l, hl, ha⟩ := hin ha
            exact absurd hfailed (hleaves.unlisted host (h.marked l hl _ ha host hhost) _ e he)

/-- A tick whose swap is not cut off attaches hosts that no earlier one has attached, and
replaces hosts that no earlier one has replaced. -/
theorem Tally.even_cons (h : Tally event logs w y) (hleaves : Leaves w log t)
    (hpairs : Pairs y log) (heven : CutOff log ∨ Even log) (hf : Finishes event y log x)
    (hall : ∀ l ∈ log :: logs, ¬ CutOff l) :
    OneForOne (log :: logs) ∧
      ∀ host ∈ (log :: logs).flatMap attachedIn, host ∉ x.hostIds := by
  obtain ⟨hone, hgone⟩ := h.even fun l hl => hall l (List.mem_cons_of_mem _ hl)
  obtain ⟨hlength, hmarked, hsettled⟩ := heven.resolve_left (hall log List.mem_cons_self)
  have hreplaced : ∀ host ∈ logs.flatMap replacedIn, w.tables.isStaying host = false := by
    intro host hmem
    obtain ⟨l, hl, hhost⟩ := List.mem_flatMap.mp hmem
    obtain ⟨z, -, -, hz⟩ := h.pairs l hl
    obtain ⟨e, he, hm⟩ :=
      (hz.resolve_left (hall l (List.mem_cons_of_mem _ hl))).marked host hhost
    exact h.marked l hl e he host hm
  refine ⟨⟨?_, ?_, ?_⟩, fun host hmem hx => ?_⟩
  · rw [List.flatMap_cons, List.flatMap_cons, List.length_append, List.length_append, hlength,
      hone.length]
  · refine List.nodup_append.mpr ⟨hpairs.attached.nodup y.hostIds.nodup, hone.attached, ?_⟩
    rintro a ha _ hb rfl
    exact hgone a hb (hpairs.attached.subset ha)
  · rcases hpairs.replaced with hnone | ⟨-, e, he, hlisted⟩
    · rw [List.flatMap_cons, hnone]
      exact hone.replaced
    · refine List.nodup_append.mpr
        ⟨hlisted.nodup (hleaves.nodup y.cluster e he), hone.replaced, ?_⟩
      rintro a ha _ hb rfl
      exact hleaves.unlisted a (hreplaced a hb) y.cluster e he (hlisted.subset ha)
  · rcases List.mem_append.mp hmem with hmem | hmem
    · have hlate := hf.out host hx hmem
      rw [hsettled] at hlate
      cases hlate
    · exact hgone host hmem (hf.fewer host hx)

theorem Tally.tick (h : Tally event logs w y)
    (he : ((lifecycle config).advance event.id now).Ends
      (World.Possible (World.Aloof event.id) raises).recorded (.start w) r j) :
    ∃ x, Tally event (j.log :: logs) j.state x := by
  have hshows := h.standing.shows
  have he' : ((lifecycle config).advance event.id now).Ends (aside event.id raises).recorded
      (.start w) r j := by
    refine he.mono ?_
    rintro c j₁ r₁ _ ⟨s, hb, rfl⟩
    exact ⟨s, hb.weaken fun _ hv => hv.untouched, rfl⟩
  have hR := (rule_of_tick hshows he').1
  have hleaves : Leaves w j.log j.state := by
    refine leaves_of_traces (he.traces .nil) (fun e hmem => ?_) h.keyed
    obtain ⟨past, hc⟩ := conducts_of_mem hR hmem
    exact hc.not_admits
  obtain ⟨x, hx, hf⟩ := finishes_of_traces h.succeeds hshows (he'.traces .nil) hR
    (accounts_of_tick hshows he').1
  obtain ⟨hpairs, heven⟩ := paired_of_tick hshows h.succeeds.state he'
  have hopens : ∀ z, Opens j.log z → z = y := fun z hz => hz.eq_of_tick hshows he'
  refine ⟨x, h.standing.tick hx, hf.succeeds, hleaves.keyed, ?_, ?_, ?_, ?_⟩
  · intro log hlog e hmem host hm
    rcases List.mem_cons.mp hlog with rfl | hlog
    · exact hleaves.marked e hmem host hm
    · exact hleaves.gone host (h.marked log hlog e hmem host hm)
  · exact List.forall_mem_cons.mpr ⟨⟨y, hopens, hpairs, heven⟩, h.pairs⟩
  · exact h.even_cons hleaves hpairs heven hf
  · exact h.respects_cons hleaves hopens

theorem Rounds.tally (h : Rounds (World.Aloof event.id) raises event.id w logs w')
    (hw : World.Shows event.id w event) (hs : event.state = UpgradeState.completing)
    (hk : w.tables.Keyed) : ∃ x, Tally event logs w' x := by
  induction h with
  | start => exact ⟨event, .start hw hs hk⟩
  | others _ ho ih =>
      obtain ⟨x, hx⟩ := ih
      exact ⟨x, hx.others ho⟩
  | tick _ he ih =>
      obtain ⟨x, hx⟩ := ih
      exact hx.tick he

/-- Hosts cannot be terminated to replace them. -/
def immortal : List (Entry World) → Call → Option Fault
  | _, .provider (.terminateHosts _ _ false) => some (.error (.fleet "timed out"))
  | _, _ => none

theorem World.aloof_refl (h : w.tables.Keyed) : World.Aloof id w w :=
  ⟨World.untouched_refl h, fun t ht => ⟨t, ht, rfl⟩, fun hk => hk⟩

theorem Rounds.tickCramped (h : Rounds (World.Aloof "event") raises "event" w logs w')
    {fails : List (Entry World) → Call → Option Fault} (hk : w'.tables.Keyed)
    (hf : ∀ log c f, fails log c = some f → raises f) :
    Rounds (World.Aloof "event") raises "event" w ((tickCramped fails w').2.log :: logs)
      (tickCramped fails w').2.state :=
  h.tick (ends_failing (I := fun w => w.tables.Keyed) (fun _ => World.aloof_refl)
    (fun c _ hw => World.keyed_answer hw c) hf _ hk)

/-- In each tick of an event from COMPLETING on, the hosts that are attached are ones that the
event tracked, and those that are terminated in their place are failed hosts that it did not
track: as many, or none yet if a call of the swap failed. If no swap is cut off so, as many
hosts are attached over all ticks as are terminated in their place, and no host is attached
twice or replaced twice. And a host that the event tracked at first is taken for a failed host
of the pool only after an earlier tick has attached it or has found it not running. -/
theorem swaps_one_for_one (raises : Fault → Prop) {w w' : World} {event : UpgradeEvent}
    {logs : List (List (Entry World))} (hw : World.Shows event.id w event)
    (hs : event.state = UpgradeState.completing) (hk : w.tables.Keyed)
    (hrun : Rounds (World.Aloof event.id) raises event.id w logs w') :
    (∀ log ∈ logs, ∃ y, (∀ z, Opens log z → z = y) ∧ Pairs y log ∧ (CutOff log ∨ Even log)) ∧
      ((∀ log ∈ logs, ¬ CutOff log) → OneForOne logs) ∧ Respects event logs := by
  obtain ⟨x, hx⟩ := hrun.tally hw hs hk
  exact ⟨hx.pairs, fun hall => (hx.even hall).1, hx.respects⟩

/-- One tick of the cramped pool, in which no call fails: one host for one. -/
theorem swaps_one_for_one_crampedPool : ∃ log w',
    Rounds (World.Aloof "event") (fun _ => False) "event" crampedPool [log] w' ∧
      attachedIn log = ["spare"] ∧ replacedIn log = ["failed"] ∧ OneForOne [log] := by
  have hrun : Rounds (World.Aloof crampedEvent.id) (fun _ => False) crampedEvent.id crampedPool
      [(quietTick crampedPool).log] (quietTick crampedPool).state :=
    Rounds.start.tickCramped keyed_crampedPool (by simp)
  have hshows : World.Shows crampedEvent.id crampedPool crampedEvent := by
    rintro s hs
    cases hs
    exact ⟨keyed_crampedPool.items .upgrade, rfl⟩
  obtain ⟨-, hone, -⟩ :=
    swaps_one_for_one (fun _ => False) hshows rfl keyed_crampedPool hrun
  have hok : (quietTick crampedPool).log.all (·.reply.isOk) = true := by decide +kernel
  refine ⟨_, _, hrun, by decide +kernel, by decide +kernel, hone ?_⟩
  rintro log hlog ⟨e, past, f, he, hf, -⟩
  obtain rfl := List.mem_singleton.mp hlog
  have hreply := List.all_eq_true.mp hok e (he ▸ List.mem_cons_self)
  rw [hf] at hreply
  cases hreply

/-- If the failed host cannot be terminated after the attachment, the event no longer tracks
the attached one, and the next tick ends the event. Nothing is terminated any more. -/
theorem attached_without_replacing :
    let first := tickCramped immortal crampedPool
    let second := tickCramped (fun _ _ => none) first.2.state
    Rounds (World.Aloof "event") (fun _ => True) "event" crampedPool
        [second.2.log, first.2.log] second.2.state ∧
      first.1.isOk = false ∧
      (∃ y, World.Holds "event" second.2.state y ∧ y.state = UpgradeState.completed) ∧
      [second.2.log, first.2.log].flatMap attachedIn = ["spare"] ∧
      [second.2.log, first.2.log].flatMap replacedIn = [] ∧
      "failed" ∈ second.2.state.tables.failedHostIds "web" := by
  intro first second
  have hkeyed : first.2.state.tables.Keyed := keyed_tickCramped keyed_crampedPool
  have hrun : Rounds (World.Aloof "event") (fun _ => True) "event" crampedPool
      [second.2.log, first.2.log] second.2.state :=
    (Rounds.start.tickCramped keyed_crampedPool fun _ _ _ _ => trivial).tickCramped hkeyed
      fun _ _ _ _ => trivial
  have hend : (second.2.state.store.bind (·.getItem .upgrade "event")).any
      (fun y => decide (y.state = UpgradeState.completed)) = true := by decide +kernel
  obtain ⟨y, hy, hcompleted⟩ := (Option.any_eq_true _ _).mp hend
  exact ⟨hrun, by decide +kernel,
    ⟨y, Option.bind_eq_some_iff.mp hy, of_decide_eq_true hcompleted⟩, by decide +kernel,
    by decide +kernel, by decide +kernel⟩

end

end Replacement

end FleetControl
