import FleetControl.Proofs.SingleLaunch
import FleetControl.Proofs.Swapping

/-!
# What becomes of launched hosts

A tick of an item in INIT launches hosts, and only calls to record them follow a launch until
they are recorded. So a host is lost only by the failure of such a call: for an event of the
one that stores it right after the launch, for a check of the one that inserts the probe host
or of the one that stores the check.
-/
namespace FleetControl

open Program

/-- The life cycle of the items of a kind, as configured. -/
def Config.lifecycle (config : Config) : (k : ItemKind) → Lifecycle k
  | .upgrade => Replacement.lifecycle config.replacement
  | .check => ImageCheck.lifecycle config.healthCheck

/-- The state in which items begin. -/
def ItemKind.initial : (k : ItemKind) → k.State
  | .upgrade => UpgradeState.init
  | .check => HealthCheckState.init

/-- Whether a call records a host: in the inventory, or in an item that tracks it. -/
def Call.Records (host : HostId) : Call → Prop
  | .store (.insertHost h) => h.id = host
  | .store (.updateItem _ y) => host ∈ y.trackedHosts
  | _ => False

/-- No more hosts are granted than asked for. -/
theorem Provider.granted_le (p : Provider) (count : Nat) : p.granted count ≤ count := by
  simp only [granted]
  split
  · cases p.launchCapacity <;> simp
  · cases p.launchLimit <;> cases p.launchCapacity <;> simp only [Option.elim] <;> omega

theorem World.Possible.length_launched_le {outside : World → World → Prop}
    {raises : Fault → Prop} {cluster : String} {count : Nat} {image : Option String}
    {w w' : World} {ids : List HostId}
    (h : World.Possible outside raises (.provider (.launchHosts cluster count image)) w
      (.ok ids) w') : ids.length ≤ count := by
  obtain ⟨v, -, hb | ⟨f, -, hr, -⟩⟩ := h
  · have hfst : (v.provider.launchHosts cluster count image).1 = .ok ids :=
      congrArg Prod.fst hb
    rw [(Provider.launched_of_launchHosts (Prod.ext hfst rfl)).1]
    simpa using v.provider.granted_le count
  · cases hr

/-- Whether a host was launched. -/
def Launched (log : List (Entry World)) (host : HostId) : Prop := ∃ e ∈ log, host ∈ e.launched

/-- A host was launched, and all calls since then were to record it. -/
def Pending (log : List (Entry World)) (host : HostId) : Prop :=
  ∃ between e past, log = between ++ e :: past ∧ host ∈ e.launched ∧
    ∀ a ∈ between, a.call.Records host

theorem Entry.launched_eq_nil {e : Entry World} (h : e.call.launches = false) :
    e.launched = [] := by
  unfold launched
  split
  · cases h
  · rfl

theorem Pending.cons {log : List (Entry World)} {host : HostId} {e : Entry World}
    (h : Pending log host) (he : e.call.Records host) : Pending (e :: log) host := by
  obtain ⟨between, first, past, rfl, hl, hb⟩ := h
  exact ⟨e :: between, first, past, rfl, hl, List.forall_mem_cons.mpr ⟨he, hb⟩⟩

section

variable {k : ItemKind} {id : ItemId} {raises : Fault → Prop} {i y : Item k} {j : Journal World}
  {α : Type}

/-- The worlds in which others may do anything but write an item. -/
abbrev apart (k : ItemKind) (id : ItemId) (raises : Fault → Prop) : Behaviour World :=
  World.Possible (World.Untouched k id) raises

/-- The stored item tracks a host. -/
def Kept (k : ItemKind) (id : ItemId) (host : HostId) (j : Journal World) : Prop :=
  ∃ left : Item k, World.Shows id j.state left ∧ host ∈ left.trackedHosts

/-- The last call was one to record a host and has failed without an effect on the item, the
calls between the launch of the host and this one were to record it as well, and no call
terminates the host. -/
def Dropped (k : ItemKind) (id : ItemId) (host : HostId) (j : Journal World) : Prop :=
  ∃ u past f, j.log = u :: past ∧ u.reply = .error f ∧ u.call.Records host ∧
    Pending past host ∧ (∀ e ∈ j.log, host ∉ e.call.terminated) ∧
      ∃ left : Item k, World.Shows id u.before left ∧ World.Shows id j.state left

/-- What is true of the launched hosts when a tick ends with a value. -/
def AllKept (k : ItemKind) (id : ItemId) (j : Journal World) : Prop :=
  ∀ host, Launched j.log host → Kept k id host j

/-- What is true of the launched hosts when a tick ends in a fault. -/
def KeptOrDropped (k : ItemKind) (id : ItemId) (j : Journal World) : Prop :=
  ∀ host, Launched j.log host → Kept k id host j ∨ Dropped k id host j

/-- In the middle of a tick: `i` is stored, and `y` tracks all hosts that were launched, those
that `i` does not track among them. No host was terminated. -/
structure Minds (id : ItemId) (i y : Item k) (j : Journal World) : Prop where
  id_eq : y.id = id
  shows : World.Shows id j.state i
  spared : ∀ e ∈ j.log, e.call.terminated = []
  tracked : ∀ host, Launched j.log host → host ∈ y.trackedHosts ∧
    (host ∈ i.trackedHosts ∨ Pending j.log host)

theorem Minds.allKept (h : Minds id y y j) : AllKept k id j :=
  fun host hl => ⟨y, h.shows, (h.tracked host hl).1⟩

/-- A call that launches nothing. -/
theorem launched_enter {c : Call} {r : Outcome c.Reply} {w : World} (hc : c.launches = false)
    {host : HostId} (h : Launched (j.enter c r w).log host) : Launched j.log host := by
  obtain ⟨e, he, hl⟩ := h
  rcases List.mem_cons.mp he with rfl | he
  · rw [Entry.launched_eq_nil hc] at hl
    cases hl
  · exact ⟨e, he, hl⟩

/-- A call that leaves items alone, launches and terminates nothing, and records the hosts that
the stored item does not track. -/
theorem minds_perform {c : Call} {Q : c.Reply → Journal World → Prop} (h : Minds id i y j)
    (hs : c.spares k = true) (hl : c.launches = false) (ht : c.terminated = [])
    (hr : ∀ host, Launched j.log host → host ∈ i.trackedHosts ∨ c.Records host)
    (hQ : ∀ a w, Minds id i y (j.enter c (.ok a) w) → Q a (j.enter c (.ok a) w)) :
    (perform c).Follows (apart k id raises) (fun _ _ => True) (KeptOrDropped k id) Q j := by
  refine follows_perform.mpr fun r w hb => ⟨trivial, ?_⟩
  have hshows : World.Shows id w i := by
    obtain ⟨i', hi', hp⟩ := h.shows.possible_untouched hb
    rcases hp.eq_or_stored with rfl | ⟨-, rfl⟩
    · exact hi'
    · simp [Call.spares] at hs
  have hspared : ∀ e ∈ (j.enter c r w).log, e.call.terminated = [] :=
    List.forall_mem_cons.mpr ⟨ht, h.spared⟩
  cases r with
  | ok a =>
      refine hQ a w ⟨h.id_eq, hshows, hspared, fun host hhost => ?_⟩
      obtain ⟨hy, hi⟩ := h.tracked host (launched_enter hl hhost)
      refine ⟨hy, ?_⟩
      rcases hr host (launched_enter hl hhost) with hmem | hrec
      · exact .inl hmem
      · exact hi.imp_right fun hp => hp.cons hrec
  | error f =>
      intro host hhost
      have hlaunched := launched_enter hl hhost
      by_cases hmem : host ∈ i.trackedHosts
      · exact .inl ⟨i, hshows, hmem⟩
      · have hrec := (hr host hlaunched).resolve_left hmem
        have hpending := (h.tracked host hlaunched).2.resolve_left hmem
        refine .inr ⟨_, _, f, rfl, rfl, hrec, hpending, fun e he => ?_, i, h.shows, hshows⟩
        rw [hspared e he]
        exact List.not_mem_nil

/-- Programs that only look, when the stored item tracks all hosts. -/
theorem minds_reads {p : Program α} {Q : α → Prop} (h : Minds id y y j)
    (hp : p.Meets (·.isRead = true) (fun _ => True) Q) :
    p.Follows (apart k id raises) (fun _ _ => True) (KeptOrDropped k id)
      (fun a j' => Q a ∧ Minds id y y j' ∧ ∀ host, Launched j'.log host → Launched j.log host)
      j := by
  let J : Journal World → Prop := fun j' =>
    Minds id y y j' ∧ ∀ host, Launched j'.log host → Launched j.log host
  have hread : ∀ j' (c : Call) r w, c.isRead = true → J j' → apart k id raises c j'.state r w →
      True ∧ J (j'.enter c r w) := by
    rintro j' c r w hc ⟨h, hlog⟩ hb
    have hl := ImageCheck.launchless_of_isRead hc
    have ht : c.terminated = [] := by
      unfold Call.terminated
      split
      · cases hc
      · rfl
    have hshows : World.Shows id w y := by
      obtain ⟨i', hi', hp⟩ := h.shows.possible_untouched hb
      rcases hp.eq_or_stored with rfl | ⟨-, rfl⟩
      · exact hi'
      · cases hc
    refine ⟨trivial, ⟨h.id_eq, hshows, List.forall_mem_cons.mpr ⟨ht, h.spared⟩, ?_⟩,
      fun host hhost => hlog host (launched_enter hl hhost)⟩
    intro host hhost
    obtain ⟨hy, -⟩ := h.tracked host (launched_enter hl hhost)
    exact ⟨hy, .inl hy⟩
  have hfollows : p.Follows (apart k id raises) (fun _ _ => True) J (fun a j' => Q a ∧ J j') j :=
    hp.follows hread ⟨h, fun _ hl => hl⟩
  exact hfollows.mono (fun _ _ hR => hR) (fun j' hj host hl => .inl (hj.1.allKept host hl))
    fun _ _ hq => hq

/-- A launch, when the stored item tracks all hosts launched before. -/
theorem minds_launch {cluster : String} {count : Nat} {image : Option String}
    (h : Minds id y y j) :
    (request (.launchHosts cluster count image)).Follows (apart k id raises) (fun _ _ => True)
      (KeptOrDropped k id) (fun ids j' => ids.length ≤ count ∧ ∀ y' : Item k, y'.id = id →
        (∀ host, host ∈ ids ∨ Launched j.log host → host ∈ y'.trackedHosts) →
          Minds id y y' j') j := by
  refine follows_perform.mpr fun r w hb => ⟨trivial, ?_⟩
  have hshows : World.Shows id w y := by
    obtain ⟨i', hi', hp⟩ := h.shows.possible_untouched hb
    rcases hp.eq_or_stored with rfl | ⟨-, hc⟩
    · exact hi'
    · cases hc
  cases r with
  | ok ids =>
      refine ⟨World.Possible.length_launched_le hb, fun y' hid hy' => ?_⟩
      refine ⟨hid, hshows, List.forall_mem_cons.mpr ⟨rfl, h.spared⟩, fun host hhost => ?_⟩
      obtain ⟨e, he, hl⟩ := hhost
      rcases List.mem_cons.mp he with rfl | he
      · exact ⟨hy' host (.inl hl), .inr ⟨[], _, _, rfl, hl, by simp⟩⟩
      · exact ⟨hy' host (.inr ⟨e, he, hl⟩), .inl (h.tracked host ⟨e, he, hl⟩).1⟩
  | error f =>
      intro host hhost
      obtain ⟨e, he, hl⟩ := hhost
      rcases List.mem_cons.mp he with rfl | he
      · cases hl
      · exact .inl ⟨y, hshows, (h.tracked host ⟨e, he, hl⟩).1⟩

/-- Storing an item that tracks all hosts that were launched. -/
theorem minds_store {z : Item k} (h : Minds id i y j) (hid : z.id = id)
    (hz : ∀ host, Launched j.log host → host ∈ z.trackedHosts) :
    (ask (.updateItem k z)).Follows (apart k id raises) (fun _ _ => True) (KeptOrDropped k id)
      (fun _ j' => Minds id z z j') j := by
  refine follows_perform.mpr fun r w hb => ⟨trivial, ?_⟩
  have hlaunched : ∀ {host}, Launched (j.enter (.store (.updateItem k z)) r w).log host →
      Launched j.log host := launched_enter rfl
  have hspared : ∀ e ∈ (j.enter (.store (.updateItem k z)) r w).log, e.call.terminated = [] :=
    List.forall_mem_cons.mpr ⟨rfl, h.spared⟩
  obtain ⟨i', hi', hp⟩ := h.shows.possible_untouched hb
  rcases hp.of_update hid with rfl | ⟨rfl, f, rfl⟩
  · cases r with
    | ok u =>
        refine ⟨hid, hi', hspared, fun host hl => ?_⟩
        exact ⟨hz host (hlaunched hl), .inl (hz host (hlaunched hl))⟩
    | error f => exact fun host hl => .inl ⟨_, hi', hz host (hlaunched hl)⟩
  · intro host hl
    by_cases hmem : host ∈ i'.trackedHosts
    · exact .inl ⟨i', hi', hmem⟩
    · have hpending := (h.tracked host (hlaunched hl)).2.resolve_left hmem
      refine .inr ⟨_, _, f, rfl, rfl, hz host (hlaunched hl), hpending, fun e he => ?_, i',
        h.shows, hi'⟩
      rw [hspared e he]
      exact List.not_mem_nil

/-- Nothing was launched yet. -/
def Unlaunched (j : Journal World) : Prop := ∀ host, ¬Launched j.log host

/-- Programs that launch nothing. -/
theorem unlaunched_of_only {p : Program α} (h : Unlaunched j)
    (hp : p.Only (·.launches = false)) :
    p.Follows (apart k id raises) (fun _ _ => True) (KeptOrDropped k id)
      (fun _ j' => AllKept k id j') j := by
  have hcall : ∀ j (c : Call) r w, c.launches = false → Unlaunched j →
      apart k id raises c j.state r w → True ∧ Unlaunched (j.enter c r w) :=
    fun j c r w hc hj _ => ⟨trivial, fun host hl => hj host (launched_enter hc hl)⟩
  have hfollows : p.Follows (apart k id raises) (fun _ _ => True) Unlaunched
      (fun _ j' => True ∧ Unlaunched j') j := hp.follows hcall h
  exact hfollows.mono (fun _ _ hR => hR) (fun j' hj host hl => absurd hl (hj host))
    fun _ j' hq host hl => absurd hl (hq.2 host)

/-- What a step ends with. -/
def Hands (id : ItemId) (result : Item k × Decision k.State) (j : Journal World) : Prop :=
  ∃ i, Minds id i result.1 j

theorem Item.trackedHosts_afterStep (y : Item k) (now : Instant) (d : Decision k.State) :
    (y.afterStep now d).trackedHosts = y.trackedHosts := by
  cases k <;> cases d <;> rfl

/-- Whether an item is paused, timed out or takes a step: if the step hands over the hosts that
it launches, they are kept. -/
theorem kept_work {l : Lifecycle k} {now : Instant} (h : Minds id y y j) (hj : Unlaunched j)
    (hp : (l.isPaused y).Only (·.isRead = true))
    (ht : (l.timeOut y now).Only (·.launches = false))
    (hstep : ∀ j, Minds id y y j → Unlaunched j →
      (l.step y now).Follows (apart k id raises) (fun _ _ => True) (KeptOrDropped k id)
        (Hands id) j) :
    (l.work y now).Follows (apart k id raises) (fun _ _ => True) (KeptOrDropped k id)
      (fun _ j' => AllKept k id j') j := by
  rw [Lifecycle.work]
  split
  · exact h.allKept
  · have hfault : ∀ {j}, Unlaunched j → KeptOrDropped k id j := fun hj host hl =>
      absurd hl (hj host)
    refine .bind (minds_reads h hp) ?_
    rintro paused j₁ ⟨-, h₁, hlog⟩ -
    have hj₁ : Unlaunched j₁ := fun host hl => hj host (hlog host hl)
    split
    · exact unlaunched_of_only hj₁ (.bind (only_ask.mpr rfl) fun _ => only_done _)
    · cases l.timeout with
      | error f => exact hfault hj₁
      | ok limit =>
          simp only [ofOutcome, Program.bind]
          split
          · exact unlaunched_of_only hj₁ ht
          · refine .bind (hstep j₁ h₁ hj₁) ?_
            rintro ⟨changed, d⟩ j₂ ⟨i, h₂⟩ -
            have hid : (changed.afterStep now d).id = id := (Item.id_afterStep _ _ _).trans h₂.id_eq
            refine .bind (minds_store h₂ hid fun host hl => ?_) fun _ j₃ h₃ _ => ?_
            · rw [Item.trackedHosts_afterStep]
              exact (h₂.tracked host hl).1
            · cases d <;> exact h₃.allKept

end

/-! ## Replacements -/

namespace Replacement

variable {id : ItemId} {raises : Fault → Prop} {event changed : UpgradeEvent} {j : Journal World}

theorem only_timeOut (config : ReplacementSettings) (event : UpgradeEvent) (now : Instant) :
    ((lifecycle config).timeOut event now).Only (·.launches = false) := by
  refine .bind (only_ask.mpr rfl) fun _ => .bind (Only.attempt ?_) fun _ => only_done _
  refine Only.mono (only_onTimeout _ _) fun c hc => ?_
  rcases hc with hc | rfl
  · exact ImageCheck.launchless_of_isRead hc
  · rfl

/-- Each round launches and stores the event with the hosts that were launched. -/
theorem hands_launchMissing (config : ReplacementSettings) (env : Environment)
    (limit needed : Nat) (launchedAny : Bool) (h : Minds id changed changed j) :
    (launchMissing config env limit needed launchedAny changed).Follows
      (apart .upgrade id raises) (fun _ _ => True) (KeptOrDropped .upgrade id) (Hands id) j := by
  induction limit generalizing needed launchedAny changed j with
  | zero => exact ⟨changed, h⟩
  | succ limit ih =>
      rw [launchMissing]
      split
      · exact ⟨changed, h⟩
      · refine .bind (minds_launch h) ?_
        rintro launched j₁ ⟨-, h₁⟩ hlog
        dsimp only
        split
        · rename_i hnone
          have hnothing : Minds id changed changed j₁ := by
            refine h₁ changed h.id_eq fun host hhost => ?_
            rcases hhost with hmem | hmem
            · rw [List.isEmpty_iff.mp hnone] at hmem
              cases hmem
            · exact (h.tracked host hmem).1
          refine .bind (minds_reads hnothing (within_notify.mpr rfl)) ?_
          rintro _ j₂ ⟨-, h₂, -⟩ -
          split
          · exact ⟨changed, h₂⟩
          · exact fun host hl => .inl (h₂.allKept host hl)
        · have htracks : Minds id changed
              (changed.withHostIds (changed.hostIds.insertAll launched)) j₁ := by
            refine h₁ _ h.id_eq fun host hhost => IdSet.mem_insertAll.mpr ?_
            rcases hhost with hmem | hmem
            · exact .inl hmem
            · exact .inr (h.tracked host hmem).1
          refine .bind (minds_store htracks htracks.id_eq fun host hl =>
            (htracks.tracked host hl).1) fun _ j₂ h₂ _ => ?_
          exact ih _ _ h₂

theorem hands_init (config : ReplacementSettings) (h : Minds id event event j) :
    (init config event).Follows (apart .upgrade id raises) (fun _ _ => True)
      (KeptOrDropped .upgrade id) (Hands id) j := by
  refine .bind (minds_reads h (within_requireEnvironment rfl trivial)) ?_
  rintro env j₁ ⟨-, h₁, -⟩ -
  exact hands_launchMissing config env _ _ _ h₁

end Replacement

/-! ## Image checks -/

namespace ImageCheck

variable {id : ItemId} {raises : Fault → Prop} {check : HealthCheck} {j : Journal World}

/-- The probe host is launched, inserted and handed over. -/
theorem hands_init (config : ImageCheckSettings) (now : Instant) (h : Minds id check check j)
    (hj : Unlaunched j) :
    (init config check now).Follows (apart .check id raises) (fun _ _ => True)
      (KeptOrDropped .check id) (Hands id) j := by
  refine .bind (minds_launch h) ?_
  rintro launched j₁ ⟨hlength, h₁⟩ -
  split
  · have hnothing : Minds id check check j₁ := by
      refine h₁ check h.id_eq fun host hhost => ?_
      rcases hhost with hmem | hmem
      · cases hmem
      · exact absurd hmem (hj host)
    refine .bind (minds_reads hnothing (within_alert (fun _ _ => trivial) _ _ _ _)) ?_
    rintro _ j₂ ⟨-, h₂, -⟩ -
    exact ⟨check, h₂⟩
  · rename_i probe others
    obtain rfl : others = [] := by simpa using hlength
    let probed : HealthCheck := { check with
      details := { check.details with
        hostId := some probe, hostLaunchTime := some now, hostTerminated := false } }
    have hprobed : Minds id check probed j₁ := by
      refine h₁ probed h.id_eq fun host hmem => ?_
      rcases hmem with hmem | hmem
      · rw [List.mem_singleton.mp hmem]
        exact Option.mem_toList.mpr rfl
      · exact absurd hmem (hj host)
    have hinsert : ∀ host, Launched j₁.log host → probe = host := fun host hl =>
      Option.some.inj (Option.mem_toList.mp (hprobed.tracked host hl).1)
    refine .bind (Q := fun _ j' => Minds id check probed j') ?_ fun _ j₂ h₂ _ => ⟨check, h₂⟩
    exact minds_perform hprobed rfl rfl rfl (fun host hl => .inr (hinsert host hl))
      fun _ _ hminds => hminds

end ImageCheck

/-! ## The law of launched hosts -/

section

variable {k : ItemKind} {id : ItemId} {raises : Fault → Prop}

theorem kept_advance (config : Config) (now : Instant) {w : World} {item : Item k}
    (hw : World.Shows id w item) (hs : item.state = k.initial) :
    ((config.lifecycle k).advance id now).Follows (apart k id raises) (fun _ _ => True)
      (KeptOrDropped k id) (fun _ j' => AllKept k id j') (.start w) := by
  have hstart : Unlaunched (.start w) := fun host ⟨_, he, _⟩ => by cases he
  rw [Lifecycle.advance_eq]
  refine .bind (Q := fun found j' => found = some item ∧ Minds id item item j' ∧
    Unlaunched j') ?_ ?_
  · refine follows_perform.mpr fun r v hb => ⟨trivial, ?_⟩
    have hnone : ∀ host, ¬Launched (Journal.enter (.start w) _ r v).log host :=
      fun host hl => hstart host (launched_enter rfl hl)
    obtain ⟨_, hshows, hp⟩ := hw.possible_untouched hb
    cases hp with
    | read hid =>
        refine ⟨rfl, ⟨hid, hshows, by simp [Journal.enter, Journal.start, Call.terminated], ?_⟩,
          hnone⟩
        exact fun host hl => absurd hl (hnone host)
    | readOther hj => exact absurd rfl hj
    | spared hc => simp [Call.spares] at hc
    | failed => exact fun host hl => absurd hl (hnone host)
  · rintro _ j₁ ⟨rfl, h₁, hj₁⟩ -
    cases k with
    | upgrade =>
        refine kept_work h₁ hj₁ (only_clusterIsPaused (fun _ hc => hc) _)
          (Replacement.only_timeOut _ _ _) fun j h hj => ?_
        have hstep : (config.lifecycle .upgrade).step item now =
            Replacement.init config.replacement item := by
          simp only [Config.lifecycle, Replacement.lifecycle, Replacement.step]
          rw [hs]
          rfl
        rw [hstep]
        exact Replacement.hands_init _ h
    | check =>
        refine kept_work h₁ hj₁ (only_clusterIsPaused (fun _ hc => hc) _)
          (ImageCheck.only_timeOut _ _ _) fun j h hj => ?_
        have hstep : (config.lifecycle .check).step item now =
            ImageCheck.init config.healthCheck item now := by
          simp only [Config.lifecycle, ImageCheck.lifecycle, ImageCheck.step]
          rw [hs]
          rfl
        rw [hstep]
        exact ImageCheck.hands_init _ _ h hj

end

/-- A new health check of an image, and its cluster. -/
def probing : World :=
  let cluster : Cluster := ⟨"web", "prod", .normal, none, 0, ⟨[], [], none⟩, .epoch⟩
  let check := HealthCheck.new "check" "web" "prod" .manuallyTriggered "image" .epoch
  { World.initial .epoch (.seeded 0) with
    store := some { Store.empty.putItem .check check with
      clusters := Table.empty.insert cluster.name cluster } }

theorem keyed_probing : probing.tables.Keyed :=
  (Store.keyed_empty.putItem .check _).insertCluster _

/-- A tick of the new check in which some calls fail. -/
def tickProbing (fails : List (Entry World) → Call → Option Fault) :
    Outcome (Progress HealthCheckState) × Journal World :=
  ((Config.lifecycle {} .check).advance "check" .epoch).run (failing fails) (.start probing)

theorem ends_tickProbing (fails : List (Entry World) → Call → Option Fault) :
    ((Config.lifecycle {} .check).advance "check" .epoch).Ends
      (apart .check "check" fun _ => True).recorded (.start probing) (tickProbing fails).1
      (tickProbing fails).2 :=
  ends_failing (I := fun w => w.tables.Keyed) (fun _ => World.untouched_refl)
    (fun c _ hk => World.keyed_answer hk c) (fun _ _ _ _ => trivial) _ keyed_probing

/-- No host can be inserted. -/
def uninsertable : List (Entry World) → Call → Option Fault
  | _, .store (.insertHost _) => some (.error (.database "connection lost"))
  | _, _ => none

/-- A host that an item in INIT launches is tracked by the stored item at the end of the tick,
whatever fails on the way, unless the tick ends in a fault of a call that was to record the host
and all calls between the launch and this one were to record it as well. Then nothing
terminates the host. -/
theorem launched_hosts_kept (raises : Fault → Prop) (config : Config) {k : ItemKind}
    {id : ItemId} {now : Instant} {w : World} {item : Item k}
    {r : Outcome (Progress k.State)} {j : Journal World} {host : HostId}
    (hw : World.Shows id w item) (hs : item.state = k.initial)
    (he : ((config.lifecycle k).advance id now).Ends (apart k id raises).recorded (.start w) r j)
    (hl : Launched j.log host) :
    Kept k id host j ∨ ((∃ f, r = .error f) ∧ Dropped k id host j) := by
  have hend : Wants (KeptOrDropped k id) (fun _ => AllKept k id) r j :=
    Keeps.ends (kept_advance config now hw hs) he
  cases r with
  | ok progress => exact .inl (hend host hl)
  | error f => exact (hend host hl).imp_right fun hd => ⟨⟨f, rfl⟩, hd⟩

/-- The law of launched hosts for a tick of the new check in which no call fails. -/
theorem launched_hosts_kept_probing :
    Launched (tickProbing fun _ _ => none).2.log "i-mock-0001" ∧
      Kept .check "check" "i-mock-0001" (tickProbing fun _ _ => none).2 := by
  have hshows : World.Shows (k := .check) "check" probing
      (HealthCheck.new "check" "web" "prod" .manuallyTriggered "image" .epoch) := by
    rintro s hs
    cases hs
    exact ⟨keyed_probing.items .check, rfl⟩
  have hmem : "i-mock-0001" ∈ (tickProbing fun _ _ => none).2.log.flatMap Entry.launched := by
    decide +kernel
  have hok : (tickProbing fun _ _ => none).1.isOk = true := by decide +kernel
  have hlaunched := List.mem_flatMap.mp hmem
  refine ⟨hlaunched, ?_⟩
  rcases launched_hosts_kept _ {} hshows rfl (ends_tickProbing _) hlaunched with
    hkept | ⟨⟨f, hf⟩, -⟩
  · exact hkept
  · rw [hf] at hok
    cases hok

/-- If the probe host cannot be inserted, it runs and neither the check nor anyone else knows
of it. -/
theorem launched_probe_lost :
    let j := (tickProbing uninsertable).2
    (∃ r raises, ((Config.lifecycle {} .check).advance "check" .epoch).Ends
      (apart .check "check" raises).recorded (.start probing) r j) ∧
    "i-mock-0001" ∈ j.log.flatMap Entry.launched ∧
    "i-mock-0001" ∉ j.log.flatMap (·.call.terminated) ∧
    j.state.provider.isRunning "i-mock-0001" = true ∧
    j.state.tables.hosts.get? "i-mock-0001" = none ∧
    (j.state.tables.getItem .check "check").map Item.trackedHosts = some [] := by
  intro j
  refine ⟨⟨_, _, ends_tickProbing uninsertable⟩, ?_, ?_, ?_, ?_, ?_⟩
  all_goals decide +kernel

end FleetControl
