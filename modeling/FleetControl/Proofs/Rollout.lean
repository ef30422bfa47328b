import FleetControl.Proofs.Session

/-!
# The course of a replacement

An upgrade event moves along the edges of its states and of its timeouts only, whatever
fails on the way and however often it is advanced. Its status fits its state, a timeout is
never taken back, and a completed event is never written again.
-/
namespace FleetControl.Replacement

open Program

/-- The edges along which the state and the status of an event move: those of its steps, and
those of its timeouts. -/
inductive Edge : UpgradeState → Option ItemStatus → UpgradeState → Option ItemStatus → Prop where
  | launched (status : Option ItemStatus) : Edge .init status .launching (some .succeeded)
  | lost (status : Option ItemStatus) : Edge .launching status .init (some .succeeded)
  | ready (status : Option ItemStatus) : Edge .launching status .replacing (some .succeeded)
  | drained (status : Option ItemStatus) : Edge .replacing status .completing (some .succeeded)
  /-- The status is kept. -/
  | finished (status : Option ItemStatus) : Edge .completing status .completed status
  | expired {s : UpgradeState} (status : Option ItemStatus) (hs : s ≠ .completed) :
      Edge s status (timeoutTarget s) (some .timeout)

/-- The statuses that events have in a state. -/
def Fits : UpgradeState → Option ItemStatus → Prop
  | .init, status => status = none ∨ status = some .succeeded
  | .launching, status | .replacing, status => status = some .succeeded
  | .completing, status | .completed, status =>
      status = some .succeeded ∨ status = some .timeout

theorem Edge.fits {s t : UpgradeState} {a b : Option ItemStatus} (h : Edge s a t b)
    (hf : Fits s a) : Fits t b := by
  cases h with
  | launched | ready => exact Eq.refl (some ItemStatus.succeeded)
  | lost => exact .inr rfl
  | drained => exact .inl rfl
  | finished => exact hf
  | expired => cases s <;> exact .inr rfl

/-- No edge takes a timeout back. -/
theorem Edge.timeout {s t : UpgradeState} {a b : Option ItemStatus} (h : Edge s a t b)
    (hf : Fits s a) (ha : a = some .timeout) : b = some .timeout := by
  subst ha
  cases h with
  | launched | lost | ready | drained => simp [Fits] at hf
  | finished | expired => rfl

/-- The status of a stored event fits its state. -/
def Sound (e : UpgradeEvent) : Prop := Fits e.state e.header.status

/-- What may be stored after an event: the same event in its identity, moved along an edge or
not at all. -/
structure Follows (e e' : UpgradeEvent) : Prop where
  id : e'.id = e.id
  cluster : e'.cluster = e.cluster
  envId : e'.envId = e.envId
  createdAt : e'.header.createdAt = e.header.createdAt
  moves : (e'.state = e.state ∧ e'.header.status = e.header.status) ∨
    Edge e.state e.header.status e'.state e'.header.status
  frozen : e.state = UpgradeState.completed → e' = e

/-- The versions of an event that are stored while its state is at work. -/
def Drafts (e e' : UpgradeEvent) : Prop :=
  e' = e ∨ (e.state ≠ UpgradeState.completed ∧ Retracks e e')

theorem Follows.refl (e : UpgradeEvent) : Follows e e :=
  ⟨rfl, rfl, rfl, rfl, .inl ⟨rfl, rfl⟩, fun _ => rfl⟩

theorem Drafts.of_retracks {e e' : UpgradeEvent} (hs : e.state ≠ UpgradeState.completed)
    (h : Retracks e e') : Drafts e e' := .inr ⟨hs, h⟩

/-- Drafts differ from an event in the tracked hosts only. -/
theorem Drafts.retracks {e e' : UpgradeEvent} (h : Drafts e e') : Retracks e e' := by
  rcases h with rfl | ⟨-, h⟩
  · exact .refl _
  · exact h

/-- One draft may follow another. -/
theorem Drafts.follows {e y z : UpgradeEvent} (hy : Drafts e y) (hz : Drafts e z) :
    Follows y z := by
  obtain ⟨a, rfl⟩ := hy.retracks
  obtain ⟨b, rfl⟩ := hz.retracks
  refine ⟨rfl, rfl, rfl, rfl, .inl ⟨rfl, rfl⟩, fun hs => ?_⟩
  have hfrozen : ∀ {x : UpgradeEvent}, Drafts e x → x = e :=
    fun h => h.resolve_right fun h => h.1 hs
  exact (hfrozen hz).trans (hfrozen hy).symm

theorem Decides.moves {e : UpgradeEvent} (now : Instant) {d : Decision UpgradeState}
    (h : Decides e.state d) :
    ((e.afterStep now d).state = e.state ∧ (e.afterStep now d).header.status = e.header.status) ∨
      Edge e.state e.header.status (e.afterStep now d).state (e.afterStep now d).header.status := by
  obtain ⟨header, cluster, envId, state, details⟩ := e
  simp only at h
  cases h with
  | wait => exact .inl ⟨rfl, rfl⟩
  | launched => exact .inr (.launched _)
  | lost => exact .inr (.lost _)
  | ready => exact .inr (.ready _)
  | drained => exact .inr (.drained _)
  | finished => exact .inr (.finished _)

/-- What a step gives back is stored soundly after any draft. -/
theorem Steps.settles {e : UpgradeEvent} (now : Instant)
    {result : UpgradeEvent × Decision UpgradeState} (h : Steps e e.state result)
    (hc : e.state ≠ UpgradeState.completed) :
    Lifecycle.Settles Sound Drafts Follows e now result := by
  obtain ⟨changed, d⟩ := result
  obtain ⟨⟨ids, rfl⟩, hd⟩ := h
  have hmoves := Decides.moves (e := e.withHostIds ids) now hd
  refine ⟨rfl, fun hs z hz => ⟨?_, ?_⟩⟩
  · rcases hmoves with ⟨hstate, hstatus⟩ | hedge
    · rw [Sound, hstate, hstatus]
      exact hs
    · exact hedge.fits hs
  · obtain ⟨old, rfl⟩ := hz.retracks
    have hid := Item.id_afterStep (e.withHostIds ids) now d
    cases d with
    | stay => exact ⟨hid, rfl, rfl, rfl, hmoves, fun hs => absurd hs hc⟩
    | move target status error => exact ⟨hid, rfl, rfl, rfl, hmoves, fun hs => absurd hs hc⟩

theorem stores_of_acts {D : UpgradeEvent → Prop} {c : Call} (h : acts c = true) :
    c.Stores D := by
  rintro y rfl
  cases h

theorem stores_of_actsOrStores {e : UpgradeEvent} {c : Call}
    (he : e.state ≠ UpgradeState.completed) (h : actsOrStores e c) : c.Stores (Drafts e) := by
  rintro y rfl
  rcases h with h | ⟨changed, hc, hr⟩
  · cases h
  · cases hc
    exact .of_retracks he hr

/-- Every part of the life cycle keeps to the course of a replacement. -/
theorem course (config : ReplacementSettings) :
    (lifecycle config).Course Sound Drafts Follows where
  refl := Follows.refl
  draft_refl _ := .inl rfl
  draft_id e y hy := by
    obtain ⟨ids, rfl⟩ := hy.retracks
    rfl
  draft e y z hs hy hz := by
    refine ⟨?_, hy.follows hz⟩
    obtain ⟨ids, rfl⟩ := hz.retracks
    exact hs
  touch e now he hs := ⟨hs, rfl, rfl, rfl, rfl, .inl ⟨rfl, rfl⟩, fun hc => absurd hc he⟩
  expire e now he hs := by
    have hedge := Edge.expired e.header.status he
    exact ⟨hedge.fits hs, rfl, rfl, rfl, rfl, .inr hedge, fun hc => absurd hc he⟩
  timeout := failsOnly_ofSetting (fun _ h => h) _
  isPaused E hE e := within_clusterIsPaused rfl (hE _ rfl)
  onTimeout E hE e source :=
    Meets.mono (within_onTimeout hE e source) (fun _ => stores_of_acts) fun _ h => h
  step E hE e now he _ :=
    Meets.mono (meets_step hE config e fun hc => absurd hc he)
      (fun _ => stores_of_actsOrStores he) fun _ h => h.settles now he

theorem sound_new (id : ItemId) (cluster : String) (env : EnvId) (now : Instant) :
    Sound (UpgradeEvent.new id cluster env now) := Or.inl rfl

/-! ## Over whole runs -/

theorem Follows.timeout {e e' : UpgradeEvent} (h : Follows e e') (hs : Sound e)
    (ht : e.header.status = some .timeout) : e'.header.status = some .timeout := by
  rcases h.moves with ⟨-, hstatus⟩ | hedge
  · exact hstatus.trans ht
  · exact hedge.timeout hs ht

/-- What holds of all versions that follow a sound one. -/
theorem follows_run {e e' : UpgradeEvent} (hs : Sound e)
    (h : Relation.ReflTransGen (fun y z => Sound z ∧ Follows y z) e e') :
    Sound e' ∧ (e'.id = e.id ∧ e'.cluster = e.cluster ∧ e'.envId = e.envId ∧
      e'.header.createdAt = e.header.createdAt) ∧
      (e.header.status = some .timeout → e'.header.status = some .timeout) ∧
      (e.state = UpgradeState.completed → e' = e) := by
  induction h with
  | refl => exact ⟨hs, ⟨rfl, rfl, rfl, rfl⟩, fun ht => ht, fun _ => rfl⟩
  | tail _ hstep ih =>
      obtain ⟨hsound, ⟨hid, hcluster, henv, hcreated⟩, htimeout, hfrozen⟩ := ih
      obtain ⟨hsound', hf⟩ := hstep
      refine ⟨hsound', ⟨hf.id.trans hid, hf.cluster.trans hcluster, hf.envId.trans henv,
        hf.createdAt.trans hcreated⟩, fun ht => hf.timeout hsound (htimeout ht), fun hc => ?_⟩
      have he := hfrozen hc
      subst he
      exact hf.frozen hc

/-- Every run of sessions that begins with a new event, whatever others do to the rest of the
world and whichever calls fail: the event stays stored under its id, with its identity and a
status that fits its state; between two moments it moves along one edge or not at all; a
timeout stays a timeout and a completed event stays as it is; and advancing it finds no
invariant broken, except where a call itself said so. -/
theorem run_keeps_course (config : ReplacementSettings) (raises : Fault → Prop)
    {id : ItemId} {cluster : String} {env : EnvId} {created : Instant} {s t : Session .upgrade}
    (hs : s.Begins (UpgradeEvent.new id cluster env created))
    (ht : Session.Run (lifecycle config) id (World.Untouched .upgrade id)
      (World.Possible Eq raises) s t) :
    (∀ store, t.world.store = some store → ∃ e, store.getItem .upgrade id = some e ∧
      e.id = id ∧ e.cluster = cluster ∧ e.envId = env ∧ e.header.createdAt = created ∧
      Fits e.state e.header.status) ∧
    (∀ u e e', Session.Step (lifecycle config) id (World.Untouched .upgrade id)
        (World.Possible Eq raises) t u → t.stored id = some e → u.stored id = some e' →
      (e'.state = e.state ∧ e'.header.status = e.header.status) ∨
        Edge e.state e.header.status e'.state e'.header.status) ∧
    (∀ u e e', Session.Run (lifecycle config) id (World.Untouched .upgrade id)
        (World.Possible Eq raises) t u → t.stored id = some e → u.stored id = some e' →
      (e.header.status = some .timeout → e'.header.status = some .timeout) ∧
        (e.state = UpgradeState.completed → e' = e)) ∧
    (∀ r f, t.Ended id r → r = .error f → f.isBreach = true → raises f) := by
  have hsafe : ((course config).view id raises).Safe s _ :=
    Lifecycle.Course.safe_of_begins hs rfl (sound_new _ _ _ _)
  obtain ⟨e₀, hsafe, hrun⟩ := hsafe.run ht
  obtain ⟨hsound, ⟨hid, hcluster, henv, hcreated⟩, -⟩ := follows_run (sound_new _ _ _ _) hrun
  refine ⟨fun store hstore => ?_, fun u e e' hu he he' => ?_, fun u e e' hu he he' => ?_, ?_⟩
  · have hshows : t.world.Shows id e₀ := hsafe.1
    exact ⟨e₀, (hshows store hstore).2, hid, hcluster, henv, hcreated, hsound⟩
  · obtain rfl := Lifecycle.Course.eq_of_stored hsafe he
    obtain ⟨e₁, hu, rfl | ⟨-, hf⟩⟩ := hsafe.step hu
    · obtain rfl := Lifecycle.Course.eq_of_stored hu he'
      exact .inl ⟨rfl, rfl⟩
    · obtain rfl := Lifecycle.Course.eq_of_stored hu he'
      exact hf.moves
  · obtain rfl := Lifecycle.Course.eq_of_stored hsafe he
    exact (follows_run hsound (Lifecycle.Course.stored_run hsafe hu he')).2.2
  · rintro r f hr rfl
    exact hsafe.failsOnly hr

/-- A new event that is advanced for the first time after more than half an hour: it has timed
out and stays so. -/
theorem run_keeps_course_timedOut : ∃ s t : Session .upgrade,
    s.Begins (UpgradeEvent.new "event" "web" "prod" .epoch) ∧
    Session.Run (lifecycle {}) "event" (World.Untouched .upgrade "event")
      (World.Possible Eq fun _ => False) s t ∧
    ∃ e, t.stored "event" = some e ∧ e.state = UpgradeState.completing ∧
      ∀ u e', Session.Run (lifecycle {}) "event" (World.Untouched .upgrade "event")
        (World.Possible Eq fun _ => False) t u → u.stored "event" = some e' →
        e'.header.status = some .timeout := by
  let event := UpgradeEvent.new "event" "web" "prod" .epoch
  let s := Session.start ⟨"web", "prod", .normal, none, 0, ⟨[], [], none⟩, .epoch⟩ event
  have hs : s.Begins event := Session.begins_start _ _
  have hadvance : ∃ t, Session.Run (lifecycle {}) "event" (World.Untouched .upgrade "event")
      (World.Possible Eq fun _ => False) s t ∧ _ :=
    Session.exists_run_advance (fun c w a _ => ⟨w, rfl, .inl rfl⟩) rfl "event"
      (.ofParts 3600 0) (by decide +kernel)
  obtain ⟨t, hrun, -, hworld, -⟩ := hadvance
  have hstored : (t.stored "event").map (fun e => (e.state, e.header.status)) =
      some (UpgradeState.completing, some .timeout) := by
    rw [Session.stored, hworld]
    decide +kernel
  obtain ⟨e, he, hmap⟩ := Option.map_eq_some_iff.mp hstored
  refine ⟨s, t, hs, hrun, e, he, congrArg Prod.fst hmap, fun u e' hu he' => ?_⟩
  have hlaw := (run_keeps_course {} (fun _ => False) hs hrun).2.2.1 u e e' hu he he'
  exact hlaw.1 (congrArg Prod.snd hmap)

end FleetControl.Replacement
