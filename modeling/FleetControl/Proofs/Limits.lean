import FleetControl.Proofs.Calendar
import FleetControl.Proofs.Overdue

/-!
# Numbers and their limits

Timeouts, launch graces and the failures before on-call is paged are set as numbers of 64 bits and
used as numbers of a smaller range. As long as they fit, no step crashes, whatever it reads; and
each of them that does not fit makes some step crash. All other arithmetic stays in its range,
that on dates included.
-/
namespace FleetControl

open Program

/-- Whether a fault neither is a crash nor reports one, but for the crash of a provider without
room for the hosts of a launch. -/
def Fault.IsClean (f : Fault) : Prop :=
  ∀ payload, f.contained = (crash payload).contained → payload = some "capacity overflow"

namespace Fault

theorem isClean_of_ne {e : ControlError}
    (h : ∀ detail, e ≠ .internal ("panicked: " ++ detail)) : (error e).IsClean :=
  fun _ he => absurd he (h _)

theorem isClean_notFound (kind id : String) : (error (.notFound kind id)).IsClean :=
  isClean_of_ne fun _ h => by cases h

theorem not_isClean_crash {text : String} (h : text ≠ "capacity overflow") :
    ¬ (crash (some text)).IsClean := by
  intro hc
  exact h (Option.some.inj (hc _ rfl))

theorem isClean_overflow : (crash (some "capacity overflow")).IsClean := by
  intro payload h
  have htext : "capacity overflow" = payload.getD "unknown panic payload" :=
    (String.append_right_inj "panicked: ").mp (ControlError.internal.inj h)
  cases payload with
  | none => exact absurd htext (by decide)
  | some text => exact congrArg some htext.symm

end Fault

/-! ## Programs that crash only if a call does -/

namespace Program

variable {α : Type} {p : Program α}

/-- Whatever it is answered, a program without crashes of its own. -/
abbrev Calm (p : Program α) : Prop := p.Within (fun _ => True) Fault.IsClean

theorem calm_perform (c : Call) : (perform c).Calm := within_perform.mpr trivial

theorem Meets.calm {P : Call → Prop} {Q : α → Prop} (h : p.Meets P Fault.IsClean Q) : p.Calm :=
  Meets.mono h (fun _ _ => trivial) fun _ _ => trivial

end Program

namespace Replacement

theorem calm_launchMissing (config : ReplacementSettings) (env : Environment)
    (limit needed : Nat) (launchedAny : Bool) (event : UpgradeEvent) :
    (launchMissing config env limit needed launchedAny event).Calm := by
  induction limit generalizing needed launchedAny event with
  | zero => trivial
  | succ limit ih =>
      rw [launchMissing]
      split
      · trivial
      · refine .seq (calm_perform _) fun launched => ?_
        split
        · refine .seq (calm_perform _) fun _ => ?_
          split
          · trivial
          · exact Fault.isClean_of_ne fun _ h => by cases h
        · exact .seq (calm_perform _) fun _ => ih _ _ _

theorem calm_step (config : ReplacementSettings) (event : UpgradeEvent) :
    (step config event).Calm := by
  rw [step]
  split
  · exact .seq (within_requireEnvironment trivial (Fault.isClean_notFound _ _)) fun _ =>
      calm_launchMissing _ _ _ _ _ _
  · exact (meets_launching event).calm
  · exact (meets_replacing event).calm
  · exact (meets_completing event).calm
  · exact Fault.isClean_of_ne fun _ h => by cases h

theorem calm_onTimeout (event : UpgradeEvent) (source : UpgradeState) :
    (onTimeout event source).Calm :=
  .seq (calm_perform _) fun _ =>
    .seq (within_requireEnvironment trivial (Fault.isClean_notFound _ _)) fun _ => calm_perform _

end Replacement

namespace ImageCheck

section

variable {config : ImageCheckSettings} {limit : Nat}
  (hlook : lookback (config.failuresBeforePage - 1) = .ok limit)

include hlook

theorem calm_alert (check : HealthCheck) (subject message : String) :
    (alert config check subject message).Calm :=
  within_alert_of (fun _ _ => trivial) Fault.isClean_notFound (hlook ▸ trivial)

theorem calm_fail (check : HealthCheck) (subject message : String) :
    (fail config check subject message).Calm :=
  .seq (calm_alert hlook _ _ _) fun _ => trivial

theorem calm_init (check : HealthCheck) (now : Instant) : (init config check now).Calm := by
  refine .seq (calm_perform _) fun launched => ?_
  split
  · exact calm_fail hlook _ _ _
  · exact .seq (calm_perform _) fun _ => trivial

omit hlook in
theorem calm_probe (check : HealthCheck) : (probe check).Calm :=
  within_orFail fun _ => Fault.isClean_of_ne fun _ h => by cases h

theorem calm_pendingVerify (check : HealthCheck) : (pendingVerify config check).Calm := by
  refine .seq (calm_probe _) fun id => .seq (calm_perform _) fun agents => ?_
  split
  · trivial
  · dsimp only
    split
    · exact calm_fail hlook _ _ _
    · trivial

omit hlook in
theorem calm_completing (check : HealthCheck) : (completing check).Calm := by
  have hbusy : (imageIsBusy check).Calm := within_imageIsBusy (fun _ _ => trivial)
    (fun _ _ => trivial) (fun _ _ => trivial) Fault.isClean_notFound fun _ hf => hf
  exact (meets_completing_of .epoch hbusy fun _ _ => ⟨trivial, trivial⟩).calm

theorem calm_onTimeout (check : HealthCheck) : (onTimeout config check).Calm :=
  within_onTimeout_of (meets_cleanUp (fun _ => trivial) fun _ _ _ => ⟨trivial, trivial⟩)
    fun _ _ => calm_alert hlook _ _ _

end

end ImageCheck

theorem Promotion.calm_promote (config : PromotionSettings) (id : EnvId) (now : Instant) :
    (promote config id now).Calm :=
  within_promote (fun _ _ => trivial) (fun _ _ => trivial) (fun _ hf => hf) (fun _ => trivial)
    (fun _ => trivial) Fault.isClean_notFound config id now

/-! ## Worlds that keep the limits -/

/-- No call changes how long the hosts of a cluster may take to check in. -/
theorem Store.launchGrace_effect {s s' : Store} {clock : Outcome Instant} {c : StoreCall}
    (he : s.Effect clock c s') (name : String) :
    (s'.clusters.get? name).map Cluster.launchGraceSecs =
      (s.clusters.get? name).map Cluster.launchGraceSecs := by
  obtain h | ⟨state, now, -, h⟩ | ⟨image, now, -, h⟩ := he.cluster_cases name
  · rw [h]
  · rw [h, Option.map_map]
    rfl
  · rw [h, Option.map_map]
    rfl

theorem Provider.isClean_of_answer {p : Provider} {c : ProviderCall} :
    FailsOnly Fault.IsClean (p.answer c).1 := by
  cases c with
  | launchHosts cluster count image =>
      simp only [answer, launchHosts]
      split
      · exact Fault.isClean_overflow
      · trivial
  | terminateHosts cluster ids drain =>
      simp only [answer]
      cases hr : (p.terminateHosts cluster ids drain).1 with
      | ok => trivial
      | error e =>
          obtain ⟨id, host, rfl⟩ := exists_refusal_of_terminateHosts hr
          exact Fault.isClean_of_ne fun _ h => by cases h
  | _ => trivial

/-- Whether the clock of a world can be read, and no cluster lets its hosts take longer than so
many seconds to check in. -/
structure World.Moderate (grace : Nat) (w : World) : Prop where
  clock : ∃ now, w.now = .ok now
  graces : ∀ name cluster, w.tables.clusters.get? name = some cluster →
    cluster.launchGraceSecs ≤ grace

namespace World

variable {grace : Nat} {w w' v : World} {c : Call} {r : Outcome c.Reply}
  {outside : World → World → Prop} {raises : Fault → Prop}

theorem Moderate.answer (h : w.Moderate grace) (c : Call) :
    (answer c w).2.Moderate grace ∧ FailsOnly Fault.IsClean (answer c w).1 := by
  obtain ⟨now, hnow⟩ := h.clock
  have hown : ∀ {v : World}, v.clock = w.clock → v.store = w.store → v.Moderate grace :=
    fun hc hs => ⟨⟨now, by rw [World.now, hc]; exact hnow⟩,
      by rw [tables, hs]; exact h.graces⟩
  cases c with
  | now =>
      refine ⟨h, ?_⟩
      rw [World.answer, hnow]
      trivial
  | store q =>
      cases hs : w.store with
      | none =>
          simp only [World.answer, useStore, hs]
          refine ⟨h, Fault.isClean_of_ne fun detail he => ?_⟩
          have hfirst := congrArg (fun s : String => s.toList.head?) (ControlError.internal.inj he)
          simp at hfirst
      | some s =>
          rw [answer_store hs hnow]
          refine ⟨⟨⟨now, hnow⟩, fun name cluster hget => ?_⟩,
            s.failsOnly_of_answer (fun e => Fault.isClean_of_ne) now q⟩
          have hgrace := Store.launchGrace_effect (s.effect_of_answer (.ok now) q) name
          rw [show (s.answer (.ok now) q).2.clusters.get? name = some cluster from hget,
            Option.map_some, eq_comm, Option.map_eq_some_iff] at hgrace
          obtain ⟨old, hold, hsecs⟩ := hgrace
          rw [← hsecs]
          exact h.graces name old (by rw [tables_eq hs]; exact hold)
  | provider q => exact ⟨hown rfl rfl, Provider.isClean_of_answer⟩
  | release name token =>
      simp only [World.answer, release]
      split
      · exact ⟨hown rfl rfl, trivial⟩
      · exact ⟨h, Fault.isClean_of_ne fun _ h => by cases h⟩
  | post n =>
      simp only [World.answer, post]
      split
      · exact ⟨hown rfl rfl, trivial⟩
      · exact ⟨h, trivial⟩
  | acquire | shuffle | note => exact ⟨hown rfl rfl, trivial⟩

/-- While others keep the limits and cause no crashes, a call keeps them and does not crash. -/
theorem Moderate.possible (ho : ∀ u v, outside u v → u.Moderate grace → v.Moderate grace)
    (hr : ∀ f, raises f → f.IsClean) (h : w.Moderate grace)
    (hb : Possible outside raises c w r w') : w'.Moderate grace ∧ FailsOnly Fault.IsClean r := by
  obtain ⟨v, hv, hb | ⟨f, hf, rfl, rfl | rfl⟩⟩ := hb
  · have := (ho w v hv h).answer c
    rwa [hb] at this
  · exact ⟨ho _ _ hv h, hr f hf⟩
  · exact ⟨((ho w v hv h).answer c).1, hr f hf⟩

/-- What is read of a cluster keeps the limit. -/
theorem Moderate.found {name : String} {cluster : Cluster}
    (ho : ∀ u v, outside u v → u.Moderate grace → v.Moderate grace) (h : w.Moderate grace)
    (hb : Possible outside raises (.store (.getCluster name)) w (.ok (some cluster)) w') :
    cluster.launchGraceSecs ≤ grace := by
  obtain ⟨v, hv, hb | ⟨f, -, hf, -⟩⟩ := hb
  · have hmod := ho w v hv h
    obtain ⟨now, hnow⟩ := hmod.clock
    cases hs : v.store with
    | none =>
        simp only [World.answer, useStore, hs] at hb
        cases hb
    | some s =>
        rw [answer_store hs hnow] at hb
        refine hmod.graces name cluster ?_
        rw [tables_eq hs]
        exact Except.ok.inj (congrArg Prod.fst hb)
  · cases hf

end World

section

variable {α β : Type} {grace : Nat} {outside : World → World → Prop} {raises : Fault → Prop}

/-- Whatever happens from a world on, the limits are kept and a program does not crash. -/
abbrev Program.Steady (grace : Nat) (outside : World → World → Prop) (raises : Fault → Prop)
    (p : Program α) (w : World) : Prop :=
  p.Keeps (World.Possible outside raises) (fun _ _ => True)
    (fun r v => v.Moderate grace ∧ FailsOnly Fault.IsClean r) w

theorem Program.Steady.bind {p : Program α} {f : α → Program β} {w : World}
    (hp : p.Steady grace outside raises w)
    (hf : ∀ a v, v.Moderate grace → (f a).Steady grace outside raises v) :
    (p.bind f).Steady grace outside raises w := by
  refine keeps_bind.mpr (hp.imp ?_)
  rintro (f | a) v ⟨hv, hr⟩
  · exact ⟨hv, hr⟩
  · exact hf a v hv

variable (ho : ∀ u v, outside u v → u.Moderate grace → v.Moderate grace)
  (hr : ∀ f, raises f → f.IsClean) {w : World}

include ho hr

theorem Program.Calm.steady {p : Program α} (h : p.Calm) (hw : w.Moderate grace) :
    p.Steady grace outside raises w := by
  refine (Meets.keeps (J := World.Moderate grace) h (fun c u r v _ hu hb => ?_) hw).imp
    fun r v hv => ⟨hv.1, hv.2.2⟩
  exact ⟨trivial, hu.possible ho hr hb⟩

/-- What is read of a cluster keeps the limit. -/
theorem steady_requireCluster (name : String) {f : Cluster → Program α}
    (hf : ∀ cluster v, cluster.launchGraceSecs ≤ grace → v.Moderate grace →
      (f cluster).Steady grace outside raises v) (hw : w.Moderate grace) :
    ((requireCluster name).bind f).Steady grace outside raises w := by
  refine keeps_bind.mpr (keeps_bind.mpr (keeps_ask.mpr fun r v hb => ⟨trivial, ?_⟩))
  obtain ⟨hv, hclean⟩ := hw.possible ho hr hb
  rcases r with f | _ | cluster
  · exact ⟨hv, hclean⟩
  · exact ⟨hv, Fault.isClean_notFound _ _⟩
  · exact hf cluster v (hw.found ho hb) hv

namespace ImageCheck

/-- A launch grace that is a span is no obstacle to waiting for the probe host. -/
theorem steady_launching {config : ImageCheckSettings} {limit : Nat}
    (hlook : lookback (config.failuresBeforePage - 1) = .ok limit)
    (hgrace : (grace : Int) ≤ Span.maxSeconds) (check : HealthCheck) (now : Instant)
    (hw : w.Moderate grace) :
    (launching config check now).Steady grace outside raises w := by
  refine .bind (calm_probe check |>.steady ho hr hw) fun id v hv => ?_
  refine .bind (calm_perform _ |>.steady ho hr hv) fun terminated v hv => ?_
  split
  · exact (calm_fail hlook _ _ _).steady ho hr hv
  · refine .bind (calm_perform _ |>.steady ho hr hv) fun host v hv => ?_
    split
    · exact ⟨hv, trivial⟩
    · exact (calm_fail hlook _ _ _).steady ho hr hv
    · exact (calm_fail hlook _ _ _).steady ho hr hv
    all_goals
      refine steady_requireCluster ho hr _ (fun cluster v hle hv => ?_) hv
      have hspan : (cluster.launchGraceSecs : Int) ≤ Span.maxSeconds := by omega
      refine Calm.steady ho hr (.seq (within_ofOutcome ?_) fun limit => ?_) hv
      · rw [Span.ofSetting_of_le hspan]
        trivial
      · dsimp only
        split
        · exact calm_fail hlook _ _ _
        · trivial

theorem steady_step {config : ImageCheckSettings} {limit : Nat}
    (hlook : lookback (config.failuresBeforePage - 1) = .ok limit)
    (hgrace : (grace : Int) ≤ Span.maxSeconds) (check : HealthCheck) (now : Instant)
    (hw : w.Moderate grace) : (step config check now).Steady grace outside raises w := by
  rw [step]
  split
  · exact (calm_init hlook _ _).steady ho hr hw
  · exact steady_launching ho hr hlook hgrace _ _ hw
  · exact (calm_pendingVerify hlook _).steady ho hr hw
  · exact (calm_completing _).steady ho hr hw
  · exact ⟨hw, Fault.isClean_of_ne fun _ h => by cases h⟩

end ImageCheck

/-- Advancing an item crashes no more than the parts of its life cycle. -/
theorem Lifecycle.steady_advance {k : ItemKind} {l : Lifecycle k}
    (htimeout : FailsOnly Fault.IsClean l.timeout) (hpaused : ∀ item, (l.isPaused item).Calm)
    (honTimeout : ∀ item source, (l.onTimeout item source).Calm)
    (hstep : ∀ item now v, v.Moderate grace → (l.step item now).Steady grace outside raises v)
    (id : ItemId) (now : Instant) (hw : w.Moderate grace) :
    (l.advance id now).Steady grace outside raises w := by
  rw [advance_eq]
  refine .bind ((calm_perform _).steady ho hr hw) fun found v hv => ?_
  cases found with
  | none => exact ⟨hv, Fault.isClean_of_ne fun _ h => by cases h⟩
  | some item =>
      dsimp only
      rw [work]
      split
      · exact ⟨hv, trivial⟩
      · refine .bind ((hpaused item).steady ho hr hv) fun paused v hv => ?_
        split
        · exact Calm.steady ho hr (Within.seq (calm_perform _) fun _ => trivial) hv
        · refine .bind (Calm.steady ho hr (within_ofOutcome htimeout) hv) fun limit v hv => ?_
          split
          · refine Calm.steady ho hr (Within.seq (calm_perform _) fun _ => ?_) hv
            exact .seq (Meets.attempt (honTimeout _ _)).calm fun _ => trivial
          · refine .bind (hstep item now v hv) fun result v hv => ?_
            refine Calm.steady ho hr (Within.seq (calm_perform _) fun _ => ?_) hv
            split <;> trivial

end

/-- Whether no run of a program crashes in worlds in which hosts get at most so many seconds to
check in, as long as no call causes a crash. -/
def Program.Crashless {α : Type} (grace : Nat) (p : Program α) : Prop :=
  ∀ outside raises, (∀ u v, outside u v → u.Moderate grace → v.Moderate grace) →
    (∀ f, raises f → f.IsClean) → ∀ w r w', w.Moderate grace →
      p.Ends (World.Possible outside raises) w r w' → FailsOnly Fault.IsClean r

theorem Program.Calm.crashless {α : Type} {p : Program α} (h : p.Calm) (grace : Nat) :
    p.Crashless grace :=
  fun _ _ ho hr _ _ _ hw he => ((h.steady ho hr hw).ends he).2

theorem crashless_advance {config : Config} {grace : Nat} (k : ItemKind)
    (htimeout : (config.timeoutSecs k : Int) ≤ Span.maxSeconds)
    (hpage : config.healthCheck.failuresBeforePage ≤ 0x8000000000000000)
    (hgrace : (grace : Int) ≤ Span.maxSeconds) (id : ItemId) (now : Instant) :
    ((config.lifecycle k).advance id now).Crashless grace := by
  intro outside raises ho hr w r w' hw he
  have hspan : FailsOnly Fault.IsClean (Span.ofSetting (config.timeoutSecs k)) := by
    rw [Span.ofSetting_of_le htimeout]
    trivial
  obtain ⟨limit, hlook⟩ := ImageCheck.lookback_eq_ok_iff.mpr hpage
  refine (Keeps.ends (Lifecycle.steady_advance ho hr ?_ ?_ ?_ ?_ id now hw) he).2
  · cases k <;> exact hspan
  · cases k <;> exact fun item => within_clusterIsPaused trivial (Fault.isClean_notFound _ _)
  · cases k with
    | upgrade => exact Replacement.calm_onTimeout
    | check => exact fun check _ => ImageCheck.calm_onTimeout hlook check
  · cases k with
    | upgrade => exact fun event _ _ hv => (Replacement.calm_step _ event).steady ho hr hv
    | check =>
        exact fun check now _ hv => ImageCheck.steady_step ho hr hlook hgrace check now hv

/-! ## Numbers beyond their limits -/

/-- An open item of a cluster in operation, as a world has it stored. -/
structure World.Offers {k : ItemKind} (id : ItemId) (item : Item k) (record : Cluster) (w : World) :
    Prop where
  stored : ∃ s, w.store = some s ∧ s.getItem k id = some item ∧
    s.clusters.get? item.cluster = some record
  isOpen : item.isTerminal = false
  inOperation : record.state = .normal

section

variable {k : ItemKind} {id : ItemId} {item : Item k} {record : Cluster} {w : World}

theorem World.Offers.getCluster (h : w.Offers id item record) :
    World.answer (.store (.getCluster item.cluster)) w = (.ok (some record), w) := by
  obtain ⟨s, hs, -, hrecord⟩ := h.stored
  exact World.answer_ask hs (by rw [Store.answer, hrecord])

/-- Such an item is worked on. -/
theorem run_advance_of_offers {l : Lifecycle k}
    (hpaused : l.isPaused item = clusterIsPaused item.cluster) (h : w.Offers id item record)
    (now : Instant) :
    (l.advance id now).run World.answer w = ((ofOutcome l.timeout).bind fun limit =>
      if limit < now.since (l.timeoutBasis item) then l.timeOut item now
      else l.takeStep item now).run World.answer w := by
  obtain ⟨s, hs, hget, -⟩ := h.stored
  have hitem : World.answer (.store (.getItem k id)) w = (.ok (some item), w) :=
    World.answer_ask hs (by rw [Store.answer, hget])
  rw [Lifecycle.advance_eq]
  simp [run, ask, perform, Program.bind, orFail, Lifecycle.work, h.isOpen, hitem, hpaused,
    clusterIsPaused, requireCluster, h.getCluster, h.inOperation]

/-- A timeout that is no span makes every advancement of such an item crash. -/
theorem run_advance_of_timeout {config : Config} (h : w.Offers id item record)
    (hlong : Span.maxSeconds < config.timeoutSecs k) (now : Instant) :
    ((config.lifecycle k).advance id now).run World.answer w =
      (.error (.crash (some "TimeDelta::seconds out of bounds")), w) := by
  have hspan : (config.lifecycle k).timeout =
      .error (.crash (some "TimeDelta::seconds out of bounds")) := by
    have hno : Span.ofSetting (config.timeoutSecs k) =
        .error (.crash (some "TimeDelta::seconds out of bounds")) := by
      rw [Span.ofSetting, Span.ofSeconds?, if_neg fun h => absurd h.2 (Int.not_le.mpr hlong)]
    cases k <;> exact hno
  rw [run_advance_of_offers (by cases k <;> rfl) h, hspan]
  rfl

end

section

variable {config : Config} {id : ItemId} {check : HealthCheck} {record : Cluster} {w : World}
  {now : Instant}

/-- A check that has just entered its state is stepped. -/
theorem run_advance_of_fresh (h : w.Offers id check record)
    (hnow : check.header.stateStartTime = now)
    (htimeout : (config.healthCheck.timeoutSecs : Int) ≤ Span.maxSeconds) :
    ((config.lifecycle .check).advance id now).run World.answer w =
      ((config.lifecycle .check).takeStep check now).run World.answer w := by
  subst hnow
  have hspan : (config.lifecycle .check).timeout = .ok ⟨config.healthCheck.timeoutSecs *
      nanosPerSecond⟩ := Span.ofSetting_of_le htimeout
  rw [run_advance_of_offers rfl h, hspan]
  exact congrArg (fun p => run World.answer p w)
    (if_neg (ImageCheck.not_lt_since config.healthCheck.timeoutSecs check.header.stateStartTime))

/-- A number of failures beyond the bound makes the alert over a launch without hosts crash. -/
theorem run_advance_of_failures (h : w.Offers id check record) (now : Instant)
    (hnow : check.header.stateStartTime = now)
    (hs : check.state = HealthCheckState.init) (hfails : w.provider.failLaunches = true)
    (htimeout : (config.healthCheck.timeoutSecs : Int) ≤ Span.maxSeconds)
    (hmany : 0x8000000000000000 < config.healthCheck.failuresBeforePage) :
    (((config.lifecycle .check).advance id now).run World.answer w).1 =
      .error (.crash (some "attempt to multiply with overflow")) := by
  have hlook : ImageCheck.lookback (config.healthCheck.failuresBeforePage - 1) =
      .error (.crash (some "attempt to multiply with overflow")) := by
    rw [ImageCheck.lookback, if_neg (by omega)]
  obtain ⟨p, -, hlaunch⟩ := ImageCheck.answer_launch_of_fails hfails check.cluster
    (some check.details.imageId)
  have hcluster := World.Offers.getCluster (w := { w with provider := p })
    ⟨h.stored, h.isOpen, h.inOperation⟩
  rw [run_advance_of_fresh h hnow htimeout]
  simp [run, ask, request, perform, Program.bind, ofOutcome, orFail, Lifecycle.takeStep,
    Config.lifecycle, ImageCheck.lifecycle, ImageCheck.step, ImageCheck.init, ImageCheck.fail,
    ImageCheck.alert, ImageCheck.failedInARow, requireCluster, hs, hlook, hlaunch,
    hcluster]

/-- A launch grace that is no span makes waiting for a probe host crash. -/
theorem run_advance_of_grace {host : HostId} (h : w.Offers id check record) (now : Instant)
    (hnow : check.header.stateStartTime = now)
    (hs : check.state = HealthCheckState.launching) (hprobe : check.details.hostId = some host)
    (hruns : w.provider.isTerminated host = false) (hnew : w.tables.hosts.get? host = none)
    (htimeout : (config.healthCheck.timeoutSecs : Int) ≤ Span.maxSeconds)
    (hgrace : Span.maxSeconds < record.launchGraceSecs) :
    (((config.lifecycle .check).advance id now).run World.answer w).1 =
      .error (.crash (some "TimeDelta::seconds out of bounds")) := by
  have hspan : Span.ofSetting record.launchGraceSecs =
      .error (.crash (some "TimeDelta::seconds out of bounds")) := by
    rw [Span.ofSetting, Span.ofSeconds?, if_neg fun h => absurd h.2 (Int.not_le.mpr hgrace)]
  have hhost : World.answer (.store (.getHost host)) w = (.ok none, w) := by
    obtain ⟨s, hstore, -⟩ := h.stored
    exact World.answer_ask hstore (by rw [Store.answer, ← hnew, World.tables_eq hstore])
  have hlisted : World.answer (.provider (.listTerminated [host])) w = (.ok (.ofList []), w) := by
    simp [World.answer, Provider.answer, hruns]
  rw [run_advance_of_fresh h hnow htimeout]
  simp [run, ask, request, perform, Program.bind, ofOutcome, orFail, Lifecycle.takeStep,
    Config.lifecycle, ImageCheck.lifecycle, ImageCheck.step, ImageCheck.launching,
    ImageCheck.probe, requireCluster, hs, hprobe, hlisted, hhost, h.getCluster, hspan]

end

/-! ## Dates -/

/-- Four hundred years have 146097 days, and every other count of years is off by at most two. -/
theorem Date.daysBeforeYear_bounds (y : Int) :
    146097 * y - 800 ≤ 400 * daysBeforeYear y ∧ 400 * daysBeforeYear y ≤ 146097 * y + 800 := by
  simp only [daysBeforeYear]
  omega

namespace Instant

/-- The year in which an instant lies. -/
def year (t : Instant) : Int := (Date.ofDays (t.seconds / 86400)).year

/-- The day of an instant lies in its year, give or take two days. -/
theorem day_bounds (t : Instant) :
    146097 * t.year - 800 ≤ 400 * (t.seconds / 86400 + Date.epochDays) ∧
      400 * (t.seconds / 86400 + Date.epochDays) < 146097 * (t.year + 1) + 800 := by
  have hlow : Date.daysBeforeYear t.year ≤ t.seconds / 86400 + Date.epochDays :=
    Date.daysBeforeYear_yearOf_le _
  have hhigh : t.seconds / 86400 + Date.epochDays < Date.daysBeforeYear (t.year + 1) :=
    Date.lt_daysBeforeYear_yearOf _
  have hfirst := Date.daysBeforeYear_bounds t.year
  have hnext := Date.daysBeforeYear_bounds (t.year + 1)
  omega

theorem secondInRange_iff {t : Instant} : Timestamp.secondInRange t.seconds = true ↔
    -262143 ≤ t.year ∧ t.year ≤ 262142 := by
  simp [Timestamp.secondInRange, Timestamp.yearInRange, year]

theorem fraction_bounds (t : Instant) : 0 ≤ t.fraction ∧ t.fraction < 2000000000 := by
  rw [fraction]
  omega

/-- Going back in time changes the seconds by the minutes, up to a leap second that is left. -/
theorem seconds_minutesBefore (t : Instant) (minutes : Nat) :
    t.seconds - minutes * 60 ≤ (t.minutesBefore minutes).seconds ∧
      (t.minutesBefore minutes).seconds ≤ t.seconds + 1 := by
  have hfraction := t.fraction_bounds
  rw [minutesBefore]
  split
  · rename_i h
    have hleap := h.2
    simp only [seconds, ofParts, nanosPerSecond] at hleap ⊢
    omega
  · simp only [seconds]
    omega

/-- Any delay before an instant of four-digit years leads to an instant that there is. -/
theorem secondInRange_minutesBefore {t : Instant} (hlow : 0 ≤ t.year) (hhigh : t.year ≤ 9999)
    {minutes : Nat} (h : minutes < 0x100000000) :
    Timestamp.secondInRange (t.minutesBefore minutes).seconds = true := by
  have hday := t.day_bounds
  have hback := (t.minutesBefore minutes).day_bounds
  have hseconds := t.seconds_minutesBefore minutes
  simp only [Date.epochDays] at hday hback
  exact secondInRange_iff.mpr (by omega)

/-- Two instants that there are lie apart by a span. -/
theorem since_bounds {a b : Instant} (ha : Timestamp.secondInRange a.seconds = true)
    (hb : Timestamp.secondInRange b.seconds = true) :
    -(Span.maxSeconds * nanosPerSecond) ≤ (a.since b).nanos ∧
      (a.since b).nanos ≤ Span.maxSeconds * nanosPerSecond := by
  have hyears : ∀ t : Instant, Timestamp.secondInRange t.seconds = true →
      -10000000000000 ≤ t.seconds ∧ t.seconds ≤ 10000000000000 := by
    intro t ht
    have hyear := secondInRange_iff.mp ht
    have hday := t.day_bounds
    simp only [Date.epochDays] at hday
    omega
  have hseconds := hyears a ha
  have hseconds' := hyears b hb
  have hfraction := a.fraction_bounds
  have hfraction' := b.fraction_bounds
  obtain ⟨leap, hleap, hsince⟩ : ∃ leap : Int, (-1 ≤ leap ∧ leap ≤ 1) ∧ (a.since b).nanos =
      (a.seconds - b.seconds + leap) * nanosPerSecond + (a.fraction - b.fraction) := by
    refine ⟨_, ?_, rfl⟩
    split
    · decide
    · split <;> decide
  rw [hsince]
  simp only [Span.maxSeconds, nanosPerSecond]
  omega

end Instant

/-! ## The law -/

/-- A world with one item, in a cluster whose hosts get so many seconds to check in, and with a
provider that fails all launches. -/
def World.offering {k : ItemKind} (grace : Nat) (item : Item k) : World :=
  { (Session.start { ImageCheck.plainCluster item.cluster with launchGraceSecs := grace }
      item).world with provider := { Provider.empty with failLaunches := true } }

namespace World

variable {k : ItemKind} (grace : Nat) (item : Item k)

theorem get?_clusters_offering (name : String) :
    (offering grace item).tables.clusters.get? name =
      if name = item.cluster then
        some { ImageCheck.plainCluster item.cluster with launchGraceSecs := grace } else none := by
  have hclusters : (offering grace item).tables.clusters = (Table.empty : Table Cluster).insert
      item.cluster { ImageCheck.plainCluster item.cluster with launchGraceSecs := grace } := by
    cases k <;> rfl
  rw [hclusters, Table.get?_insert, Table.get?_empty]

theorem moderate_offering (hclock : item.header.createdAt = .epoch) :
    (offering grace item).Moderate grace where
  clock := ⟨.epoch, by
    rw [now, show (offering grace item).clock = .epoch from hclock]
    rfl⟩
  graces name cluster hget := by
    rw [get?_clusters_offering] at hget
    split at hget
    · cases hget
      exact Nat.le_refl grace
    · cases hget

theorem offers_offering (hopen : item.isTerminal = false) :
    (offering grace item).Offers item.id item
      { ImageCheck.plainCluster item.cluster with launchGraceSecs := grace } where
  stored := by
    obtain ⟨s, hs, hhas⟩ := (Session.begins_start
      { ImageCheck.plainCluster item.cluster with launchGraceSecs := grace } item).stored
    refine ⟨s, hs, hhas.2, ?_⟩
    have hget := get?_clusters_offering grace item item.cluster
    rwa [if_pos rfl, tables_eq (show (offering grace item).store = some s from hs)] at hget
  isOpen := hopen
  inOperation := rfl

end World

/-- A run that crashes in a world within the limits. -/
theorem Program.Crashless.absurd {α : Type} {grace : Nat} {p : Program α} {w : World}
    {text : String} (h : p.Crashless grace) (hw : w.Moderate grace)
    (hrun : (p.run World.answer w).1 = .error (.crash (some text)))
    (htext : text ≠ "capacity overflow") : False := by
  have hend := ends_run Eq (fun _ => False) (fun _ => rfl) p w
  rw [hrun] at hend
  refine Fault.not_isClean_crash htext (h Eq (fun _ => False) ?_ (fun _ => False.elim) w _ _ hw hend)
  rintro u _ rfl hu
  exact hu

/-- A check that waits for its probe host. -/
def awaitingCheck : HealthCheck :=
  { ImageCheck.launchedOn freshCheck "probe" .epoch with state := HealthCheckState.launching }

/-- The limits of a configuration and of launch graces. -/
structure Config.Fits (config : Config) (grace : Nat) : Prop where
  timeouts : ∀ k, (config.timeoutSecs k : Int) ≤ Span.maxSeconds
  failures : config.healthCheck.failuresBeforePage ≤ 0x8000000000000000
  graces : (grace : Int) ≤ Span.maxSeconds

/-- Each number beyond its limit makes an advancement crash. -/
theorem fits_of_crashless {config : Config} {grace : Nat}
    (h : ∀ k id, ((config.lifecycle k).advance id .epoch).Crashless grace) : config.Fits grace := by
  have htimeouts : ∀ k, (config.timeoutSecs k : Int) ≤ Span.maxSeconds := by
    intro k
    by_contra hlong
    have hcrash : ∀ item : Item k, item.isTerminal = false → item.header.createdAt = .epoch →
        False := by
      intro item hopen hclock
      have hrun := run_advance_of_timeout (World.offers_offering grace item hopen)
        (Int.not_le.mp hlong) .epoch
      exact (h k item.id).absurd (World.moderate_offering grace item hclock) (congrArg Prod.fst hrun)
        (by decide)
    cases k with
    | upgrade => exact hcrash (UpgradeEvent.new "event" "web" "prod" .epoch) rfl rfl
    | check => exact hcrash freshCheck rfl rfl
  refine ⟨htimeouts, Nat.not_lt.mp fun hmany => ?_, Int.not_lt.mp fun hlong => ?_⟩
  · have hrun := run_advance_of_failures
      (World.offers_offering grace freshCheck rfl) .epoch rfl rfl rfl
      (htimeouts .check) hmany
    exact (h .check freshCheck.id).absurd (World.moderate_offering grace _ rfl) hrun (by decide)
  · have hrun := run_advance_of_grace
      (World.offers_offering grace awaitingCheck rfl) .epoch rfl rfl
      rfl rfl rfl (htimeouts .check) hlong
    exact (h .check awaitingCheck.id).absurd (World.moderate_offering grace _ rfl) hrun (by decide)

/-- All arithmetic on dates stays within the instants and spans that there are. Whatever numbers
of any size are configured and stored besides, no advancement of an item, no promotion, no
termination of a host and no alignment of tags crashes in worlds where the timeouts, the failures
before on-call is paged and the launch graces keep their limits; and if one of these numbers does
not, some advancement crashes although no call fails. -/
theorem crashless_iff_fits (config : Config) (grace : Nat) :
    (∀ (now t : Instant) (minutes : Nat), 0 ≤ now.year → now.year ≤ 9999 →
      Timestamp.secondInRange t.seconds = true → minutes < 0x100000000 →
      (Span.ofSeconds? (minutes * 60)).isSome ∧
      Timestamp.secondInRange (now.minutesBefore minutes).seconds = true ∧
      -(Span.maxSeconds * nanosPerSecond) ≤ (now.since t).nanos ∧
      (now.since t).nanos ≤ Span.maxSeconds * nanosPerSecond) ∧
    ((∀ now : Instant, 0 ≤ now.year → now.year ≤ 9999 →
      (∀ k id, ((config.lifecycle k).advance id now).Crashless grace) ∧
      (∀ env, (Promotion.promote config.promotion env now).Crashless grace) ∧
      (∀ host, (Decommission.process host).Crashless grace) ∧
      ∀ constraint, (TagCoverage.process config.tagSync constraint).Crashless grace) ↔
    config.Fits grace) := by
  refine ⟨fun now t minutes hlow hhigh ht hminutes => ⟨?_, ?_, ?_⟩, fun h => ?_, fun h now _ _ => ?_⟩
  · have hspan : -Span.maxSeconds ≤ (minutes * 60 : Int) ∧
        (minutes * 60 : Int) ≤ Span.maxSeconds := by
      simp only [Span.maxSeconds]
      omega
    rw [Span.ofSeconds?, if_pos hspan]
    rfl
  · exact now.secondInRange_minutesBefore hlow hhigh hminutes
  · exact Instant.since_bounds (Instant.secondInRange_iff.mpr (by omega)) ht
  · exact fits_of_crashless (h .epoch (by decide) (by decide)).1
  · exact ⟨fun k id => crashless_advance k (h.timeouts k) h.failures h.graces id now,
      fun env => (Promotion.calm_promote _ env now).crashless grace,
      fun host => (Decommission.within_process host).calm.crashless grace,
      fun constraint => (TagCoverage.within_process _ constraint).calm.crashless grace⟩

/-- Timeouts of one second more than a span holds. -/
def endless : Config where
  replacement := { timeoutSecs := 9223372036854776 }
  healthCheck := { timeoutSecs := 9223372036854776 }

/-- Such timeouts overflow, and so do such a launch grace and one failure more than a lookback
takes. -/
theorem numbers_overflow :
    ((endless.lifecycle .upgrade).advance "event" .epoch).run World.answer
        (World.offering 600 (UpgradeEvent.new "event" "web" "prod" .epoch)) =
      (.error (.crash (some "TimeDelta::seconds out of bounds")),
        World.offering 600 (UpgradeEvent.new "event" "web" "prod" .epoch)) ∧
    ((endless.lifecycle .check).advance "check" .epoch).run World.answer
        (World.offering 600 freshCheck) =
      (.error (.crash (some "TimeDelta::seconds out of bounds")), World.offering 600 freshCheck) ∧
    (((Config.lifecycle {} .check).advance "check" .epoch).run World.answer
        (World.offering 9223372036854776 awaitingCheck)).1 =
      .error (.crash (some "TimeDelta::seconds out of bounds")) ∧
    (((Config.lifecycle { healthCheck := { failuresBeforePage := 0x8000000000000001 } }
      .check).advance "check" .epoch).run World.answer (World.offering 600 freshCheck)).1 =
      .error (.crash (some "attempt to multiply with overflow")) := by
  have hlong : ∀ k, Span.maxSeconds < endless.timeoutSecs k := by
    intro k
    cases k <;> decide
  have hevent := World.offers_offering 600 (UpgradeEvent.new "event" "web" "prod" .epoch) rfl
  have hcheck := World.offers_offering 600 freshCheck rfl
  have hwaiting := World.offers_offering 9223372036854776 awaitingCheck rfl
  refine ⟨?_, ?_, ?_, ?_⟩
  · exact run_advance_of_timeout hevent (hlong .upgrade) .epoch
  · exact run_advance_of_timeout hcheck (hlong .check) .epoch
  · exact run_advance_of_grace hwaiting .epoch rfl rfl rfl rfl rfl (by decide) (by decide)
  · exact run_advance_of_failures hcheck .epoch rfl rfl rfl (by decide) (by decide)

end FleetControl
