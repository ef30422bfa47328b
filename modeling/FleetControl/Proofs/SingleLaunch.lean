import FleetControl.Proofs.Checkup

/-!
# One launch for a health check

While every call gets its reply and records of clusters stay, a check asks for hosts once:
the step that does so always ends in a state that is never left for INIT again. The one way
out is the crash of the alert over a number of failures beyond the bound of a lookback.
-/
namespace FleetControl

open Program

/-! ## Records of clusters stay -/

/-- No call takes the record of a cluster away. -/
theorem Store.clusters_effect {s s' : Store} {clock : Outcome Instant} {c : StoreCall}
    (he : s.Effect clock c s') {cluster : String} (h : (s.clusters.get? cluster).isSome) :
    (s'.clusters.get? cluster).isSome := by
  obtain he | ⟨state, now, -, he⟩ | ⟨image, now, -, he⟩ := he.cluster_cases cluster
  · rwa [he]
  · rwa [he, Option.isSome_map]
  · rwa [he, Option.isSome_map]

namespace World

/-- There is a record of a cluster, unless the store is lost. -/
def Records (cluster : String) (w : World) : Prop :=
  ∀ s, w.store = some s → (s.clusters.get? cluster).isSome

theorem Records.answer {cluster : String} {w : World} (h : w.Records cluster) (c : Call) :
    (answer c w).2.Records cluster := by
  intro t ht
  by_cases hc : ∃ q, c = .store q
  · obtain ⟨q, rfl⟩ := hc
    obtain ⟨s, hs, rfl⟩ := store_useStore ht
    exact Store.clusters_effect (s.effect_of_answer w.now q) (h s hs)
  · rw [store_answer (not_exists.mp hc)] at ht
    exact h t ht

end World

/-- What an answer says about the record of a cluster. -/
def Call.finds (cluster : String) : (c : Call) → Outcome c.Reply → Option Bool
  | .store (.getCluster name), .ok found => if name = cluster then some found.isSome else none
  | _, _ => none

theorem World.finds_answer {cluster : String} {w : World} {c : Call} {b : Bool}
    (h : c.finds cluster (World.answer c w).1 = some b) :
    ∃ s, w.store = some s ∧ (s.clusters.get? cluster).isSome = b := by
  have hnone : ∀ q : StoreCall, (∀ name, q ≠ .getCluster name) → ∀ r,
      Call.finds cluster (.store q) r = none := by
    intro q hq r
    cases q with
    | getCluster name => exact absurd rfl (hq name)
    | _ => rfl
  cases c with
  | store q =>
      by_cases hq : ∃ name, q = .getCluster name
      · obtain ⟨name, rfl⟩ := hq
        rw [World.answer, World.fst_useStore] at h
        cases hs : w.store with
        | none =>
            rw [hs] at h
            cases h
        | some s =>
            rw [hs] at h
            simp only [Store.answer, Call.finds] at h
            split at h
            · rename_i hname
              subst hname
              exact ⟨s, rfl, Option.some.inj h⟩
            · cases h
      · rw [hnone q fun name he => hq ⟨name, he⟩] at h
        cases h
  | _ => cases h

namespace ImageCheck

/-- The world as one check sees it that is followed: its stored version, how many launches
were asked for on its behalf, and whether a record of its cluster was found. -/
structure Trial where
  check : HealthCheck
  launches : Nat
  known : Bool

/-- What may happen at a call while all calls get their replies and records of clusters
stay. -/
structure Trial.Behaves (id : ItemId) (cluster : String) (o : Option ItemId) (c : Call)
    (t : Trial) (r : Outcome c.Reply) (t' : Trial) : Prop where
  check : Item.Possible .check id (fun f => f.isBreach = true → False) c t.check r t'.check
  replied : ∃ a, r = .ok a
  launches : t'.launches = t.launches + if o = some id ∧ c.launches = true then 1 else 0
  known : t'.known = (t.known || c.finds cluster r == some true)
  finds : t.known = true → c.finds cluster r ≠ some false

/-- Others may change anything but the check and take no record of its cluster away. -/
def Kept (id : ItemId) (cluster : String) (w v : World) : Prop :=
  World.Untouched .check id w v ∧ (w.Records cluster → v.Records cluster)

/-- What a session shows of a trial. -/
def Trial.IsShown (id : ItemId) (cluster : String) (w : World) (n : Nat) (t : Trial) : Prop :=
  w.Shows id t.check ∧ n = t.launches ∧ (t.known = true → w.Records cluster)

theorem Trial.IsShown.call {id : ItemId} {cluster : String} {w w' : World} {n : Nat} {t : Trial}
    (h : t.IsShown id cluster w n) {c : Call} {r : Outcome c.Reply} (o : Option ItemId)
    (hb : (World.Possible Eq fun _ => False).flawless c w r w') :
    ∃ t' : Trial, t'.IsShown id cluster w' (n + if o = some id ∧ c.launches = true then 1 else 0) ∧
      t.Behaves id cluster o c r t' := by
  obtain ⟨hp, hok⟩ := hb
  obtain ⟨check, hshows, hcheck⟩ := h.1.possible hp
  obtain ⟨_, rfl, ha | ⟨f, hf, -⟩⟩ := hp
  · have hw : w' = (World.answer c w).2 := by rw [ha]
    have hr : r = (World.answer c w).1 := by rw [ha]
    subst hw hr
    refine ⟨⟨check, _, _⟩, ⟨hshows, congrArg (· + _) h.2.1, ?_⟩, hcheck, hok, rfl, rfl, ?_⟩
    · intro hk
      rcases Bool.or_eq_true_iff.mp hk with hk | hk
      · exact (h.2.2 hk).answer c
      · obtain ⟨s, hs, hsome⟩ := World.finds_answer (eq_of_beq hk)
        refine World.Records.answer (fun s' hs' => ?_) c
        cases hs.symm.trans hs'
        exact hsome
    · intro hk hfalse
      obtain ⟨s, hs, hnone⟩ := World.finds_answer hfalse
      have hrec := h.2.2 hk s hs
      rw [hnone] at hrec
      cases hrec
  · cases hf

/-! ## Calls that ask for no launch -/

theorem launchless_of_isRead {c : Call} (h : c.isRead = true) : c.launches = false := by
  unfold Call.launches
  split
  · cases h
  · rfl

theorem launchless_of_tidies {c : Call} (h : tidies c = true) : c.launches = false := by
  unfold Call.launches
  split
  · cases h
  · rfl

theorem launchless_of_tidiesOrStores {check : HealthCheck} {c : Call}
    (h : tidiesOrStores check c) : c.launches = false := by
  rcases h with h | ⟨-, rfl⟩
  · exact launchless_of_tidies h
  · rfl

theorem launchless_of_stepActs {s : HealthCheckState} (hs : s ≠ .init) {c : Call}
    (h : stepActs s c) : c.launches = false := by
  rw [stepActs, if_neg hs] at h
  rcases h with h | h
  · exact launchless_of_tidies h
  · cases c <;> first | rfl | cases h

/-- A timeout asks for no launch. -/
theorem only_timeOut (config : ImageCheckSettings) (check : HealthCheck) (now : Instant) :
    ((lifecycle config).timeOut check now).Only (·.launches = false) := by
  have h := within_onTimeout (fun _ _ => trivial) config
    (check.afterTimeout now (timeoutTarget check.state) (timeoutMessage check))
  refine .bind (within_ask.mpr rfl) fun _ => .bind (Only.attempt ?_) fun _ => trivial
  exact Only.mono h fun _ => launchless_of_tidiesOrStores

/-- Past INIT a check asks for no launch. -/
theorem only_work (config : ImageCheckSettings) {check : HealthCheck} (now : Instant)
    (hs : check.state ≠ HealthCheckState.init) :
    ((lifecycle config).work check now).Only (·.launches = false) := by
  rw [Lifecycle.work]
  split
  · trivial
  · refine .bind (Only.mono (only_clusterIsPaused (fun _ h => h) _) fun _ =>
      launchless_of_isRead) fun paused => ?_
    split
    · exact .bind (within_ask.mpr rfl) fun _ => trivial
    · refine .bind (only_done _) fun limit => ?_
      split
      · exact only_timeOut config check now
      · have h := meets_step (fun _ _ => trivial) config check now (fun _ _ => trivial)
          fun _ _ _ => trivial
        refine .bind (Only.mono h.only fun _ => launchless_of_stepActs hs) fun result =>
          .bind (within_ask.mpr rfl) fun _ => ?_
        split <;> trivial

/-! ## Advancing in a trial -/

variable {α : Type} {id : ItemId} {cluster : String} {t t' : Trial}

/-- At most one launch was asked for. -/
def Spare (_ t : Trial) : Prop := t.launches ≤ 1

/-- Programs without a launch leave the number of launches as it is. -/
theorem keeps_launchless {p : Program α} (h : p.Only (·.launches = false))
    (hn : t.launches ≤ 1) : p.Keeps (Trial.Behaves id cluster (some id)) Spare
      (fun _ t' => t'.launches = t.launches) t := by
  refine (Meets.keeps (J := fun t' => t'.launches = t.launches) h ?_ rfl).imp
    fun _ _ hq => hq.1
  intro c u r u' hc hu hb
  have hl : u'.launches = t.launches := by
    rw [hb.launches, hc, hu]
    simp
  refine ⟨?_, hl, hb.check.failsOnly.mono fun _ _ => trivial⟩
  rw [Spare, hl]
  exact hn

/-- The check and the number of launches are the same. -/
def Trial.Same (t t' : Trial) : Prop := t'.check = t.check ∧ t'.launches = t.launches

theorem Trial.Same.trans {u : Trial} (h : t.Same t') (h' : t'.Same u) : t.Same u :=
  ⟨h'.1.trans h.1, h'.2.trans h.2⟩

theorem Trial.Behaves.check_eq {o : Option ItemId} {c : Call} {r : Outcome c.Reply}
    (hb : t.Behaves id cluster o c r t') (hc : ∀ y, c ≠ .store (.updateItem .check y)) :
    t'.check = t.check := by
  rcases hb.check.eq_or_stored with he | ⟨-, he⟩
  · exact he
  · exact absurd he (hc _)

/-- A call that neither stores a check nor asks for a launch, in a trial. -/
theorem Trial.Behaves.same {o : Option ItemId} {c : Call} {r : Outcome c.Reply}
    (hb : t.Behaves id cluster o c r t') (hc : ∀ y, c ≠ .store (.updateItem .check y))
    (hl : c.launches = false) : t.Same t' :=
  ⟨hb.check_eq hc, by simp [hb.launches, hl]⟩

/-- A record that was found once is found again. -/
theorem keeps_requireCluster (hn : t.launches ≤ 1) :
    (requireCluster cluster).Keeps (Trial.Behaves id cluster (some id)) Spare
      (fun r t' => t.Same t' ∧ (∀ a, r = .ok a → t'.known = true) ∧
        (t.known = true → t'.known = true ∧ ∃ a, r = .ok a)) t := by
  refine keeps_bind.mpr (keeps_ask.mpr fun r t' hb => ?_)
  have hsame := hb.same (by rintro _ ⟨⟩) rfl
  refine ⟨by rw [Spare, hsame.2]; exact hn, ?_⟩
  obtain ⟨found, rfl⟩ := hb.replied
  have hknown := hb.known
  have hfinds := hb.finds
  simp only [Call.finds, if_true] at hknown hfinds
  cases found with
  | none =>
      refine ⟨hsame, ?_, fun hk => absurd rfl (hfinds hk)⟩
      intro a ha
      cases ha
  | some record =>
      have hk : t'.known = true := by simpa using hknown
      exact ⟨hsame, fun _ _ => hk, fun _ => ⟨hk, record, rfl⟩⟩

/-- Once the cluster is known, an alert succeeds if the lookback does. -/
theorem keeps_alert {config : ImageCheckSettings} {limit : Nat}
    (hlook : lookback (config.failuresBeforePage - 1) = .ok limit) {check : HealthCheck}
    (hc : check.cluster = cluster) (hk : t.known = true) (hn : t.launches ≤ 1)
    (subject message : String) :
    (alert config check subject message).Keeps (Trial.Behaves id cluster (some id)) Spare
      (fun r t' => t.Same t' ∧ r = .ok ()) t := by
  subst hc
  refine keeps_bind.mpr ((keeps_requireCluster hn).imp ?_)
  rintro r u ⟨hu, -, hfound⟩
  obtain ⟨-, record, rfl⟩ := hfound hk
  have hnu : u.launches ≤ 1 := hu.2 ▸ hn
  refine keeps_bind.mpr (keeps_bind.mpr ?_)
  rw [hlook]
  refine keeps_bind.mpr (keeps_ask.mpr fun r v hb => ?_)
  have hv := hb.same (by rintro _ ⟨⟩) rfl
  have hnv : v.launches ≤ 1 := hv.2 ▸ hnu
  obtain ⟨recent, rfl⟩ := hb.replied
  refine ⟨hnv, keeps_perform.mpr fun r w hb => ?_⟩
  have hw := hb.same (by rintro _ ⟨⟩) rfl
  obtain ⟨a, rfl⟩ := hb.replied
  refine ⟨?_, (hu.trans hv).trans hw, rfl⟩
  rw [Spare, hw.2]
  exact hnv

/-- The step of INIT asks for one launch and then succeeds. -/
theorem keeps_init {config : ImageCheckSettings} {limit : Nat}
    (hlook : lookback (config.failuresBeforePage - 1) = .ok limit) {check : HealthCheck}
    {now : Instant} (hs : check.state = HealthCheckState.init) (hc : check.cluster = cluster)
    (hk : t.known = true) (hn : t.launches = 0) :
    (init config check now).Keeps (Trial.Behaves id cluster (some id)) Spare
      (fun r t' => t'.check = t.check ∧ t'.launches = 1 ∧
        ∃ result, r = .ok result ∧ Steps check now .init result) t := by
  refine keeps_bind.mpr (keeps_perform.mpr fun r u hb => ?_)
  have hu := hb.check_eq (by rintro _ ⟨⟩)
  have hnu : u.launches = 1 := by simp [hb.launches, Call.launches, hn]
  have hku : u.known = true := by simp [hb.known, hk]
  refine ⟨Nat.le_of_eq hnu, ?_⟩
  obtain ⟨launched, rfl⟩ := hb.replied
  cases launched with
  | nil =>
      refine keeps_bind.mpr ((keeps_alert hlook hc hku (Nat.le_of_eq hnu) _ _).imp ?_)
      rintro r v ⟨hv, rfl⟩
      refine ⟨hv.1.trans hu, hv.2.trans hnu, _, rfl, ?_⟩
      rw [if_pos hs]
      exact .unlaunched _
  | cons host rest =>
      refine keeps_bind.mpr (keeps_ask.mpr fun r v hb => ?_)
      have hv := hb.check_eq (by rintro _ ⟨⟩)
      have hnv : v.launches = 1 := by simp [hb.launches, Call.launches, hnu]
      obtain ⟨a, rfl⟩ := hb.replied
      exact ⟨Nat.le_of_eq hnv, hv.trans hu, hnv, _, rfl, .launched host⟩

/-- A move out of INIT. -/
theorem Steps.leaves {check : HealthCheck} {now : Instant}
    {result : HealthCheck × Decision HealthCheckState} (h : Steps check now .init result) :
    (result.1.afterStep now result.2).id = check.id ∧
      (result.1.afterStep now result.2).state ≠ HealthCheckState.init := by
  cases h with
  | unlaunched | launched => exact ⟨rfl, HealthCheckState.noConfusion⟩
  | wait hs => exact absurd rfl hs
  | failed hs => rcases hs with hs | hs <;> cases hs

/-- Storing a check outside INIT, in a trial. -/
theorem Trial.Behaves.stored {y : HealthCheck} {r : Outcome Unit}
    (hb : t.Behaves id cluster (some id) (.store (.updateItem .check y)) r t')
    (hy : y.id = id) : t'.check = y ∧ t'.launches = t.launches := by
  refine ⟨?_, by simp [hb.launches, Call.launches]⟩
  rcases hb.check.of_update hy with he | ⟨-, f, hf⟩
  · exact he
  · obtain ⟨a, ha⟩ := hb.replied
    rw [ha] at hf
    cases hf

/-- Stepping a check in INIT asks for a launch, and the check leaves INIT. -/
theorem keeps_takeStep_init {config : ImageCheckSettings} {limit : Nat}
    (hlook : lookback (config.failuresBeforePage - 1) = .ok limit) {check : HealthCheck}
    (now : Instant) (hs : check.state = HealthCheckState.init) (hc : check.cluster = cluster)
    (hid : check.id = id) (hk : t.known = true) (hn : t.launches = 0) :
    ((lifecycle config).takeStep check now).Keeps (Trial.Behaves id cluster (some id)) Spare
      (fun _ t' => t'.launches = 1 ∧ t'.check.state ≠ HealthCheckState.init) t := by
  have hstep : (lifecycle config).step check now = init config check now := by
    simp only [lifecycle, step, hs]
  rw [Lifecycle.takeStep, bind_eq, keeps_bind, hstep]
  refine (keeps_init hlook hs hc hk hn).imp ?_
  rintro _ v ⟨hv, hnv, ⟨changed, d⟩, rfl, hsteps⟩
  obtain ⟨hid', hleaves⟩ := hsteps.leaves
  refine keeps_bind.mpr (keeps_ask.mpr fun r w hb => ?_)
  obtain ⟨hw, hnw⟩ := hb.stored (hid'.trans hid)
  have hend : w.launches = 1 ∧ w.check.state ≠ HealthCheckState.init :=
    ⟨hnw.trans hnv, by rw [hw]; exact hleaves⟩
  refine ⟨Nat.le_of_eq hend.1, ?_⟩
  obtain ⟨a, rfl⟩ := hb.replied
  simp only [Then]
  split <;> exact hend

/-- Working on a check in INIT asks for a launch only if it then leaves INIT. -/
theorem keeps_work_init {config : ImageCheckSettings} {limit : Nat}
    (hlook : lookback (config.failuresBeforePage - 1) = .ok limit) {check : HealthCheck}
    (now : Instant) (hs : check.state = HealthCheckState.init) (hc : check.cluster = cluster)
    (hid : check.id = id) (hn : t.launches = 0) :
    ((lifecycle config).work check now).Keeps (Trial.Behaves id cluster (some id)) Spare
      (fun _ t' => t'.launches = 0 ∨
        (t'.launches = 1 ∧ t'.check.state ≠ HealthCheckState.init)) t := by
  have hle : ∀ {u : Trial}, u.launches = 0 → u.launches ≤ 1 := fun h => by omega
  have hterm : ¬ check.isTerminal = true := by
    intro h
    rw [Item.isTerminal_iff.mp h] at hs
    cases hs
  rw [Lifecycle.work, if_neg hterm]
  refine keeps_bind.mpr (keeps_bind.mpr ?_)
  subst hc
  refine (keeps_requireCluster (hle hn)).imp ?_
  rintro (f | record) u ⟨hu, hfound, -⟩
  · exact .inl (hu.2.trans hn)
  have hku : u.known = true := hfound record rfl
  have hnu : u.launches = 0 := hu.2.trans hn
  simp only [Then, pure_eq, keeps_done]
  split
  · refine keeps_bind.mpr (keeps_ask.mpr fun r v hb => ?_)
    have hnv : v.launches = 0 := by simp [hb.launches, Call.launches, hnu]
    refine ⟨hle hnv, ?_⟩
    cases r <;> exact .inl hnv
  · cases hlimit : (lifecycle config).timeout with
    | error f => exact .inl hnu
    | ok span =>
        simp only [ofOutcome, Program.bind]
        split
        · refine (keeps_launchless (only_timeOut config check now) (hle hnu)).imp ?_
          exact fun r v hv => .inl (hv.trans hnu)
        · exact (keeps_takeStep_init hlook now hs rfl hid hku hnu).imp fun _ _ hq => .inr hq

/-- What holds of a trial between two advancements. -/
structure Trial.Rests (cluster : String) (t : Trial) : Prop where
  sound : Sound t.check
  cluster : t.check.cluster = cluster
  le_one : t.launches ≤ 1
  unlaunched : t.check.state = HealthCheckState.init → t.launches = 0

theorem eq_init_of_rank_le {s s' : HealthCheckState} (h : rank s ≤ rank s') (hs : s' = .init) :
    s = .init := by
  subst hs
  cases s with
  | init => rfl
  | _ => exact absurd h (by decide)

/-- A later version of the check rests where the launches are as they were. -/
theorem Trial.Rests.later (h : t.Rests cluster) (hs : Sound t'.check)
    (hf : Follows t.check t'.check) (hn : t'.launches = t.launches) : t'.Rests cluster where
  sound := hs
  cluster := hf.cluster.trans h.cluster
  le_one := hn ▸ h.le_one
  unlaunched hi := hn.trans (h.unlaunched (eq_init_of_rank_le hf.rank_le hi))

/-- Advancing any check asks for a launch on behalf of the one that is followed only in INIT,
which is then left. -/
theorem keeps_launches {config : ImageCheckSettings} {limit : Nat}
    (hlook : lookback (config.failuresBeforePage - 1) = .ok limit) (h : t.Rests cluster)
    (j : ItemId) (now : Instant) :
    ((lifecycle config).advance j now).Keeps (Trial.Behaves id cluster (some j)) Spare
      (fun _ t' => t'.launches = t.launches ∨
        (t'.launches ≤ 1 ∧ t'.check.state ≠ HealthCheckState.init)) t := by
  by_cases hj : j = id
  · subst hj
    rw [Lifecycle.advance_eq]
    refine keeps_bind.mpr (keeps_ask.mpr fun r u hb => ?_)
    have hu := hb.check_eq (by rintro _ ⟨⟩)
    have hnu : u.launches = t.launches := by simp [hb.launches, Call.launches]
    have hle : u.launches ≤ 1 := hnu ▸ h.le_one
    refine ⟨hle, ?_⟩
    have hread := hb.check
    rw [hu] at hread
    cases hread with
    | read hid =>
        by_cases hs : t.check.state = HealthCheckState.init
        · have hn := h.unlaunched hs
          refine (keeps_work_init hlook now hs h.cluster hid (hnu.trans hn)).imp ?_
          rintro r v (hv | ⟨hv, hleft⟩)
          · exact .inl (hv.trans hn.symm)
          · exact .inr ⟨Nat.le_of_eq hv, hleft⟩
        · refine (keeps_launchless (only_work config now hs) hle).imp ?_
          exact fun r v hv => .inl (hv.trans hnu)
    | readOther hne => exact absurd rfl hne
    | spared hc => simp [Call.spares] at hc
    | failed hf => exact .inl hnu
  · -- nothing is asked for on behalf of another check
    refine (keeps_of_preserved (J := fun u => u.launches = t.launches) ?_ _ rfl).mono ?_
      fun _ _ hu => .inl hu
    · intro c u r v hu hb
      rw [hb.launches, hu]
      simp [hj]
    · intro u v hv
      rw [Spare, hv]
      exact h.le_one

/-- Advancing any check leaves the one that is followed sound, and a later version. -/
theorem keeps_follows (config : ImageCheckSettings) {check : HealthCheck} (hs : Sound check)
    (j : ItemId) (now : Instant) : ((lifecycle config).advance j now).Keeps
      (Item.Possible .check id fun f => f.isBreach = true → False) Follows
      (fun _ next => Sound next ∧ Follows check next) check := by
  have h : ((lifecycle config).advance j now).Keeps
      (Item.Possible .check id fun f => f.isBreach = true → False)
      (fun y z => Sound z ∧ Follows y z) (fun r t => Sound t ∧ (j = id → FailsOnly _ r)) check :=
    (course config).keeps_advance (fun f hf hb => by simp [hf] at hb) hs j now
  refine (Keeps.reached (G := Follows) (h.mono (fun _ _ hg => hg.2) fun _ _ hq => hq)
    Follows.refl fun _ _ _ => Follows.trans).imp ?_
  exact fun r next hq => ⟨hq.1.1, hq.2⟩

/-- The trial of one check, while every call gets its reply. -/
def trialView (config : ImageCheckSettings) {limit : Nat}
    (hlook : lookback (config.failuresBeforePage - 1) = .ok limit) (id : ItemId)
    (cluster : String) : View (lifecycle config) id (Kept id cluster)
      (World.Possible Eq fun _ => False).flawless Trial where
  shows w n t := t.IsShown id cluster w n
  behaves := Trial.Behaves id cluster
  changes := Spare
  rest := Trial.Rests cluster
  faults _ := True
  shows_outside h hv := ⟨h.1.outside hv.1, h.2.1, fun hk => hv.2 (h.2.2 hk)⟩
  shows_call o h hb := h.call o hb
  quiet {t t'} c r o h hc hl hb := by
    have hn : t'.launches = t.launches := by simp [hb.launches, hl]
    have hsame : t'.check = t.check := hb.check_eq fun y hy => by simp [hy, Call.spares] at hc
    refine ⟨?_, h.later (hsame ▸ h.sound) (hsame ▸ .refl _) hn,
      fun _ => hb.check.failsOnly.mono fun _ _ => trivial⟩
    rw [Spare, hn]
    exact h.le_one
  advance {t} j now h := by
    have hfollows : ((lifecycle config).advance j now).Keeps (Trial.Behaves id cluster (some j))
        (fun t t' => Follows t.check t'.check)
        (fun _ t' => Sound t'.check ∧ Follows t.check t'.check) t :=
      (keeps_follows config h.sound j now).along Trial.check fun _ _ _ _ hb => hb.check
    refine (hfollows.and (keeps_launches hlook h j now)).mono (fun _ _ hg => hg.2) ?_
    rintro r t' ⟨⟨hs, hf⟩, hn | ⟨hle, hleft⟩⟩
    · exact ⟨h.later hs hf hn, fun _ => by cases r <;> trivial⟩
    · exact ⟨⟨hs, hf.cluster.trans h.cluster, hle, fun hi => absurd hi hleft⟩,
        fun _ => by cases r <;> trivial⟩

/-- The lookback succeeds up to a bound on the failures before on-call is paged. -/
theorem lookback_eq_ok_iff {failures : Nat} :
    (∃ limit, lookback (failures - 1) = .ok limit) ↔ failures ≤ 0x8000000000000000 := by
  unfold lookback
  split
  · exact ⟨fun _ => by omega, fun _ => ⟨_, rfl⟩⟩
  · refine ⟨?_, fun h => by omega⟩
    rintro ⟨limit, h⟩
    cases h

/-- With a lookback that succeeds, at most one launch is asked for in a run. -/
theorem launches_le_one {config : ImageCheckSettings}
    (hbound : config.failuresBeforePage ≤ 0x8000000000000000) {check : HealthCheck}
    {s t : Session .check} (hs : s.Begins check) (hsound : Sound check)
    (ht : Session.Run (lifecycle config) check.id (Kept check.id check.cluster)
      (World.Possible Eq fun _ => False).flawless s t) : t.launches ≤ 1 := by
  obtain ⟨limit, hlook⟩ := lookback_eq_ok_iff.mpr hbound
  let V := trialView config hlook check.id check.cluster
  have hshows : V.shows s.world 0 ⟨check, 0, false⟩ := by
    refine ⟨fun store hstore => ?_, rfl, fun hk => by cases hk⟩
    obtain ⟨store', hs', hhas⟩ := hs.stored
    cases hstore.symm.trans hs'
    exact hhas
  have hrests : V.rest ⟨check, 0, false⟩ := ⟨hsound, rfl, Nat.zero_le 1, fun _ => rfl⟩
  obtain ⟨trial, hsafe, hrun⟩ := (View.safe_of_begins hs hshows hrests).run ht
  have hshown : trial.IsShown check.id check.cluster t.world t.launches := hsafe.1
  rw [hshown.2.1]
  cases hrun with
  | refl => exact Nat.zero_le 1
  | tail _ hlast => exact hlast

/-! ## Beyond the bound -/

/-- A world in which the cluster of a check is in operation but grants no launches. -/
structure Barren (id : ItemId) (check : HealthCheck) (w : World) : Prop where
  store : ∃ s record, w.store = some s ∧ s.Has id check ∧
    s.clusters.get? check.cluster = some record ∧ record.state = .normal
  fails : w.provider.failLaunches = true

/-- A provider that fails all launches grants one without hosts. -/
theorem answer_launch_of_fails {w : World} (h : w.provider.failLaunches = true) (cluster : String)
    (image : Option String) : ∃ p : Provider, p.failLaunches = true ∧
      World.answer (.provider (.launchHosts cluster 1 image)) w =
        (.ok [], { w with provider := p }) := by
  have hgranted : w.provider.granted 1 = 0 := by
    rw [Provider.granted, if_pos h]
    cases w.provider.launchCapacity <;> simp
  refine ⟨(w.provider.launchHosts cluster 1 image).2, ?_, ?_⟩
  · simp [Provider.launchHosts, hgranted, h]
  · simp [World.answer, Provider.answer, Provider.launchHosts, hgranted]

theorem not_lt_since (seconds : Nat) (now : Instant) :
    ¬ (⟨seconds * nanosPerSecond⟩ : Span) < now.since now := by
  have h : (0 : Int) ≤ seconds * nanosPerSecond :=
    Int.mul_nonneg (Int.natCast_nonneg _) (by decide)
  simp only [Span.lt_iff, Instant.since, Int.lt_irrefl, false_and, if_false]
  omega

/-- Beyond the bound the alert over a failed launch crashes, so the launch is not recorded and
can be asked for again. -/
theorem survey_barren {config : ImageCheckSettings}
    (hbound : 0x8000000000000000 < config.failuresBeforePage)
    (htimeout : (config.timeoutSecs : Int) ≤ Span.maxSeconds) {check : HealthCheck} {w : World}
    (hs : check.state = HealthCheckState.init) (h : Barren id check w) :
    let p := (lifecycle config).advance id check.header.stateStartTime
    p.survey w = (true, 1) ∧ Barren id check (p.run World.answer w).2 := by
  obtain ⟨s, record, hstore, hhas, hrecord, hnormal⟩ := h.store
  obtain ⟨provider, hfails, hlaunch⟩ := answer_launch_of_fails h.fails check.cluster (some check.details.imageId)
  have hget : World.answer (.store (.getItem .check id)) w = (.ok (some check), w) :=
    World.answer_ask hstore (by rw [Store.answer, hhas.2])
  have hcluster : ∀ p, World.answer (.store (.getCluster check.cluster))
      { w with provider := p } = (.ok (some record), { w with provider := p }) :=
    fun p => World.answer_ask hstore (by rw [Store.answer, hrecord])
  have hfirst := hcluster w.provider
  have hterm : check.isTerminal = false := by
    simp [Item.isTerminal, hs, ItemKind.terminal]
  have hlook : ∃ payload,
      lookback (config.failuresBeforePage - 1) = .error (.crash payload) := by
    rw [lookback, if_neg (by omega)]
    exact ⟨_, rfl⟩
  obtain ⟨payload, hlook⟩ := hlook
  have hsince := not_lt_since config.timeoutSecs check.header.stateStartTime
  have hbarren : Barren id check { w with provider := provider } :=
    ⟨⟨s, record, hstore, hhas, hrecord, hnormal⟩, hfails⟩
  dsimp only
  rw [Lifecycle.advance_eq]
  constructor <;>
    simp [survey, run, ask, request, perform, Program.bind, ofOutcome, orFail, Except.isOk,
      Except.toBool, Call.launches, Lifecycle.work, Lifecycle.takeStep, lifecycle,
      clusterIsPaused, requireCluster, step, init, fail, alert, failedInARow, hget, hterm, hs,
      hfirst, hnormal, Span.ofSetting_of_le htimeout, hsince, hlaunch, hcluster, hlook, hbarren]

/-- A cluster in operation without anyone to tell. -/
def plainCluster (name : String) : Cluster :=
  ⟨name, "", .normal, none, 0, ⟨[], [], none⟩, .epoch⟩

/-- Others can bring about a world that grants no launches. -/
theorem exists_barren {check : HealthCheck} {s : Session .check} (hs : s.Begins check) :
    ∃ w, Kept check.id check.cluster s.world w ∧ Barren check.id check w := by
  obtain ⟨store, hstore, hhas⟩ := hs.stored
  let clusters := store.clusters.insert check.cluster (plainCluster check.cluster)
  have hrecord : clusters.get? check.cluster = some (plainCluster check.cluster) := by
    simp [clusters]
  have hhas' : ({ store with clusters := clusters } : Store).Has check.id check :=
    hhas.of_items_eq rfl
  refine ⟨{ s.world with
    store := some { store with clusters := clusters }
    provider := { s.world.provider with failLaunches := true } }, ⟨fun t ht => ?_, ?_⟩, ?_⟩
  · cases ht
    exact ⟨hhas'.1, store, hstore, hhas'.2.trans hhas.2.symm⟩
  · intro _ t ht
    cases ht
    rw [hrecord]
    rfl
  · exact ⟨⟨_, _, rfl, hhas', hrecord, rfl⟩, rfl⟩

/-- Every answer that is a reply is possible without failures. -/
theorem flawless_of_ok {c : Call} {w : World} {a : c.Reply}
    (h : (World.answer c w).1 = .ok a) : (World.Possible Eq fun _ => False).flawless c w
      (World.answer c w).1 (World.answer c w).2 := ⟨⟨w, rfl, .inl rfl⟩, a, h⟩

/-- Beyond the bound a check can ask for two launches although no call fails. -/
theorem launches_twice {config : ImageCheckSettings}
    (hbound : 0x8000000000000000 < config.failuresBeforePage)
    (htimeout : (config.timeoutSecs : Int) ≤ Span.maxSeconds) {check : HealthCheck}
    {s : Session .check} (hs : s.Begins check) (hi : check.state = HealthCheckState.init) :
    ∃ t, Session.Run (lifecycle config) check.id (Kept check.id check.cluster)
      (World.Possible Eq fun _ => False).flawless s t ∧ t.launches = 2 := by
  obtain ⟨w, hkept, hbarren⟩ := exists_barren hs
  -- each advancement leaves the world ready for the next one
  have hround : ∀ {s : Session .check}, s.activity = .idle → Barren check.id check s.world →
      ∃ t, Session.Run (lifecycle config) check.id (Kept check.id check.cluster)
          (World.Possible Eq fun _ => False).flawless s t ∧ t.activity = .idle ∧
        Barren check.id check t.world ∧ t.launches = s.launches + 1 := by
    intro s hidle hw
    obtain ⟨hsurvey, hw'⟩ := survey_barren hbound htimeout hi hw
    obtain ⟨t, hrun, hidle', hworld, hlaunches⟩ := Session.exists_run_advance
      (fun c w a => flawless_of_ok) hidle check.id check.header.stateStartTime
      (congrArg Prod.fst hsurvey)
    rw [if_pos rfl, hsurvey] at hlaunches
    exact ⟨t, hrun, hidle', hworld ▸ hw', hlaunches⟩
  have hfirst := hround (s := { s with world := w }) hs.idle hbarren
  obtain ⟨u, hfirst, hidle, hbarren', hone⟩ := hfirst
  obtain ⟨t, hsecond, -, -, htwo⟩ := hround hidle hbarren'
  refine ⟨t, .head (.change hkept) (hfirst.trans hsecond), ?_⟩
  rw [htwo, hone, hs.launches]

/-! ## The law of health checks -/

/-- Every run of sessions that begins with a new check. Whatever others do to the rest of the
world and whichever calls fail, the check stays stored under its id, with its identity and
with a status and a probe host that fit its state; its state changes only to one of a higher
rank, at most four times; and advancing it finds no invariant broken, except where a call
itself said so. While every call gets its reply and the record of its cluster stays, at most
one launch is asked for on its behalf if the lookback of its alerts succeeds; otherwise there
are runs with two. -/
theorem run_rises (config : ImageCheckSettings) {id : ItemId} {cluster : String} {env : EnvId}
    {kind : HealthCheckKind} {image : String} {created : Instant} {s : Session .check}
    (hs : s.Begins (HealthCheck.new id cluster env kind image created)) :
    (∀ raises t, Session.Run (lifecycle config) id (World.Untouched .check id)
        (World.Possible Eq raises) s t →
      (∀ store, t.world.store = some store → ∃ check, store.getItem .check id = some check ∧
        check.id = id ∧ check.cluster = cluster ∧ check.envId = env ∧
        check.header.createdAt = created ∧
        Fits check.state check.header.status check.details) ∧
      (∀ u check next, Session.Step (lifecycle config) id (World.Untouched .check id)
          (World.Possible Eq raises) t u → t.stored id = some check → u.stored id = some next →
        next.state = check.state ∨ rank check.state < rank next.state) ∧
      (∀ later, (t :: later).IsChain (Transitions config id raises) → later.length ≤ 4) ∧
      (∀ f, t.Ended id (.error f) → f.isBreach = true → raises f)) ∧
    (config.failuresBeforePage ≤ 0x8000000000000000 →
      ∀ t, Session.Run (lifecycle config) id (Kept id cluster)
        (World.Possible Eq fun _ => False).flawless s t → t.launches ≤ 1) ∧
    (0x8000000000000000 < config.failuresBeforePage →
      (config.timeoutSecs : Int) ≤ Span.maxSeconds →
        ∃ t, Session.Run (lifecycle config) id (Kept id cluster)
          (World.Possible Eq fun _ => False).flawless s t ∧ t.launches = 2) := by
  have hnew := sound_new id cluster env kind image created
  refine ⟨fun raises t ht => ?_, fun hbound t ht => launches_le_one hbound hs hnew ht,
    fun hbound htimeout => launches_twice hbound htimeout hs rfl⟩
  have hbegin : ((course config).view id raises).Safe s _ :=
    Lifecycle.Course.safe_of_begins hs rfl hnew
  obtain ⟨check, hsafe, hrun⟩ := hbegin.run ht
  have hsound := sound_run hnew hrun
  have hfollows := follows_run hrun
  refine ⟨fun store hstore => ?_, fun u c next hu hc hn => ?_, fun later hl => ?_,
    fun f hf => hsafe.failsOnly hf⟩
  · have hshows : t.world.Shows id check := hsafe.1
    exact ⟨check, (hshows store hstore).2, hfollows.id, hfollows.cluster, hfollows.envId,
      hfollows.createdAt, hsound⟩
  · obtain rfl := Lifecycle.Course.eq_of_stored hsafe hc
    obtain ⟨last, hu, rfl | ⟨-, hf⟩⟩ := hsafe.step hu
    · obtain rfl := Lifecycle.Course.eq_of_stored hu hn
      exact .inl rfl
    · obtain rfl := Lifecycle.Course.eq_of_stored hu hn
      exact hf.moves
  · have hlen := length_transitions_le hsafe later hl
    omega

/-- A new check that is advanced once has asked for its launch, and never asks for another. -/
theorem run_rises_launched : ∃ s t : Session .check,
    s.Begins (HealthCheck.new "check" "web" "prod" .imageTriggered "image" .epoch) ∧
    Session.Run (lifecycle {}) "check" (Kept "check" "web")
      (World.Possible Eq fun _ => False).flawless s t ∧ t.launches = 1 ∧
    (t.stored "check").map (fun check => check.state) = some HealthCheckState.launching ∧
    ∀ u, Session.Run (lifecycle {}) "check" (Kept "check" "web")
      (World.Possible Eq fun _ => False).flawless t u → u.launches ≤ 1 := by
  let check := HealthCheck.new "check" "web" "prod" .imageTriggered "image" .epoch
  let s := Session.start (plainCluster "web") check
  have hs : s.Begins check := Session.begins_start _ _
  have hadvance : ∃ t, Session.Run (lifecycle {}) "check" (Kept "check" "web")
      (World.Possible Eq fun _ => False).flawless s t ∧ _ :=
    Session.exists_run_advance (fun c w a => flawless_of_ok) rfl "check" .epoch
      (by decide +kernel)
  obtain ⟨t, hrun, -, hworld, hlaunches⟩ := hadvance
  refine ⟨s, t, hs, hrun, ?_, ?_, fun u hu => ?_⟩
  · rw [hlaunches]
    decide +kernel
  · rw [Session.stored, hworld]
    decide +kernel
  · exact (run_rises {} hs).2.1 (by decide) u (hrun.trans hu)

/-- One failure beyond the bound suffices for a second launch. -/
theorem run_launches_twice : ∃ s t : Session .check,
    s.Begins (HealthCheck.new "check" "web" "prod" .imageTriggered "image" .epoch) ∧
    Session.Run (lifecycle { failuresBeforePage := 0x8000000000000001 }) "check"
      (Kept "check" "web") (World.Possible Eq fun _ => False).flawless s t ∧
    t.launches = 2 := by
  have hs := Session.begins_start (plainCluster "web")
    (HealthCheck.new "check" "web" "prod" .imageTriggered "image" .epoch)
  have htwice : ∃ t, Session.Run (lifecycle { failuresBeforePage := 0x8000000000000001 }) "check"
      (Kept "check" "web") (World.Possible Eq fun _ => False).flawless _ t ∧ t.launches = 2 :=
    launches_twice (by decide) (by decide) hs rfl
  obtain ⟨t, hrun, ht⟩ := htwice
  exact ⟨_, t, hs, hrun, ht⟩

end ImageCheck

end FleetControl
