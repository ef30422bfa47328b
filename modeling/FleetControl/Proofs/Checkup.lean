import FleetControl.Proofs.Session
import Mathlib.Data.List.Chain

/-!
# The course of a health check

A health check only moves to states of a higher rank, whatever fails on the way and however
often it is advanced. Its status and what it knows about its probe host fit its state, so
the errors for a missing probe host and for a step of a completed check never occur.
-/
namespace FleetControl.ImageCheck

open Program

/-- How far a check has come. -/
def rank : HealthCheckState → Nat
  | .init => 0
  | .launching => 1
  | .pendingVerify => 2
  | .completing => 3
  | .completed => 4

theorem rank_le (s : HealthCheckState) : rank s ≤ 4 := by
  cases s <;> decide

/-- The statuses with which a check can be over. -/
def IsVerdict (status : Option ItemStatus) : Prop :=
  status = some .qualified ∨ status = some .failed ∨ status = some .timeout

/-- The status and the details that checks have in a state. -/
def Fits : HealthCheckState → Option ItemStatus → CheckDetails → Prop
  | .init, status, d => status = none ∧ d.hostId = none
  | .launching, status, d | .pendingVerify, status, d =>
      status = some .succeeded ∧ d.hostId.isSome ∧ d.hostLaunchTime.isSome ∧
        d.hostTerminated = false
  | .completing, status, d => IsVerdict status ∧ d.hostId.isSome ∧ d.hostTerminated = false
  | .completed, status, d =>
      IsVerdict status ∧ (status = some .qualified → d.hostTerminated = true)

/-- A stored check fits its state. -/
def Sound (check : HealthCheck) : Prop := Fits check.state check.header.status check.details

/-- What may be stored after a check: the same check in its identity, in the same state or
one of a higher rank. -/
structure Follows (check next : HealthCheck) : Prop where
  id : next.id = check.id
  cluster : next.cluster = check.cluster
  envId : next.envId = check.envId
  createdAt : next.header.createdAt = check.header.createdAt
  kind : next.details.kind = check.details.kind
  imageId : next.details.imageId = check.details.imageId
  moves : next.state = check.state ∨ rank check.state < rank next.state

/-- The versions of a check that are stored while its state is at work: only a completed
check is stored then, once its probe host is terminated. -/
def Drafts (check next : HealthCheck) : Prop :=
  next = check ∨ (check.state = HealthCheckState.completed ∧ next = released check)

theorem Follows.refl (check : HealthCheck) : Follows check check :=
  ⟨rfl, rfl, rfl, rfl, rfl, rfl, .inl rfl⟩

theorem Follows.trans {check next last : HealthCheck} (h : Follows check next)
    (h' : Follows next last) : Follows check last where
  id := h'.id.trans h.id
  cluster := h'.cluster.trans h.cluster
  envId := h'.envId.trans h.envId
  createdAt := h'.createdAt.trans h.createdAt
  kind := h'.kind.trans h.kind
  imageId := h'.imageId.trans h.imageId
  moves := by
    rcases h.moves with hs | hlt
    · rw [← hs]
      exact h'.moves
    · rcases h'.moves with hs | hlt'
      · rw [hs]
        exact .inr hlt
      · exact .inr (Nat.lt_trans hlt hlt')

theorem Follows.rank_le {check next : HealthCheck} (h : Follows check next) :
    rank check.state ≤ rank next.state := by
  rcases h.moves with hs | hlt
  · exact Nat.le_of_eq (congrArg rank hs.symm)
  · exact Nat.le_of_lt hlt

/-- Deploy times do not matter to the fit. -/
theorem Redates.fits {check changed : HealthCheck} (h : Redates check changed)
    {s : HealthCheckState} {status : Option ItemStatus} (hf : Fits s status check.details) :
    Fits s status changed.details := by
  obtain ⟨start, complete, rfl⟩ := h
  cases s <;> exact hf

/-- What a step gives back fits the state that is decided on. -/
theorem Steps.sound {check : HealthCheck} {now : Instant}
    {result : HealthCheck × Decision HealthCheckState} (h : Steps check now check.state result)
    (hs : Sound check) : Sound (result.1.afterStep now result.2) := by
  obtain ⟨header, cluster, envId, state, details⟩ := check
  simp only [Sound] at h hs
  cases h with
  | unlaunched message => exact ⟨.inr (.inl rfl), fun hq => by cases hq⟩
  | launched id => exact ⟨rfl, rfl, rfl, rfl⟩
  | wait _ h =>
      have hf := h.fits hs
      obtain ⟨start, complete, rfl⟩ := h
      exact hf
  | checkedIn => exact ⟨rfl, hs.2⟩
  | failed hstate h message =>
      have hf := h.fits hs
      obtain ⟨start, complete, rfl⟩ := h
      obtain ⟨-, hid, -, hterm⟩ : Fits .launching header.status _ := by
        rcases hstate with rfl | rfl <;> exact hf
      exact ⟨.inr (.inl rfl), hid, hterm⟩
  | qualified h =>
      obtain ⟨-, hid, -, hterm⟩ := h.fits hs
      obtain ⟨start, complete, rfl⟩ := h
      exact ⟨.inl rfl, hid, hterm⟩
  | finished => exact ⟨hs.1, fun _ => rfl⟩
  | unneeded hn =>
      obtain ⟨-, hid, hterm⟩ := hs
      rcases hn with hn | hn
      · exact absurd hn (Option.isSome_iff_ne_none.mp hid)
      · exact absurd hn (ne_true_of_eq_false hterm)

/-- A step that decides to move on leads to a state of a higher rank. -/
theorem Steps.rises {check : HealthCheck} {now : Instant} {s : HealthCheckState}
    {result : HealthCheck × Decision HealthCheckState} (h : Steps check now s result) :
    result.2 = .stay ∨ ∃ target status error,
      result.2 = .move target status error ∧ rank s < rank target := by
  cases h with
  | wait => exact .inl rfl
  | failed hs =>
      refine .inr ⟨_, _, _, rfl, ?_⟩
      rcases hs with rfl | rfl <;> decide
  | _ => exact .inr ⟨_, _, _, rfl, by decide⟩

/-- What a step gives back follows the check. -/
theorem Steps.follows {check : HealthCheck} {now : Instant}
    {result : HealthCheck × Decision HealthCheckState}
    (h : Steps check now check.state result) :
    Follows check (result.1.afterStep now result.2) := by
  obtain ⟨changed, d⟩ := result
  obtain ⟨hheader, hcluster, henv, hstate, hkind, himage⟩ := h.identity
  have hcreated : changed.header.createdAt = check.header.createdAt :=
    congrArg ItemHeader.createdAt hheader
  rcases h.rises with hd | ⟨target, status, error, hd, hlt⟩
  · simp only at hd
    subst hd
    exact ⟨h.id_eq, hcluster, henv, hcreated, hkind, himage, .inl hstate⟩
  · simp only at hd
    subst hd
    exact ⟨h.id_eq, hcluster, henv, hcreated, hkind, himage, .inr hlt⟩

theorem Steps.settles {check : HealthCheck} {now : Instant}
    {result : HealthCheck × Decision HealthCheckState} (h : Steps check now check.state result)
    (hc : check.state ≠ HealthCheckState.completed) :
    Lifecycle.Settles Sound Drafts Follows check now result := by
  refine ⟨(Item.id_afterStep _ now _).symm.trans h.follows.id, fun hs z hz => ?_⟩
  rcases hz with rfl | ⟨hz, -⟩
  · exact ⟨h.sound hs, h.follows⟩
  · exact absurd hz hc

/-- A timeout is stored in a state that it fits. -/
theorem sound_afterTimeout {check : HealthCheck} (now : Instant) (message : String)
    (hc : check.state ≠ HealthCheckState.completed) (hs : Sound check) :
    Sound (check.afterTimeout now (timeoutTarget check.state) message) := by
  obtain ⟨header, cluster, envId, state, details⟩ := check
  have hverdict : IsVerdict (some .timeout) := .inr (.inr rfl)
  cases state with
  | init => exact ⟨hverdict, fun hq => by cases hq⟩
  | launching => exact ⟨hverdict, hs.2.1, hs.2.2.2⟩
  | pendingVerify => exact ⟨hverdict, hs.2.1, hs.2.2.2⟩
  | completing => exact ⟨hverdict, fun hq => by cases hq⟩
  | completed => exact absurd rfl hc

theorem follows_afterTimeout {check : HealthCheck} (now : Instant) (message : String)
    (hc : check.state ≠ HealthCheckState.completed) :
    Follows check (check.afterTimeout now (timeoutTarget check.state) message) := by
  have hlt : ∀ s : HealthCheckState, s ≠ .completed → rank s < rank (timeoutTarget s) := by
    intro s hs
    cases s with
    | completed => exact absurd rfl hs
    | _ => decide
  exact ⟨rfl, rfl, rfl, rfl, rfl, rfl, .inr (hlt check.state hc)⟩

theorem Drafts.sound {check next : HealthCheck} (h : Drafts check next) (hs : Sound check) :
    Sound next := by
  rcases h with rfl | ⟨hc, rfl⟩
  · exact hs
  · obtain ⟨header, cluster, envId, state, details⟩ := check
    subst hc
    exact ⟨hs.1, fun _ => rfl⟩

theorem Drafts.follows {check y z : HealthCheck} (hy : Drafts check y) (hz : Drafts check z) :
    Follows y z := by
  rcases hy with rfl | ⟨-, rfl⟩ <;> rcases hz with rfl | ⟨-, rfl⟩ <;>
    exact ⟨rfl, rfl, rfl, rfl, rfl, rfl, .inl rfl⟩

theorem stores_of_tidies {D : HealthCheck → Prop} {c : Call} (h : tidies c = true) :
    c.Stores D := by
  rintro y rfl
  cases h

theorem stores_of_stepActs {D : HealthCheck → Prop} {s : HealthCheckState} {c : Call}
    (h : stepActs s c) : c.Stores D := by
  rintro y rfl
  unfold stepActs at h
  split at h
  · cases h
  · rcases h with h | h <;> cases h

theorem stores_of_tidiesOrStores {check : HealthCheck} {c : Call}
    (h : tidiesOrStores check c) : c.Stores (Drafts check) := by
  rcases h with h | ⟨hs, rfl⟩
  · exact stores_of_tidies h
  · intro y hy
    cases hy
    exact .inr ⟨hs, rfl⟩

/-- Past INIT and before COMPLETED a sound check has a probe host. -/
theorem Sound.hostId_ne_none {check : HealthCheck} (h : Sound check)
    (hi : check.state ≠ HealthCheckState.init) (hc : check.state ≠ HealthCheckState.completed) :
    check.details.hostId ≠ none := by
  obtain ⟨header, cluster, envId, state, details⟩ := check
  intro hn
  cases state with
  | init => exact hi rfl
  | launching => exact Option.isSome_iff_ne_none.mp h.2.1 hn
  | pendingVerify => exact Option.isSome_iff_ne_none.mp h.2.1 hn
  | completing => exact Option.isSome_iff_ne_none.mp h.2.1 hn
  | completed => exact hc rfl

/-- Every part of the life cycle keeps to the course of a health check. -/
theorem course (config : ImageCheckSettings) :
    (lifecycle config).Course Sound Drafts Follows where
  refl := Follows.refl
  draft_refl _ := .inl rfl
  draft_id check y hy := by
    rcases hy with rfl | ⟨-, rfl⟩ <;> rfl
  draft check y z hs hy hz := ⟨hz.sound hs, hy.follows hz⟩
  touch check now hc hs := ⟨hs, rfl, rfl, rfl, rfl, rfl, rfl, .inl rfl⟩
  expire check now hc hs := ⟨sound_afterTimeout now _ hc hs, follows_afterTimeout now _ hc⟩
  timeout := failsOnly_ofSetting (fun _ h => h) _
  isPaused E hE check := within_clusterIsPaused rfl (hE _ rfl)
  onTimeout E hE check source :=
    Meets.mono (within_onTimeout hE config check) (fun _ => stores_of_tidiesOrStores)
      fun _ h => h
  step E hE check now hc hs := by
    have hn : check.state ≠ HealthCheckState.init → check.details.hostId = none → ∀ f, E f := by
      intro hi hn
      exact hs.resolve_left fun hs => hs.hostId_ne_none hi hc hn
    exact Meets.mono (meets_step hE config check now (fun he => absurd he hc) hn)
      (fun _ => stores_of_stepActs) fun _ h => h.settles hc

theorem sound_new (id : ItemId) (cluster : String) (env : EnvId) (kind : HealthCheckKind)
    (image : String) (now : Instant) : Sound (HealthCheck.new id cluster env kind image now) :=
  ⟨rfl, rfl⟩

/-! ## Over whole runs -/

/-- All later versions of a check follow it. -/
theorem follows_run {check next : HealthCheck}
    (h : Relation.ReflTransGen (fun y z => Sound z ∧ Follows y z) check next) :
    Follows check next := by
  induction h with
  | refl => exact .refl check
  | tail _ hstep ih => exact ih.trans hstep.2

/-- All later versions of a sound check are sound. -/
theorem sound_run {check next : HealthCheck} (hs : Sound check)
    (h : Relation.ReflTransGen (fun y z => Sound z ∧ Follows y z) check next) : Sound next := by
  cases h with
  | refl => exact hs
  | tail _ hstep => exact hstep.1

/-- Between two moments of a run the stored check has changed its state. -/
def Transitions (config : ImageCheckSettings) (id : ItemId) (raises : Fault → Prop)
    (s t : Session .check) : Prop :=
  Session.Run (lifecycle config) id (World.Untouched .check id) (World.Possible Eq raises) s t ∧
    ∃ check next, s.stored id = some check ∧ t.stored id = some next ∧ next.state ≠ check.state

/-- No more transitions can follow than there are ranks above. -/
theorem length_transitions_le {config : ImageCheckSettings} {id : ItemId}
    {raises : Fault → Prop} {s : Session .check} {check : HealthCheck}
    (hs : ((course config).view id raises).Safe s check) (later : List (Session .check))
    (h : (s :: later).IsChain (Transitions config id raises)) :
    later.length ≤ 4 - rank check.state := by
  induction later generalizing s check with
  | nil => simp
  | cons t later ih =>
      obtain ⟨⟨hrun, c, next, hc, hn, hne⟩, hrest⟩ := List.isChain_cons_cons.mp h
      obtain ⟨last, ht, hlast⟩ := hs.run hrun
      obtain rfl := Lifecycle.Course.eq_of_stored hs hc
      obtain rfl := Lifecycle.Course.eq_of_stored ht hn
      have hlen := ih ht hrest
      have hrank := rank_le next.state
      have hlt : rank c.state < rank next.state := (follows_run hlast).moves.resolve_left hne
      rw [List.length_cons]
      omega

end FleetControl.ImageCheck
