import FleetControl.Proofs.Phases
import FleetControl.Workers

/-!
# Footprints

Which calls the controllers can make at all, whatever they are answered. Every controller
reads freely and changes only what its footprint names. Work items and locks are left out:
the engine stores items, and locks are taken around the work. What a check does once it has a
verdict, and what a promotion does, is stated of any property that the calls in question have.
-/
namespace FleetControl

/-- Whether a call of the store only looks. -/
def StoreCall.isRead : StoreCall → Bool
  | .getItem _ _ | .listItems _ _ | .recentItems _ _ _ | .getCluster _ | .getEnvironment _
  | .environmentByStage _ _ | .getImage _ | .getHost _ | .hostsInStates _ | .envHostIds _
  | .retirableHostIds _ | .retirableFailedHostIds _ | .failedHostIds _ | .agentsByHost _
  | .countServing _ | .getDeploy _ | .getBuild _ | .promoteConfig _ | .autoPromoteEnvIds
  | .buildsPublishedBetween _ _ _ _ | .deploysStartedBetween _ _ _ _ | .getConstraint _
  | .constraintIdsInStates _ | .taggedHostIds _ _ => true
  | .insertItem _ _ | .updateItem _ _ | .setClusterState _ _ | .setClusterImage _ _
  | .insertHost _ | .setHostState _ _ | .deleteHost _ | .drainHosts _ _ | .setPromoteKind _ _
  | .createDeploy _ | .setConstraintState _ _ | .deleteHostTags _ _ _ | .insertHostTags _ =>
      false

/-- Whether a call of the provider only looks. -/
def ProviderCall.isRead : ProviderCall → Bool
  | .listTerminated _ | .listRunning _ | .currentPoolSize _ | .hostTags _ _ => true
  | .launchHosts _ _ _ | .terminateHosts _ _ _ | .attachToPool _ _ => false

/-- Whether a call leaves the store, the provider and the locks as they are. -/
def Call.isRead : Call → Bool
  | .store c => c.isRead
  | .provider c => c.isRead
  | .now | .shuffle _ | .post _ | .note _ => true
  | .acquire _ | .release _ _ => false

/-- Whether a call only looks and tells nobody anything. -/
def Call.isQuery : Call → Bool
  | .post _ => false
  | c => c.isRead

theorem Call.isRead_of_isQuery {c : Call} (h : c.isQuery = true) : c.isRead = true := by
  unfold isQuery at h
  split at h
  · cases h
  · exact h

/-- Whether a call leaves all locks alone. -/
def Call.isLockless : Call → Bool
  | .acquire _ | .release _ _ => false
  | .now | .shuffle _ | .post _ | .note _ | .store _ | .provider _ => true

/-- Whether a fault says that an invariant is broken. -/
def Fault.isBreach : Fault → Bool
  | .error (.invariant _) => true
  | _ => false

/-- Only taking locks and giving them back changes them. -/
theorem World.locks_answer {w : World} {c : Call} (h : c.isLockless = true) :
    (World.answer c w).2.locks = w.locks := by
  cases c with
  | store q => rw [answer_store_eq]
  | post n => rw [answer_post_eq]
  | now | shuffle | note | provider => rfl
  | acquire | release => cases h

/-- A call that only looks at a store gives it back. -/
theorem Store.answer_of_isRead {s : Store} {clock : Outcome Instant} {c : StoreCall}
    (h : c.isRead = true) : ∃ a, s.answer clock c = (.ok a, s) := by
  cases c <;> first | exact ⟨_, rfl⟩ | cases h

namespace Program

variable {α : Type} {P : Call → Prop}

variable {E : Fault → Prop}

@[simp] theorem within_ask {c : StoreCall} :
    (ask c).Within P E ↔ P (.store c) := within_perform

@[simp] theorem within_request {c : ProviderCall} :
    (request c).Within P E ↔ P (.provider c) := within_perform

@[simp] theorem within_notify {n : Notification} :
    (notify n).Within P E ↔ P (.post n) := within_perform

@[simp] theorem only_ask {c : StoreCall} : (ask c).Only P ↔ P (.store c) := only_perform

@[simp] theorem only_request {c : ProviderCall} : (request c).Only P ↔ P (.provider c) :=
  only_perform

@[simp] theorem only_notify {n : Notification} : (notify n).Only P ↔ P (.post n) := only_perform

end Program

open Program

section

variable {P : Call → Prop} {E : Fault → Prop} {name : String} {id : EnvId}

theorem within_requireCluster (hread : P (.store (.getCluster name)))
    (hmissing : E (.error (.notFound "cluster" name))) : (requireCluster name).Within P E :=
  .seq (within_ask.mpr hread) fun _ => within_orFail fun _ => hmissing

theorem within_requireEnvironment (hread : P (.store (.getEnvironment id)))
    (hmissing : E (.error (.notFound "environment" id))) : (requireEnvironment id).Within P E :=
  .seq (within_ask.mpr hread) fun _ => within_orFail fun _ => hmissing

theorem within_clusterIsPaused (hread : P (.store (.getCluster name)))
    (hmissing : E (.error (.notFound "cluster" name))) : (clusterIsPaused name).Within P E :=
  .seq (within_requireCluster hread hmissing) fun _ => trivial

end

/-- Work under a lock meets what the work itself meets, where what is reported of a fault that
was contained is as good as the fault. -/
theorem within_exclusively {P : Call → Prop} {E : Fault → Prop}
    (hc : ∀ f, E f → E (.error f.contained)) {α : Type} {name : String} {body : Program α}
    (h : body.Within P E) (ha : P (.acquire name)) (hr : ∀ token, P (.release name token)) :
    (exclusively name body).Within P E := by
  refine ⟨ha, fun r hf => ?_⟩
  rcases r with f | _ | token
  · exact hf
  · trivial
  · refine Meets.bind (p := body.contain) (Meets.contain h) fun outcome ho => ?_
    refine .seq (Meets.mono (Meets.attempt (within_perform.mpr (hr token)))
      (fun _ => id) fun _ _ => trivial) fun _ => ?_
    cases outcome with
    | ok a => trivial
    | error e =>
        obtain ⟨f, hf, rfl⟩ := ho e rfl
        exact hc f hf

section

variable {E : Fault → Prop} (hE : ∀ f, f.isBreach = false → E f)

include hE

/-- A setting that is no span is a crash. -/
theorem failsOnly_ofSetting (seconds : Int) : FailsOnly E (Span.ofSetting seconds) := by
  rw [Span.ofSetting]
  split
  · trivial
  · exact hE _ rfl

/-- A fault that is contained breaks no invariant that was not broken. -/
theorem error_contained {f : Fault} (h : E f) : E (.error f.contained) := by
  cases f with
  | error e => exact h
  | crash payload => exact hE _ rfl

end

theorem only_clusterIsPaused {P : Call → Prop} (h : ∀ c, c.isRead = true → P c)
    (name : String) : (clusterIsPaused name).Only P :=
  within_clusterIsPaused (h _ rfl) trivial

/-- What holds of the five controllers holds of every worker. -/
theorem Config.of_mem_workers {P : Controller → Prop} {config : Config} {worker : Scheduled}
    (h : worker ∈ config.workers) (replacement : P (Replacement.controller config.replacement))
    (healthCheck : P (ImageCheck.controller config.healthCheck))
    (promotion : P (Promotion.controller config.promotion))
    (termination : P Decommission.controller)
    (tagSync : P (TagCoverage.controller config.tagSync)) : P worker.controller := by
  simp only [workers] at h
  obtain ⟨⟨enabled, _⟩, hm, rfl⟩ := List.mem_map.mp h
  simp only [List.mem_filter, List.mem_cons, List.not_mem_nil, or_false, Prod.mk.injEq] at hm
  obtain ⟨(⟨-, rfl⟩ | ⟨-, rfl⟩ | ⟨-, rfl⟩ | ⟨-, rfl⟩ | ⟨-, rfl⟩), -⟩ := hm
  · exact replacement
  · exact healthCheck
  · exact promotion
  · exact termination
  · exact tagSync

/-! ## Replacement -/

namespace Replacement

/-- What a replacement does besides storing its event. -/
def acts : Call → Bool
  | .store (.setClusterState _ .normal) | .store (.setHostState _ .terminating)
  | .store (.drainHosts _ _) | .provider (.launchHosts _ _ none)
  | .provider (.terminateHosts _ _ _) | .provider (.attachToPool _ _) => true
  | c => c.isRead

theorem acts_of_isRead {c : Call} (h : c.isRead = true) : acts c = true := by
  unfold acts
  split <;> first | rfl | exact h

/-- What a replacement does besides storing its event and giving its cluster back. -/
def works : Call → Bool
  | .store (.setClusterState _ _) => false
  | c => acts c

theorem acts_of_works {c : Call} (h : works c = true) : acts c = true := by
  unfold works at h
  split at h
  · cases h
  · exact h

/-- What a replacement does besides storing its event and draining hosts. -/
def keeps : Call → Bool
  | .store (.drainHosts _ _) => false
  | c => acts c

theorem acts_of_keeps {c : Call} (h : keeps c = true) : acts c = true := by
  unfold keeps at h
  split at h
  · cases h
  · exact h

/-- What a replacement does besides storing its event, draining hosts and giving its cluster
back. -/
def tends : Call → Bool
  | .store (.drainHosts _ _) => false
  | c => works c

theorem works_of_tends {c : Call} (h : tends c = true) : works c = true := by
  unfold tends at h
  split at h
  · cases h
  · exact h

theorem keeps_of_tends {c : Call} (h : tends c = true) : keeps c = true := by
  unfold tends at h
  split at h
  · cases h
  · rename_i hdrain
    rw [keeps.eq_2 c hdrain]
    exact acts_of_works h

/-- The same event up to the hosts that it tracks. -/
def Retracks (event changed : UpgradeEvent) : Prop := ∃ ids, changed = event.withHostIds ids

theorem Retracks.refl (event : UpgradeEvent) : Retracks event event := ⟨event.hostIds, rfl⟩

theorem Retracks.withHostIds {event changed : UpgradeEvent} (h : Retracks event changed)
    (ids : IdSet) : Retracks event (changed.withHostIds ids) := by
  obtain ⟨old, rfl⟩ := h
  exact ⟨ids, rfl⟩

/-- A call within the footprint, or one that stores the event with other hosts. -/
def actsOrStores (event : UpgradeEvent) (c : Call) : Prop :=
  acts c = true ∨ ∃ changed, c = .store (.updateItem .upgrade changed) ∧ Retracks event changed

/-- Such a call, but for one that gives the cluster back. -/
def worksOrStores (event : UpgradeEvent) (c : Call) : Prop :=
  works c = true ∨ ∃ changed, c = .store (.updateItem .upgrade changed) ∧ Retracks event changed

/-- A call within the footprint, but for one that drains hosts, or one that stores the event. -/
def keepsOrStores (event : UpgradeEvent) (c : Call) : Prop :=
  keeps c = true ∨ ∃ changed, c = .store (.updateItem .upgrade changed) ∧ Retracks event changed

/-- Such a call, but for one that gives the cluster back. -/
def tendsOrStores (event : UpgradeEvent) (c : Call) : Prop :=
  tends c = true ∨ ∃ changed, c = .store (.updateItem .upgrade changed) ∧ Retracks event changed

theorem works_of_tendsOrStores {event : UpgradeEvent} {c : Call} (h : tendsOrStores event c) :
    worksOrStores event c := h.imp_left works_of_tends

theorem keeps_of_tendsOrStores {event : UpgradeEvent} {c : Call} (h : tendsOrStores event c) :
    keepsOrStores event c := h.imp_left keeps_of_tends

theorem acts_of_keepsOrStores {event : UpgradeEvent} {c : Call} (h : keepsOrStores event c) :
    actsOrStores event c := h.imp_left acts_of_keeps

theorem acts_of_worksOrStores {event : UpgradeEvent} {c : Call} (h : worksOrStores event c) :
    actsOrStores event c := h.imp_left acts_of_works

/-- What the steps decide, by the state of the event. -/
inductive Decides : UpgradeState → Decision UpgradeState → Prop where
  | wait (s : UpgradeState) : Decides s .stay
  | launched : Decides .init (.enter .launching .succeeded)
  | lost : Decides .launching (.enter .init .succeeded)
  | ready : Decides .launching (.enter .replacing .succeeded)
  | drained : Decides .replacing (.enter .completing .succeeded)
  | finished : Decides .completing (.keepStatus .completed)

/-- What a step ends with: the event up to its hosts, and a decision of its state. -/
def Steps (event : UpgradeEvent) (s : UpgradeState)
    (result : UpgradeEvent × Decision UpgradeState) : Prop :=
  Retracks event result.1 ∧ Decides s result.2

section

variable {E : Fault → Prop} (hE : ∀ f, f.isBreach = false → E f)

theorem within_inspect (hosts : List HostId) (ready : Bool) (failed : IdSet) :
    (inspect hosts ready failed).Within (tends · = true) E := by
  induction hosts generalizing ready failed with
  | nil => trivial
  | cons host hosts ih =>
      refine .seq (within_ask.mpr rfl) fun agents => ?_
      split
      · exact ih _ _
      · exact ih _ _

theorem within_terminate (cluster : String) (ids : List HostId) (drain : Bool) :
    (terminate cluster ids drain).Within (tends · = true) E :=
  .seq (within_request.mpr rfl) fun _ => within_ask.mpr rfl

theorem meets_launching (event : UpgradeEvent) :
    (launching event).Meets (tends · = true) E (Steps event .launching) := by
  simp only [launching]
  split
  · exact ⟨.refl event, .lost⟩
  · refine .seq (within_request.mpr rfl) fun terminated =>
      .seq (within_request.mpr rfl) fun running =>
        .seq (within_inspect _ _ _) fun found => ?_
    split
    · refine ⟨.refl event, ?_⟩
      split
      · exact .ready
      · exact .wait _
    · refine .seq (within_terminate _ _ _) fun _ => ?_
      exact ⟨(Retracks.refl event).withHostIds _, .lost⟩

theorem within_drain (event : UpgradeEvent) (ids : List HostId) :
    (drain event ids).Within (works · = true) E := by
  rw [drain]
  split
  · trivial
  · exact within_ask.mpr rfl

theorem meets_replacing (event : UpgradeEvent) :
    (replacing event).Meets (works · = true) E (Steps event .replacing) := by
  refine .seq (within_ask.mpr rfl) fun retirable => ?_
  split
  · exact ⟨.refl event, .drained⟩
  · refine .seq (within_request.mpr rfl) fun poolSize =>
      .seq (within_ask.mpr rfl) fun serving => ?_
    split
    · exact ⟨.refl event, .wait _⟩
    · refine .seq (within_ask.mpr rfl) fun failed =>
        .seq (within_drain _ _) fun _ => ?_
      split
      · exact .seq (within_drain _ _) fun _ => ⟨.refl event, .wait _⟩
      · exact ⟨.refl event, .wait _⟩

include hE in
theorem within_onTimeout (event : UpgradeEvent) (source : UpgradeState) :
    (onTimeout event source).Within (acts · = true) E :=
  .seq (within_ask.mpr rfl) fun _ =>
    .seq (within_requireEnvironment rfl (hE _ rfl)) fun _ =>
      within_notify.mpr rfl

theorem Meets.orStores {α : Type} {p : Program α} {Q : α → Prop} (event : UpgradeEvent)
    (h : p.Meets (tends · = true) E Q) : p.Meets (tendsOrStores event) E Q :=
  h.mono (fun _ => .inl) fun _ => id

theorem within_store {event changed : UpgradeEvent} (h : Retracks event changed) :
    (ask (.updateItem .upgrade changed)).Within (tendsOrStores event) E :=
  within_ask.mpr (.inr ⟨changed, rfl, h⟩)

include hE in
theorem meets_launchMissing (config : ReplacementSettings) (env : Environment)
    (limit needed : Nat) (launchedAny : Bool) {event changed : UpgradeEvent}
    (h : Retracks event changed) :
    (launchMissing config env limit needed launchedAny changed).Meets (tendsOrStores event) E
      (Steps event .init) := by
  induction limit generalizing needed launchedAny changed with
  | zero => exact ⟨h, .launched⟩
  | succ limit ih =>
      rw [launchMissing]
      split
      · exact ⟨h, .launched⟩
      · refine .seq (within_request.mpr (.inl rfl)) fun launched => ?_
        split
        · refine .seq (within_notify.mpr (.inl rfl)) fun _ => ?_
          split
          · exact ⟨h, .wait _⟩
          · exact hE _ rfl
        · exact .seq (within_store (h.withHostIds _)) fun _ => ih _ _ (h.withHostIds _)

include hE in
theorem meets_init (config : ReplacementSettings) (event : UpgradeEvent) :
    (init config event).Meets (tendsOrStores event) E (Steps event .init) :=
  .seq (within_requireEnvironment (.inl rfl) (hE _ rfl)) fun _ =>
    meets_launchMissing hE _ _ _ _ _ (.refl event)

theorem meets_untrack {event changed : UpgradeEvent} (h : Retracks event changed)
    (ids : List HostId) :
    (untrack changed ids).Meets (tendsOrStores event) E (Retracks event) :=
  .seq (within_store (h.withHostIds _)) fun _ => h.withHostIds _

theorem meets_keepRunning (event : UpgradeEvent) (active : List HostId) :
    (keepRunning event active).Meets (tendsOrStores event) E (Retracks event) := by
  have h := (Retracks.refl event).withHostIds (.ofList active)
  rw [keepRunning]
  split
  · exact .refl event
  · exact .seq (within_store h) fun _ => h

theorem meets_discardFailed (cluster : String) {event changed : UpgradeEvent}
    (h : Retracks event changed) (failedTemps : List HostId) :
    (discardFailed cluster changed failedTemps).Meets (tendsOrStores event) E
      (Retracks event) := by
  rw [discardFailed]
  split
  · exact h
  · exact .seq (Meets.orStores event (within_terminate _ _ _)) fun _ => meets_untrack h _

theorem meets_swapIn (cluster : String) {event changed : UpgradeEvent}
    (h : Retracks event changed) (swaps : Nat) (healthy failedPool : List HostId) :
    (swapIn cluster changed swaps healthy failedPool).Meets (tendsOrStores event) E
      (Retracks event) := by
  rw [swapIn]
  split
  · exact h
  · refine .seq (within_request.mpr (.inl rfl)) fun _ =>
      .bind (meets_untrack h _) fun kept hkept => ?_
    exact .seq (Meets.orStores event (within_terminate _ _ _)) fun _ => hkept

theorem meets_reconcile (event : UpgradeEvent) :
    (reconcile event).Meets (tendsOrStores event) E (Retracks event) := by
  rw [reconcile_eq]
  refine .seq (within_request.mpr (.inl rfl)) fun active =>
    .bind (meets_keepRunning _ _) fun kept h => .seq (within_ask.mpr (.inl rfl))
      fun failed => .bind (meets_discardFailed _ h _) fun kept h =>
        .bind (meets_swapIn _ h _ _ _) fun kept h => .seq ?_ fun _ => h.withHostIds _
  rw [terminateSurplus]
  split
  · exact Meets.orStores event (within_terminate _ _ _)
  · trivial

theorem meets_reconcileIfDue (event : UpgradeEvent) (serving poolSize : Nat) :
    (reconcileIfDue event serving poolSize).Meets (tendsOrStores event) E (Retracks event) := by
  rw [reconcileIfDue]
  split
  · exact .refl event
  · exact meets_reconcile event

theorem meets_completing (event : UpgradeEvent) :
    (completing event).Meets (keepsOrStores event) E (Steps event .completing) := by
  rw [completing_eq]
  exact .seq (within_ask.mpr (.inl rfl)) fun serving =>
    .seq (within_request.mpr (.inl rfl)) fun poolSize =>
      .bind ((meets_reconcileIfDue event serving poolSize).mono
        (fun _ => keeps_of_tendsOrStores) fun _ => id) fun changed h =>
        .seq (within_ask.mpr (.inl rfl)) fun _ => ⟨h, .finished⟩

include hE in
/-- No step but that of COMPLETING gives the cluster back. -/
theorem meets_step_of_ne (config : ReplacementSettings) (event : UpgradeEvent)
    (hc : event.state ≠ UpgradeState.completing)
    (h : event.state = UpgradeState.completed → ∀ f, E f) :
    (step config event).Meets (worksOrStores event) E (Steps event event.state) := by
  simp only [step]
  split <;> rename_i hs
  · rw [hs]
    exact (meets_init hE config event).mono (fun _ => works_of_tendsOrStores) fun _ => id
  · rw [hs]
    exact (meets_launching event).mono (fun _ h => .inl (works_of_tends h)) fun _ => id
  · rw [hs]
    exact (meets_replacing event).mono (fun _ => .inl) fun _ => id
  · exact absurd hs hc
  · exact h hs _

include hE in
/-- No step but that of REPLACING drains hosts. -/
theorem meets_step_of_ne_replacing (config : ReplacementSettings) (event : UpgradeEvent)
    (hr : event.state ≠ UpgradeState.replacing)
    (h : event.state = UpgradeState.completed → ∀ f, E f) :
    (step config event).Meets (keepsOrStores event) E (Steps event event.state) := by
  simp only [step]
  split <;> rename_i hs
  · rw [hs]
    exact (meets_init hE config event).mono (fun _ => keeps_of_tendsOrStores) fun _ => id
  · rw [hs]
    exact (meets_launching event).mono (fun _ h => .inl (keeps_of_tends h)) fun _ => id
  · exact absurd hs hr
  · rw [hs]
    exact meets_completing event
  · exact h hs _

include hE in
/-- Whatever its state, the step of an event stays within the footprint. Only in COMPLETED
an invariant is broken. -/
theorem meets_step (config : ReplacementSettings) (event : UpgradeEvent)
    (h : event.state = UpgradeState.completed → ∀ f, E f) :
    (step config event).Meets (actsOrStores event) E (Steps event event.state) := by
  by_cases hs : event.state = UpgradeState.completing
  · simp only [step, hs]
    exact (meets_completing event).mono (fun _ => acts_of_keepsOrStores) fun _ => id
  · exact (meets_step_of_ne hE config event hs h).mono (fun _ => acts_of_worksOrStores)
      fun _ => id

end

end Replacement

/-! ## Image checks -/

namespace ImageCheck

/-- What a health check does once its probe host is launched, besides storing itself and
taking the lock of an image. -/
def tidies : Call → Bool
  | .store (.setClusterImage _ _) | .store (.setHostState _ .terminating)
  | .provider (.terminateHosts _ _ _) => true
  | c => c.isRead

/-- What a health check does besides storing itself and taking the lock of an image. -/
def acts : Call → Bool
  | .store (.insertHost _) | .provider (.launchHosts _ 1 _) => true
  | c => tidies c

theorem tidies_of_isRead {c : Call} (h : c.isRead = true) : tidies c = true := by
  unfold tidies
  split <;> first | rfl | exact h

theorem acts_of_isRead {c : Call} (h : c.isRead = true) : acts c = true := by
  unfold acts
  split <;> first | rfl | exact tidies_of_isRead h

/-- A call of the last phase: within the footprint, or one of locks. -/
def tidiesOrLocks (c : Call) : Prop := tidies c = true ∨ c.isLockless = false

/-- The same check up to the deploy times that it took over. -/
def Redates (check changed : HealthCheck) : Prop :=
  ∃ start complete, changed = { check with details := { check.details with
    deployStartTime := start
    deployCompleteTime := complete } }

theorem Redates.refl (check : HealthCheck) : Redates check check := ⟨_, _, rfl⟩

/-- The check with a probe host launched now. -/
def launchedOn (check : HealthCheck) (id : HostId) (now : Instant) : HealthCheck :=
  { check with details := { check.details with
      hostId := some id
      hostLaunchTime := some now
      hostTerminated := false } }

/-- The check with its probe host terminated. -/
def released (check : HealthCheck) : HealthCheck :=
  { check with details := { check.details with hostTerminated := true } }

/-- What a step ends with, by the state of the check. -/
inductive Steps (check : HealthCheck) (now : Instant) :
    HealthCheckState → HealthCheck × Decision HealthCheckState → Prop where
  | unlaunched (message : String) : Steps check now .init (check, .fail .completed message)
  | launched (id : HostId) :
      Steps check now .init (launchedOn check id now, .enter .launching .succeeded)
  | wait {s : HealthCheckState} {changed : HealthCheck} (hs : s ≠ .init)
      (h : Redates check changed) : Steps check now s (changed, .stay)
  | checkedIn : Steps check now .launching (check, .enter .pendingVerify .succeeded)
  | failed {s : HealthCheckState} {changed : HealthCheck}
      (hs : s = .launching ∨ s = .pendingVerify) (h : Redates check changed)
      (message : String) : Steps check now s (changed, .fail .completing message)
  | qualified {changed : HealthCheck} (h : Redates check changed) :
      Steps check now .pendingVerify (changed, .enter .completing .qualified)
  | finished : Steps check now .completing (released check, .keepStatus .completed)
  /-- Nothing is left to terminate. -/
  | unneeded (h : check.details.hostId = none ∨ check.details.hostTerminated = true) :
      Steps check now .completing (check, .keepStatus .completed)

/-- What a step gives back is the same check in its identity. -/
theorem Steps.identity {check : HealthCheck} {now : Instant} {s : HealthCheckState}
    {result : HealthCheck × Decision HealthCheckState} (h : Steps check now s result) :
    result.1.header = check.header ∧ result.1.cluster = check.cluster ∧
      result.1.envId = check.envId ∧ result.1.state = check.state ∧
      result.1.details.kind = check.details.kind ∧
      result.1.details.imageId = check.details.imageId := by
  cases h with
  | wait _ h | failed _ h | qualified h =>
      obtain ⟨start, complete, rfl⟩ := h
      exact ⟨rfl, rfl, rfl, rfl, rfl, rfl⟩
  | _ => exact ⟨rfl, rfl, rfl, rfl, rfl, rfl⟩

theorem Steps.id_eq {check : HealthCheck} {now : Instant} {s : HealthCheckState}
    {result : HealthCheck × Decision HealthCheckState} (h : Steps check now s result) :
    result.1.id = check.id := congrArg ItemHeader.id h.identity.1

theorem redates_recordDeploy (check : HealthCheck) (agents : List Agent) :
    Redates check (recordDeploy check agents) := by
  have hfold : ∀ (agents : List Agent) (d : CheckDetails), ∃ start complete,
      agents.foldl (fun (d : CheckDetails) a =>
        { d with
          deployStartTime := a.deployStart
          deployCompleteTime := a.firstDeployTime.or d.deployCompleteTime }) d =
        { d with deployStartTime := start, deployCompleteTime := complete } := by
    intro agents
    induction agents with
    | nil => exact fun d => ⟨_, _, rfl⟩
    | cons a agents ih =>
        intro d
        obtain ⟨start, complete, h⟩ := ih _
        exact ⟨start, complete, h⟩
  obtain ⟨start, complete, h⟩ := hfold (agents.filter fun a => a.envId == check.envId)
    check.details
  exact ⟨start, complete, congrArg (fun d => ({ check with details := d } : HealthCheck)) h⟩

section

variable {P : Call → Prop} {E : Fault → Prop} {check : HealthCheck}

/-- Whether the calls are allowed that end the probe host of a check. -/
def MayRelease (P : Call → Prop) (check : HealthCheck) : Prop :=
  ∀ id, check.details.hostId = some id →
    P (.provider (.terminateHosts check.cluster [id] false)) ∧
      P (.store (.setHostState [id] .terminating))

/-- One call adopts an image, and all others only look. -/
theorem within_adoptImage {cluster image : String}
    (hread : ∀ q : StoreCall, q.isRead = true → P (.store q))
    (hset : P (.store (.setClusterImage cluster image)))
    (hmissing : ∀ kind id, E (.error (.notFound kind id))) :
    (adoptImage cluster image).Within P E := by
  rw [adoptImage_eq]
  refine .seq (within_requireCluster (hread _ rfl) (hmissing _ _)) fun record =>
    .seq (within_ask.mpr (hread _ rfl)) fun found =>
      .seq (within_orFail fun _ => hmissing _ _) fun candidate => .seq ?_ fun current => ?_
  · rw [currentImage.eq_def]
    split
    · exact within_ask.mpr (hread _ rfl)
    · trivial
  · split
    · trivial
    · exact within_ask.mpr hset

/-- Only a check that has qualified and is no periodic one gives its image, under the lock. -/
theorem within_imageIsBusy (hread : ∀ q : StoreCall, q.isRead = true → P (.store q))
    (hlock : ∀ c, c.isLockless = false → P c)
    (hset : check.header.status = some .qualified → check.details.kind ≠ .timeTriggered →
      P (.store (.setClusterImage check.cluster check.details.imageId)))
    (hmissing : ∀ kind id, E (.error (.notFound kind id)))
    (hcontained : ∀ f, E f → E (.error f.contained)) :
    (imageIsBusy check).Within P E := by
  rw [imageIsBusy]
  split
  · rename_i hoffers
    simp only [Bool.and_eq_true, beq_iff_eq, bne_iff_ne] at hoffers
    have hadopt : (adoptImage check.cluster check.details.imageId).Within P E :=
      within_adoptImage hread (hset hoffers.1 hoffers.2) hmissing
    refine .seq (.seq ?_ fun _ => trivial) fun _ => trivial
    exact within_exclusively hcontained hadopt (hlock _ rfl) fun _ => hlock _ rfl
  · trivial

/-- What is released was not yet, and it is the probe host. -/
theorem meets_releaseProbe (hprobe : MayRelease P check) :
    (releaseProbe check).Meets P E fun changed => changed = some (released check) ∨
      (changed = none ∧ (check.details.hostId = none ∨ check.details.hostTerminated = true)) := by
  rw [releaseProbe.eq_def]
  split
  · rename_i hn
    exact .inr ⟨rfl, .inl hn⟩
  · rename_i id hid
    obtain ⟨hterminate, hmark⟩ := hprobe id hid
    split
    · rename_i ht
      exact .inr ⟨rfl, .inr ht⟩
    · exact .seq (within_request.mpr hterminate) fun _ =>
        .seq (within_ask.mpr hmark) fun _ => .inl rfl

/-- The last phase waits for the lock of an image, or ends once the probe host is released. -/
theorem meets_completing_of (now : Instant) (hbusy : (imageIsBusy check).Within P E)
    (hprobe : MayRelease P check) :
    (completing check).Meets P E (Steps check now .completing) := by
  rw [completing_eq]
  refine .seq hbusy fun busy => ?_
  split
  · exact .wait (by decide) (.refl check)
  · refine .bind (meets_releaseProbe hprobe) ?_
    rintro changed (rfl | ⟨rfl, h⟩)
    · exact .finished
    · exact .unneeded h

/-- Only a completed check is cleaned up; it ends with an error only if a call fails so. -/
theorem meets_cleanUp
    (hstore : check.state = HealthCheckState.completed →
      P (.store (.updateItem .check (released check))))
    (hprobe : check.state = HealthCheckState.completed → MayRelease P check) :
    (cleanUp check).Meets P E fun r => ∀ e, r = .error e → E (.error e) := by
  rw [cleanUp]
  split
  · rename_i hs
    refine Meets.attempt (Q := fun _ => True) (.bind (meets_releaseProbe (hprobe hs)) ?_)
    rintro changed (rfl | ⟨rfl, -⟩)
    · exact within_ask.mpr (hstore hs)
    · trivial
  · intro e he
    cases he

/-- An alert only looks and tells. -/
theorem within_alert_of {config : ImageCheckSettings} {subject message : String}
    (hread : ∀ c, c.isRead = true → P c) (hmissing : ∀ kind id, E (.error (.notFound kind id)))
    (hlook : FailsOnly E (lookback (config.failuresBeforePage - 1))) :
    (alert config check subject message).Within P E := by
  refine .seq (within_requireCluster (hread _ rfl) (hmissing _ _)) fun cluster =>
    .seq ?_ fun page => within_notify.mpr (hread _ rfl)
  exact .seq (within_ofOutcome hlook) fun limit =>
    .seq (within_ask.mpr (hread _ rfl)) fun _ => trivial

theorem within_onTimeout_of {config : ImageCheckSettings}
    (hclean : (cleanUp check).Meets P E fun r => ∀ e, r = .error e → E (.error e))
    (halert : ∀ subject message, (alert config check subject message).Within P E) :
    (onTimeout config check).Within P E := by
  rw [onTimeout_eq]
  refine .bind hclean fun cleaned h => .seq (halert _ _) fun _ => ?_
  cases cleaned with
  | ok u => trivial
  | error e => exact h e rfl

end

section

variable {E : Fault → Prop} (hE : ∀ f, f.isBreach = false → E f)

include hE

theorem within_alert (config : ImageCheckSettings) (check : HealthCheck)
    (subject message : String) :
    (alert config check subject message).Within (·.isRead = true) E := by
  refine within_alert_of (fun _ => id) (fun _ _ => hE _ rfl) ?_
  rw [lookback]
  split
  · trivial
  · exact hE _ rfl

/-- Failing leads to COMPLETED from INIT and to COMPLETING from any other state. -/
theorem meets_fail (config : ImageCheckSettings) {check changed : HealthCheck} {now : Instant}
    {s : HealthCheckState} (hs : changed.state = s) (subject message : String)
    (h : Steps check now s
      (changed, .fail (if s = .init then .completed else .completing) message)) :
    (fail config changed subject message).Meets (·.isRead = true) E (Steps check now s) := by
  subst hs
  exact .seq (within_alert hE _ _ _ _) fun _ => h

theorem meets_init (config : ImageCheckSettings) {check : HealthCheck} (now : Instant)
    (hs : check.state = HealthCheckState.init) :
    (init config check now).Meets (acts · = true) E (Steps check now .init) := by
  refine .seq (within_request.mpr rfl) fun launched => ?_
  split
  · refine Meets.mono ?_ (fun _ => acts_of_isRead) fun _ => id
    exact meets_fail hE _ hs _ _ (.unlaunched _)
  · exact .seq (within_ask.mpr rfl) fun _ => .launched _

omit hE in
/-- A check with a probe host finds it. -/
theorem within_probe {check : HealthCheck} (hn : check.details.hostId = none → ∀ f, E f) :
    (probe check).Within (·.isRead = true) E :=
  within_orFail fun h => hn h _

theorem meets_launching (config : ImageCheckSettings) {check : HealthCheck} (now : Instant)
    (hs : check.state = HealthCheckState.launching)
    (hn : check.details.hostId = none → ∀ f, E f) :
    (launching config check now).Meets (·.isRead = true) E (Steps check now .launching) := by
  have hfail : ∀ subject message : String,
      (fail config check subject message).Meets (·.isRead = true) E
        (Steps check now .launching) :=
    fun _ _ => meets_fail hE _ hs _ _ (.failed (.inl rfl) (.refl check) _)
  refine .seq (within_probe hn) fun id => .seq (within_request.mpr rfl)
    fun terminated => ?_
  split
  · exact hfail _ _
  · refine .seq (within_ask.mpr rfl) fun host => ?_
    split
    · exact .checkedIn
    · exact hfail _ _
    · exact hfail _ _
    all_goals
      refine .seq (within_requireCluster rfl (hE _ rfl)) fun cluster =>
        .seq (within_ofOutcome (failsOnly_ofSetting hE _)) fun grace => ?_
      dsimp only
      split
      · exact hfail _ _
      · exact .wait (by decide) (.refl check)

theorem meets_pendingVerify (config : ImageCheckSettings) {check : HealthCheck} (now : Instant)
    (hs : check.state = HealthCheckState.pendingVerify)
    (hn : check.details.hostId = none → ∀ f, E f) :
    (pendingVerify config check).Meets (·.isRead = true) E (Steps check now .pendingVerify) := by
  refine .seq (within_probe hn) fun id => .seq (within_ask.mpr rfl)
    fun agents => ?_
  have h := redates_recordDeploy check agents
  split
  · exact .wait (by decide) (.refl check)
  · dsimp only
    split
    · refine meets_fail hE _ ?_ _ _ (.failed (.inr rfl) h _)
      obtain ⟨start, complete, he⟩ := h
      rw [he]
      exact hs
    · split
      · exact .qualified h
      · exact .wait (by decide) h

theorem meets_completing (check : HealthCheck) (now : Instant) :
    (completing check).Meets tidiesOrLocks E (Steps check now .completing) := by
  refine meets_completing_of now ?_ fun _ _ => ⟨.inl rfl, .inl rfl⟩
  exact within_imageIsBusy (fun _ hq => .inl (tidies_of_isRead hq)) (fun _ => .inr)
    (fun _ _ => .inl rfl) (fun _ _ => hE _ rfl) fun _ => error_contained hE

/-- A call that a check past INIT makes, or one of INIT. -/
def stepActs (s : HealthCheckState) (c : Call) : Prop :=
  if s = .init then acts c = true else tidiesOrLocks c

/-- Whatever its state, the step of a check stays within the footprint. An invariant is
broken only in COMPLETED and where the probe host is missing. -/
theorem meets_step (config : ImageCheckSettings) (check : HealthCheck) (now : Instant)
    (hc : check.state = HealthCheckState.completed → ∀ f, E f)
    (hn : check.state ≠ HealthCheckState.init → check.details.hostId = none → ∀ f, E f) :
    (step config check now).Meets (stepActs check.state) E (Steps check now check.state) := by
  simp only [step]
  split <;> rename_i hs <;> rw [hs]
  · exact meets_init hE config now hs
  · refine Meets.mono (meets_launching hE config now hs (hn (by simp [hs])))
      (fun c h => ?_) fun _ => id
    exact .inl (tidies_of_isRead h)
  · refine Meets.mono (meets_pendingVerify hE config now hs (hn (by simp [hs])))
      (fun c h => ?_) fun _ => id
    exact .inl (tidies_of_isRead h)
  · exact meets_completing hE check now
  · exact hc hs _

/-- A call that follows a timeout: within the footprint, or storing the end of the probe
host of a completed check. -/
def tidiesOrStores (check : HealthCheck) (c : Call) : Prop :=
  tidies c = true ∨ (check.state = HealthCheckState.completed ∧
    c = .store (.updateItem .check (released check)))

theorem within_onTimeout (config : ImageCheckSettings) (check : HealthCheck) :
    (onTimeout config check).Within (tidiesOrStores check) E := by
  refine within_onTimeout_of ?_ fun _ _ => ?_
  · exact meets_cleanUp (fun hs => .inr ⟨hs, rfl⟩) fun _ _ _ => ⟨.inl rfl, .inl rfl⟩
  · exact Meets.mono (within_alert hE _ _ _ _) (fun _ hc => .inl (tidies_of_isRead hc))
      fun _ => id

end

end ImageCheck

/-! ## Promotion -/

namespace Promotion

/-- What a promotion does besides taking the lock of its environment. -/
def acts : Call → Bool
  | .store (.createDeploy _) | .store (.setPromoteKind _ .manual) => true
  | c => c.isRead

theorem acts_of_isRead {c : Call} (h : c.isRead = true) : acts c = true := by
  unfold acts
  split <;> first | rfl | exact h

/-- A candidate is for the environment that it was looked for. -/
def IsFor (env : Environment) (candidate : Option NewDeploy) : Prop :=
  ∀ d, candidate = some d → d.envId = env.id

theorem isFor_map {β : Type} {env : Environment} {f : β → NewDeploy} {found : Option β}
    (h : ∀ b, (f b).envId = env.id) : IsFor env (found.map f) := by
  intro d hd
  obtain ⟨b, -, rfl⟩ := Option.map_eq_some_iff.mp hd
  exact h b

theorem isFor_none {env : Environment} : IsFor env none := nofun

section

variable {E : Fault → Prop}

theorem within_currentBuildDate (current : Option Deploy) :
    (currentBuildDate current).Within (·.isQuery = true) E := by
  cases current with
  | none => trivial
  | some d => exact .seq (within_ask.mpr rfl) fun _ => trivial

theorem meets_newBuild (config : PromotionSettings) (env : Environment)
    (current : Option Deploy) (settings : PromotionRule) (limit : Instant) :
    (newBuild config env current settings limit).Meets (·.isQuery = true) E (IsFor env) := by
  refine .seq (within_currentBuildDate _) fun start => ?_
  split
  · exact isFor_none
  · exact .seq (within_ask.mpr rfl) fun _ => isFor_map fun _ => rfl

theorem within_sourceDate (pred : Environment) (current : Option Deploy) :
    (sourceDate pred current).Within (·.isQuery = true) E := by
  rw [sourceDate.eq_def]
  split
  · trivial
  · split
    · trivial
    · refine .seq (within_ask.mpr rfl) fun source => ?_
      split <;> trivial

theorem within_soundDeploys (ds : List Deploy) :
    (soundDeploys ds).Within (·.isQuery = true) E := by
  induction ds with
  | nil => trivial
  | cons d ds ih =>
      rw [soundDeploys]
      split
      · exact .seq (within_ask.mpr rfl) fun _ => .seq ih fun _ => trivial
      · exact ih

theorem meets_provenDeploy (config : PromotionSettings) (env : Environment)
    (current : Option Deploy) (settings : PromotionRule) (predStage : String)
    (limit : Instant) :
    (provenDeploy config env current settings predStage limit).Meets (·.isQuery = true) E
      (IsFor env) := by
  refine .seq (within_ask.mpr rfl) fun pred => ?_
  split
  · exact isFor_none
  · split
    · exact isFor_none
    · refine .seq (within_sourceDate _ _) fun start => ?_
      split
      · exact isFor_none
      · exact .seq (within_ask.mpr rfl) fun _ => .seq (within_soundDeploys _) fun _ =>
          isFor_map fun _ => rfl

theorem meets_findCandidate (config : PromotionSettings) (env : Environment)
    (current : Option Deploy) (settings : PromotionRule) (predStage : String)
    (limit : Instant) :
    (findCandidate config env current settings predStage limit).Meets (·.isQuery = true) E
      (IsFor env) := by
  rw [findCandidate]
  split
  · exact meets_newBuild _ _ _ _ _
  · exact meets_provenDeploy _ _ _ _ _ _

end

section

variable {P : Call → Prop} {E : Fault → Prop} {env : Environment}
  (hread : ∀ c, c.isRead = true → P c)

include hread

/-- One write ends automatic promotion. -/
theorem within_endAutomation {failedDeploy : String}
    (hset : P (.store (.setPromoteKind env.id .manual))) :
    (endAutomation env failedDeploy).Within P E := by
  refine .seq (within_ask.mpr (hread _ rfl)) fun rule => ?_
  split
  · exact .seq (within_ask.mpr hset) fun _ =>
      .seq (within_notify.mpr (hread _ rfl)) fun _ => trivial
  · trivial

theorem within_redeploy {observed : Option String} {candidate : NewDeploy}
    {thenDisable : Option String} (hset : P (.store (.setPromoteKind env.id .manual)))
    (hcreate : P (.store (.createDeploy candidate)))
    (hmissing : ∀ kind id, E (.error (.notFound kind id))) :
    (redeploy env observed candidate thenDisable).Within P E := by
  refine .seq (within_requireEnvironment (hread _ rfl) (hmissing _ _)) fun fresh => ?_
  split
  · trivial
  · refine .seq (within_ask.mpr hcreate) fun deploy => ?_
    split
    · exact .seq (within_endAutomation hread hset) fun _ => trivial
    · trivial

variable (hlock : ∀ c, c.isLockless = false → P c)
  (hcontained : ∀ f, E f → E (.error f.contained))

include hlock hcontained

theorem within_stopPromoting {failedDeploy : String}
    (hset : P (.store (.setPromoteKind env.id .manual))) :
    (stopPromoting env failedDeploy).Within P E :=
  .seq (within_exclusively hcontained (within_endAutomation hread hset)
    (hlock _ rfl) fun _ => hlock _ rfl) fun _ => trivial

theorem within_promoteCandidate {observed : Option String} {candidate : NewDeploy}
    {thenDisable : Option String} (hset : P (.store (.setPromoteKind env.id .manual)))
    (hcreate : P (.store (.createDeploy candidate)))
    (hmissing : ∀ kind id, E (.error (.notFound kind id))) :
    (promoteCandidate env observed candidate thenDisable).Within P E := by
  rw [promoteCandidate_eq]
  refine .seq ?_ fun _ => trivial
  exact within_exclusively hcontained (within_redeploy hread hset hcreate hmissing)
    (hlock _ rfl) fun _ => hlock _ rfl

variable (hset : ∀ id, P (.store (.setPromoteKind id .manual)))
  (hcreate : ∀ d, P (.store (.createDeploy d)))
  (hmissing : ∀ kind id, E (.error (.notFound kind id)))

include hset hcreate hmissing

theorem within_actOn (config : PromotionSettings) (settings : PromotionRule)
    (predStage : String) (now : Instant) (current : Option Deploy) :
    (actOn config env settings predStage now current).Within P E := by
  have hstop : ∀ failed, (stopPromoting env failed).Within P E :=
    fun _ => within_stopPromoting hread hlock hcontained (hset _)
  have hpromote : ∀ observed candidate thenDisable,
      (promoteCandidate env observed candidate thenDisable).Within P E :=
    fun _ _ _ => within_promoteCandidate hread hlock hcontained (hset _) (hcreate _) hmissing
  rw [actOn]
  split
  · trivial
  · split
    · exact hstop _
    · refine .seq (within_ask.mpr (hread _ rfl)) fun history => ?_
      split
      · exact hstop _
      · refine .seq (hpromote _ _ _) fun result => ?_
        split <;> trivial
    · rw [promoteNext_eq]
      refine .bind (Meets.mono (meets_findCandidate _ _ _ _ _ _)
        (fun c hc => hread c (Call.isRead_of_isQuery hc)) fun _ => id) fun candidate _ => ?_
      cases candidate with
      | none => trivial
      | some candidate => exact hpromote _ _ _

/-- An attempt to promote creates deploys, ends automatic promotion and takes locks. -/
theorem within_promote (config : PromotionSettings) (id : EnvId) (now : Instant) :
    (promote config id now).Within P E := by
  refine .seq (within_ask.mpr (hread _ rfl)) fun env => ?_
  split
  · trivial
  · split
    · trivial
    · refine .seq (within_ask.mpr (hread _ rfl)) fun rule => ?_
      split
      · trivial
      · split
        · trivial
        · split
          · trivial
          · rw [promoteFrom_eq]
            refine .seq ?_ fun current => within_actOn hread hlock hcontained hset hcreate
              hmissing _ _ _ _ _
            rw [currentDeploy]
            split
            · exact within_ask.mpr (hread _ rfl)
            · trivial

end

/-- What a promotion does, or taking the lock of its environment. -/
def actsOrLocks (c : Call) : Prop := acts c = true ∨ c.isLockless = false

theorem actsOrLocks_of_isRead {c : Call} (h : c.isRead = true) : actsOrLocks c :=
  .inl (acts_of_isRead h)

/-- Whatever it is answered, a promotion stays within its footprint. -/
theorem only_process (config : PromotionSettings) (id : EnvId) :
    ((controller config).process id).Only actsOrLocks :=
  .bind (only_perform.mpr (actsOrLocks_of_isRead rfl)) fun now =>
    .bind (within_promote (fun _ => actsOrLocks_of_isRead) (fun _ => .inr) (fun _ _ => trivial)
      (fun _ => .inl rfl) (fun _ => .inl rfl) (fun _ _ => trivial) config id now) fun _ =>
        only_done _

end Promotion

/-! ## Host termination -/

namespace Decommission

variable {E : Fault → Prop}

/-- What the termination of hosts does. -/
def acts : Call → Bool
  | .store (.deleteHost _) | .store (.setHostState _ .terminating)
  | .provider (.terminateHosts _ _ true) => true
  | c => c.isRead

theorem within_forgetIfGone (host : Host) : (forgetIfGone host).Within (acts · = true) E := by
  refine .seq (within_request.mpr rfl) fun terminated => ?_
  split
  · exact .seq (within_ask.mpr rfl) fun _ => trivial
  · trivial

theorem within_terminateIfIdle (host : Host) :
    (terminateIfIdle host).Within (acts · = true) E := by
  refine .seq (within_ask.mpr rfl) fun agents => ?_
  split
  · exact .seq (within_request.mpr rfl) fun _ => within_ask.mpr rfl
  · trivial

theorem within_process (id : HostId) : (process id).Within (acts · = true) E := by
  refine .seq (within_ask.mpr rfl) fun host => ?_
  split
  · trivial
  · split
    · trivial
    · refine .seq (within_forgetIfGone _) fun removed => ?_
      split
      · exact within_terminateIfIdle _
      · trivial

end Decommission

/-! ## Host tags -/

namespace TagCoverage

variable {E : Fault → Prop}

/-- What keeping host tags does. -/
def acts : Call → Bool
  | .store (.setConstraintState _ _) | .store (.deleteHostTags _ _ _)
  | .store (.insertHostTags _) => true
  | c => c.isRead

theorem within_lookUp (c : DeployConstraint) (batches : List (List HostId)) :
    (lookUp c batches).Within (acts · = true) E := by
  induction batches with
  | nil => trivial
  | cons ids rest ih => exact .seq (within_request.mpr rfl) fun _ => .seq ih fun _ => trivial

/-- Fetch the tags of hosts that lack them, if there are any. -/
def fetch (config : TagSettings) (c : DeployConstraint) (missing : List HostId) :
    Program Unit := do
  if !missing.isEmpty then
    let tags ← lookUp c (batches config.batchSize missing)
    ask (.insertHostTags tags)

theorem within_fetch (config : TagSettings) (c : DeployConstraint) (missing : List HostId) :
    (fetch config c missing).Within (acts · = true) E := by
  rw [fetch]
  split
  · exact .seq (within_lookUp _ _) fun _ => within_ask.mpr rfl
  · trivial

theorem within_align (config : TagSettings) (c : DeployConstraint) :
    (align config c).Within (acts · = true) E := by
  refine .seq (within_ask.mpr rfl) fun env => ?_
  split
  · trivial
  · refine .seq (within_ask.mpr rfl) fun desired => .seq (within_ask.mpr rfl) fun observed => ?_
    dsimp only
    split
    · split
      · trivial
      · exact within_ask.mpr rfl
    · refine .seq (within_ask.mpr rfl) fun _ => ?_
      split
      · exact .seq (within_ask.mpr rfl) fun _ => within_fetch _ _ _
      · exact within_fetch _ _ _

theorem within_process (config : TagSettings) (id : String) :
    (process config id).Within (acts · = true) E := by
  refine .seq (within_ask.mpr rfl) fun found => ?_
  split
  · trivial
  · refine .bind (Meets.attempt (within_align _ _)) fun r hr => ?_
    cases r with
    | ok u => trivial
    | error e =>
        dsimp only
        split
        · exact hr e rfl
        · exact .seq (within_ask.mpr rfl) fun _ => hr e rfl

end TagCoverage

end FleetControl
