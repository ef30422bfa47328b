import FleetControl.Proofs.Footprint

/-!
# Locks around work

A program uses locks in brackets if it takes and gives back a lock only around some work, which
may again use locks in brackets, and handles failures in any way. All controllers do. That the
brackets close whatever fails, and that only tokens that were given are given back, needs no
more than that.
-/
namespace FleetControl

/-- Locks are only taken around work. -/
inductive Program.Bracketed : {α : Type} → Program α → Prop where
  | done {α : Type} (r : Outcome α) : Bracketed (.done r)
  | call {α : Type} {c : Call} {next : Outcome c.Reply → Program α} (h : c.isLockless = true)
      (rest : ∀ r, Bracketed (next r)) : Bracketed (.call c next)
  | exclusively {α : Type} {body : Program α} (name : String) (h : Bracketed body) :
      Bracketed (exclusively name body)
  | bind {α β : Type} {p : Program α} {f : α → Program β} (h : Bracketed p)
      (rest : ∀ a, Bracketed (f a)) : Bracketed (p.bind f)
  | attempt {α : Type} {p : Program α} (h : Bracketed p) : Bracketed p.attempt
  | contain {α : Type} {p : Program α} (h : Bracketed p) : Bracketed p.contain

namespace Program

variable {α β : Type}

/-- Programs that leave all locks alone have nothing to put in brackets. -/
theorem Only.bracketed {p : Program α} (h : p.Only (·.isLockless = true)) : p.Bracketed := by
  induction p with
  | done r => exact .done r
  | call c next ih => exact .call h.1 fun r => ih r (h.2 r (by cases r <;> trivial))

theorem bracketed_fail (e : ControlError) : (fail e : Program α).Bracketed := .done _

theorem bracketed_perform {c : Call} (h : c.isLockless = true) : (perform c).Bracketed :=
  .call h .done

theorem bracketed_ask (c : StoreCall) : (ask c).Bracketed := bracketed_perform rfl

theorem bracketed_map {p : Program α} (h : p.Bracketed) (f : α → β) : (f <$> p).Bracketed :=
  .bind h fun _ => .done _

end Program

open Program

namespace Controller

/-- The listing and the processing use locks in brackets. -/
structure Bracketed (c : Controller) : Prop where
  candidates : c.candidates.Bracketed
  process : ∀ id, (c.process id).Bracketed

theorem Bracketed.attempt {c : Controller} (h : c.Bracketed) (id : String) :
    (c.attempt id).Bracketed := by
  rw [Controller.attempt]
  split
  · refine .bind (.attempt (.exclusively _ (h.process id))) fun outcome => ?_
    split <;> exact .done _
  · refine .bind (.contain (h.process id)) fun outcome => ?_
    split <;> exact .done _

theorem Bracketed.attemptAll {c : Controller} (h : c.Bracketed) (ids : List String)
    (report : PassReport) : (c.attemptAll ids report).Bracketed := by
  induction ids generalizing report with
  | nil => exact .done _
  | cons id ids ih => exact .bind (h.attempt id) fun a => ih _

/-- A pass takes each lock around the work on one candidate. -/
theorem Bracketed.pass {c : Controller} (h : c.Bracketed) : c.pass.Bracketed := by
  refine .bind (.attempt h.candidates) fun listed => ?_
  cases listed with
  | error e => exact .done _
  | ok ids => exact .bind (bracketed_perform rfl) fun order => h.attemptAll _ _

end Controller

theorem lockless_of_isRead {c : Call} (h : c.isRead = true) : c.isLockless = true := by
  cases c <;> first | rfl | cases h

namespace Lifecycle

variable {k : ItemKind} {l : Lifecycle k}

/-- A life cycle whose parts use locks in brackets advances items so. -/
theorem bracketed_advance (hp : ∀ i, (l.isPaused i).Bracketed)
    (hs : ∀ i now, (l.step i now).Bracketed) (ht : ∀ i source, (l.onTimeout i source).Bracketed)
    (id : ItemId) (now : Instant) : (l.advance id now).Bracketed := by
  refine .bind (bracketed_ask _) fun found => ?_
  split
  · exact bracketed_fail _
  · split
    · exact .done _
    · refine .bind (hp _) fun paused => ?_
      split
      · exact .bind (bracketed_ask _) fun _ => .done _
      · refine .bind (.done _) fun limit => ?_
        split
        · exact .bind (bracketed_ask _) fun _ => .bind (.attempt (ht _ _)) fun _ => .done _
        · refine .bind (hs _ _) fun changed => .bind (bracketed_ask _) fun _ => ?_
          split <;> exact .done _

theorem bracketed_controller (hp : ∀ i, (l.isPaused i).Bracketed)
    (hs : ∀ i now, (l.step i now).Bracketed)
    (ht : ∀ i source, (l.onTimeout i source).Bracketed) : l.controller.Bracketed where
  candidates := bracketed_ask _
  process id := .bind (bracketed_perform rfl) fun now =>
    .bind (bracketed_advance hp hs ht id now) fun _ => .done _

end Lifecycle

/-! ## The controllers -/

theorem bracketed_clusterIsPaused (name : String) : (clusterIsPaused name).Bracketed :=
  (only_clusterIsPaused (fun _ => lockless_of_isRead) name).bracketed

namespace Replacement

theorem lockless_of_acts {c : Call} (h : acts c = true) : c.isLockless = true := by
  cases c <;> first | rfl | cases h

theorem lockless_of_actsOrStores {event : UpgradeEvent} {c : Call}
    (h : actsOrStores event c) : c.isLockless = true := by
  rcases h with h | ⟨e, rfl, -⟩
  · exact lockless_of_acts h
  · rfl

theorem bracketed_controller (config : ReplacementSettings) : (controller config).Bracketed := by
  refine Lifecycle.bracketed_controller ?_ ?_ ?_
  · exact fun event => bracketed_clusterIsPaused _
  · intro event now
    have h := meets_step (fun _ _ => trivial) config event fun _ _ => trivial
    exact (h.only.mono fun _ => lockless_of_actsOrStores).bracketed
  · intro event source
    have h := within_onTimeout (fun _ _ => trivial) event source
    exact (Only.mono h fun _ => lockless_of_acts).bracketed

end Replacement

namespace ImageCheck

theorem lockless_of_acts {c : Call} (h : acts c = true) : c.isLockless = true := by
  cases c <;> first | rfl | cases h

theorem bracketed_of_meets {α : Type} {p : Program α} {Q : α → Prop}
    (h : p.Meets (acts · = true) (fun _ => True) Q) : p.Bracketed :=
  (h.only.mono fun _ => lockless_of_acts).bracketed

theorem acts_of_tidies {c : Call} (h : tidies c = true) : acts c = true := by
  unfold acts
  split <;> first | rfl | exact h

theorem bracketed_of_tidies {α : Type} {p : Program α} {Q : α → Prop}
    (h : p.Meets (tidies · = true) (fun _ => True) Q) : p.Bracketed :=
  bracketed_of_meets (h.mono (fun _ => acts_of_tidies) fun _ => id)

theorem bracketed_of_reads {α : Type} {p : Program α} {Q : α → Prop}
    (h : p.Meets (·.isRead = true) (fun _ => True) Q) : p.Bracketed :=
  bracketed_of_meets (h.mono (fun _ => acts_of_isRead) fun _ => id)

theorem bracketed_completing (check : HealthCheck) : (completing check).Bracketed := by
  rw [completing_eq]
  refine .bind ?_ fun busy => ?_
  · rw [imageIsBusy]
    split
    · have h : (adoptImage check.cluster check.details.imageId).Only (tidies · = true) :=
        within_adoptImage (fun _ hq => tidies_of_isRead hq) rfl fun _ _ => trivial
      refine bracketed_map (.bind (.exclusively _ (bracketed_of_tidies h)) ?_) _
      exact fun outcome => .done _
    · exact .done _
  · split
    · exact .done _
    · exact .bind (bracketed_of_tidies (meets_releaseProbe fun _ _ => ⟨rfl, rfl⟩)) fun _ => .done _

theorem bracketed_step (config : ImageCheckSettings) (check : HealthCheck) (now : Instant) :
    (step config check now).Bracketed := by
  have hE : ∀ f : Fault, f.isBreach = false → True := fun _ _ => trivial
  simp only [step]
  split <;> rename_i hs
  · exact bracketed_of_meets (meets_init hE config now hs)
  · exact bracketed_of_reads (meets_launching hE config now hs fun _ _ => trivial)
  · exact bracketed_of_reads (meets_pendingVerify hE config now hs fun _ _ => trivial)
  · exact bracketed_completing _
  · exact bracketed_fail _

theorem bracketed_onTimeout (config : ImageCheckSettings) (check : HealthCheck) :
    (onTimeout config check).Bracketed := by
  have h := within_onTimeout (fun _ _ => trivial) config check
  refine (Only.mono h fun c hc => ?_).bracketed
  rcases hc with hc | ⟨-, rfl⟩
  · exact lockless_of_acts (acts_of_tidies hc)
  · rfl

theorem bracketed_controller (config : ImageCheckSettings) : (controller config).Bracketed := by
  refine Lifecycle.bracketed_controller ?_ ?_ ?_
  · exact fun check => bracketed_clusterIsPaused _
  · exact fun check now => bracketed_step config check now
  · exact fun check _ => bracketed_onTimeout config check

end ImageCheck

namespace Promotion

theorem lockless_of_acts {c : Call} (h : acts c = true) : c.isLockless = true := by
  cases c <;> first | rfl | cases h

theorem bracketed_of_only {α : Type} {p : Program α} (h : p.Only (acts · = true)) :
    p.Bracketed :=
  (h.mono fun _ => lockless_of_acts).bracketed

theorem bracketed_promoteCandidate (env : Environment) (observed : Option String)
    (candidate : NewDeploy) (thenDisable : Option String) :
    (promoteCandidate env observed candidate thenDisable).Bracketed :=
  .bind (.exclusively _ (bracketed_of_only (within_redeploy (fun _ => acts_of_isRead) rfl rfl
    fun _ _ => trivial))) fun _ => .done _

theorem bracketed_stopPromoting (env : Environment) (failedDeploy : String) :
    (stopPromoting env failedDeploy).Bracketed :=
  .bind (.exclusively _ (bracketed_of_only (within_endAutomation (fun _ => acts_of_isRead) rfl)))
    fun _ => .done _

theorem bracketed_revert (config : PromotionSettings) (env : Environment) (failed : Deploy) :
    (revert config env failed).Bracketed := by
  refine .bind (bracketed_ask _) fun history => ?_
  split
  · exact bracketed_stopPromoting _ _
  · refine .bind (bracketed_promoteCandidate _ _ _ _) fun result => ?_
    split <;> exact .done _

theorem bracketed_promoteNext (config : PromotionSettings) (env : Environment)
    (current : Option Deploy) (settings : PromotionRule) (predStage : String) (now : Instant) :
    (promoteNext config env current settings predStage now).Bracketed := by
  rw [promoteNext_eq]
  refine .bind (bracketed_of_only ?_) fun candidate => ?_
  · refine (meets_findCandidate _ _ _ _ _ _).only.mono fun _ hc => ?_
    exact acts_of_isRead (Call.isRead_of_isQuery hc)
  · cases candidate with
    | none => exact .done _
    | some candidate => exact bracketed_promoteCandidate _ _ _ _

theorem bracketed_promoteFrom (config : PromotionSettings) (env : Environment)
    (settings : PromotionRule) (predStage : String) (now : Instant) :
    (promoteFrom config env settings predStage now).Bracketed := by
  rw [promoteFrom_eq]
  refine .bind ?_ fun current => ?_
  · rw [currentDeploy]
    split
    · exact bracketed_ask _
    · exact .done _
  · rw [actOn]
    split
    · exact .done _
    · split
      · exact bracketed_stopPromoting _ _
      · exact bracketed_revert _ _ _
      · exact bracketed_promoteNext _ _ _ _ _ _

theorem bracketed_promote (config : PromotionSettings) (id : EnvId) (now : Instant) :
    (promote config id now).Bracketed := by
  refine .bind (bracketed_ask _) fun env => ?_
  split
  · exact .done _
  · split
    · exact .done _
    · refine .bind (bracketed_ask _) fun rule => ?_
      split
      · exact .done _
      · split
        · exact .done _
        · split
          · exact .done _
          · exact bracketed_promoteFrom _ _ _ _ _

theorem bracketed_controller (config : PromotionSettings) : (controller config).Bracketed where
  candidates := bracketed_ask _
  process id := .bind (bracketed_perform rfl) fun now =>
    .bind (bracketed_promote config id now) fun _ => .done _

end Promotion

theorem Decommission.bracketed_controller : Decommission.controller.Bracketed where
  candidates := .bind (bracketed_ask _) fun _ => .done _
  process id := (Only.mono (within_process id) fun c h => by
    cases c <;> first | rfl | cases h).bracketed

theorem TagCoverage.bracketed_controller (config : TagSettings) :
    (TagCoverage.controller config).Bracketed where
  candidates := bracketed_ask _
  process id := (Only.mono (within_process config id) fun c h => by
    cases c <;> first | rfl | cases h).bracketed

/-- Every controller that a configuration switches on uses locks in brackets. -/
theorem bracketed_workers (config : Config) {worker : Scheduled} (h : worker ∈ config.workers) :
    worker.controller.Bracketed :=
  Config.of_mem_workers h (Replacement.bracketed_controller _) (ImageCheck.bracketed_controller _)
    (Promotion.bracketed_controller _) Decommission.bracketed_controller
    (TagCoverage.bracketed_controller _)

end FleetControl
