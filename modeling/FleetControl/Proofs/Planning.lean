import Mathlib
import FleetControl.Proofs.Keyed
import FleetControl.Proofs.Pause
import FleetControl.Proofs.Promoting

/-!
# What an attempt to promote sets out to do

Before an attempt takes the lock it only reads. In a store that stays as it is, all that it
reads adds up to a plan: a function of the store that says which deploy the attempt will
record, and for what reason. Builds that are tagged bad are left out where an attempt goes on
to a new deploy. Where it goes back from a failed one, the tag is not looked at.
-/
namespace FleetControl

open Program

/-! ## Reading a store that stays as it is -/

/-- Reading a store leads from one program to another, unless a call fails. -/
inductive Program.Looks {α : Type} (s : Store) : Program α → Program α → Prop where
  | refl (p : Program α) : Looks s p p
  | read {c : StoreCall} {a : c.Reply} {next : Outcome c.Reply → Program α} {q : Program α}
      (hc : c.isRead = true) (ha : ∀ clock, s.answer clock c = (.ok a, s))
      (hf : ∀ f, next (.error f) = done (.error f)) (rest : Looks s (next (.ok a)) q) :
      Looks s (.call (.store c) next) q

namespace Program

variable {α β : Type} {s : Store} {p q : Program α}

/-- Reading leads to the end with a value. -/
abbrev Finds (s : Store) (p : Program α) (a : α) : Prop := p.Looks s (done (.ok a))

theorem finds_ask {c : StoreCall} {a : c.Reply} (hc : c.isRead = true)
    (ha : ∀ clock, s.answer clock c = (.ok a, s)) : (ask c).Finds s a :=
  .read hc ha (fun _ => rfl) (.refl _)

theorem Looks.trans {r : Program α} (h : p.Looks s q) (h' : q.Looks s r) : p.Looks s r := by
  induction h with
  | refl => exact h'
  | read hc ha hf _ ih => exact .read hc ha hf (ih h')

theorem Looks.append {f : α → Program β} (h : p.Looks s q) :
    (p.bind f).Looks s (q.bind f) := by
  induction h with
  | refl => exact .refl _
  | read hc ha hf _ ih =>
      refine .read hc ha (fun g => ?_) ih
      rw [hf]
      rfl

/-- What follows a value that reading finds. -/
theorem Finds.bind {f : α → Program β} {q : Program β} {a : α} (h : p.Finds s a)
    (hf : (f a).Looks s q) : (p.bind f).Looks s q := h.append.trans hf

/-- A program keeps what it has come to by reading keeps, if every reading finds what the store
has or leaves the program with a fault as wanted. -/
theorem Looks.keeps {B : Behaviour World} {G : Journal World → Journal World → Prop}
    {Q : Outcome α → Journal World → Prop} {I : Journal World → Prop} {j : Journal World}
    (h : p.Looks s q) (hj : I j)
    (hread : ∀ (j : Journal World) (c : StoreCall) (a : c.Reply) (r : Outcome c.Reply) (w : World),
      c.isRead = true → (∀ clock, s.answer clock c = (.ok a, s)) → I j →
      B (.store c) j.state r w → G j (j.enter (.store c) r w) ∧
        ((r = .ok a ∧ I (j.enter (.store c) r w)) ∨
          ∃ f, r = .error f ∧ Q (.error f) (j.enter (.store c) r w)))
    (hq : ∀ j, I j → q.Keeps B.recorded G Q j) : p.Keeps B.recorded G Q j := by
  induction h generalizing j with
  | refl => exact hq j hj
  | @read c a next _ hc ha hf _ ih =>
      refine keeps_call.mpr ?_
      rintro r _ ⟨w, hb, rfl⟩
      obtain ⟨hg, ⟨rfl, hI⟩ | ⟨f, rfl, hQ⟩⟩ := hread j c a r w hc ha hj hb
      · exact ⟨hg, ih hI hq⟩
      · refine ⟨hg, ?_⟩
        rw [hf]
        exact hQ

/-- A program follows a rule if what it comes to by reading does. -/
theorem Looks.follows {raises : Fault → Prop} {R : Rule World} {I E : Journal World → Prop}
    {Q : α → Journal World → Prop} {j : Journal World} (h : p.Looks s q)
    (hs : j.state.store = some s) (hj : I j)
    (hread : ∀ j c r w, Call.isQuery (.store c) = true → I j →
      R j.log ⟨j.state, .store c, r, w⟩ ∧ I (j.enter (.store c) r w))
    (hfault : ∀ j, I j → E j)
    (hq : ∀ j, j.state.store = some s → I j →
      q.Follows (World.Possible World.SameStore raises) R E Q j) :
    p.Follows (World.Possible World.SameStore raises) R E Q j := by
  refine h.keeps (I := fun j => j.state.store = some s ∧ I j) ⟨hs, hj⟩ ?_
    fun j hj => hq j hj.1 hj.2
  rintro j c a r w hc ha ⟨hs, hj⟩ hb
  obtain ⟨hR, hI⟩ := hread j c r w hc hj
  refine ⟨⟨_, rfl, hR⟩, ?_⟩
  cases r with
  | error f => exact .inr ⟨f, rfl, hfault _ hI⟩
  | ok b =>
      obtain ⟨s₀, clock, hs₀, hw, hb⟩ := hb.store_of_isRead (fun _ hv => hv) hc
      cases hs.symm.trans hs₀
      rw [ha clock] at hb
      cases hb
      exact .inl ⟨rfl, hw, hI⟩

/-- Where no call fails, a program goes on from what it comes to by reading. -/
theorem Looks.run {w : World} (h : p.Looks s q) (hw : w.store = some s) :
    p.run World.answer w = q.run World.answer w := by
  induction h with
  | refl => rfl
  | read _ ha _ _ ih => rw [run_call, World.answer_ask hw (ha w.now), ih]

end Program

/-! ## The plan -/

namespace Store

/-- Whether the build with an id is tagged bad. -/
def isTagged (s : Store) (build : String) : Bool := (s.builds.get? build).any Build.bad

/-- The publication of the current build, or 1970 if it is not known. -/
def currentBuildDate (s : Store) : Option Deploy → Instant
  | none => .epoch
  | some d => (s.builds.get? d.buildId).elim .epoch Build.publishDate

/-- The builds published after the current one, bad ones left out. -/
def freshBuilds (s : Store) (config : PromotionSettings) (env : Environment)
    (current : Option Deploy) (limit : Instant) : List Build :=
  let start := s.currentBuildDate current
  if limit < start then []
  else (s.buildsPublishedBetween env.buildName start limit config.candidateLimit).filter
    fun b => !b.bad

/-- The start of the deploy that the current one was promoted from, or of the current one if
it came from elsewhere. -/
def sourceDate (s : Store) (pred : Environment) : Option Deploy → Instant
  | none => .epoch
  | some current =>
      match current.fromDeploy.bind s.deploys.get? with
      | some source => if source.envId = pred.id then source.startDate else current.startDate
      | none => current.startDate

/-- The good deploys of the preceding environment since then whose build is not tagged bad. -/
def provenDeploys (s : Store) (config : PromotionSettings) (env : Environment)
    (current : Option Deploy) (predStage : String) (limit : Instant) : List Deploy :=
  match s.environmentByStage env.name predStage with
  | none => []
  | some pred =>
      let start := s.sourceDate pred current
      if pred.deployId.isNone || decide (limit < start) then []
      else (s.deploysStartedBetween pred.id start limit config.candidateLimit).filter
        fun d => Promotion.isSound d && !s.isTagged d.buildId

/-- The deploy to go on to. -/
def candidate (s : Store) (config : PromotionSettings) (env : Environment)
    (current : Option Deploy) (rule : PromotionRule) (predStage : String) (limit : Instant) :
    Option NewDeploy :=
  if predStage = PromotionRule.buildStage then
    ((s.freshBuilds config env current limit)[Promotion.rank rule]?).map fun b =>
      ⟨env.id, b.id, none⟩
  else ((s.provenDeploys config env current predStage limit)[Promotion.rank rule]?).map fun d =>
    ⟨env.id, d.buildId, some d.id⟩

/-- The newest good deploy of an environment before the failed one. -/
def lastSound (s : Store) (config : PromotionSettings) (env : Environment) (failed : Deploy) :
    Option Deploy :=
  (s.deploysStartedBetween env.id .epoch failed.startDate config.candidateLimit).find?
    fun d => d.id != failed.id && Promotion.isSound d

end Store

namespace Promotion

/-- What an attempt will do under the lock. -/
inductive Plan where
  /-- Nothing. -/
  | rest (result : Result)
  /-- Only switch to manual promotion. -/
  | stop (env : Environment) (failed : Deploy)
  /-- Go back from a failed deploy to the build of an earlier one. -/
  | goBack (env : Environment) (failed target : Deploy)
  | goOn (env : Environment) (candidate : NewDeploy)

namespace Plan

/-- The deploy to record. -/
def creates : Plan → Option NewDeploy
  | rest _ | stop _ _ => none
  | goBack env _ target => some ⟨env.id, target.buildId, none⟩
  | goOn _ candidate => some candidate

/-- What remains to be done with a plan. -/
def program : Plan → Program Result
  | rest result => pure result
  | stop env failed => stopPromoting env failed.id
  | goBack env failed target => do
      match ← promoteCandidate env (some failed.id) ⟨env.id, target.buildId, none⟩
          (some failed.id) with
      | .promoted id => pure (.rolledBack id)
      | other => pure other
  | goOn env candidate => promoteCandidate env env.deployId candidate none

end Plan

end Promotion

namespace Store

open Promotion (Plan)

/-- The plan for an environment on automatic promotion, from its current deploy. -/
def planFrom (s : Store) (config : PromotionSettings) (env : Environment) (rule : PromotionRule)
    (predStage : String) (now : Instant) : Plan :=
  let current := env.deployId.bind s.deploys.get?
  let next : Plan :=
    match s.candidate config env current rule predStage (now.minutesBefore rule.delayMinutes) with
    | some candidate => .goOn env candidate
    | none => .rest .noCandidate
  if !Promotion.isReplaceable current then .rest .notRetirable
  else
    match current.filter Deploy.isFailed, rule.failPolicy with
    | some failed, .disable => .stop env failed
    | some failed, .revert =>
        match s.lastSound config env failed with
        | some target => .goBack env failed target
        | none => .stop env failed
    | _, _ => next

/-- The plan for an environment. -/
def plan (s : Store) (config : PromotionSettings) (id : EnvId) (now : Instant) : Plan :=
  match s.environments.get? id with
  | none => .rest .ineligible
  | some env =>
      if env.state != .normal then .rest .ineligible
      else
        match s.promoteConfigs.get? id with
        | none => .rest .ineligible
        | some rule =>
            match rule.predStage with
            | none => .rest .ineligible
            | some predStage =>
                if rule.kind != .auto || predStage.isEmpty then .rest .ineligible
                else s.planFrom config env rule predStage now

end Store

namespace Promotion

variable {s : Store}

/-! ## An attempt comes to its plan -/

theorem finds_currentBuildDate (current : Option Deploy) :
    (currentBuildDate current).Finds s (s.currentBuildDate current) := by
  cases current with
  | none => exact .refl _
  | some d => exact (finds_ask rfl fun _ => rfl).bind (.refl _)

theorem finds_newBuild (config : PromotionSettings) (env : Environment)
    (current : Option Deploy) (rule : PromotionRule) (limit : Instant) :
    (newBuild config env current rule limit).Finds s
      (((s.freshBuilds config env current limit)[rank rule]?).map fun b =>
        ⟨env.id, b.id, none⟩) := by
  refine (finds_currentBuildDate current).bind ?_
  simp only [Store.freshBuilds]
  split
  · exact .refl _
  · exact (finds_ask rfl fun _ => rfl).bind (.refl _)

theorem finds_sourceDate (pred : Environment) (current : Option Deploy) :
    (sourceDate pred current).Finds s (s.sourceDate pred current) := by
  cases current with
  | none => exact .refl _
  | some current =>
      simp only [sourceDate, Store.sourceDate]
      cases current.fromDeploy with
      | none => exact .refl _
      | some id =>
          refine (finds_ask (a := s.deploys.get? id) rfl fun _ => rfl).bind ?_
          simp only [Option.bind_some]
          cases s.deploys.get? id <;> exact .refl _

/-- Deploys are looked at one by one, and those with a bad build are left out. -/
theorem finds_soundDeploys (ds : List Deploy) :
    (soundDeploys ds).Finds s (ds.filter fun d => isSound d && !s.isTagged d.buildId) := by
  induction ds with
  | nil => exact .refl _
  | cons d ds ih =>
      rw [soundDeploys, List.filter_cons]
      by_cases hd : isSound d = true
      · simp only [hd, if_true, Bool.true_and]
        refine (finds_ask (a := s.builds.get? d.buildId) rfl fun _ => rfl).bind (ih.bind ?_)
        rw [← Store.isTagged]
        cases s.isTagged d.buildId <;> exact .refl _
      · simp only [hd, Bool.false_and, Bool.false_eq_true, if_false]
        exact ih

theorem finds_provenDeploy (config : PromotionSettings) (env : Environment)
    (current : Option Deploy) (rule : PromotionRule) (predStage : String) (limit : Instant) :
    (provenDeploy config env current rule predStage limit).Finds s
      (((s.provenDeploys config env current predStage limit)[rank rule]?).map fun d =>
        ⟨env.id, d.buildId, some d.id⟩) := by
  refine (finds_ask (a := s.environmentByStage env.name predStage) rfl fun _ => rfl).bind ?_
  simp only [Store.provenDeploys]
  cases s.environmentByStage env.name predStage with
  | none => exact .refl _
  | some pred =>
      by_cases hpred : pred.deployId.isNone = true
      · simp only [hpred, if_true, Bool.true_or]
        exact .refl _
      · simp only [hpred, Bool.false_or, decide_eq_true_eq]
        refine (finds_sourceDate pred current).bind ?_
        split
        · exact .refl _
        · exact (finds_ask rfl fun _ => rfl).bind ((finds_soundDeploys _).bind (.refl _))

theorem finds_findCandidate (config : PromotionSettings) (env : Environment)
    (current : Option Deploy) (rule : PromotionRule) (predStage : String) (limit : Instant) :
    (findCandidate config env current rule predStage limit).Finds s
      (s.candidate config env current rule predStage limit) := by
  rw [findCandidate, Store.candidate]
  split
  · exact finds_newBuild config env current rule limit
  · exact finds_provenDeploy config env current rule predStage limit

theorem looks_revert (config : PromotionSettings) (env : Environment) (failed : Deploy) :
    (revert config env failed).Looks s
      (match s.lastSound config env failed with
        | some target => Plan.goBack env failed target
        | none => .stop env failed).program := by
  refine (finds_ask rfl fun _ => rfl).bind ?_
  rw [Store.lastSound]
  cases List.find? _ _ <;> exact .refl _

theorem looks_promoteNext (config : PromotionSettings) (env : Environment)
    (current : Option Deploy) (rule : PromotionRule) (predStage : String) (now : Instant) :
    (promoteNext config env current rule predStage now).Looks s
      (match s.candidate config env current rule predStage
          (now.minutesBefore rule.delayMinutes) with
        | some candidate => Plan.goOn env candidate
        | none => .rest .noCandidate).program := by
  rw [promoteNext_eq]
  refine (finds_findCandidate config env current rule predStage _).bind ?_
  cases s.candidate config env current rule predStage _ <;> exact .refl _

theorem finds_currentDeploy (env : Environment) :
    (currentDeploy env).Finds s (env.deployId.bind s.deploys.get?) := by
  rw [currentDeploy]
  cases env.deployId with
  | none => exact .refl _
  | some id => exact finds_ask rfl fun _ => rfl

theorem looks_promoteFrom (config : PromotionSettings) (env : Environment)
    (rule : PromotionRule) (predStage : String) (now : Instant) :
    (promoteFrom config env rule predStage now).Looks s
      (s.planFrom config env rule predStage now).program := by
  rw [promoteFrom_eq]
  refine (finds_currentDeploy env).bind ?_
  rw [actOn, Store.planFrom]
  generalize env.deployId.bind s.deploys.get? = current
  split
  · exact .refl _
  · have hnext := looks_promoteNext (s := s) config env current rule predStage now
    cases current.filter Deploy.isFailed with
    | none => exact hnext
    | some failed =>
        cases rule.failPolicy with
        | goOn => exact hnext
        | disable => exact .refl _
        | revert => exact looks_revert config env failed

/-- In a store that stays as it is an attempt comes to its plan by reading. -/
theorem looks_promote (config : PromotionSettings) (id : EnvId) (now : Instant) :
    (promote config id now).Looks s (s.plan config id now).program := by
  refine (finds_ask (a := s.environments.get? id) rfl fun _ => rfl).bind ?_
  rw [Store.plan]
  cases s.environments.get? id with
  | none => exact .refl _
  | some env =>
      dsimp only
      split
      · exact .refl _
      · refine (finds_ask (a := s.promoteConfigs.get? id) rfl fun _ => rfl).bind ?_
        cases s.promoteConfigs.get? id with
        | none => exact .refl _
        | some rule =>
            dsimp only
            cases rule.predStage with
            | none => exact .refl _
            | some predStage =>
                dsimp only
                split
                · exact .refl _
                · exact looks_promoteFrom config env rule predStage now

/-! ## What is recorded -/

/-- What a plan says about the store that it was made from. -/
def Plan.Fits (s : Store) (config : PromotionSettings) : Plan → Prop
  | rest _ | stop _ _ => True
  | goBack env failed target => env.deployId.bind s.deploys.get? = some failed ∧
      failed.isFailed = true ∧ s.lastSound config env failed = some target
  | goOn env d => ∃ current rule predStage limit,
      s.candidate config env current rule predStage limit = some d

theorem fits_planFrom (config : PromotionSettings) (env : Environment) (rule : PromotionRule)
    (predStage : String) (now : Instant) :
    (s.planFrom config env rule predStage now).Fits s config := by
  rw [Store.planFrom]
  generalize hcurrent : env.deployId.bind s.deploys.get? = current
  split
  · trivial
  · have hnext : (match s.candidate config env current rule predStage
        (now.minutesBefore rule.delayMinutes) with
      | some candidate => Plan.goOn env candidate
      | none => .rest .noCandidate).Fits s config := by
      split
      · rename_i hd
        exact ⟨_, _, _, _, hd⟩
      · trivial
    cases hfailed : current.filter Deploy.isFailed with
    | none => exact hnext
    | some failed =>
        cases rule.failPolicy with
        | goOn => exact hnext
        | disable => trivial
        | revert =>
            dsimp only
            split
            · rename_i htarget
              have hmem := Option.filter_eq_some_iff.mp hfailed
              exact ⟨hcurrent.trans hmem.1, hmem.2, htarget⟩
            · trivial

/-- Every plan fits the store that it was made from. -/
theorem fits_plan (config : PromotionSettings) (id : EnvId) (now : Instant) :
    (s.plan config id now).Fits s config := by
  rw [Store.plan]
  split
  · trivial
  · split
    · trivial
    · split
      · trivial
      · split
        · trivial
        · split
          · trivial
          · exact fits_planFrom config _ _ _ now

/-- A fresh build is recorded, is good and lies in the window. -/
theorem of_mem_freshBuilds (hk : s.Keyed) {config : PromotionSettings} {env : Environment}
    {current : Option Deploy} {limit : Instant} {b : Build}
    (h : b ∈ s.freshBuilds config env current limit) :
    s.builds.get? b.id = some b ∧ b.name = env.buildName ∧ b.bad = false ∧
      s.currentBuildDate current < b.publishDate ∧ b.publishDate ≤ limit := by
  simp only [Store.freshBuilds] at h
  split at h
  · cases h
  · obtain ⟨hfound, hgood⟩ := List.mem_filter.mp h
    have hlisted := (List.mergeSort_perm _ _).subset (List.mem_of_mem_take hfound)
    obtain ⟨hmem, hwithin⟩ := List.mem_filter.mp hlisted
    simp only [Bool.and_eq_true, beq_iff_eq, decide_eq_true_eq] at hwithin
    exact ⟨hk.builds.get?_of_mem hmem, hwithin.1.1, by simpa using hgood, hwithin.1.2, hwithin.2⟩

/-- A proven deploy is one of the preceding environment, is good and lies in the window. -/
theorem of_mem_provenDeploys (hk : s.Keyed) {config : PromotionSettings} {env : Environment}
    {current : Option Deploy} {predStage : String} {limit : Instant} {d : Deploy}
    (h : d ∈ s.provenDeploys config env current predStage limit) :
    ∃ pred, s.environmentByStage env.name predStage = some pred ∧
      s.deploys.get? d.id = some d ∧ d.envId = pred.id ∧ isSound d = true ∧
      s.isTagged d.buildId = false ∧ s.sourceDate pred current < d.startDate ∧
      d.startDate ≤ limit := by
  simp only [Store.provenDeploys] at h
  split at h
  · cases h
  · rename_i pred hpred
    split at h
    · cases h
    · obtain ⟨hfound, hgood⟩ := List.mem_filter.mp h
      have hlisted := (List.mergeSort_perm _ _).subset (List.mem_of_mem_take hfound)
      obtain ⟨hmem, hwithin⟩ := List.mem_filter.mp hlisted
      simp only [Bool.and_eq_true, beq_iff_eq, decide_eq_true_eq, Bool.not_eq_true'] at hwithin hgood
      exact ⟨pred, hpred, hk.deploys.get?_of_mem hmem, hwithin.1.1, hgood.1, hgood.2,
        hwithin.1.2, hwithin.2⟩

/-- A deploy to go on to is none of a bad build. -/
theorem isTagged_candidate (hk : s.Keyed) {config : PromotionSettings} {env : Environment}
    {current : Option Deploy} {rule : PromotionRule} {predStage : String} {limit : Instant}
    {d : NewDeploy} (h : s.candidate config env current rule predStage limit = some d) :
    s.isTagged d.buildId = false := by
  rw [Store.candidate] at h
  split at h
  · obtain ⟨b, hb, rfl⟩ := Option.map_eq_some_iff.mp h
    obtain ⟨hrecord, -, hgood, -⟩ := of_mem_freshBuilds hk (List.mem_of_getElem? hb)
    rw [Store.isTagged, hrecord]
    exact hgood
  · obtain ⟨found, hfound, rfl⟩ := Option.map_eq_some_iff.mp h
    obtain ⟨_, -, -, -, -, hgood, -⟩ := of_mem_provenDeploys hk (List.mem_of_getElem? hfound)
    exact hgood

/-- A call that records no other deploy than the one of the plan. -/
def Plan.Permits (plan : Plan) (c : Call) : Prop :=
  ∀ d, c = .store (.createDeploy d) → plan.creates = some d

theorem Plan.permits_of_not_creates {plan : Plan} {c : Call} (h : c.creates = false) :
    plan.Permits c := by
  rintro d rfl
  cases h

theorem Plan.permits_of_isRead {plan : Plan} {c : Call} (h : c.isRead = true) :
    plan.Permits c := by
  refine permits_of_not_creates ?_
  unfold Call.creates
  split
  · cases h
  · rfl

theorem Plan.permits_of_locks {plan : Plan} {c : Call} (h : c.isLockless = false) :
    plan.Permits c := by
  rintro d rfl
  cases h

theorem only_promoteCandidate_permits {plan : Plan} {candidate : NewDeploy}
    (h : plan.creates = some candidate) (env : Environment) (observed : Option String)
    (thenDisable : Option String) :
    (promoteCandidate env observed candidate thenDisable).Only plan.Permits := by
  have hcreate : plan.Permits (.store (.createDeploy candidate)) := by
    rintro d hd
    cases hd
    exact h
  exact within_promoteCandidate (fun _ => Plan.permits_of_isRead) (fun _ => Plan.permits_of_locks)
    (fun _ _ => trivial) (Plan.permits_of_not_creates rfl) hcreate fun _ _ => trivial

theorem only_stopPromoting_permits (plan : Plan) (env : Environment) (failed : String) :
    (stopPromoting env failed).Only plan.Permits :=
  within_stopPromoting (fun _ => Plan.permits_of_isRead) (fun _ => Plan.permits_of_locks)
    (fun _ _ => trivial) (Plan.permits_of_not_creates rfl)

/-- Carrying out a plan records no other deploy than its own, and going back is never told as
going on. -/
theorem Plan.meets_program (plan : Plan) :
    plan.program.Meets plan.Permits (fun _ => True) fun a =>
      (∃ env failed target, plan = .goBack env failed target) → ∀ n, a ≠ .promoted n := by
  cases plan with
  | rest result =>
      rintro ⟨_, _, _, h⟩
      cases h
  | stop env failed =>
      refine Meets.mono (only_stopPromoting_permits _ env failed.id) (fun _ h => h) ?_
      rintro _ _ ⟨_, _, _, h⟩
      cases h
  | goOn env candidate =>
      have hcreates : (goOn env candidate).creates = some candidate := rfl
      refine Meets.mono (only_promoteCandidate_permits hcreates env env.deployId none)
        (fun _ h => h) ?_
      rintro _ _ ⟨_, _, _, h⟩
      cases h
  | goBack env failed target =>
      have hcreates : (goBack env failed target).creates = some ⟨env.id, target.buildId, none⟩ :=
        rfl
      refine Meets.seq (only_promoteCandidate_permits hcreates env (some failed.id)
        (some failed.id)) fun a => ?_
      cases a <;> exact fun _ _ => nofun

/-! ## The law -/

/-- An attempt records no other deploy than the one of its plan. -/
def records (plan : Plan) : Rule World := fun _ e => plan.Permits e.call

theorem follows_promote (raises : Fault → Prop) (config : PromotionSettings) (id : EnvId)
    (now : Instant) {w : World} (hw : w.store = some s) :
    (promote config id now).Follows (World.Possible World.SameStore raises)
      (records (s.plan config id now)) (fun _ => True)
      (fun a _ => (∃ env failed target, s.plan config id now = .goBack env failed target) →
        ∀ n, a ≠ .promoted n) (.start w) := by
  refine (looks_promote config id now).follows (I := fun _ => True) hw trivial
    (fun j c r w hc _ => ⟨Plan.permits_of_not_creates (Call.not_creates_of_isQuery hc), trivial⟩)
    (fun _ _ => trivial) fun j _ _ => ?_
  have hplan := (s.plan config id now).meets_program
  exact (hplan.follows (E := fun _ => True) (fun _ _ _ _ hc _ _ => ⟨hc, trivial⟩) trivial).imp
    fun _ _ hq => hq.1

/-- A plan for a deploy of a bad build is one to go back. -/
theorem Plan.Fits.goes_back {plan : Plan} {config : PromotionSettings} (h : plan.Fits s config)
    (hk : s.Keyed) {d : NewDeploy} (hd : plan.creates = some d)
    (hbad : s.isTagged d.buildId = true) : ∃ env failed target,
      plan = .goBack env failed target ∧ s.lastSound config env failed = some target ∧
        d.buildId = target.buildId := by
  cases plan with
  | rest | stop => cases hd
  | goBack env failed target =>
      cases hd
      exact ⟨env, failed, target, rfl, h.2.2, rfl⟩
  | goOn env candidate =>
      cases hd
      obtain ⟨_, _, _, _, hcandidate⟩ := h
      rw [isTagged_candidate hk hcandidate] at hbad
      cases hbad

/-- An environment without a deploy, and two builds for it, the newer one bad. -/
def choosy : World :=
  let env : Environment := ⟨"prod", "web", "prod", .normal, none, "web", 0, ⟨[], [], none⟩⟩
  let rule : PromotionRule := ⟨"prod", .auto, some PromotionRule.buildStage, 1, 0, .goOn⟩
  { World.initial ⟨2000⟩ (.seeded 0) with
    store := some { Store.empty with
      environments := Table.empty.insert env.id env
      promoteConfigs := Table.empty.insert rule.envId rule
      builds := (Table.empty.insert "good" (⟨"good", "web", ⟨1000⟩, false⟩ : Build)).insert
        "bad" ⟨"bad", "web", ⟨1500⟩, true⟩ } }

/-- An environment whose current deploy has failed after an earlier one of a bad build. -/
def relapsed : World :=
  let env : Environment :=
    ⟨"prod", "web", "prod", .normal, some "second", "web", 0, ⟨[], [], none⟩⟩
  let rule : PromotionRule := ⟨"prod", .auto, some PromotionRule.buildStage, 1, 0, .revert⟩
  let first : Deploy := ⟨"first", "prod", "bad", .succeeded, .accepted, ⟨1000⟩, none⟩
  let second : Deploy := ⟨"second", "prod", "good", .failing, .pendingDeploy, ⟨1500⟩, none⟩
  { World.initial ⟨2000⟩ (.seeded 0) with
    store := some { Store.empty with
      environments := Table.empty.insert env.id env
      promoteConfigs := Table.empty.insert rule.envId rule
      deploys := (Table.empty.insert first.id first).insert second.id second
      builds := (Table.empty.insert "good" (⟨"good", "web", ⟨900⟩, false⟩ : Build)).insert
        "bad" ⟨"bad", "web", ⟨800⟩, true⟩ } }

theorem keyed_choosy : choosy.tables.Keyed where
  __ := Store.keyed_empty
  environments := Table.KeyedBy.empty.insert _
  promoteConfigs := Table.KeyedBy.empty.insert _
  builds := by
    have hnone : (Table.empty : Table Build).KeyedBy Build.id := .empty
    exact (hnone.insert ⟨"good", "web", ⟨1000⟩, false⟩).insert ⟨"bad", "web", ⟨1500⟩, true⟩

/-- An attempt in which no call fails. -/
def attempted (w : World) : Outcome Result × Journal World :=
  (promote {} "prod" ⟨2000⟩).run (failing fun _ _ => none) (.start w)

theorem ends_attempted (w : World) :
    (promote {} "prod" ⟨2000⟩).Ends (World.Possible World.SameStore fun _ => False).recorded
      (.start w) (attempted w).1 (attempted w).2 := by
  have hsame : ∀ w, True → World.SameStore w w := fun _ _ => rfl
  exact ends_failing hsame (fun _ _ _ => trivial) (fun _ _ _ h => by cases h) _ trivial

/-- Whatever fails, an attempt in a store that nobody else writes records the deploy that its
plan says, and none else. This is a deploy of a bad build only if the environment goes back from
a failed deploy, and the newest good deploy before that one is of the bad build. -/
theorem bad_build_only_by_going_back {raises : Fault → Prop} {config : PromotionSettings}
    {id : EnvId} {now : Instant} {w : World} {s : Store} {r : Outcome Result}
    {j : Journal World} (hw : w.store = some s) (hk : s.Keyed)
    (he : (promote config id now).Ends (World.Possible World.SameStore raises).recorded
      (.start w) r j) :
    ∀ e ∈ j.log, ∀ d, e.call = .store (.createDeploy d) →
      (s.plan config id now).creates = some d ∧ (s.isTagged d.buildId = true →
        (∃ env failed target, s.plan config id now = .goBack env failed target ∧
          s.lastSound config env failed = some target ∧ d.buildId = target.buildId) ∧
        ∀ n, r ≠ .ok (.promoted n)) := by
  have hfollows := follows_promote raises config id now hw
  have hadmits := Keeps.admits hfollows he trivial
  intro e hmem d hd
  obtain ⟨later, earlier, hlog⟩ := List.append_of_mem hmem
  rw [hlog] at hadmits
  have hcreates : (s.plan config id now).creates = some d := hadmits.of_append d hd
  refine ⟨hcreates, fun hbad => ?_⟩
  have hback := (fits_plan config id now).goes_back hk hcreates hbad
  refine ⟨hback, ?_⟩
  obtain ⟨env, failed, target, hplan, -⟩ := hback
  rintro n rfl
  have hend : Wants _ _ (.ok (Result.promoted n)) j := Keeps.ends hfollows he
  exact hend ⟨env, failed, target, hplan⟩ n rfl

/-- The law of bad builds for an attempt that passes over one. -/
theorem bad_build_only_by_going_back_choosy :
    (attempted choosy).1 = .ok (.promoted "gen-1") ∧
      ∀ e ∈ (attempted choosy).2.log, ∀ d, e.call = .store (.createDeploy d) →
        choosy.tables.isTagged d.buildId = false := by
  have hr : (attempted choosy).1 = .ok (.promoted "gen-1") := by cbv
  refine ⟨hr, fun e hmem d hd => ?_⟩
  have hlaw := bad_build_only_by_going_back (s := choosy.tables) rfl keyed_choosy
    (ends_attempted choosy) e hmem d hd
  by_contra hbad
  exact (hlaw.2 (by simpa using hbad)).2 _ hr

/-- The plan for the environment whose current deploy has failed: back to the bad build. -/
def relapse : Plan :=
  .goBack ⟨"prod", "web", "prod", .normal, some "second", "web", 0, ⟨[], [], none⟩⟩
    ⟨"second", "prod", "good", .failing, .pendingDeploy, ⟨1500⟩, none⟩
    ⟨"first", "prod", "bad", .succeeded, .accepted, ⟨1000⟩, none⟩

/-- An attempt goes back from a failed deploy to a bad build, in a store that nobody else
writes. -/
theorem bad_build_deployed_again : ∃ r w',
    (promote {} "prod" ⟨2000⟩).Ends (World.Possible World.SameStore fun _ => False) relapsed r w' ∧
      r = .ok (.rolledBack "gen-1") ∧ ∃ d, w'.tables.deploys.get? "gen-1" = some d ∧
        relapsed.tables.isTagged d.buildId = true := by
  have hplan : relapsed.tables.plan {} "prod" ⟨2000⟩ = relapse := by cbv
  have hrun : (promote {} "prod" ⟨2000⟩).run World.answer relapsed =
      relapse.program.run World.answer relapsed := by
    rw [← hplan]
    exact (looks_promote {} "prod" ⟨2000⟩).run rfl
  have hends := ends_run World.SameStore (fun _ => False) (fun _ => rfl)
    (promote {} "prod" ⟨2000⟩) relapsed
  rw [hrun] at hends
  refine ⟨_, _, hends, by decide +kernel,
    ⟨"gen-1", "prod", "bad", .running, .pendingDeploy, ⟨2000⟩, none⟩, ?_, ?_⟩
  all_goals decide +kernel

end Promotion

end FleetControl
