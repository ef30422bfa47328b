import Mathlib
import FleetControl.Proofs.Planning
import FleetControl.Proofs.Reporting
import FleetControl.Proofs.Smooth

/-!
# What a failed attempt to promote leaves behind

Nobody interferes here, and every call of the store is atomic on its own: one that fails has no
effect. An attempt that ends with an error has then changed nothing, with one exception. To go
back from a failed deploy it writes twice under the lock: it records a deploy of the earlier
build, and then it switches to manual promotion. If a call between the two fails, or the switch
itself, the deploy stays and the environment is still on automatic promotion.
-/
namespace FleetControl

open Program

namespace World

variable {w w' : World} {c : Call} {raises : Fault → Prop} {s : Store} {r : Outcome c.Reply}

/-- A call of something else is answered with the store as it is. -/
theorem store_of_answer (hc : ∀ q, c ≠ .store q) (ha : answer c w = (r, w')) :
    w'.store = w.store := by
  have hw' : (answer c w).2 = w' := congrArg Prod.snd ha
  rw [← hw', store_answer hc]

namespace Transactional

/-- A call of something else leaves the store as it is, also if it fails. -/
theorem store_eq (hb : Transactional Eq raises c w r w')
    (hc : ∀ q, c ≠ .store q) : w'.store = w.store := by
  obtain ⟨_, rfl, ha | ⟨f, -, -, rfl | ⟨-, rfl⟩⟩⟩ := hb
  · exact store_of_answer hc ha
  · rfl
  · exact store_of_answer hc rfl

/-- A call that fails leaves the store as it is, if it leaves one. -/
theorem eq_of_error {f : Fault} (hb : Transactional Eq raises c w (.error f) w')
    (hs : w.store = some s) : ∀ s', w'.store = some s' → s' = s := by
  intro s' hs'
  by_cases hc : ∃ q, c = .store q
  · obtain ⟨q, rfl⟩ := hc
    obtain ⟨_, rfl, ha | ⟨g, -, -, rfl | ⟨hc, -⟩⟩⟩ := hb
    · have hw' : w' = (answer (.store q) w).2 := by rw [ha]
      rw [hw'] at hs'
      obtain ⟨t, ht, rfl⟩ := store_useStore hs'
      cases hs.symm.trans ht
      have hfst := congrArg Prod.fst ha
      rw [answer, fst_useStore, hs] at hfst
      exact Store.answer_of_error hfst
    · exact Option.some.inj (hs'.symm.trans hs)
    · exact absurd rfl (hc q)
  · have hsame := hb.store_eq fun q hq => hc ⟨q, hq⟩
    exact Option.some.inj (hs'.symm.trans (hsame.trans hs))

/-- A call that got its reply was answered. -/
theorem answered {a : c.Reply} (hb : Transactional Eq raises c w (.ok a) w') :
    answer c w = (.ok a, w') := by
  obtain ⟨_, rfl, ha | ⟨f, -, hr, -⟩⟩ := hb
  · exact ha
  · cases hr

end Transactional

end World

namespace Program

variable {α σ : Type} {B : Behaviour σ} {G : σ → σ → Prop} {Q : Outcome (Option α) → σ → Prop}
  {name : String} {body : Program α} {s : σ}

/-- What the work under a lock has to end with if the lock is given back then. -/
def Unlocked (Q : Outcome (Option α) → σ → Prop) : Outcome α → σ → Prop
  | .ok a, s => Q (.ok (some a)) s
  | .error f, s => Q (.error (.error f.contained)) s

/-- Work under a lock keeps what it is to keep where the lock is given back after it. Nothing is
wanted of a crash in giving it back. -/
theorem keeps_exclusively (hG : ∀ c s r s', B c s r s' → G s s')
    (hcrash : ∀ payload t, Q (.error (.crash payload)) t)
    (hfails : ∀ f t, B (.acquire name) s (.error f) t → Q (.error f) t)
    (hheld : ∀ t, B (.acquire name) s (.ok none) t → Q (.ok none) t)
    (hbody : ∀ token t, B (.acquire name) s (.ok (some token)) t →
      body.Keeps B G (fun q t => ∀ r t', B (.release name token) t r t' → Unlocked Q q t') t) :
    (exclusively name body).Keeps B G Q s := by
  refine keeps_bind.mpr (keeps_perform.mpr fun r t hb => ⟨hG _ _ _ _ hb, ?_⟩)
  rcases r with f | _ | token
  · exact hfails f t hb
  · exact hheld t hb
  · refine keeps_bind.mpr (keeps_contain.mpr ((hbody token t hb).imp ?_))
    -- once the lock is given back, or stays taken, the outcome of the body is all that is left
    have hrelease : ∀ (outcome : Except ControlError α) u,
        (∀ r v, B (.release name token) u r v →
          ((ofExcept outcome).bind fun value => pure (some value)).Keeps B G Q v) →
        ((perform (.release name token)).attempt.bind fun _ =>
          (ofExcept outcome).bind fun value => pure (some value)).Keeps B G Q u := by
      intro outcome u hrest
      refine keeps_bind.mpr (keeps_attempt.mpr (keeps_perform.mpr fun r v hb =>
        ⟨hG _ _ _ _ hb, ?_⟩))
      rcases r with (e | payload) | _
      · exact hrest _ v hb
      · exact hcrash payload v
      · exact hrest _ v hb
    rintro (f | a) u hu
    · exact hrelease (.error f.contained) u hu
    · exact hrelease (.ok a) u hu

end Program

/-! ## What an attempt leaves -/

namespace Promotion

/-- What an attempt leaves when it ends with an error. -/
inductive Plan.Leaves (plan : Plan) (s : Store) (clock : Outcome Instant) (j : Journal World) :
    Prop where
  | nothing (hstore : ∀ s', j.state.store = some s' → s' = s)
  /-- The deploy is recorded, and a call that was to end automatic promotion has failed. -/
  | halfway {env : Environment} {failed target deploy : Deploy} {s₁ : Store} {e : Entry World}
      (hplan : plan = .goBack env failed target)
      (hcreated : s.createDeploy clock ⟨env.id, target.buildId, none⟩ = .ok (deploy, s₁))
      (hstore : ∀ s', j.state.store = some s' → s' = s₁) (hmem : e ∈ j.log)
      (hbefore : e.before.store = some s₁) (hfailed : e.reply.isOk = false)
      (hcall : e.call = .store (.promoteConfig env.id) ∨
        e.call = .store (.setPromoteKind env.id .manual))
  /-- Everything is done, but it could not be told. -/
  | untold {e : Entry World} {n : Notification} (hmem : e ∈ j.log) (hcall : e.call = .post n)
      (hfailed : e.reply.isOk = false)

/-- An error is to leave the world so. -/
def Errs {α : Type} (P : Journal World → Prop) : Outcome α → Journal World → Prop
  | .error (.error _), j => P j
  | _, _ => True

variable {raises : Fault → Prop} {plan : Plan} {s s₁ : Store} {clock : Outcome Instant}
  {j : Journal World} {P : Journal World → Prop}

/-- Giving a lock back changes nothing of it. -/
theorem Plan.Leaves.other (h : plan.Leaves s clock j) {c : Call} {r : Outcome c.Reply} {w : World}
    (hb : World.Transactional Eq raises c j.state r w) (hc : ∀ q, c ≠ .store q) :
    plan.Leaves s clock (j.enter c r w) := by
  have hsame := hb.store_eq hc
  cases h with
  | nothing hstore => exact .nothing fun s' hs' => hstore s' (hsame.symm.trans hs')
  | halfway hplan hcreated hstore hmem hbefore hfailed hcall =>
      exact .halfway hplan hcreated (fun s' hs' => hstore s' (hsame.symm.trans hs'))
        (List.mem_cons_of_mem _ hmem) hbefore hfailed hcall
  | untold hmem hcall hfailed => exact .untold (List.mem_cons_of_mem _ hmem) hcall hfailed

/-- Whatever is entered into the journal of a run may be. -/
abbrev anything : Rule World := fun _ _ => True

/-- If switching to manual promotion fails, it has left the store as it was, or everything is
done and could not be told. -/
theorem leaves_endAutomation {env : Environment} {failed : String}
    (hs : j.state.store = some s₁)
    (hstalls : ∀ j' : Journal World, (∀ s', j'.state.store = some s' → s' = s₁) →
      ∀ e ∈ j'.log, e.before.store = some s₁ → e.reply.isOk = false →
        (e.call = .store (.promoteConfig env.id) ∨
          e.call = .store (.setPromoteKind env.id .manual)) → P j')
    (huntold : ∀ j' : Journal World, ∀ e ∈ j'.log, ∀ n, e.call = .post n →
      e.reply.isOk = false → P j') :
    (endAutomation env failed).Follows (World.Transactional Eq raises) anything P
      (fun _ _ => True) j := by
  refine .bind (Q := fun _ j' => j'.state.store = some s₁)
    (follows_perform.mpr fun r w hb => ⟨trivial, ?_⟩) fun rule j₁ hj₁ _ => ?_
  · cases r with
    | error f =>
        exact hstalls _ (hb.eq_of_error hs) _ List.mem_cons_self hs rfl (.inl rfl)
    | ok a =>
        have hsame : j.state = w := hb.of_asks rfl
        exact (congrArg World.store hsame).symm.trans hs
  · split
    · refine .bind (Q := fun _ _ => True) (follows_perform.mpr fun r w hb => ⟨trivial, ?_⟩)
        fun _ j₂ _ _ => ?_
      · cases r with
        | error f =>
            exact hstalls _ (hb.eq_of_error hj₁) _ List.mem_cons_self hj₁ rfl (.inr rfl)
        | ok u => trivial
      · refine .bind (Q := fun _ _ => True) (follows_perform.mpr fun r w hb => ⟨trivial, ?_⟩)
          fun _ _ _ _ => trivial
        cases r with
        | error f => exact huntold _ _ List.mem_cons_self _ rfl rfl
        | ok u => trivial
    · trivial

/-- What an error in work under a lock leaves is what the work leaves. -/
theorem errs_exclusively (plan : Plan) (clock : Outcome Instant) {α : Type} {name : String}
    {body : Program α} (hs : j.state.store = some s)
    (hbody : ∀ token w, w.store = some s → w.now = j.state.now →
      body.Follows (World.Transactional Eq raises) anything (plan.Leaves s clock)
        (fun _ _ => True) (j.enter (.acquire name) (.ok (some token)) w)) :
    (exclusively name body).Keeps (World.Transactional Eq raises).recorded
      (Journal.Adds anything) (Errs (plan.Leaves s clock)) j := by
  refine keeps_exclusively ?_ (fun _ _ => trivial) ?_ (fun _ _ => trivial) ?_
  · rintro c j r _ ⟨w, -, rfl⟩
    exact ⟨_, rfl, trivial⟩
  · rintro f _ ⟨w, hb, rfl⟩
    cases f with
    | error e => exact .nothing (hb.eq_of_error hs)
    | crash payload => trivial
  · rintro token _ ⟨w, hb, rfl⟩
    have hstore : w.store = some s := (hb.store_eq fun _ => nofun).trans hs
    have hclock : w.now = j.state.now := by
      have hw : (World.answer (.acquire name) j.state).2 = w := congrArg Prod.snd hb.answered
      rw [← hw]
      rfl
    refine Keeps.imp (hbody token w hstore hclock) ?_
    rintro (f | a) j₁ h₁ r _ ⟨v, hv, rfl⟩
    · have hleaves : plan.Leaves s clock j₁ := h₁
      exact hleaves.other hv fun _ => nofun
    · trivial

/-- What an error leaves of a promotion to a candidate. -/
theorem leaves_promoteCandidate {env : Environment} {observed : Option String}
    {candidate : NewDeploy} {thenDisable : Option String} (hs : j.state.store = some s)
    (hplan : ∀ id, thenDisable = some id → ∃ failed target, plan = .goBack env failed target ∧
      candidate = ⟨env.id, target.buildId, none⟩) :
    (promoteCandidate env observed candidate thenDisable).Keeps
      (World.Transactional Eq raises).recorded (Journal.Adds anything)
      (Errs (plan.Leaves s j.state.now)) j := by
  refine keeps_bind.mpr (Keeps.imp (errs_exclusively plan j.state.now hs
    fun token w hw hn => ?_) ?_)
  · refine .bind (Q := fun _ j₁ => j₁.state = w) (.bind (Q := fun _ j₁ => j₁.state = w)
      (follows_perform.mpr fun r v hb => ⟨trivial, ?_⟩) fun found j₁ hj₁ _ => ?_)
      fun fresh j₁ hj₁ _ => ?_
    · cases r with
      | error f => exact .nothing (hb.eq_of_error hw)
      | ok a => exact (hb.of_asks rfl).symm
    · cases found with
      | none => exact .nothing fun s' hs' => Option.some.inj (hs'.symm.trans (hj₁ ▸ hw))
      | some fresh => exact hj₁
    · split
      · trivial
      · refine .bind (Q := fun deploy j₂ => ∃ s₁, j₂.state.store = some s₁ ∧
          s.createDeploy j.state.now candidate = .ok (deploy, s₁))
          (follows_perform.mpr fun r v hb => ⟨trivial, ?_⟩) ?_
        · subst hj₁
          cases r with
          | error f => exact .nothing (hb.eq_of_error hw)
          | ok deploy =>
              obtain ⟨s₁, hcreated, rfl⟩ := World.eq_of_createDeploy hw hb.answered
              rw [hn] at hcreated
              exact ⟨s₁, rfl, hcreated⟩
        · rintro deploy j₂ ⟨s₁, hs₁, hcreated⟩ -
          cases thenDisable with
          | none => trivial
          | some id =>
              obtain ⟨failed, target, rfl, rfl⟩ := hplan id rfl
              refine .bind (leaves_endAutomation hs₁ (fun j' hstore e hmem hbefore hfailed hcall =>
                .halfway rfl hcreated hstore hmem hbefore hfailed hcall)
                fun j' e hmem n hcall hfailed => .untold hmem hcall hfailed)
                fun _ _ _ _ => trivial
  · rintro ((e | payload) | outcome) j' h
    · exact h
    · trivial
    · trivial

/-- Only switching to manual promotion leaves the store as it is if it fails. -/
theorem leaves_stopPromoting {env : Environment} {failed : String} (hs : j.state.store = some s) :
    (stopPromoting env failed).Keeps (World.Transactional Eq raises).recorded
      (Journal.Adds anything) (Errs (plan.Leaves s clock)) j := by
  refine keeps_bind.mpr (Keeps.imp (errs_exclusively plan clock hs
    fun token w hw _ => ?_) ?_)
  · exact leaves_endAutomation hw (fun j' hstore _ _ _ _ _ => .nothing hstore)
      fun j' e hmem n hcall hfailed => .untold hmem hcall hfailed
  · rintro ((e | payload) | outcome) j' h
    · exact h
    · trivial
    · trivial

/-- What an error leaves of a plan. -/
theorem Plan.leaves_program (plan : Plan) (hs : j.state.store = some s) :
    plan.program.Keeps (World.Transactional Eq raises).recorded (Journal.Adds anything)
      (Errs (plan.Leaves s j.state.now)) j := by
  cases plan with
  | rest result => trivial
  | stop env failed => exact leaves_stopPromoting hs
  | goOn env candidate =>
      rw [program]
      refine leaves_promoteCandidate hs fun _ h => ?_
      cases h
  | goBack env failed target =>
      refine keeps_bind.mpr (Keeps.imp (leaves_promoteCandidate hs fun _ _ =>
        ⟨failed, target, rfl, rfl⟩) ?_)
      rintro ((e | payload) | result) j' h
      · exact h
      · trivial
      · cases result <;> trivial

/-- What an error leaves of an attempt. -/
theorem leaves_promote (raises : Fault → Prop) (config : PromotionSettings) (id : EnvId)
    (now : Instant) {w : World} (hw : w.store = some s) :
    (promote config id now).Keeps (World.Transactional Eq raises).recorded
      (Journal.Adds anything) (Errs ((s.plan config id now).Leaves s w.now)) (.start w) := by
  have hlooks : (promote config id now).Looks s (s.plan config id now).program :=
    looks_promote config id now
  refine hlooks.keeps (I := fun j => j.state = w) rfl ?_ ?_
  · rintro j c a r v hc ha rfl hb
    refine ⟨⟨_, rfl, trivial⟩, ?_⟩
    cases r with
    | error f =>
        refine .inr ⟨f, rfl, ?_⟩
        cases f with
        | error e => exact .nothing (hb.eq_of_error hw)
        | crash payload => trivial
    | ok b =>
        have hanswer := hb.answered
        cases (World.answer_ask hw (ha j.state.now)).symm.trans hanswer
        exact .inl ⟨rfl, rfl⟩
  · rintro j rfl
    exact (s.plan config id now).leaves_program hw

/-- Only an environment on automatic promotion is taken back from a failed deploy. -/
theorem auto_of_goBack {config : PromotionSettings} {id : EnvId} {now : Instant}
    {env : Environment} {failed target : Deploy}
    (h : s.plan config id now = .goBack env failed target) :
    ∃ rule, s.promoteConfigs.get? id = some rule ∧ rule.kind = .auto := by
  rw [Store.plan] at h
  split at h
  · cases h
  · split at h
    · cases h
    · split at h
      · cases h
      · rename_i rule hrule
        refine ⟨rule, hrule, ?_⟩
        split at h
        · cases h
        · split at h
          · cases h
          · rename_i hauto
            simp only [Bool.or_eq_true, bne_iff_ne, ne_eq, not_or, not_not] at hauto
            exact hauto.1

/-- An environment that goes back from its failed deploy to an earlier one. -/
def faltering : World :=
  let env : Environment :=
    ⟨"prod", "web", "prod", .normal, some "second", "web", 0, ⟨[], [], none⟩⟩
  let rule : PromotionRule := ⟨"prod", .auto, some PromotionRule.buildStage, 1, 0, .revert⟩
  let first : Deploy := ⟨"first", "prod", "old", .succeeded, .accepted, ⟨1000⟩, none⟩
  let second : Deploy := ⟨"second", "prod", "new", .failing, .pendingDeploy, ⟨1500⟩, none⟩
  { World.initial ⟨2000⟩ (.seeded 0) with
    store := some { Store.empty with
      environments := Table.empty.insert env.id env
      promoteConfigs := Table.empty.insert rule.envId rule
      deploys := (Table.empty.insert first.id first).insert second.id second
      builds := (Table.empty.insert "old" (⟨"old", "web", ⟨800⟩, false⟩ : Build)).insert
        "new" ⟨"new", "web", ⟨900⟩, false⟩ } }

/-- The connection is lost once a deploy is recorded. -/
def lostAfterwards (past : List (Entry World)) : Call → Option Fault
  | .store (.promoteConfig _) =>
      if past.any fun e => e.call.creates then some (.error (.database "connection lost"))
      else none
  | _ => none

/-- An attempt that is interrupted so. -/
def interrupted : Outcome Result × Journal World :=
  (promote {} "prod" ⟨2000⟩).run (failing lostAfterwards) (.start faltering)

theorem ends_interrupted :
    (promote {} "prod" ⟨2000⟩).Ends (World.Transactional Eq fun _ => True).recorded
      (.start faltering) interrupted.1 interrupted.2 := by
  refine ends_handler (fun c j => ?_) _ _
  rw [failing]
  cases lostAfterwards j.log c with
  | some f => exact ⟨j.state, ⟨j.state, rfl, .inr ⟨f, trivial, rfl, .inl rfl⟩⟩, rfl⟩
  | none => exact ⟨_, ⟨j.state, rfl, .inl rfl⟩, rfl⟩

/-- An attempt in a store that nobody else writes, and where a notification can always be handed
over. If it ends with an error, it has changed nothing in the store. Or it was to go back from a
failed deploy: then the deploy of the earlier build is recorded, the rules are as they were, so
that the environment is still on automatic promotion, and the call that failed came after that.
A call of the store that fails has no effect by the store's own contract, every call being atomic
on its own; what an attempt of several calls leaves behind does not follow from it. -/
theorem failed_attempt_changes_all_or_nothing {raises : Fault → Prop}
    {config : PromotionSettings} {id : EnvId} {now : Instant} {w : World} {s s' : Store}
    {e : ControlError} {j : Journal World} (hw : w.store = some s)
    (he : (promote config id now).Ends (World.Transactional Eq raises).recorded (.start w)
      (.error (.error e)) j)
    (hposts : ∀ x ∈ j.log, ∀ n, x.call = .post n → x.reply.isOk = true)
    (hs' : j.state.store = some s') :
    s' = s ∨ ∃ env failed target deploy, s.plan config id now = .goBack env failed target ∧
      s.createDeploy w.now ⟨env.id, target.buildId, none⟩ = .ok (deploy, s') ∧
      s'.promoteConfigs = s.promoteConfigs ∧
      (∃ rule, s'.promoteConfigs.get? id = some rule ∧ rule.kind = .auto) ∧
      ∃ x ∈ j.log, x.before.store = some s' ∧ x.reply.isOk = false ∧
        (x.call = .store (.promoteConfig env.id) ∨
          x.call = .store (.setPromoteKind env.id .manual)) := by
  have herrs := (leaves_promote raises config id now hw).ends he
  have hleaves : (s.plan config id now).Leaves s w.now j := herrs
  cases hleaves with
  | nothing hstore => exact .inl (hstore s' hs')
  | @halfway env failed target deploy s₁ x hplan hcreated hstore hmem hbefore hfailed hcall =>
      obtain rfl := hstore s' hs'
      have hrules : s'.promoteConfigs = s.promoteConfigs := by
        obtain ⟨-, now, -, -, rfl⟩ := Store.eq_of_createDeploy hcreated
        rfl
      have hauto := auto_of_goBack hplan
      rw [← hrules] at hauto
      exact .inr ⟨env, failed, target, deploy, hplan, hcreated, hrules, hauto, x, hmem, hbefore,
        hfailed, hcall⟩
  | @untold x n hmem hcall hfailed =>
      have hok := hposts x hmem n hcall
      rw [hfailed] at hok
      cases hok

/-- The law for an attempt whose connection is lost between its two writes. -/
theorem failed_attempt_changes_all_or_nothing_interrupted :
    interrupted.1 = .error (.error (.database "connection lost")) ∧
      ∃ env failed target deploy,
        faltering.tables.plan {} "prod" ⟨2000⟩ = .goBack env failed target ∧
        faltering.tables.createDeploy faltering.now ⟨env.id, target.buildId, none⟩ =
          .ok (deploy, interrupted.2.state.tables) ∧
        ∃ rule, interrupted.2.state.tables.promoteConfigs.get? "prod" = some rule ∧
          rule.kind = .auto := by
  have hr : interrupted.1 = .error (.error (.database "connection lost")) := by cbv
  have hstore : interrupted.2.state.store = some interrupted.2.state.tables := by cbv
  have hquiet : (interrupted.2.log.all fun x =>
      x.call.isQuery || x.call.creates || !x.call.isLockless) = true := by cbv
  have hends := ends_interrupted
  rw [hr] at hends
  have hlaw := failed_attempt_changes_all_or_nothing (s := faltering.tables) rfl hends ?_ hstore
  · obtain hsame | ⟨env, failed, target, deploy, hplan, hcreated, -, hauto, -⟩ := hlaw
    · have hdiffer : interrupted.2.state.tables.created ≠ faltering.tables.created := by
        have hcreated : interrupted.2.state.tables.created = 1 := by cbv
        rw [hcreated]
        exact Nat.one_ne_zero
      exact absurd (congrArg Store.created hsame) hdiffer
    · exact ⟨hr, env, failed, target, deploy, hplan, hcreated, hauto⟩
  · intro x hx n hn
    have hcall := List.all_eq_true.mp hquiet x hx
    rw [hn] at hcall
    cases hcall

/-- An attempt ends with an error although it has recorded a deploy. The environment is still on
automatic promotion. -/
theorem failed_attempt_leaves_deploy : ∃ r j,
    (promote {} "prod" ⟨2000⟩).Ends (World.Transactional Eq fun _ => True).recorded
      (.start faltering) r j ∧ r = .error (.error (.database "connection lost")) ∧
    (faltering.tables.environments.get? "prod").bind Environment.deployId = some "second" ∧
    (j.state.tables.environments.get? "prod").bind Environment.deployId = some "gen-1" ∧
    j.state.tables.deploys.get? "gen-1" =
      some ⟨"gen-1", "prod", "old", .running, .pendingDeploy, ⟨2000⟩, none⟩ ∧
    (j.state.tables.promoteConfigs.get? "prod").map PromotionRule.kind = some .auto := by
  refine ⟨_, _, ends_interrupted, ?_, ?_, ?_, ?_, ?_⟩
  all_goals cbv

end Promotion

end FleetControl
