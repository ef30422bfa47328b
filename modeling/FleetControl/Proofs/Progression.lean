import Mathlib
import FleetControl.Proofs.Selection

/-!
# Promotion never goes back

Each promotion starts its window at the date of what the last one took, the publication of a
build or the start of a deploy of the stage before. So what an environment is promoted to is
newer each time, through any number of smooth attempts, whatever others do between them, as long
as they keep the records and leave the deploys of the environment to its promotion. Going back
from a failed deploy is no promotion.
-/
namespace FleetControl

open Program

theorem Store.SameButRules.refl (s : Store) : s.SameButRules s := ⟨s.promoteConfigs, rfl⟩

/-! ## The plan of an attempt -/

namespace Promotion

/-- How a plan comes about. -/
inductive Plan.Made (s : Store) (config : PromotionSettings) (id : EnvId) (now : Instant) :
    Plan → Prop where
  | rest {a : Result} (ha : ∀ n, a ≠ .promoted n) : Made s config id now (.rest a)
  | stop {env : Environment} (failed : Deploy) (henv : s.environments.get? id = some env) :
      Made s config id now (.stop env failed)
  | goBack {env : Environment} (failed target : Deploy)
      (henv : s.environments.get? id = some env) : Made s config id now (.goBack env failed target)
  | goOn {env : Environment} {rule : PromotionRule} {predStage : String} {d : NewDeploy}
      (henv : s.environments.get? id = some env) (hrule : s.promoteConfigs.get? id = some rule)
      (hstage : rule.predStage = some predStage)
      (hd : s.candidate config env (s.currentDeploy env) rule predStage
        (now.minutesBefore rule.delayMinutes) = some d) : Made s config id now (.goOn env d)

variable {s s' : Store} {config : PromotionSettings} {id : EnvId} {now : Instant}

theorem made_plan (s : Store) (config : PromotionSettings) (id : EnvId) (now : Instant) :
    (s.plan config id now).Made s config id now := by
  rw [Store.plan]
  split
  · exact .rest fun _ h => by cases h
  rename_i env henv
  split
  · exact .rest fun _ h => by cases h
  split
  · exact .rest fun _ h => by cases h
  rename_i rule hrule
  split
  · exact .rest fun _ h => by cases h
  rename_i predStage hstage
  split
  · exact .rest fun _ h => by cases h
  rw [Store.planFrom]
  split
  · exact .rest fun _ h => by cases h
  split
  · exact .stop _ henv
  · split
    · exact .goBack _ _ henv
    · exact .stop _ henv
  · split
    · rename_i d hd
      exact .goOn henv hrule hstage hd
    · exact .rest fun _ h => by cases h

/-- What a smooth attempt makes of the store. -/
inductive Plan.Does (plan : Plan) (s : Store) (clock : Outcome Instant) : Result → Store → Prop where
  | nothing {a : Result} {s' : Store} (ha : ∀ n, a ≠ .promoted n) (hs' : s.SameButRules s') :
      Does plan s clock a s'
  | back (n : String) (s' : Store) : Does plan s clock (.rolledBack n) s'
  | promotes {env : Environment} {d : NewDeploy} {deploy : Deploy} {s' : Store}
      (hplan : plan = .goOn env d) (hcreated : s.createDeploy clock d = .ok (deploy, s')) :
      Does plan s clock (.promoted deploy.id) s'

variable {raises : Fault → Prop} {j : Journal World} {plan : Plan}

/-- A smooth attempt does what its plan says. -/
theorem Plan.Made.smooth (h : plan.Made s config id now) (hk : s.Keyed)
    (hs : j.state.store = some s) : plan.program.Smooth raises (fun a j' => ∃ s',
      j'.state.store = some s' ∧ plan.Does s j.state.now a s') j := by
  have hrecorded : ∀ {env : Environment}, s.environments.get? id = some env →
      s.environments.get? env.id = some env := by
    intro env henv
    rw [hk.environments id env henv]
    exact henv
  cases h with
  | rest ha => exact ⟨s, hs, .nothing ha (.refl s)⟩
  | @stop env failed henv =>
      refine .bind (smooth_exclusively (Q := fun _ s' => s.SameButRules s') hs
        (fun _ => .refl s) fun j₁ hs₁ _ => smooth_endAutomation hs₁) ?_
      rintro (- | - | -) j' ⟨s', hs', hsame⟩ -
      all_goals exact ⟨s', hs', .nothing (fun _ h => by cases h) hsame⟩
  | @goBack env failed target henv =>
      refine .bind (smooth_promoteCandidate hs (hrecorded henv)) ?_
      rintro _ j' ⟨s', hs', ⟨rfl, -, rfl⟩ | ⟨rfl, -, rfl⟩ | ⟨deploy, s₁, -, rfl, -⟩⟩ -
      · exact ⟨s', hs', .nothing (fun _ h => by cases h) (.refl s')⟩
      · exact ⟨s', hs', .nothing (fun _ h => by cases h) (.refl s')⟩
      · exact ⟨s', hs', .back deploy.id s'⟩
  | @goOn env rule predStage d henv hrule hstage hd =>
      rw [Plan.program]
      refine Follows.imp (smooth_promoteCandidate hs (hrecorded henv)) ?_
      rintro _ j' ⟨s', hs', ⟨rfl, -, rfl⟩ | ⟨rfl, -, rfl⟩ | ⟨deploy, s₁, hcreated, rfl, hsame⟩⟩
      · exact ⟨s', hs', .nothing (fun _ h => by cases h) (.refl s')⟩
      · exact ⟨s', hs', .nothing (fun _ h => by cases h) (.refl s')⟩
      · rw [← hsame rfl] at hcreated
        exact ⟨s', hs', .promotes rfl hcreated⟩

/-- What a smooth attempt has done when it ends. -/
theorem does_of_ends {w : World} {a : Result} (hk : s.Keyed) (hs : w.store = some s)
    (he : (promote config id now).Ends (World.Possible Eq raises).flawless.recorded (.start w)
      (.ok a) j) :
    ∃ s', j.state.store = some s' ∧ (s.plan config id now).Does s w.now a s' := by
  have hsmooth : (promote config id now).Smooth raises (fun a j' => ∃ s',
      j'.state.store = some s' ∧ (s.plan config id now).Does s w.now a s') (.start w) := by
    refine Looks.smooth (looks_promote config id now) hs fun j₁ hj₁ => ?_
    have hs₁ : j₁.state.store = some s := by
      rw [hj₁]
      exact hs
    refine Follows.imp ((made_plan s config id now).smooth hk hs₁) fun a j' hdone => ?_
    rw [hj₁] at hdone
    exact hdone
  obtain ⟨b, hb, hdone⟩ := hsmooth.ends he
  cases hb
  exact hdone

end Promotion

/-! ## What the current deploy was made of -/

namespace Store

variable {s s' : Store} {id : EnvId} {env : Environment} {predStage : String}
  {date limit : Instant} {o : Offer}

/-- The date of what a deploy was made of: the start of the deploy that it was promoted from, or
else the publication of its build. -/
def originDate (s : Store) (d : Deploy) : Instant :=
  match d.fromDeploy with
  | none => (s.builds.get? d.buildId).elim .epoch Build.publishDate
  | some source => (s.deploys.get? source).elim .epoch Deploy.startDate

/-- The current deploy of an environment is recorded, and so is what it was made of: a build
published at a date, or a deploy of the stage before that started then. -/
inductive Rooted (s : Store) (id : EnvId) (predStage : String) (date : Instant) : Prop where
  | build {env : Environment} {d : Deploy} {b : Build}
      (hstage : predStage = PromotionRule.buildStage) (henv : s.environments.get? id = some env)
      (hd : s.currentDeploy env = some d) (hb : s.builds.get? d.buildId = some b)
      (hdate : b.publishDate = date)
  | deploy {env pred : Environment} {d source : Deploy} {k : String}
      (hstage : predStage ≠ PromotionRule.buildStage) (henv : s.environments.get? id = some env)
      (hd : s.currentDeploy env = some d) (hpred : s.Precedes env predStage pred)
      (hfrom : d.fromDeploy = some k) (hsource : s.deploys.get? k = some source)
      (hsame : source.envId = pred.id) (hdate : source.startDate = date)

/-- What is eligible is newer than what the current deploy was made of. -/
theorem Rooted.lt_date (h : s.Rooted id predStage date) (hu : s.StagesApart)
    (henv : s.environments.get? id = some env) (ho : s.Eligible env predStage limit o) :
    date < o.date := by
  cases h with
  | @build env' d b hstage henv' hd hb hdate =>
      cases henv.symm.trans henv'
      cases ho with
      | deploy hother => exact absurd hstage hother
      | build _ _ _ _ hafter =>
          rw [hd, currentBuildDate, hb] at hafter
          rw [← hdate]
          exact hafter
  | @deploy env' pred d source k hstage henv' hd hpred hfrom hsource hsame hdate =>
      cases henv.symm.trans henv'
      cases ho with
      | build hother => exact absurd hother hstage
      | @deploy pred' d' _ hpred' _ _ _ _ _ hafter =>
          rw [hpred.eq hu hpred', hd] at hafter
          simp only [sourceDate, hfrom, Option.bind_some, hsource, if_pos hsame] at hafter
          rw [← hdate]
          exact hafter

/-- A deploy that is made of something eligible, and recorded under a new name, has its date. -/
theorem Eligible.rooted {clock : Outcome Instant} {deploy : Deploy}
    (ho : s.Eligible env predStage limit o) (henv : s.environments.get? env.id = some env)
    (hcreated : s.createDeploy clock (o.newDeploy env) = .ok (deploy, s'))
    (hnew : s.deploys.get? deploy.id = none) :
    s'.Rooted env.id predStage o.date ∧ s'.originDate deploy = o.date := by
  obtain ⟨-, now, -, hdeploy, rfl⟩ := eq_of_createDeploy hcreated
  have henvs : ∀ e : Environment, s.environments.get? e.id = some e → ∃ e' : Environment,
      (s.environments.modify env.id fun e => { e with deployId := some deploy.id }).get? e.id =
        some e' ∧ e'.id = e.id ∧ e'.name = e.name ∧ e'.stage = e.stage := by
    intro e he
    rw [Table.get?_modify, he]
    split <;> exact ⟨_, rfl, rfl, rfl, rfl⟩
  have hcurrent : (s.environments.modify env.id fun e =>
      { e with deployId := some deploy.id }).get? env.id =
        some { env with deployId := some deploy.id } := by
    rw [Table.get?_modify, if_pos rfl, henv]
    rfl
  have hrecorded : (s.deploys.insert deploy.id deploy).get? deploy.id = some deploy :=
    Table.get?_insert_self _ _ _
  cases ho with
  | @build b hstage hb =>
      have hbuild : deploy.buildId = b.id := congrArg Deploy.buildId hdeploy
      have hfrom : deploy.fromDeploy = none := congrArg Deploy.fromDeploy hdeploy
      refine ⟨.build hstage hcurrent hrecorded (b := b) ?_ rfl, ?_⟩
      · rw [hbuild]
        exact hb
      · simp only [originDate, hfrom, hbuild, hb]
        rfl
  | @deploy pred source hstage hpred hsource hsame =>
      have hfrom : deploy.fromDeploy = some source.id := congrArg Deploy.fromDeploy hdeploy
      have hkept : (s.deploys.insert deploy.id deploy).get? source.id = some source := by
        rw [Table.get?_insert_of_ne _ _ fun he => ?_]
        · exact hsource
        · rw [he, hnew] at hsource
          cases hsource
      obtain ⟨pred', hpred', hid, hname, hst⟩ := henvs pred hpred.recorded
      refine ⟨.deploy hstage hcurrent hrecorded (⟨?_, ?_, ?_⟩ : Precedes _ _ _ pred') hfrom hkept
        ?_ rfl, ?_⟩
      · rw [hid]
        exact hpred'
      · exact hname.trans hpred.name
      · exact hst.trans hpred.stage
      · exact hsame.trans hid.symm
      · simp only [originDate, hfrom, hkept]
        rfl

/-- What others may make of a store between the attempts for an environment: records stay what
they are in what promotion goes by, and the environment keeps its deploy. -/
structure Retains (id : EnvId) (s s' : Store) : Prop where
  keyed : s'.Keyed
  stagesApart : s'.StagesApart
  environments : ∀ k e, s.environments.get? k = some e → ∃ e' : Environment,
    s'.environments.get? k = some e' ∧ e'.name = e.name ∧ e'.stage = e.stage ∧
      (k = id → e'.deployId = e.deployId)
  deploys : ∀ k d, s.deploys.get? k = some d → ∃ d' : Deploy, s'.deploys.get? k = some d' ∧
    d'.envId = d.envId ∧ d'.buildId = d.buildId ∧ d'.startDate = d.startDate ∧
      d'.fromDeploy = d.fromDeploy
  builds : ∀ k b, s.builds.get? k = some b → ∃ b' : Build, s'.builds.get? k = some b' ∧
    b'.publishDate = b.publishDate

theorem Retains.currentDeploy (h : s.Retains id s') (henv : s.environments.get? id = some env)
    {d : Deploy} (hd : s.currentDeploy env = some d) :
    ∃ env' d', s'.environments.get? id = some env' ∧ env'.name = env.name ∧
      s'.currentDeploy env' = some d' ∧ d'.buildId = d.buildId ∧ d'.fromDeploy = d.fromDeploy := by
  obtain ⟨env', henv', hname, -, hkeeps⟩ := h.environments id env henv
  obtain ⟨k, hk, hget⟩ := Option.bind_eq_some_iff.mp hd
  obtain ⟨d', hd', -, hbuild, -, hfrom⟩ := h.deploys k d hget
  refine ⟨env', d', henv', hname, ?_, hbuild, hfrom⟩
  rw [Store.currentDeploy, hkeeps rfl, hk]
  exact hd'

/-- What the current deploy was made of stays. -/
theorem Rooted.retained (h : s.Rooted id predStage date) (hr : s.Retains id s') :
    s'.Rooted id predStage date := by
  cases h with
  | @build env d b hstage henv hd hb hdate =>
      obtain ⟨env', d', henv', -, hd', hbuild, -⟩ := hr.currentDeploy henv hd
      obtain ⟨b', hb', hpublished⟩ := hr.builds _ b hb
      rw [← hbuild] at hb'
      exact .build hstage henv' hd' hb' (hpublished.trans hdate)
  | @deploy env pred d source k hstage henv hd hpred hfrom hsource hsame hdate =>
      obtain ⟨env', d', henv', hname, hd', -, hfrom'⟩ := hr.currentDeploy henv hd
      obtain ⟨source', hsource', henvId, -, hstart, -⟩ := hr.deploys k source hsource
      obtain ⟨pred', hpred', hpredName, hpredStage, -⟩ :=
        hr.environments pred.id pred hpred.recorded
      have hid : pred'.id = pred.id := hr.keyed.environments pred.id pred' hpred'
      refine .deploy hstage henv' hd' (⟨?_, ?_, ?_⟩ : Precedes _ _ _ pred') (hfrom'.trans hfrom)
        hsource' ((henvId.trans hsame).trans hid.symm) (hstart.trans hdate)
      · rw [hid]
        exact hpred'
      · exact hpredName.trans (hpred.name.trans hname.symm)
      · exact hpredStage.trans hpred.stage

/-- The rules of promotion are no part of it. -/
theorem SameButRules.retains (h : s.SameButRules s') (hk : s'.Keyed)
    (hu : s.StagesApart) : s.Retains id s' := by
  obtain ⟨rules, rfl⟩ := h
  exact {
    keyed := hk
    stagesApart := hu
    environments := fun k e he => ⟨e, he, rfl, rfl, fun _ => rfl⟩
    deploys := fun k d hd => ⟨d, hd, rfl, rfl, rfl, rfl⟩
    builds := fun k b hb => ⟨b, hb, rfl⟩ }

/-- A new deploy keeps names and stages as they are. -/
theorem StagesApart.createDeploy (hu : s.StagesApart) {clock : Outcome Instant} {d : NewDeploy}
    {deploy : Deploy} (hcreated : s.createDeploy clock d = .ok (deploy, s')) :
    s'.StagesApart := by
  obtain ⟨-, now, -, -, rfl⟩ := eq_of_createDeploy hcreated
  have hbefore : ∀ k e, (s.environments.modify d.envId fun e =>
      { e with deployId := some deploy.id }).get? k = some e → ∃ e₀ : Environment,
        s.environments.get? k = some e₀ ∧ e₀.name = e.name ∧ e₀.stage = e.stage := by
    intro k e he
    rw [Table.get?_modify] at he
    split at he
    · obtain ⟨e₀, he₀, rfl⟩ := Option.map_eq_some_iff.mp he
      exact ⟨e₀, he₀, rfl, rfl⟩
    · exact ⟨e, he, rfl, rfl⟩
  intro k k' e e' he he' hname hstage
  obtain ⟨e₀, he₀, hn, hst⟩ := hbefore k e he
  obtain ⟨e₀', he₀', hn', hst'⟩ := hbefore k' e' he'
  exact hu k k' e₀ e₀' he₀ he₀' ((hn.trans hname).trans hn'.symm)
    ((hst.trans hstage).trans hst'.symm)

end Store

/-! ## Any number of attempts -/

namespace Promotion

variable {raises : Fault → Prop} {config : PromotionSettings} {id : EnvId} {predStage : String}
  {now : Instant} {w w' : World} {s : Store} {dates : List Instant}

/-- Smooth attempts to promote into an environment from a stage, none of which goes back from a
failed deploy, and what others do between them. The dates are those of what was promoted, the
last one first. -/
inductive Rounds (raises : Fault → Prop) (id : EnvId) (predStage : String) (w : World) :
    List Instant → World → Prop where
  | start : Rounds raises id predStage w [] w
  | others {dates : List Instant} {v v' : World} (past : Rounds raises id predStage w dates v)
      (retains : ∀ s, v.store = some s → ∃ s', v'.store = some s' ∧ s.Retains id s') :
      Rounds raises id predStage w dates v'
  | passes {dates : List Instant} {v : World} {config : PromotionSettings} {now : Instant}
      {a : Result} {j : Journal World} (past : Rounds raises id predStage w dates v)
      (attempt : (promote config id now).Ends (World.Possible Eq raises).flawless.recorded
        (.start v) (.ok a) j)
      (ha : ∀ n, a ≠ .promoted n ∧ a ≠ .rolledBack n) : Rounds raises id predStage w dates j.state
  /-- The name of the new deploy is new. -/
  | promotes {dates : List Instant} {v : World} {config : PromotionSettings} {now : Instant}
      {j : Journal World} {d : Deploy} (past : Rounds raises id predStage w dates v)
      (stage : (v.tables.promoteConfigs.get? id).bind PromotionRule.predStage = some predStage)
      (attempt : (promote config id now).Ends (World.Possible Eq raises).flawless.recorded
        (.start v) (.ok (.promoted d.id)) j)
      (unnamed : v.tables.deploys.get? d.id = none)
      (recorded : j.state.tables.deploys.get? d.id = some d) :
      Rounds raises id predStage w (j.state.tables.originDate d :: dates) j.state

/-- A smooth attempt keeps records under their keys. -/
theorem keyed_of_ends {s' : Store} {r : Outcome Result} {j : Journal World}
    (hs : w.store = some s) (hk : s.Keyed)
    (he : (promote config id now).Ends (World.Possible Eq raises).flawless.recorded (.start w) r j)
    (hs' : j.state.store = some s') : s'.Keyed := by
  rw [← World.tables_eq hs] at hk
  rw [← World.tables_eq hs']
  refine he.preserves (I := fun j => j.state.tables.Keyed) ?_ hk
  rintro c j r _ h ⟨v, ⟨hb, -⟩, rfl⟩
  refine hb.preserves (I := fun w => w.tables.Keyed) (fun u hu h => ?_)
    (fun u hu => World.keyed_answer hu c) h
  rw [← hu]
  exact h

/-- What is known between attempts: the store is in order, and what was promoted last is what the
current deploy was made of. -/
structure Advanced (id : EnvId) (predStage : String) (dates : List Instant) (w : World)
    (s : Store) : Prop where
  store : w.store = some s
  keyed : s.Keyed
  stagesApart : s.StagesApart
  rooted : ∀ date ∈ dates.head?, s.Rooted id predStage date
  rising : dates.Pairwise fun later earlier => earlier < later

namespace Advanced

/-- What is eligible is newer than all that was promoted. -/
theorem lt_date (h : Advanced id predStage dates w s) {env : Environment} {limit : Instant}
    {o : Offer} (henv : s.environments.get? id = some env)
    (ho : s.Eligible env predStage limit o) : ∀ date ∈ dates, date < o.date := by
  cases dates with
  | nil => exact fun _ hmem => by cases hmem
  | cons last earlier =>
      have hlast : last < o.date := (h.rooted last rfl).lt_date h.stagesApart henv ho
      have hearlier := (List.pairwise_cons.mp h.rising).1
      intro date hmem
      obtain rfl | hmem := List.mem_cons.mp hmem
      · exact hlast
      · have hdate := hearlier date hmem
        simp only [Instant.lt_iff] at hdate hlast ⊢
        omega

/-- Others keep what is known. -/
theorem retain (h : Advanced id predStage dates w s) {s' : Store} (hs' : w'.store = some s')
    (hr : s.Retains id s') : Advanced id predStage dates w' s' where
  store := hs'
  keyed := hr.keyed
  stagesApart := hr.stagesApart
  rooted date hd := (h.rooted date hd).retained hr
  rising := h.rising

/-- So does an attempt that neither promotes nor goes back. -/
theorem pass (h : Advanced id predStage dates w s) {a : Result} {j : Journal World}
    (he : (promote config id now).Ends (World.Possible Eq raises).flawless.recorded (.start w)
      (.ok a) j) (ha : ∀ n, a ≠ .promoted n ∧ a ≠ .rolledBack n) :
    ∃ s', Advanced id predStage dates j.state s' := by
  obtain ⟨s', hs', hdoes⟩ := does_of_ends h.keyed h.store he
  have hk : s'.Keyed := keyed_of_ends h.store h.keyed he hs'
  cases hdoes with
  | nothing _ hsame => exact ⟨s', h.retain hs' (hsame.retains hk h.stagesApart)⟩
  | back n => exact absurd rfl (ha n).2
  | promotes => exact absurd rfl (ha _).1

/-- A promotion takes something newer than all that was promoted before. -/
theorem promote (h : Advanced id predStage dates w s) {d : Deploy} {j : Journal World}
    (hstage : (s.promoteConfigs.get? id).bind PromotionRule.predStage = some predStage)
    (he : (promote config id now).Ends (World.Possible Eq raises).flawless.recorded (.start w)
      (.ok (.promoted d.id)) j) (hnew : s.deploys.get? d.id = none)
    (hrecorded : j.state.tables.deploys.get? d.id = some d) :
    ∃ s', Advanced id predStage (j.state.tables.originDate d :: dates) j.state s' := by
  obtain ⟨s', hs', hdoes⟩ := does_of_ends h.keyed h.store he
  have hk : s'.Keyed := keyed_of_ends h.store h.keyed he hs'
  rw [World.tables_eq hs'] at hrecorded ⊢
  generalize hresult : Result.promoted d.id = a at hdoes
  cases hdoes with
  | nothing ha => exact absurd hresult.symm (ha d.id)
  | back n => cases hresult
  | @promotes env c deploy _ hplan hcreated =>
      have hid : d.id = deploy.id := Result.promoted.inj hresult
      have hmade := made_plan s config id now
      rw [hplan] at hmade
      cases hmade with
      | @goOn _ rule predStage' _ henv hrule hstage' hc =>
          rw [hrule, Option.bind_some, hstage'] at hstage
          cases hstage
          obtain ⟨o, ho, rfl⟩ := Store.eligible_of_candidate h.keyed hc
          have hown : env.id = id := h.keyed.environments id env henv
          have hsame : d = deploy := by
            obtain ⟨-, _, -, -, rfl⟩ := Store.eq_of_createDeploy hcreated
            rw [hid, Table.get?_insert_self] at hrecorded
            exact (Option.some.inj hrecorded).symm
          subst hsame
          have hnewer := h.lt_date henv ho
          subst hown
          obtain ⟨hrooted, hdate⟩ := ho.rooted henv hcreated hnew
          refine ⟨s', hs', hk, h.stagesApart.createDeploy hcreated, ?_, ?_⟩
          · rintro date hmem
            cases hmem
            rw [hdate]
            exact hrooted
          · rw [hdate]
            exact List.pairwise_cons.mpr ⟨hnewer, h.rising⟩

end Advanced

/-- What is promoted is newer each time. -/
theorem Rounds.advanced (h : Rounds raises id predStage w dates w') (hs : w.store = some s)
    (hk : s.Keyed) (hu : s.StagesApart) : ∃ s', Advanced id predStage dates w' s' := by
  induction h with
  | start => exact ⟨s, hs, hk, hu, (fun _ hmem => by cases hmem), .nil⟩
  | others _ retains ih =>
      obtain ⟨s₁, h₁⟩ := ih
      obtain ⟨s', hs', hr⟩ := retains s₁ h₁.store
      exact ⟨s', h₁.retain hs' hr⟩
  | passes _ attempt ha ih =>
      obtain ⟨s₁, h₁⟩ := ih
      exact h₁.pass attempt ha
  | promotes _ stage attempt unnamed recorded ih =>
      obtain ⟨s₁, h₁⟩ := ih
      rw [World.tables_eq h₁.store] at stage unnamed
      exact h₁.promote stage attempt unnamed recorded

/-- An environment without a deploy, four builds for it, and a rule that asks for the second
newest. -/
def queued : World :=
  let env : Environment := ⟨"prod", "web", "prod", .normal, none, "web", 0, ⟨[], [], none⟩⟩
  let rule : PromotionRule := ⟨"prod", .auto, some PromotionRule.buildStage, 2, 0, .goOn⟩
  let builds := [("a", 1000), ("b", 1100), ("c", 1200), ("d", 1300)].foldl
    (fun t b => t.insert b.1 (⟨b.1, "web", ⟨b.2⟩, false⟩ : Build)) Table.empty
  { World.initial ⟨2000⟩ (.seeded 0) with
    store := some { Store.empty with
      environments := Table.empty.insert env.id env
      promoteConfigs := Table.empty.insert rule.envId rule
      builds := builds } }

/-- A smooth attempt at an instant. -/
def attemptedAt (now : Instant) (w : World) : Outcome Result × Journal World :=
  (promote {} "prod" now).run (failing fun _ _ => none) (.start w)

/-- The store once a deploy was accepted. -/
def accept (s : Store) (id : String) : Store :=
  { s with deploys := s.deploys.modify id fun d => { d with acceptance := .accepted } }

theorem retains_accept (hk : s.Keyed) (hu : s.StagesApart) (k : String) :
    s.Retains id (accept s k) where
  keyed := { hk with deploys := hk.deploys.modify k fun _ => rfl }
  stagesApart := hu
  environments _ e he := ⟨e, he, rfl, rfl, fun _ => rfl⟩
  builds _ b hb := ⟨b, hb, rfl⟩
  deploys k' d hd := by
    simp only [accept, Table.get?_modify, hd]
    split <;> exact ⟨_, rfl, rfl, rfl, rfl, rfl⟩

theorem keyed_queued : queued.tables.Keyed where
  __ := Store.keyed_empty
  environments := Table.KeyedBy.empty.insert _
  promoteConfigs := Table.KeyedBy.empty.insert _
  builds := by
    have hnone : (Table.empty : Table Build).KeyedBy Build.id := .empty
    exact (((hnone.insert ⟨"a", "web", ⟨1000⟩, false⟩).insert ⟨"b", "web", ⟨1100⟩, false⟩).insert
      ⟨"c", "web", ⟨1200⟩, false⟩).insert ⟨"d", "web", ⟨1300⟩, false⟩

theorem stagesApart_queued : queued.tables.StagesApart := by
  have hone : ∀ k e, queued.tables.environments.get? k = some e → k = "prod" := by
    intro k e he
    by_contra hk
    have hnone : queued.tables.environments.get? k = none := Table.get?_insert_of_ne _ _ hk
    cases hnone.symm.trans he
  intro k k' e e' he he' _ _
  rw [hone k e he, hone k' e' he']

theorem ends_attemptedAt {now : Instant} {w : World}
    (hok : (attemptedAt now w).2.log.all (·.reply.isOk) = true) :
    (promote {} "prod" now).Ends (World.Possible Eq fun _ => False).flawless.recorded (.start w)
      (attemptedAt now w).1 (attemptedAt now w).2 := ends_smooth _ hok

theorem due_queued : Due {} "prod" ⟨1250⟩ queued queued.tables
    ⟨"prod", "web", "prod", .normal, none, "web", 0, ⟨[], [], none⟩⟩
    ⟨"prod", .auto, some PromotionRule.buildStage, 2, 0, .goOn⟩ PromotionRule.buildStage where
  store := rfl
  keyed := keyed_queued
  stagesApart := stagesApart_queued
  environment := rfl
  normal := rfl
  ruled := rfl
  automatic := rfl
  stage := rfl
  named := by decide
  replaceable := rfl
  unfailed := .inl rfl
  few := ⟨fun _ => by decide +kernel, fun h => absurd rfl h⟩
  free := rfl

/-- The world after the first attempt, once its deploy was accepted. -/
def requeued : World :=
  let w := (attemptedAt ⟨1250⟩ queued).2.state
  w.withStore (accept w.tables "gen-1")

/-- Two attempts, and between them the acceptance of the first deploy. -/
theorem rounds_requeued : Rounds (fun _ => False) "prod" PromotionRule.buildStage queued
    [⟨1200⟩, ⟨1100⟩] (attemptedAt ⟨2000⟩ requeued).2.state := by
  let first : Deploy := ⟨"gen-1", "prod", "b", .running, .pendingDeploy, ⟨2000⟩, none⟩
  let second : Deploy := ⟨"gen-2", "prod", "c", .running, .pendingDeploy, ⟨2000⟩, none⟩
  have hfirst : (attemptedAt ⟨1250⟩ queued).1 = .ok (.promoted first.id) := by cbv
  have hsecond : (attemptedAt ⟨2000⟩ requeued).1 = .ok (.promoted second.id) := by cbv
  have hends := ends_attemptedAt (show (attemptedAt ⟨1250⟩ queued).2.log.all _ = true by cbv)
  have hends' := ends_attemptedAt (show (attemptedAt ⟨2000⟩ requeued).2.log.all _ = true by cbv)
  rw [hfirst] at hends
  rw [hsecond] at hends'
  have hround : Rounds (fun _ => False) "prod" PromotionRule.buildStage queued _ _ :=
    .promotes .start rfl hends (by cbv) (by cbv)
  have hdate : (attemptedAt ⟨1250⟩ queued).2.state.tables.originDate first = ⟨1100⟩ := by cbv
  have hdate' : (attemptedAt ⟨2000⟩ requeued).2.state.tables.originDate second = ⟨1200⟩ := by cbv
  rw [hdate] at hround
  obtain ⟨s, hadvanced⟩ := hround.advanced rfl keyed_queued stagesApart_queued
  have haccepted : Rounds (fun _ => False) "prod" PromotionRule.buildStage queued [⟨1100⟩]
      requeued := by
    refine .others hround fun t ht => ⟨accept t "gen-1", ?_, ?_⟩
    · rw [← World.tables_eq ht]
      rfl
    · cases ht.symm.trans hadvanced.store
      exact retains_accept hadvanced.keyed hadvanced.stagesApart _
  have hrounds : Rounds (fun _ => False) "prod" PromotionRule.buildStage queued _ _ :=
    .promotes haccepted (by cbv) hends' (by cbv) (by cbv)
  rwa [hdate'] at hrounds

/-- The sorted list of what is eligible decides what a smooth attempt promotes for an environment
that is due: the offer in the place of the rule becomes its deploy, unless there are too few or
the preceding environment has no deploy; then nothing changes. And over any number of smooth
attempts, whatever the others do between them that keeps the records, each promotion takes
something newer than all before it. -/
theorem promotes_in_turn_and_never_back (raises : Fault → Prop) :
    (∀ {config : PromotionSettings} {id : EnvId} {now : Instant} {w : World} {s : Store}
      {env : Environment} {rule : PromotionRule} {predStage : String} {r : Outcome Result}
      {j : Journal World}, Due config id now w s env rule predStage →
      (promote config id now).Ends (World.Possible Eq raises).flawless.recorded (.start w) r j →
      ∃ L : List Offer, L.Nodup ∧ L.Pairwise (fun a b => b.date ≤ a.date) ∧
        (∀ o, o ∈ L ↔ s.Eligible env predStage (now.minutesBefore rule.delayMinutes) o) ∧
        ∃ s', j.state.store = some s' ∧
          ((∃ o deploy, s.Sourced env predStage ∧ L[max rule.queueSize 1 - 1]? = some o ∧
              s.createDeploy w.now (o.newDeploy env) = .ok (deploy, s') ∧
              r = .ok (.promoted deploy.id)) ∨
            ((L[max rule.queueSize 1 - 1]? = none ∨ ¬s.Sourced env predStage) ∧
              r = .ok .noCandidate ∧ s' = s))) ∧
    ∀ {id : EnvId} {predStage : String} {w w' : World} {s : Store} {dates : List Instant},
      w.store = some s → s.Keyed → s.StagesApart →
      Rounds raises id predStage w dates w' →
      dates.Pairwise fun later earlier => earlier < later := by
  constructor
  · intro config id now w s env rule predStage r j h he
    obtain ⟨a, rfl, s', hs', hends⟩ := h.smooth.ends he
    refine ⟨s.offers env predStage (now.minutesBefore rule.delayMinutes),
      Store.nodup_offers h.keyed, Store.pairwise_offers,
      fun o => Store.mem_offers h.keyed h.stagesApart, s', hs', ?_⟩
    obtain ⟨o, deploy, hsourced, ho, hcreated, rfl⟩ | ⟨hnone, rfl, hsame⟩ := hends
    · exact .inl ⟨o, deploy, hsourced, ho, hcreated, rfl⟩
    · exact .inr ⟨hnone, rfl, hsame⟩
  · intro id predStage w w' s dates hs hk hu hrounds
    obtain ⟨s', hadvanced⟩ := hrounds.advanced hs hk hu
    exact hadvanced.rising

/-- The queue gives its second newest build first, and a newer one after that. -/
theorem promotes_in_turn_and_never_back_queued :
    (attemptedAt ⟨1250⟩ queued).1 = .ok (.promoted "gen-1") ∧
    (∃ L : List Offer, L.Pairwise (fun a b => b.date ≤ a.date) ∧
      ∃ o, L[1]? = some o ∧ o.buildId = "b") ∧
    Rounds (fun _ => False) "prod" PromotionRule.buildStage queued [⟨1200⟩, ⟨1100⟩]
      (attemptedAt ⟨2000⟩ requeued).2.state ∧
    [(⟨1200⟩ : Instant), ⟨1100⟩].Pairwise fun later earlier => earlier < later := by
  obtain ⟨hturn, hback⟩ := promotes_in_turn_and_never_back fun _ => False
  have hends := ends_attemptedAt (show (attemptedAt ⟨1250⟩ queued).2.log.all _ = true by cbv)
  have hr : (attemptedAt ⟨1250⟩ queued).1 = .ok (.promoted "gen-1") := by cbv
  have hbuild : ((attemptedAt ⟨1250⟩ queued).2.state.tables.deploys.get? "gen-1").map
      Deploy.buildId = some "b" := by cbv
  refine ⟨hr, ?_, rounds_requeued, hback rfl keyed_queued stagesApart_queued rounds_requeued⟩
  obtain ⟨L, -, hsorted, -, s', hs', ⟨o, deploy, -, ho, hcreated, hpromoted⟩ | ⟨-, hno, -⟩⟩ :=
    hturn due_queued hends
  · refine ⟨L, hsorted, o, ho, ?_⟩
    have hid : "gen-1" = deploy.id := by
      have hsame := hr.symm.trans hpromoted
      simp only [Except.ok.injEq, Result.promoted.injEq] at hsame
      exact hsame
    obtain ⟨-, now, -, hdeploy, rfl⟩ := Store.eq_of_createDeploy hcreated
    rw [World.tables_eq hs', hid, Table.get?_insert_self, hdeploy] at hbuild
    exact Option.some.inj hbuild
  · cases hr.symm.trans hno

end Promotion

end FleetControl
