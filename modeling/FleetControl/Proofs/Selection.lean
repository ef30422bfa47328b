import Mathlib
import FleetControl.Proofs.Atomicity

/-!
# Which candidate is promoted

An environment that is due for its next deploy takes it from fresh builds, or from the deploys
of the stage before it. What may be promoted lies in a window of time: after what the current
deploy was made of, and long enough ago. A smooth attempt sorts what is eligible by its date and
promotes the one whose place the rule asks for.
-/
namespace FleetControl

open Program

/-! ## Sorting by date -/

namespace Store

variable {α : Type} {date : α → Instant} {xs : List α}

theorem newestFirst_perm (date : α → Instant) (xs : List α) : (newestFirst date xs).Perm xs :=
  List.mergeSort_perm _ _

theorem pairwise_newestFirst (date : α → Instant) (xs : List α) :
    (newestFirst date xs).Pairwise fun a b => date b ≤ date a := by
  have htrans : ∀ a b c : α, decide (date b ≤ date a) = true → decide (date c ≤ date b) = true →
      decide (date c ≤ date a) = true := by
    intro a b c hab hbc
    simp only [decide_eq_true_eq, Instant.le_iff] at hab hbc ⊢
    omega
  have htotal : ∀ a b : α, (decide (date b ≤ date a) || decide (date a ≤ date b)) = true := by
    intro a b
    simp only [Bool.or_eq_true, decide_eq_true_eq, Instant.le_iff]
    omega
  exact (List.pairwise_mergeSort htrans htotal xs).imp fun h => of_decide_eq_true h

/-- Where no more are listed than the limit, none is cut off. -/
theorem take_newestFirst {limit : Nat} (h : xs.length ≤ limit) :
    (newestFirst date xs).take limit = newestFirst date xs := by
  refine List.take_of_length_le ?_
  rwa [(newestFirst_perm date xs).length_eq]

theorem mem_newestFirst {a : α} : a ∈ newestFirst date xs ↔ a ∈ xs :=
  (newestFirst_perm date xs).mem_iff

end Store

/-! ## What is eligible -/

/-- What an environment may take as its next deploy: a build, and where it comes from another
stage the deploy there. -/
structure Offer where
  buildId : String
  fromDeploy : Option String
  /-- The publication of the build, or the start of the deploy. -/
  date : Instant

namespace Offer

def ofBuild (b : Build) : Offer := ⟨b.id, none, b.publishDate⟩

def ofDeploy (d : Deploy) : Offer := ⟨d.buildId, some d.id, d.startDate⟩

/-- The deploy that it becomes in an environment. -/
def newDeploy (o : Offer) (env : Environment) : NewDeploy := ⟨env.id, o.buildId, o.fromDeploy⟩

end Offer

/-- Whether a build of a name was published in a window. -/
def Build.isWithin (name : String) (after before : Instant) (b : Build) : Bool :=
  b.name == name && decide (after < b.publishDate) && decide (b.publishDate ≤ before)

/-- Whether a deploy of an environment started in a window. -/
def Deploy.isWithin (env : EnvId) (after before : Instant) (d : Deploy) : Bool :=
  d.envId == env && decide (after < d.startDate) && decide (d.startDate ≤ before)

namespace Store

/-- The deploy that an environment has, if it is recorded. -/
abbrev currentDeploy (s : Store) (env : Environment) : Option Deploy :=
  env.deployId.bind s.deploys.get?

/-- An environment is the one of a stage beside another environment. -/
structure Precedes (s : Store) (env : Environment) (predStage : String) (pred : Environment) :
    Prop where
  recorded : s.environments.get? pred.id = some pred
  name : pred.name = env.name
  stage : pred.stage = predStage

/-- What an environment may be promoted to by an instant. -/
inductive Eligible (s : Store) (env : Environment) (predStage : String) (limit : Instant) :
    Offer → Prop where
  | build {b : Build} (hstage : predStage = PromotionRule.buildStage)
      (hrecorded : s.builds.get? b.id = some b) (hname : b.name = env.buildName)
      (hgood : b.bad = false) (hafter : s.currentBuildDate (s.currentDeploy env) < b.publishDate)
      (hbefore : b.publishDate ≤ limit) : Eligible s env predStage limit (.ofBuild b)
  | deploy {pred : Environment} {d : Deploy} (hstage : predStage ≠ PromotionRule.buildStage)
      (hpred : s.Precedes env predStage pred) (hrecorded : s.deploys.get? d.id = some d)
      (henv : d.envId = pred.id) (hstate : d.state = .succeeding ∨ d.state = .succeeded)
      (haccepted : d.acceptance ≠ .rejected)
      (hgood : ∀ b, s.builds.get? d.buildId = some b → b.bad = false)
      (hafter : s.sourceDate pred (s.currentDeploy env) < d.startDate)
      (hbefore : d.startDate ≤ limit) : Eligible s env predStage limit (.ofDeploy d)

/-- The good builds in the window, newest first. -/
def eligibleBuilds (s : Store) (env : Environment) (limit : Instant) : List Build :=
  (newestFirst Build.publishDate (s.builds.values.filter
    (Build.isWithin env.buildName (s.currentBuildDate (s.currentDeploy env)) limit))).filter
      fun b => !b.bad

/-- The good deploys of the preceding environment in the window, newest first. -/
def eligibleDeploys (s : Store) (env pred : Environment) (limit : Instant) : List Deploy :=
  (newestFirst Deploy.startDate (s.deploys.values.filter
    (Deploy.isWithin pred.id (s.sourceDate pred (s.currentDeploy env)) limit))).filter
      fun d => Promotion.isSound d && !s.isTagged d.buildId

/-- All that an environment may be promoted to, newest first. -/
def offers (s : Store) (env : Environment) (predStage : String) (limit : Instant) : List Offer :=
  if predStage = PromotionRule.buildStage then (s.eligibleBuilds env limit).map .ofBuild
  else
    match s.environmentByStage env.name predStage with
    | none => []
    | some pred => (s.eligibleDeploys env pred limit).map .ofDeploy

variable {s : Store} {env pred : Environment} {predStage : String} {limit : Instant}

/-- Environments are told apart by their names and stages. -/
def StagesApart (s : Store) : Prop := ∀ k k' e e', s.environments.get? k = some e →
  s.environments.get? k' = some e' → e.name = e'.name → e.stage = e'.stage → k = k'

/-- There is one environment of a stage beside another one. -/
theorem Precedes.eq (h : s.Precedes env predStage pred) (hu : s.StagesApart) {pred' : Environment}
    (h' : s.Precedes env predStage pred') : pred' = pred := by
  have hid : pred'.id = pred.id := hu _ _ pred' pred h'.recorded h.recorded
    (h'.name.trans h.name.symm) (h'.stage.trans h.stage.symm)
  have hrecorded := h'.recorded
  rw [hid, h.recorded] at hrecorded
  exact (Option.some.inj hrecorded).symm

theorem precedes_of_environmentByStage (hk : s.Keyed)
    (h : s.environmentByStage env.name predStage = some pred) : s.Precedes env predStage pred := by
  have hmem := List.mem_of_find?_eq_some h
  have hfound := List.find?_some h
  simp only [Bool.and_eq_true, beq_iff_eq] at hfound
  exact ⟨hk.environments.get?_of_mem hmem, hfound.1, hfound.2⟩

theorem environmentByStage_of_precedes (hk : s.Keyed) (hu : s.StagesApart)
    (h : s.Precedes env predStage pred) : s.environmentByStage env.name predStage = some pred := by
  cases hfound : s.environmentByStage env.name predStage with
  | none =>
      have hnone := List.find?_eq_none.mp hfound pred
        (Table.mem_values_iff.mpr ⟨_, h.recorded⟩)
      simp [h.name, h.stage] at hnone
  | some other =>
      exact congrArg some (h.eq hu (precedes_of_environmentByStage hk hfound))

/-! ## The sorted list -/

section

variable {α : Type} {key : α → String} {date : α → Instant} {t : Table α} {p q : α → Bool}

theorem mem_listing (h : t.KeyedBy key) {a : α} :
    a ∈ (newestFirst date (t.values.filter p)).filter q ↔
      t.get? (key a) = some a ∧ p a = true ∧ q a = true := by
  rw [List.mem_filter, mem_newestFirst, List.mem_filter]
  constructor
  · rintro ⟨⟨hmem, hp⟩, hq⟩
    exact ⟨h.get?_of_mem hmem, hp, hq⟩
  · rintro ⟨hget, hp, hq⟩
    exact ⟨⟨Table.mem_values_iff.mpr ⟨_, hget⟩, hp⟩, hq⟩

theorem nodup_listing (h : t.KeyedBy key) (date : α → Instant) (p q : α → Bool) :
    (((newestFirst date (t.values.filter p)).filter q).map key).Nodup := by
  have hkeys : (t.values.map key).Nodup := by
    rw [h.map_values]
    exact t.nodup_keys
  have hwithin : ((t.values.filter p).map key).Nodup := (List.filter_sublist.map key).nodup hkeys
  have hsorted : ((newestFirst date (t.values.filter p)).map key).Nodup :=
    ((newestFirst_perm date _).map key).nodup_iff.mpr hwithin
  exact (List.filter_sublist.map key).nodup hsorted

end

theorem pairwise_offers : (s.offers env predStage limit).Pairwise fun a b => b.date ≤ a.date := by
  rw [offers]
  split
  · exact List.pairwise_map.mpr ((pairwise_newestFirst _ _).filter _)
  · split
    · exact .nil
    · exact List.pairwise_map.mpr ((pairwise_newestFirst _ _).filter _)

theorem nodup_offers (hk : s.Keyed) : (s.offers env predStage limit).Nodup := by
  rw [offers]
  split
  · refine List.Nodup.of_map Offer.buildId ?_
    rw [List.map_map]
    exact nodup_listing hk.builds _ _ _
  · split
    · exact .nil
    · refine List.Nodup.of_map Offer.fromDeploy ?_
      rw [List.map_map]
      refine List.Nodup.of_map (Option.getD · "") ?_
      rw [List.map_map]
      exact nodup_listing hk.deploys _ _ _

theorem isSound_iff {d : Deploy} : Promotion.isSound d = true ↔
    (d.state = .succeeding ∨ d.state = .succeeded) ∧ d.acceptance ≠ .rejected := by
  rw [Promotion.isSound, Deploy.isFailed]
  cases d.state <;> simp

theorem isTagged_eq_false_iff {build : String} : s.isTagged build = false ↔
    ∀ b, s.builds.get? build = some b → b.bad = false := by
  rw [isTagged]
  cases s.builds.get? build <;> simp

/-- What is listed is what is eligible. -/
theorem mem_offers (hk : s.Keyed) (hu : s.StagesApart) {o : Offer} :
    o ∈ s.offers env predStage limit ↔ s.Eligible env predStage limit o := by
  constructor
  · intro hmem
    rw [offers] at hmem
    split at hmem
    · rename_i hstage
      obtain ⟨b, hb, rfl⟩ := List.mem_map.mp hmem
      obtain ⟨hrecorded, hwithin, hgood⟩ := (mem_listing hk.builds).mp hb
      simp only [Build.isWithin, Bool.and_eq_true, beq_iff_eq, decide_eq_true_eq] at hwithin
      exact .build hstage hrecorded hwithin.1.1 (by simpa using hgood) hwithin.1.2 hwithin.2
    · rename_i hstage
      split at hmem
      · cases hmem
      · rename_i pred hpred
        obtain ⟨d, hd, rfl⟩ := List.mem_map.mp hmem
        obtain ⟨hrecorded, hwithin, hgood⟩ := (mem_listing hk.deploys).mp hd
        simp only [Deploy.isWithin, Bool.and_eq_true, beq_iff_eq, decide_eq_true_eq] at hwithin
        simp only [Bool.and_eq_true, Bool.not_eq_true', isSound_iff,
          isTagged_eq_false_iff] at hgood
        exact .deploy hstage (precedes_of_environmentByStage hk hpred) hrecorded hwithin.1.1
          hgood.1.1 hgood.1.2 hgood.2 hwithin.1.2 hwithin.2
  · rintro (@⟨b, hstage, hrecorded, hname, hgood, hafter, hbefore⟩ |
      @⟨pred, d, hstage, hpred, hrecorded, henv, hstate, haccepted, hgood, hafter, hbefore⟩)
    · rw [offers, if_pos hstage]
      refine List.mem_map_of_mem ((mem_listing hk.builds).mpr ⟨hrecorded, ?_, by simp [hgood]⟩)
      simp [Build.isWithin, hname, hafter, hbefore]
    · rw [offers, if_neg hstage, environmentByStage_of_precedes hk hu hpred]
      refine List.mem_map_of_mem ((mem_listing hk.deploys).mpr ⟨hrecorded, ?_, ?_⟩)
      · simp [Deploy.isWithin, henv, hafter, hbefore]
      · simp only [Bool.and_eq_true, Bool.not_eq_true', isSound_iff, isTagged_eq_false_iff]
        exact ⟨⟨hstate, haccepted⟩, hgood⟩

/-! ## The list as it is read -/

/-- No more than so many builds, or deploys of the preceding environment, are in the window. -/
structure Few (s : Store) (env : Environment) (predStage : String) (limit : Instant) (n : Nat) :
    Prop where
  builds : predStage = PromotionRule.buildStage → (s.builds.values.filter
    (Build.isWithin env.buildName (s.currentBuildDate (s.currentDeploy env)) limit)).length ≤ n
  deploys : predStage ≠ PromotionRule.buildStage → ∀ pred, s.Precedes env predStage pred →
    (s.deploys.values.filter
      (Deploy.isWithin pred.id (s.sourceDate pred (s.currentDeploy env)) limit)).length ≤ n

/-- Candidates come from builds, or from a preceding environment that has a deploy. -/
def Sourced (s : Store) (env : Environment) (predStage : String) : Prop :=
  predStage = PromotionRule.buildStage ∨
    ∃ pred, s.Precedes env predStage pred ∧ pred.deployId.isSome = true

/-- Where no more are in a window than the limit, all of them are read, also of a window that
ends before it starts. -/
theorem listing_within {α : Type} {date : α → Instant} {p : α → Bool} {start before : Instant}
    (hp : ∀ a, p a = true → start < date a ∧ date a ≤ before) {xs : List α} {n : Nat}
    (hfew : (xs.filter p).length ≤ n) (q : α → Bool) :
    (if before < start then [] else ((newestFirst date (xs.filter p)).take n).filter q) =
      (newestFirst date (xs.filter p)).filter q := by
  split
  · rename_i hlt
    have hnone : xs.filter p = [] := by
      refine List.filter_eq_nil_iff.mpr fun a _ ha => ?_
      obtain ⟨hafter, hbefore⟩ := hp a ha
      simp only [Instant.lt_iff, Instant.le_iff] at hlt hafter hbefore
      omega
    rw [hnone, newestFirst, List.mergeSort_nil, List.filter_nil]
  · rw [take_newestFirst hfew]

theorem freshBuilds_eq {config : PromotionSettings}
    (hfew : s.Few env predStage limit config.candidateLimit)
    (hstage : predStage = PromotionRule.buildStage) :
    s.freshBuilds config env (s.currentDeploy env) limit = s.eligibleBuilds env limit := by
  refine listing_within (fun b hb => ?_) (hfew.builds hstage) _
  simp only [Build.isWithin, Bool.and_eq_true, decide_eq_true_eq] at hb
  exact ⟨hb.1.2, hb.2⟩

theorem provenDeploys_eq {config : PromotionSettings} (hk : s.Keyed)
    (hfew : s.Few env predStage limit config.candidateLimit)
    (hstage : predStage ≠ PromotionRule.buildStage)
    (hpred : s.environmentByStage env.name predStage = some pred)
    (hcurrent : pred.deployId.isSome = true) :
    s.provenDeploys config env (s.currentDeploy env) predStage limit =
      s.eligibleDeploys env pred limit := by
  have hnone : pred.deployId.isNone = false := by
    cases hid : pred.deployId with
    | none => simp [hid] at hcurrent
    | some id => rfl
  simp only [provenDeploys, hpred, hnone, Bool.false_or, decide_eq_true_eq]
  refine listing_within (fun d hd => ?_)
    (hfew.deploys hstage pred (precedes_of_environmentByStage hk hpred)) _
  simp only [Deploy.isWithin, Bool.and_eq_true, decide_eq_true_eq] at hd
  exact ⟨hd.1.2, hd.2⟩

/-- A candidate is eligible, also where not all of the window is read. -/
theorem eligible_of_candidate (hk : s.Keyed) {config : PromotionSettings} {rule : PromotionRule}
    {d : NewDeploy} (h : s.candidate config env (s.currentDeploy env) rule predStage limit = some d) :
    ∃ o, s.Eligible env predStage limit o ∧ d = o.newDeploy env := by
  rw [candidate] at h
  split at h
  · rename_i hstage
    obtain ⟨b, hb, rfl⟩ := Option.map_eq_some_iff.mp h
    obtain ⟨hrecorded, hname, hgood, hafter, hbefore⟩ :=
      Promotion.of_mem_freshBuilds hk (List.mem_of_getElem? hb)
    exact ⟨.ofBuild b, .build hstage hrecorded hname hgood hafter hbefore, rfl⟩
  · rename_i hstage
    obtain ⟨source, hsource, rfl⟩ := Option.map_eq_some_iff.mp h
    obtain ⟨pred, hpred, hrecorded, henv, hsound, hgood, hafter, hbefore⟩ :=
      Promotion.of_mem_provenDeploys hk (List.mem_of_getElem? hsource)
    obtain ⟨hstate, haccepted⟩ := isSound_iff.mp hsound
    exact ⟨.ofDeploy source, .deploy hstage (precedes_of_environmentByStage hk hpred) hrecorded
      henv hstate haccepted (isTagged_eq_false_iff.mp hgood) hafter hbefore, rfl⟩

/-- The candidate is the one in the place of the rule. -/
theorem candidate_eq {config : PromotionSettings} (rule : PromotionRule) (hk : s.Keyed)
    (hu : s.StagesApart) (hfew : s.Few env predStage limit config.candidateLimit) :
    (s.Sourced env predStage → s.candidate config env (s.currentDeploy env) rule predStage limit =
      (s.offers env predStage limit)[Promotion.rank rule]?.map (Offer.newDeploy · env)) ∧
    (¬s.Sourced env predStage →
      s.candidate config env (s.currentDeploy env) rule predStage limit = none) := by
  by_cases hstage : predStage = PromotionRule.buildStage
  · refine ⟨fun _ => ?_, fun hno => absurd (.inl hstage) hno⟩
    rw [candidate, if_pos hstage, offers, if_pos hstage, freshBuilds_eq hfew hstage,
      List.getElem?_map, Option.map_map]
    rfl
  · rw [candidate, if_neg hstage]
    refine ⟨?_, fun hno => ?_⟩
    · rintro (h | ⟨pred, hpred, hcurrent⟩)
      · exact absurd h hstage
      · have hfound := environmentByStage_of_precedes hk hu hpred
        rw [provenDeploys_eq hk hfew hstage hfound hcurrent, offers, if_neg hstage, hfound,
          List.getElem?_map, Option.map_map]
        rfl
    · have hnone : s.provenDeploys config env (s.currentDeploy env) predStage limit = [] := by
        rw [provenDeploys]
        cases hfound : s.environmentByStage env.name predStage with
        | none => rfl
        | some pred =>
            have hpred := precedes_of_environmentByStage hk hfound
            have hmissing : pred.deployId = none := by
              by_contra hsome
              exact hno (.inr ⟨pred, hpred, Option.isSome_iff_ne_none.mpr hsome⟩)
            simp [hmissing]
      rw [hnone]
      rfl

end Store

/-- A store in which nothing changes but the rules of promotion. -/
def Store.SameButRules (s s' : Store) : Prop := ∃ rules, s' = { s with promoteConfigs := rules }

namespace Promotion

/-! ## Smooth work under a lock -/

section

variable {α : Type} {raises : Fault → Prop} {s : Store} {j : Journal World} {name : String}

/-- Smooth work under a lock is refused, or is done. Taking the lock and giving it back leave
the store alone. -/
theorem smooth_exclusively {body : Program α} {Q : Option α → Store → Prop}
    (hs : j.state.store = some s) (hheld : j.state.locks.isHeld name = true → Q none s)
    (hbody : ∀ j₁ : Journal World, j₁.state.store = some s → j₁.state.now = j.state.now →
      body.Smooth raises (fun a j₂ => ∃ s', j₂.state.store = some s' ∧ Q (some a) s') j₁) :
    (exclusively name body).Smooth raises
      (fun o j' => ∃ s', j'.state.store = some s' ∧ Q o s') j := by
  refine .bind (Q := fun token j₁ => j₁.state.store = some s ∧ j₁.state.now = j.state.now ∧
    (token = none → j.state.locks.isHeld name = true)) (smooth_perform fun token w ha => ?_) ?_
  · refine ⟨(World.store_of_answer (fun _ h => by cases h) ha).trans hs, ?_, ?_⟩
    · have hw : (World.answer (.acquire name) j.state).2 = w := congrArg Prod.snd ha
      rw [Journal.enter, ← hw]
      rfl
    · rintro rfl
      simp only [World.answer, World.acquire, Prod.mk.injEq, Except.ok.injEq] at ha
      exact (LockTable.held_of_refused (Prod.ext ha.1 rfl)).1
  · rintro (- | token) j₁ ⟨hstore, hnow, hrefused⟩ -
    · exact ⟨s, hstore, hheld (hrefused rfl)⟩
    · refine .bind (hbody j₁ hstore hnow).contain fun outcome j₂ h₂ _ => ?_
      cases outcome with
      | error e => exact h₂.elim
      | ok a =>
          obtain ⟨s', hs', hQ⟩ := h₂
          refine .bind (Follows.attempt (Q := fun _ j₃ => j₃.state.store = some s')
            (smooth_perform fun _ w ha =>
              (World.store_of_answer (fun _ h => by cases h) ha).trans hs'))
            fun released j₃ h₃ _ => ?_
          cases released with
          | error e => exact h₃.elim
          | ok u => exact ⟨s', h₃, hQ⟩

/-- What a smooth run comes to by reading, it goes on from. -/
theorem Looks.smooth {p q : Program α} {Q : α → Journal World → Prop} (h : p.Looks s q)
    (hs : j.state.store = some s) (hq : ∀ j', j'.state = j.state → q.Smooth raises Q j') :
    p.Smooth raises Q j := by
  refine h.keeps (I := fun j' => j'.state = j.state) rfl ?_ hq
  rintro j' c a r w hc ha hj' ⟨⟨_, rfl, hb⟩, b, rfl⟩
  refine ⟨⟨_, rfl, trivial⟩, .inl ?_⟩
  obtain hb | ⟨f, -, hr, -⟩ := hb
  · have hknown := World.answer_ask (hj' ▸ hs) (ha j'.state.now)
    cases hknown.symm.trans hb
    exact ⟨rfl, hj'⟩
  · cases hr

/-- Ending automatic promotion changes nothing but the rules. -/
theorem smooth_endAutomation {env : Environment} {failed : String}
    (hs : j.state.store = some s) :
    (endAutomation env failed).Smooth raises (fun _ j' => ∃ s', j'.state.store = some s' ∧
      s.SameButRules s') j := by
  have hread : World.answer (.store (.promoteConfig env.id)) j.state =
      (.ok (s.promoteConfigs.get? env.id), j.state) := World.answer_ask hs rfl
  refine .next hread ?_
  split
  · refine .bind (Q := fun _ j₁ => ∃ s', j₁.state.store = some s' ∧ s.SameButRules s')
      (smooth_perform ?_) ?_
    · intro u w ha
      obtain ⟨s', hanswer, rfl⟩ := World.eq_of_ask hs ha
      simp only [Store.answer, Store.setPromoteKind] at hanswer
      split at hanswer
      · cases hanswer
        exact ⟨_, rfl, _, rfl⟩
      · cases hanswer
    · rintro _ j₁ ⟨s', hs', hsame⟩ -
      refine .bind (Q := fun _ j₂ => j₂.state.store = some s') (smooth_perform fun u w ha => ?_)
        fun _ _ h _ => ⟨s', h, hsame⟩
      exact (World.store_of_answer (fun _ h => by cases h) ha).trans hs'
  · exact ⟨s, hs, s.promoteConfigs, rfl⟩

/-- A smooth promotion to a candidate records it, unless the lock is held or the environment has
another deploy than the observed one. -/
theorem smooth_promoteCandidate {env : Environment} {observed : Option String}
    {candidate : NewDeploy} {thenDisable : Option String} (hs : j.state.store = some s)
    (henv : s.environments.get? env.id = some env) :
    (promoteCandidate env observed candidate thenDisable).Smooth raises (fun a j' => ∃ s',
      j'.state.store = some s' ∧
      ((a = .contended ∧ j.state.locks.isHeld (lockOf lockPrefix env.id) = true ∧ s' = s) ∨
        (a = .abandoned ∧ env.deployId ≠ observed ∧ s' = s) ∨
        ∃ deploy s₁, s.createDeploy j.state.now candidate = .ok (deploy, s₁) ∧
          a = .promoted deploy.id ∧ (thenDisable = none → s' = s₁))) j := by
  refine .bind (smooth_exclusively (Q := fun o s' =>
    (o = none ∧ j.state.locks.isHeld (lockOf lockPrefix env.id) = true ∧ s' = s) ∨
      (o = some .abandoned ∧ env.deployId ≠ observed ∧ s' = s) ∨
      ∃ deploy s₁, s.createDeploy j.state.now candidate = .ok (deploy, s₁) ∧
        o = some (.promoted deploy.id) ∧ (thenDisable = none → s' = s₁)) hs
    (fun hheld => .inl ⟨rfl, hheld, rfl⟩) ?_) ?_
  · intro j₁ hs₁ hn₁
    have hread : World.answer (.store (.getEnvironment env.id)) j₁.state =
        (.ok (some env), j₁.state) := by
      refine World.answer_ask hs₁ ?_
      rw [Store.answer, henv]
    simp only [requireEnvironment, bind_eq, bind_assoc]
    refine .next hread ?_
    simp only [orFail, Program.bind, bne_iff_ne]
    split
    · rename_i hother
      exact ⟨s, hs₁, .inr (.inl ⟨rfl, hother, rfl⟩)⟩
    refine .bind (Q := fun deploy j₂ => ∃ s₁, j₂.state.store = some s₁ ∧
      s.createDeploy j.state.now candidate = .ok (deploy, s₁)) (smooth_perform ?_) ?_
    · intro deploy w ha
      obtain ⟨s', hcreated, rfl⟩ := World.eq_of_createDeploy hs₁ ha
      rw [hn₁] at hcreated
      exact ⟨s', rfl, hcreated⟩
    · rintro deploy j₂ ⟨s₁, hs₁, hcreated⟩ -
      cases thenDisable with
      | none => exact ⟨s₁, hs₁, .inr (.inr ⟨deploy, s₁, hcreated, rfl, fun _ => rfl⟩)⟩
      | some failed =>
          refine .bind (smooth_endAutomation hs₁) ?_
          rintro _ j₃ ⟨s', hs', -⟩ -
          refine ⟨s', hs', .inr (.inr ⟨deploy, s₁, hcreated, rfl, fun h => ?_⟩)⟩
          cases h
  · rintro _ j' ⟨s', hs', ⟨rfl, hheld, rfl⟩ | ⟨rfl, hother, rfl⟩ |
      ⟨deploy, s₁, hcreated, rfl, hsame⟩⟩ -
    · exact ⟨s', hs', .inl ⟨rfl, hheld, rfl⟩⟩
    · exact ⟨s', hs', .inr (.inl ⟨rfl, hother, rfl⟩)⟩
    · exact ⟨s', hs', .inr (.inr ⟨deploy, s₁, hcreated, rfl, hsame⟩)⟩

end

/-! ## What is promoted -/

/-- An environment that is due for its next deploy: it is neither disabled nor on manual
promotion, its current deploy may be replaced and has not failed, or it goes on after failures,
and nobody holds its lock. -/
structure Due (config : PromotionSettings) (id : EnvId) (now : Instant) (w : World) (s : Store)
    (env : Environment) (rule : PromotionRule) (predStage : String) : Prop where
  store : w.store = some s
  keyed : s.Keyed
  stagesApart : s.StagesApart
  environment : s.environments.get? id = some env
  normal : env.state = .normal
  ruled : s.promoteConfigs.get? id = some rule
  automatic : rule.kind = .auto
  stage : rule.predStage = some predStage
  named : predStage ≠ ""
  replaceable : isReplaceable (s.currentDeploy env) = true
  unfailed : rule.failPolicy = .goOn ∨ ∀ d, s.currentDeploy env = some d → d.isFailed = false
  few : s.Few env predStage (now.minutesBefore rule.delayMinutes) config.candidateLimit
  free : w.locks.isHeld (lockOf lockPrefix id) = false

variable {config : PromotionSettings} {id : EnvId} {now : Instant} {w : World} {s : Store}
  {env : Environment} {rule : PromotionRule} {predStage : String} {raises : Fault → Prop}

/-- The plan for an environment that is due is to go on to the candidate. -/
theorem Due.plan_eq (h : Due config id now w s env rule predStage) :
    s.plan config id now =
      match s.candidate config env (s.currentDeploy env) rule predStage
        (now.minutesBefore rule.delayMinutes) with
      | some candidate => .goOn env candidate
      | none => .rest .noCandidate := by
  have hnormal : (env.state != .normal) = false := by rw [h.normal]; rfl
  have hopen : (rule.kind != .auto || predStage.isEmpty) = false := by
    have hnamed : predStage.isEmpty = false := by
      rw [← Bool.not_eq_true, String.isEmpty_iff]
      exact h.named
    rw [h.automatic, hnamed]
    rfl
  simp only [Store.plan, h.environment, hnormal, h.ruled, h.stage, hopen, Bool.false_eq_true,
    if_false, Store.planFrom, h.replaceable, Bool.not_true]
  have hfailed : rule.failPolicy = .goOn ∨
      (s.currentDeploy env).filter Deploy.isFailed = none := by
    refine h.unfailed.imp_right fun hd => ?_
    rw [Option.filter_eq_none_iff]
    intro d hmem
    simp [hd d hmem]
  generalize (s.currentDeploy env).filter Deploy.isFailed = failed at hfailed ⊢
  obtain hpolicy | rfl := hfailed
  · rw [hpolicy]
    cases failed <;> rfl
  · rfl

/-- A smooth attempt for an environment that is due promotes the candidate in the place of the
rule, if there is one. -/
theorem Due.smooth (h : Due config id now w s env rule predStage) :
    let offers := s.offers env predStage (now.minutesBefore rule.delayMinutes)
    (promote config id now).Smooth raises (fun a j' => ∃ s', j'.state.store = some s' ∧
      ((∃ o deploy, s.Sourced env predStage ∧ offers[rank rule]? = some o ∧
          s.createDeploy w.now (o.newDeploy env) = .ok (deploy, s') ∧ a = .promoted deploy.id) ∨
        ((offers[rank rule]? = none ∨ ¬s.Sourced env predStage) ∧ a = .noCandidate ∧ s' = s)))
      (.start w) := by
  intro offers
  refine Looks.smooth (looks_promote config id now) h.store fun j hj => ?_
  obtain ⟨hsourced, hunsourced⟩ := Store.candidate_eq rule h.keyed h.stagesApart h.few
  have hstore : j.state.store = some s := by
    rw [hj]
    exact h.store
  rw [h.plan_eq]
  cases hcandidate : s.candidate config env (s.currentDeploy env) rule predStage
      (now.minutesBefore rule.delayMinutes) with
  | none =>
      refine ⟨s, hstore, .inr ⟨?_, rfl, rfl⟩⟩
      by_cases hs : s.Sourced env predStage
      · left
        rw [hsourced hs, Option.map_eq_none_iff] at hcandidate
        exact hcandidate
      · exact .inr hs
  | some candidate =>
      have hs : s.Sourced env predStage := by
        by_contra hno
        rw [hunsourced hno] at hcandidate
        cases hcandidate
      rw [hsourced hs] at hcandidate
      obtain ⟨o, ho, rfl⟩ := Option.map_eq_some_iff.mp hcandidate
      have hid : env.id = id := h.keyed.environments id env h.environment
      have henv : s.environments.get? env.id = some env := by
        rw [hid]
        exact h.environment
      change (promoteCandidate env env.deployId (o.newDeploy env) none).Smooth raises _ j
      refine Follows.imp (smooth_promoteCandidate hstore henv) ?_
      rintro a j' ⟨s', hs', ⟨-, hheld, -⟩ | ⟨-, hother, -⟩ | ⟨deploy, s₁, hcreated, rfl, hsame⟩⟩
      · rw [hj, hid] at hheld
        cases h.free.symm.trans hheld
      · exact absurd rfl hother
      · rw [hj, ← hsame rfl] at hcreated
        exact ⟨s', hs', .inl ⟨o, deploy, hs, ho, hcreated, rfl⟩⟩

end Promotion

end FleetControl
