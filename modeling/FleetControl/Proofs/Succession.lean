import FleetControl.Proofs.Custody
import FleetControl.Reconcile.Promotion

/-!
# The succession of deploys

An environment runs one deploy after another. Recording a deploy puts an id that was never used
in the place of the one before; everything else leaves the deploy as it is. What an environment
ran before it never runs again, as long as nobody else writes its record.
-/
namespace FleetControl

/-- No two numbers give one id. -/
theorem Store.createdId_inj {m n : Nat} (h : createdId m = createdId n) : m = n := by
  have hdigits : Nat.toDigits 10 (m + 1) = Nat.toDigits 10 (n + 1) := by
    simpa [createdId, Nat.toString_eq_ofList_toDigits] using congrArg String.toList h
  have hread := congrArg (Nat.ofDigitChars 10 · 0) hdigits
  simp only [Nat.ofDigitChars_ten_toDigits] at hread
  exact Nat.succ.inj hread

namespace World

variable {id : EnvId} {o : Option String} {kind : PromoteKind} {w v w' : World}
  {raises : Fault → Prop}

/-- The environment, if there is a record of it, has this deploy. -/
def Runs (id : EnvId) (o : Option String) (w : World) : Prop :=
  ∀ env, w.tables.environments.get? id = some env → env.deployId = o

/-- The promotion settings, if there are any, are of this kind. -/
def Promotes (id : EnvId) (kind : PromoteKind) (w : World) : Prop :=
  ∀ rule, w.tables.promoteConfigs.get? id = some rule → rule.kind = kind

/-- No deploy that is created later can be this one. -/
def IsPast (o : Option String) (w : World) : Prop :=
  ∀ n, w.tables.created ≤ n → o ≠ some (Store.createdId n)

/-- The deploy of the environment, if there is a record of it, is none of those to come. -/
def Fresh (id : EnvId) (w : World) : Prop :=
  ∀ env, w.tables.environments.get? id = some env → w.IsPast env.deployId

/-- The environment, if there is a record of it, has another deploy now and for good. -/
def Spent (id : EnvId) (o : Option String) (w : World) : Prop :=
  ∀ env, w.tables.environments.get? id = some env → env.deployId ≠ o ∧ w.IsPast o

/-- The environment keeps its deploy or its record goes, and no deploy is taken back. -/
structure SparesDeploy (id : EnvId) (w v : World) : Prop where
  deploy : ∀ env, v.tables.environments.get? id = some env →
    ∃ old, w.tables.environments.get? id = some old ∧ old.deployId = env.deployId
  created : v.store ≠ none → w.tables.created ≤ v.tables.created

/-- The promotion settings keep their kind or go. -/
def SparesKind (id : EnvId) (w v : World) : Prop :=
  ∀ rule, v.tables.promoteConfigs.get? id = some rule →
    ∃ old, w.tables.promoteConfigs.get? id = some old ∧ old.kind = rule.kind

/-- What the others leave to the attempts to promote: the deploy, the kind of promotion and the
lock of the environment. -/
structure Spares (id : EnvId) (w v : World) : Prop extends SparesDeploy id w v where
  kind : SparesKind id w v
  lock : v.locks.holder? (lockOf Promotion.lockPrefix id) =
    w.locks.holder? (lockOf Promotion.lockPrefix id)

theorem store_ne_none {env : Environment} (h : w.tables.environments.get? id = some env) :
    w.store ≠ none := by
  intro hn
  simp [tables, hn, Store.empty] at h

theorem SparesDeploy.runs (h : w.SparesDeploy id v) (hw : w.Runs id o) : v.Runs id o := by
  intro env he
  obtain ⟨old, ho, hd⟩ := h.deploy env he
  exact hd.symm.trans (hw old ho)

theorem SparesDeploy.isPast (h : w.SparesDeploy id v) (hv : v.store ≠ none) (hw : w.IsPast o) :
    v.IsPast o := fun n hn => hw n (Nat.le_trans (h.created hv) hn)

theorem SparesDeploy.fresh (h : w.SparesDeploy id v) (hw : w.Fresh id) : v.Fresh id := by
  intro env he
  obtain ⟨old, ho, hd⟩ := h.deploy env he
  exact hd ▸ h.isPast (store_ne_none he) (hw old ho)

theorem SparesDeploy.spent (h : w.SparesDeploy id v) (hw : w.Spent id o) : v.Spent id o := by
  intro env he
  obtain ⟨old, ho, hd⟩ := h.deploy env he
  obtain ⟨hne, hpast⟩ := hw old ho
  exact ⟨hd ▸ hne, h.isPast (store_ne_none he) hpast⟩

theorem SparesKind.promotes (h : w.SparesKind id v) (hw : w.Promotes id kind) :
    v.Promotes id kind := by
  intro rule hr
  obtain ⟨old, ho, hk⟩ := h rule hr
  exact hk.symm.trans (hw old ho)

/-- A store that is lost or stays as it is spares the environment. -/
theorem spares_of_store (h : ∀ s, w'.store = some s → w.store = some s) :
    w.SparesDeploy id w' ∧ w.SparesKind id w' := by
  cases hs : w'.store with
  | none =>
      have ht : w'.tables = .empty := by rw [tables, hs]; rfl
      refine ⟨⟨fun env he => ?_, fun hne => absurd hs hne⟩, fun rule hr => ?_⟩
      · rw [ht] at he
        cases he
      · rw [ht] at hr
        cases hr
  | some s =>
      have ht : w'.tables = w.tables := by rw [tables_eq hs, tables_eq (h s hs)]
      refine ⟨⟨fun env he => ⟨env, ht ▸ he, rfl⟩, fun _ => ht ▸ Nat.le_refl _⟩, fun rule hr => ?_⟩
      exact ⟨rule, ht ▸ hr, rfl⟩

theorem spares_self (w : World) (id : EnvId) : w.SparesDeploy id w ∧ w.SparesKind id w :=
  spares_of_store fun _ hs => hs

/-- So does a call that is none of the store, or that only looks. -/
theorem Possible.spares {c : Call} {r : Outcome c.Reply} (h : Possible Eq raises c w r w')
    (hc : ∀ q, c = .store q → q.isRead = true) :
    w.SparesDeploy id w' ∧ w.SparesKind id w' := by
  refine spares_of_store fun s hs => ?_
  rcases h.store_cases (fun _ hv => hv ▸ rfl) with he | ⟨q, rfl, he⟩
  · exact he ▸ hs
  · obtain ⟨s₀, clock, hs₀, heff⟩ := he s hs
    have hq := hc q rfl
    cases heff with
    | nothing => exact hs₀
    | _ => cases hq

/-- What a new deploy makes of its environment. -/
structure Renewed (id : EnvId) (w w' : World) : Prop where
  found : ∃ env, w.tables.environments.get? id = some env
  runs : w'.Runs id (some (Store.createdId w.tables.created))
  created : w'.tables.created = w.tables.created + 1

theorem Renewed.isPast (h : w.Renewed id w') (hw : w.IsPast o) : w'.IsPast o :=
  fun n hn => hw n (by rw [h.created] at hn; exact Nat.le_of_succ_le hn)

theorem Renewed.isPast_new (h : w.Renewed id w') :
    w'.IsPast (some (Store.createdId w.tables.created)) := by
  intro n hn he
  rw [h.created, Store.createdId_inj (Option.some.inj he)] at hn
  exact Nat.not_succ_le_self n hn

/-- After a new deploy the environment is fresh again. -/
theorem Renewed.fresh (h : w.Renewed id w') : w'.Fresh id := by
  intro env he
  rw [h.runs env he]
  exact h.isPast_new

/-- What was not to come when a new deploy came is spent. -/
theorem Renewed.spent (h : w.Renewed id w') (hw : w.IsPast o) : w'.Spent id o := by
  intro env he
  refine ⟨?_, h.isPast hw⟩
  rw [h.runs env he]
  exact (hw _ (Nat.le_refl _)).symm

theorem Renewed.spent_of_spent (h : w.Renewed id w') (hw : w.Spent id o) : w'.Spent id o := by
  obtain ⟨env, henv⟩ := h.found
  exact h.spent (hw env henv).2

/-- A call to record a deploy for an environment does so or does nothing to it. -/
theorem Possible.create_cases {d : NewDeploy} {r : Outcome Deploy}
    (h : Possible Eq raises (.store (.createDeploy d)) w r w') (hd : d.envId = id) :
    w.SparesKind id w' ∧ (w.SparesDeploy id w' ∨ w.Renewed id w') := by
  subst hd
  have hsame : (∀ s, w'.store = some s → w.store = some s) →
      w.SparesKind d.envId w' ∧ (w.SparesDeploy d.envId w' ∨ w.Renewed d.envId w') :=
    fun hs => ⟨(spares_of_store hs).2, .inl (spares_of_store hs).1⟩
  rcases h.store_cases (fun _ hv => hv ▸ rfl) with he | ⟨q, hq, he⟩
  · exact hsame fun s hs => he ▸ hs
  cases hq
  cases hs' : w'.store with
  | none => exact hsame fun s hs => by cases hs'.symm.trans hs
  | some s' =>
      obtain ⟨s, clock, hs, heff⟩ := he s' hs'
      cases heff with
      | nothing => exact hsame fun t ht => by rw [hs, ← hs', ht]
      | createDeploy hc henv =>
          have ht : w.tables = s := tables_eq hs
          have ht' := tables_eq hs'
          refine ⟨fun rule hr => ⟨rule, ?_, rfl⟩, .inr ⟨?_, fun env hget => ?_, ?_⟩⟩
          · rw [ht'] at hr
            rw [ht]
            exact hr
          · rw [ht]
            exact Option.isSome_iff_exists.mp henv
          · rw [ht', Table.get?_modify, if_pos rfl] at hget
            obtain ⟨old, -, rfl⟩ := Option.map_eq_some_iff.mp hget
            rw [ht]
          · rw [ht', ht]

/-- Switching the promotion settings fails without any, and does nothing else. -/
theorem answer_setPromoteKind (w : World) (id : EnvId) (kind : PromoteKind) :
    (∃ f, answer (.store (.setPromoteKind id kind)) w = (.error f, w)) ∨
      ∃ s, w.store = some s ∧ s.promoteConfigs.contains id = true ∧
        answer (.store (.setPromoteKind id kind)) w = (.ok (), { w with
          store := some { s with
            promoteConfigs := s.promoteConfigs.modify id fun c => { c with kind := kind } } }) := by
  cases hs : w.store with
  | none => exact .inl ⟨.error storeLost, by simp only [answer, useStore, hs]⟩
  | some s =>
      by_cases hc : s.promoteConfigs.contains id = true
      · refine .inr ⟨s, rfl, hc, ?_⟩
        simp only [answer, useStore, hs, Store.answer, Store.setPromoteKind, hc, if_true]
        rfl
      · refine .inl ⟨.error (.notFound "promote config" id), ?_⟩
        have hsame : ({ w with store := some s } : World) = w := by rw [← hs]
        simp only [answer, useStore, hs, Store.answer, Store.setPromoteKind, hc]
        exact Prod.ext rfl hsame

/-- A call to switch the promotion settings fails and does nothing, or there are some and it
switches them. -/
theorem Possible.switch_cases {r : Outcome Unit}
    (h : Possible Eq raises (.store (.setPromoteKind id kind)) w r w') :
    ((∃ f, r = .error f) ∧ w' = w) ∨
      (∃ rule, w.tables.promoteConfigs.get? id = some rule) ∧ w'.Promotes id kind ∧
        w.SparesDeploy id w' := by
  obtain ⟨_, rfl, hb⟩ := h
  rcases answer_setPromoteKind w id kind with ⟨g, ha⟩ | ⟨s, hs, hc, ha⟩
  · rw [ha] at hb
    rcases hb with hb | ⟨f, -, rfl, rfl | rfl⟩
    · cases hb
      exact .inl ⟨⟨g, rfl⟩, rfl⟩
    · exact .inl ⟨⟨f, rfl⟩, rfl⟩
    · exact .inl ⟨⟨f, rfl⟩, rfl⟩
  · have ht : w.tables = s := tables_eq hs
    have hswitched : w' = (answer (.store (.setPromoteKind id kind)) w).2 →
        (∃ rule, w.tables.promoteConfigs.get? id = some rule) ∧ w'.Promotes id kind ∧
          w.SparesDeploy id w' := by
      rintro rfl
      rw [ha, ht]
      refine ⟨Option.isSome_iff_exists.mp hc, fun rule hr => ?_, ?_⟩
      · rw [tables_eq rfl, Table.get?_modify, if_pos rfl] at hr
        obtain ⟨old, -, rfl⟩ := Option.map_eq_some_iff.mp hr
        rfl
      · exact ⟨fun env he => ⟨env, ht ▸ he, rfl⟩, fun _ => ht ▸ Nat.le_refl _⟩
    rcases hb with hb | ⟨f, -, rfl, rfl | hw⟩
    · exact .inr (hswitched (congrArg Prod.snd hb).symm)
    · exact .inl ⟨⟨f, rfl⟩, rfl⟩
    · exact .inr (hswitched hw)

end World

end FleetControl
