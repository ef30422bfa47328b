import FleetControl.Proofs.Racing
import Mathlib.Data.List.Basic

/-!
# What an attempt to promote looks at twice

While an attempt looks for a candidate, others may change everything. Only once it holds the
lock of the environment do they leave the deploy and the kind of promotion alone. Of what the
attempt has read before, it reads one thing again under the lock: the deploy of the environment
before it records another one, and the kind of promotion before it switches that. Whether the
environment still accepts deploys, and whatever else led to the decision, counts as it was read
without the lock.
-/
namespace FleetControl.Promotion

open Program

/-- What others may do while an attempt is under way: anything that leaves records under their
own keys. While the attempt holds the lock, they spare the deploy and the kind of promotion. -/
structure Yields (id : EnvId) (log : List (Entry World)) (w v : World) : Prop where
  keyed : w.tables.Keyed → v.tables.Keyed
  spares : (held (heard log)).isSome = true → w.SparesDeploy id v ∧ w.SparesKind id v

/-- What may happen at a call of an attempt beside others that yield to it. -/
def yielding (raises : Fault → Prop) (id : EnvId) : Behaviour (Journal World) := fun c j r j' =>
  ∃ w, World.Possible (Yields id j.log) raises c j.state r w ∧ j' = j.enter c r w

/-- The environment was read as one that accepts deploys, and its promotion as automatic. -/
structure Advised (id : EnvId) (log : List (Entry Unit)) : Prop where
  normal : ∃ env : Environment, .bare (.store (.getEnvironment id)) (.ok (some env)) ∈ log ∧
    env.state = .normal
  auto : ∃ rule : PromotionRule, .bare (.store (.promoteConfig id)) (.ok (some rule)) ∈ log ∧
    rule.kind = .auto

/-- What an attempt may do after what it has done. It takes the lock on the advice of what it
has read. Under the lock it records a deploy only in place of the one that it had observed, and
switches promotion only from automatic to manual. It changes nothing else. -/
inductive Validated (id : EnvId) (past : List (Entry World)) (e : Entry World) : Prop where
  | looks (hcall : e.call.isRead = true)
  | takes (hcall : e.call = .acquire (lockOf lockPrefix id)) (hadvised : Advised id (heard past))
  | gives {token : Token} (hcall : e.call = .release (lockOf lockPrefix id) token)
  | creates {d : NewDeploy} {o : Option String} (hcall : e.call = .store (.createDeploy d))
      (hd : d.envId = id) (hheld : (held (heard past)).isSome = true)
      (hsaw : observed id (heard past) = some o) (hruns : e.before.Runs id o)
  | switches (hcall : e.call = .store (.setPromoteKind id .manual))
      (hheld : (held (heard past)).isSome = true) (hauto : e.before.Promotes id .auto)

/-! ## The advice that an attempt has taken -/

section

variable {α : Type} {raises : Fault → Prop} {id : EnvId} {j : Journal Unit}

theorem Advised.cons {log : List (Entry Unit)} (h : Advised id log) (e : Entry Unit) :
    Advised id (e :: log) where
  normal := h.normal.imp fun _ ⟨hmem, hstate⟩ => ⟨List.mem_cons_of_mem _ hmem, hstate⟩
  auto := h.auto.imp fun _ ⟨hmem, hkind⟩ => ⟨List.mem_cons_of_mem _ hmem, hkind⟩

/-- A lock is taken on advice only. -/
def advised (id : EnvId) : Rule Unit := fun past e =>
  ∀ name, e.call = .acquire name → Advised id past

/-- With the advice anything is allowed. -/
theorem Advised.follows {p : Program α} {B : Behaviour Unit} (h : Advised id j.log) :
    p.Follows B (advised id) (fun _ => True) (fun _ _ => True) j := by
  induction p generalizing j with
  | done r => cases r <;> trivial
  | call c next ih => exact follows_call.mpr fun r s _ => ⟨fun _ _ => h, ih r (h.cons _)⟩

/-- An attempt takes the lock on advice only. -/
theorem advised_promote (config : PromotionSettings) (now : Instant) {B : Behaviour Unit} :
    (promote config id now).Follows B (advised id) (fun _ => True) (fun _ _ => True)
      (.start ()) := by
  refine follows_call.mpr fun r _ _ => ⟨fun _ h => (by cases h), ?_⟩
  rcases r with f | _ | env
  · trivial
  · trivial
  simp only [Program.bind]
  split
  · trivial
  rename_i hstate
  refine follows_call.mpr fun r _ _ => ⟨fun _ h => (by cases h), ?_⟩
  rcases r with f | _ | rule
  · trivial
  · trivial
  simp only [Program.bind]
  split
  · trivial
  · split
    · trivial
    rename_i hkind
    have hadvised : Advised id [.bare (.store (.promoteConfig id)) (.ok (some rule)),
        .bare (.store (.getEnvironment id)) (.ok (some env))] := by
      refine ⟨⟨env, List.mem_cons_of_mem _ List.mem_cons_self, ?_⟩,
        ⟨rule, List.mem_cons_self, ?_⟩⟩
      · simpa using hstate
      · simp only [Bool.or_eq_true, bne_iff_ne, ne_eq, not_or, Decidable.not_not] at hkind
        exact hkind.1
    exact hadvised.follows

end

/-! ## What an attempt does beside others -/

section

variable {raises : Fault → Prop} {id : EnvId} {p : Program Result} {j j' : Journal World}
  {r : Outcome Result}

/-- What is true of an attempt that is under way. -/
structure Underway (raises : Fault → Prop) (id : EnvId) (p : Program Result)
    (j : Journal World) : Prop where
  keyed : j.state.tables.Keyed
  /-- What was just read under the lock is still so. -/
  agrees : Race.Agrees id j.state (heard j.log)
  obeys : Obeys raises id p (Finishes id) ⟨(), heard j.log⟩
  heeds : p.Follows (Call.proper raises) (advised id) (fun _ => True) (fun _ _ => True)
    ⟨(), heard j.log⟩

/-- A call of the script does what an attempt may do. -/
theorem Underway.validated {c : Call} {r : Outcome c.Reply} {w : World}
    (h : Underway raises id p j) (hs : Script id (heard j.log) c)
    (hadvised : advised id (heard j.log) (.bare c r)) :
    Validated id j.log ⟨j.state, c, r, w⟩ := by
  cases hs with
  | looks hc => exact .looks (Call.isRead_of_isQuery hc)
  | takes => exact .takes rfl (hadvised _ rfl)
  | gives => exact .gives rfl
  | tells => exact .looks rfl
  | creates hpast hheld hsaw hd =>
      have hheld' : (held (heard j.log)).isSome = true := by
        rw [hpast]
        exact hheld
      exact .creates rfl hd hheld' hsaw (h.agrees.deploy hpast hheld)
  | switches hpast hheld hauto =>
      have hheld' : (held (heard j.log)).isSome = true := by
        rw [hpast]
        exact hheld
      exact .switches rfl hheld' (hauto ▸ h.agrees.kind hpast hheld)

/-- After each call the attempt is still under way. -/
theorem Underway.call {c : Call} {next : Outcome c.Reply → Program Result}
    {r : Outcome c.Reply} {j' : Journal World} (h : Underway raises id (.call c next) j)
    (hb : yielding raises id c j r j') :
    Journal.Adds (Validated id) j j' ∧ Underway raises id (next r) j' := by
  obtain ⟨w, ⟨v, hv, hb⟩, rfl⟩ := hb
  have hbv : World.Possible Eq raises c v r w := ⟨v, rfl, hb⟩
  have hkeyed := hv.keyed h.keyed
  have hproper := hbv.isProper hkeyed
  obtain ⟨hs, hobeys⟩ := follows_call.mp h.obeys r () hproper
  obtain ⟨hadvised, hheeds⟩ := follows_call.mp h.heeds r () hproper
  have hkeyed' : w.tables.Keyed :=
    hbv.preserves (I := fun u => u.tables.Keyed) (fun _ he hk => he ▸ hk)
      (fun _ hk => World.keyed_answer hk c) hkeyed
  exact ⟨⟨_, rfl, h.validated hs.1 hadvised⟩, hkeyed', Race.agrees_read hbv, hobeys, hheeds⟩

theorem Underway.ends (h : Underway raises id p j) (hlog : Rule.Admits (Validated id) j.log)
    (he : p.Ends (yielding raises id) j r j') : Rule.Admits (Validated id) j'.log := by
  induction he with
  | done => exact hlog
  | call hb _ ih =>
      obtain ⟨⟨e, hadds, hvalid⟩, hnext⟩ := h.call hb
      refine ih hnext ?_
      rw [hadds]
      exact ⟨hvalid, hlog⟩

end

/-! ## An attempt that is overtaken -/

/-- Others act just before an attempt takes the lock. -/
def overtaking (change : Store → Store) (log : List (Entry World)) : Call → World → World
  | .acquire _, w =>
      if (held (heard log)).isSome then w else { w with store := w.store.map change }
  | _, w => w

/-- An attempt that others overtake. -/
def overtaken (change : Store → Store) (w : World) : Outcome Result × Journal World :=
  (promote {} "prod" ⟨2000⟩).run (meddling (overtaking change)) (.start w)

theorem yields_overtaking {change : Store → Store} (hc : ∀ s, s.Keyed → (change s).Keyed)
    (id : EnvId) (log : List (Entry World)) (c : Call) (w : World) :
    Yields id log w (overtaking change log c w) := by
  have hself : Yields id log w w := ⟨fun h => h, fun _ => w.spares_self id⟩
  unfold overtaking
  split
  · split
    · exact hself
    · rename_i hfree
      exact ⟨fun hk => World.keyed_mapStore hk hc, fun hheld => absurd hheld hfree⟩
  · exact hself

theorem ends_overtaken {change : Store → Store} (hc : ∀ s, s.Keyed → (change s).Keyed)
    (w : World) : (promote {} "prod" ⟨2000⟩).Ends (yielding (fun _ => False) "prod") (.start w)
      (overtaken change w).1 (overtaken change w).2 :=
  ends_handler (fun c j => ⟨_, ⟨_, yields_overtaking hc "prod" j.log c j.state, .inl rfl⟩, rfl⟩)
    _ _

/-- An operator takes the environment out of service and switches its promotion to manual. -/
def withdraw (s : Store) : Store :=
  { s with
    environments := s.environments.modify "prod" fun env => { env with state := .disabled }
    promoteConfigs := s.promoteConfigs.modify "prod" fun rule => { rule with kind := .manual } }

theorem keyed_withdraw {s : Store} (h : s.Keyed) : (withdraw s).Keyed :=
  { h with
    environments := h.environments.modify _ fun _ => rfl
    promoteConfigs := h.promoteConfigs.modify _ fun _ => rfl }

/-- Somebody gives the environment another deploy. -/
def supersede (s : Store) : Store :=
  { s with
    environments := s.environments.modify "prod" fun env => { env with deployId := some "second" } }

theorem keyed_supersede {s : Store} (h : s.Keyed) : (supersede s).Keyed :=
  { h with environments := h.environments.modify _ fun _ => rfl }

/-- An environment whose deploy has failed, which then is to be left to an operator. -/
def forsaken : World :=
  let env : Environment :=
    ⟨"prod", "web", "prod", .normal, some "first", "web", 0, ⟨[], [], none⟩⟩
  let rule : PromotionRule := ⟨"prod", .auto, some PromotionRule.buildStage, 1, 0, .disable⟩
  let first : Deploy := ⟨"first", "prod", "build", .failing, .pendingDeploy, ⟨1000⟩, none⟩
  { World.initial ⟨2000⟩ (.seeded 0) with
    store := some { Store.empty with
      environments := Table.empty.insert env.id env
      promoteConfigs := Table.empty.insert rule.envId rule
      deploys := Table.empty.insert first.id first } }

/-- Whatever fails and whatever others do while the lock is free: an attempt takes the lock only
when it has read that the environment accepts deploys and that its promotion is automatic. Under
the lock it records a deploy only if the environment still has the deploy that it had observed,
and switches promotion only if that is still automatic. Else it changes nothing. -/
theorem acts_on_validated_state {raises : Fault → Prop} {config : PromotionSettings}
    {id : EnvId} {now : Instant} {w : World} {r : Outcome Result} {j : Journal World}
    (hw : w.tables.Keyed)
    (he : (promote config id now).Ends (yielding raises id) (.start w) r j) :
    Rule.Admits (Validated id) j.log := by
  have hstart : Underway raises id (promote config id now) (.start w) :=
    ⟨hw, ⟨nofun, nofun⟩, obeys_promote config id now, advised_promote config now⟩
  exact hstart.ends trivial he

/-- The law of what is validated for an attempt that is overtaken by an operator. -/
theorem acts_on_validated_state_withdrawn :
    (overtaken withdraw Race.contested).1 = .ok (.promoted "gen-1") ∧
      Rule.Admits (Validated "prod") (overtaken withdraw Race.contested).2.log :=
  ⟨by decide +kernel, acts_on_validated_state Race.keyed_contested
    (ends_overtaken (fun _ => keyed_withdraw) Race.contested)⟩

/-- A deploy is recorded under the lock for an environment that is out of service and on manual
promotion, and another environment is switched to manual promotion under the lock although it
has another deploy than the one that failed. -/
theorem acts_on_outdated_state :
    (∃ r j, (promote {} "prod" ⟨2000⟩).Ends (yielding (fun _ => False) "prod")
      (.start Race.contested) r j ∧ ∃ e ∈ j.log, e.call.creates = true ∧
        (e.before.tables.environments.get? "prod").map Environment.state = some .disabled ∧
        (e.before.tables.promoteConfigs.get? "prod").map PromotionRule.kind = some .manual) ∧
    ∃ r j, (promote {} "prod" ⟨2000⟩).Ends (yielding (fun _ => False) "prod")
      (.start forsaken) r j ∧ r = .ok .disabled ∧
        (j.state.tables.environments.get? "prod").map Environment.deployId =
          some (some "second") ∧
        (j.state.tables.promoteConfigs.get? "prod").map PromotionRule.kind = some .manual := by
  constructor
  · refine ⟨_, _, ends_overtaken (fun _ => keyed_withdraw) Race.contested, ?_⟩
    have hany : (overtaken withdraw Race.contested).2.log.any (fun e => e.call.creates &&
        (e.before.tables.environments.get? "prod").map Environment.state == some .disabled &&
        (e.before.tables.promoteConfigs.get? "prod").map PromotionRule.kind == some .manual) =
          true := by decide +kernel
    simpa only [List.any_eq_true, Bool.and_eq_true, beq_iff_eq, and_assoc] using hany
  · refine ⟨_, _, ends_overtaken (fun _ => keyed_supersede) forsaken, ?_⟩
    decide +kernel

end FleetControl.Promotion
