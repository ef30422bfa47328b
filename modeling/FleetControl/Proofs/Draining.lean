import FleetControl.Proofs.Fleet
import FleetControl.Reconcile.Replacement
import Mathlib.Logic.Relation

/-!
# Draining and serving capacity

A tick of a replacement in REPLACING drains a beginning of its plan and touches the fleet
in no other way. The plan is made from the count of all serving agents, so it is as long
as agents that lag behind allow, and the capacity can fall below the pool's size by as
many as lag behind, but never by more.
-/
namespace FleetControl

/-- Whether advancing an item took the step of its state. -/
def Progress.isStep {S : Type} : Progress S → Bool
  | .stayed | .transitioned _ _ => true
  | .skipped | .paused | .timedOut _ _ => false

namespace Replacement

/-- The hosts that a tick in REPLACING is to drain: retirable ones, failed ones first, as
many as serve beyond the pool's size. -/
def drainPlan (s : Store) (poolSize : Nat) (event : UpgradeEvent) : List HostId :=
  let failed := s.retirableFailedHostIds event.cluster
  let others := (s.retirableHostIds event.cluster).filter fun id => !failed.contains id
  (failed ++ others).take (s.countServing event.envId - poolSize)

section Plan

variable {s : Store} {poolSize : Nat} {event : UpgradeEvent}

theorem length_drainPlan_le :
    (drainPlan s poolSize event).length ≤ s.countServing event.envId - poolSize :=
  List.length_take_le _ _

theorem mem_retirable_of_mem_drainPlan {id : HostId} (h : id ∈ drainPlan s poolSize event) :
    id ∈ s.retirableHostIds event.cluster := by
  rcases List.mem_append.mp (List.mem_of_mem_take h) with h | h
  · obtain ⟨host, hm, rfl⟩ := List.mem_map.mp h
    obtain ⟨hs, hp⟩ := List.mem_filter.mp hm
    exact List.mem_map_of_mem (List.mem_filter.mpr ⟨hs, (Bool.and_eq_true_iff.mp hp).1⟩)
  · exact (List.mem_filter.mp h).1

theorem nodup_retirableHostIds (hk : s.Keyed) (cluster : String) :
    (s.retirableHostIds cluster).Nodup := by
  refine List.Sublist.nodup ?_ s.hosts.nodup_keys
  rw [← hk.hosts.map_values]
  exact (List.filter_sublist.trans List.filter_sublist).map Host.id

theorem nodup_drainPlan (hk : s.Keyed) : (drainPlan s poolSize event).Nodup := by
  refine (List.take_sublist _ _).nodup (List.nodup_append.mpr ⟨?_, ?_, ?_⟩)
  · refine List.Sublist.nodup ?_ s.hosts.nodup_keys
    rw [← hk.hosts.map_values]
    exact (List.filter_sublist.trans List.filter_sublist).map Host.id
  · exact (nodup_retirableHostIds hk event.cluster).filter _
  · rintro a ha b hb rfl
    simpa [ha] using (List.mem_filter.mp hb).2

/-- The failed hosts come first, and others fill up what they leave of the budget. -/
theorem drainPlan_eq (s : Store) (poolSize : Nat) (event : UpgradeEvent) :
    drainPlan s poolSize event =
      (s.retirableFailedHostIds event.cluster).take (s.countServing event.envId - poolSize) ++
        ((s.retirableHostIds event.cluster).filter fun id =>
          !(s.retirableFailedHostIds event.cluster).contains id).take
            (s.countServing event.envId - poolSize - ((s.retirableFailedHostIds
              event.cluster).take (s.countServing event.envId - poolSize)).length) := by
  rw [drainPlan, List.take_append, List.length_take]
  congr 2
  omega

theorem drainPlan_of_isEmpty (h : (s.retirableHostIds event.cluster).isEmpty) :
    drainPlan s poolSize event = [] := by
  rw [List.eq_nil_iff_forall_not_mem]
  intro id hid
  simpa [List.isEmpty_iff.mp h] using mem_retirable_of_mem_drainPlan hid

/-- What is to be drained is known and not on its way out. -/
theorem stays_of_mem_drainPlan (hk : s.Keyed) {id : HostId}
    (h : id ∈ drainPlan s poolSize event) : s.hosts.contains id ∧ s.isLeaving id = false := by
  obtain ⟨host, hm, rfl⟩ := List.mem_map.mp (mem_retirable_of_mem_drainPlan h)
  obtain ⟨hv, hp⟩ := List.mem_filter.mp (List.mem_filter.mp hm).1
  have hg := hk.hosts.get?_of_mem hv
  simp only [Bool.and_eq_true, Bool.not_eq_true'] at hp
  simp [Table.contains, Store.isLeaving, hg, hp.2]

end Plan

/-- The world after some hosts were drained and nothing else was done. -/
def drainedWorld (w : World) (s : Store) (env : EnvId) (ids : List HostId) : World :=
  { w with store := some (s.drainHosts w.clock env ids) }

/-- A beginning of the plan was drained, all of it if the work was done, and the fleet
did not change in any other way. -/
def Drains (w : World) (s : Store) (env : EnvId) (plan : List HostId) (done : Prop)
    (w' : World) : Prop :=
  ∃ ids, ids <+: plan ∧ (done → ids = plan) ∧
    ∀ s', w'.store = some s' → (s.drainHosts w.clock env ids).SameFleet s'

section Tick

variable {raises : Fault → Prop} {w v w' : World} {s : Store}
  {env : EnvId} {plan ids more : List HostId} {done : Prop}

theorem Drains.spared (h : Drains w s env plan done v) (hv : v.SameFleet w') :
    Drains w s env plan done w' := by
  obtain ⟨ids, hp, hd, hs⟩ := h
  refine ⟨ids, hp, hd, fun s' hs' => ?_⟩
  obtain ⟨t, ht, hts⟩ := hv s' hs'
  exact (hs t ht).trans hts

theorem Drains.weaken {done' : Prop} (h : Drains w s env plan done v) (hd : done' → done) :
    Drains w s env plan done' v := by
  obtain ⟨ids, hp, hi, hs⟩ := h
  exact ⟨ids, hp, fun h => hi (hd h), hs⟩

theorem drains_nothing (hs : w.store = some s) (hv : w.SameFleet w') (hd : ¬done) :
    Drains w s env plan done w' := by
  refine ⟨[], List.nil_prefix, fun h => absurd h hd, fun s' hs' => ?_⟩
  obtain ⟨t, ht, hts⟩ := hv s' hs'
  cases hs.symm.trans ht
  exact hts

theorem drains_drainedWorld (hp : ids <+: plan) (hd : done → ids = plan) :
    Drains w s env plan done (drainedWorld w s env ids) :=
  ⟨ids, hp, hd, fun _ hs' => Option.some.inj hs' ▸ .refl _⟩

theorem drainedWorld_nil (hs : w.store = some s) : drainedWorld w s env [] = w := by
  rw [drainedWorld, Store.drainHosts, List.foldl_nil, ← hs]

theorem drains_nothing_planned (hs : w.store = some s) (hp : plan = []) :
    Drains w s env plan done w := by
  have h : Drains w s env plan done (drainedWorld w s env []) :=
    drains_drainedWorld List.nil_prefix fun _ => hp.symm
  rwa [drainedWorld_nil hs] at h

/-- A drain that failed was made or not made. -/
theorem drains_of_eq_or_eq (hp : ids ++ more <+: plan) (hd : ¬done)
    (hv : ∀ s', v.store = some s' → s' = s.drainHosts w.clock env ids ∨
      s' = s.drainHosts w.clock env (ids ++ more)) : Drains w s env plan done v := by
  cases hs : v.store with
  | none => exact ⟨[], List.nil_prefix, fun h => absurd h hd, by simp [hs]⟩
  | some t =>
      rcases hv t hs with rfl | rfl
      · refine ⟨ids, (List.prefix_append ids more).trans hp, fun h => absurd h hd, ?_⟩
        exact fun s' hs' => Option.some.inj (hs.symm.trans hs') ▸ .refl _
      · refine ⟨ids ++ more, hp, fun h => absurd h hd, ?_⟩
        exact fun s' hs' => Option.some.inj (hs.symm.trans hs') ▸ .refl _

/-- What a drain leaves of a store, whether or not it is answered. -/
theorem store_answer_drainHosts {s' : Store}
    (h : (World.answer (.store (.drainHosts env more)) (drainedWorld w s env ids)).2.store =
      some s') :
    s' = s.drainHosts w.clock env ids ∨ s' = s.drainHosts w.clock env (ids ++ more) := by
  obtain ⟨t, ht, rfl⟩ := World.store_useStore h
  cases ht
  rw [s.drainHosts_append, Store.answer]
  cases hn : (drainedWorld w s env ids).now with
  | ok now =>
      obtain rfl : now = w.clock := Clock.eq_of_read hn
      exact .inr rfl
  | error f => exact .inl rfl

/-- A drain that is answered was made. -/
theorem eq_of_answer_drainHosts {u : Unit} {v : World}
    (h : World.answer (.store (.drainHosts env more)) (drainedWorld w s env ids) = (.ok u, v)) :
    v = drainedWorld w s env (ids ++ more) := by
  simp only [World.answer, World.useStore, drainedWorld, Store.answer, World.now] at h
  rw [drainedWorld, s.drainHosts_append]
  cases hn : Clock.read w.clock with
  | ok now =>
      obtain rfl : now = w.clock := Clock.eq_of_read hn
      rw [hn] at h
      exact (Prod.mk.inj h).2.symm
  | error f =>
      rw [hn] at h
      cases f <;> cases h

/-- A drain is made in full, or it fails before or after its effect. -/
theorem keeps_drain {event : UpgradeEvent} {Q : Outcome Unit → World → Prop}
    (hv : v = drainedWorld w s event.envId ids)
    (hok : Q (.ok ()) (drainedWorld w s event.envId (ids ++ more)))
    (hf : ∀ f v, (∀ s', v.store = some s' → s' = s.drainHosts w.clock event.envId ids ∨
      s' = s.drainHosts w.clock event.envId (ids ++ more)) → Q (.error f) v) :
    (drain event more).Keeps (World.Possible Eq raises) (fun _ _ => True) Q v := by
  subst hv
  rw [drain]
  split
  · rename_i he
    rw [List.isEmpty_iff.mp he, List.append_nil] at hok
    exact hok
  · refine (Program.keeps_perform (c := .store (.drainHosts event.envId more))).mpr ?_
    rintro r v ⟨_, rfl, hb | ⟨f, -, rfl, rfl | rfl⟩⟩
    · cases r with
      | ok u =>
          rw [eq_of_answer_drainHosts hb]
          exact ⟨trivial, hok⟩
      | error f =>
          refine ⟨trivial, hf f v fun s' hs' => store_answer_drainHosts ?_⟩
          rw [hb]
          exact hs'
    · exact ⟨trivial, hf f _ fun s' hs' => .inl (Option.some.inj hs').symm⟩
    · exact ⟨trivial, hf f _ fun s' hs' => store_answer_drainHosts hs'⟩

/-- A step in REPLACING drains a beginning of its plan, or all of it if nothing fails. -/
theorem keeps_replacing {event : UpgradeEvent} (hs : w.store = some s) :
    (replacing event).Keeps (World.Possible Eq raises) (fun _ _ => True)
      (fun r => Drains w s event.envId
        (drainPlan s (w.provider.poolSize event.cluster) event) (∃ a, r = .ok a)) w := by
  have hf : ∀ f : Fault, Drains w s event.envId
      (drainPlan s (w.provider.poolSize event.cluster) event)
      (∃ a, (.error f : Outcome (UpgradeEvent × Decision UpgradeState)) = .ok a) w :=
    fun f => drains_nothing hs (.refl w) (by simp)
  simp only [replacing, Program.bind_eq, Program.pure_eq]
  rw [Program.keeps_bind]
  refine Program.keeps_look (World.answer_ask hs rfl) ?_ hf
  simp only [Program.Then]
  split
  · rename_i he
    exact drains_nothing_planned hs (drainPlan_of_isEmpty he)
  · rw [Program.keeps_bind]
    refine Program.keeps_look (a := w.provider.poolSize event.cluster) rfl ?_ hf
    simp only [Program.Then]
    rw [Program.keeps_bind]
    refine Program.keeps_look (World.answer_ask hs rfl) ?_ hf
    simp only [Program.Then]
    split
    · rename_i hle
      exact drains_nothing_planned hs (by simp [drainPlan, Nat.sub_eq_zero_of_le hle])
    · rw [Program.keeps_bind]
      refine Program.keeps_look (World.answer_ask hs rfl) ?_ hf
      simp only [Program.Then]
      have hplan := drainPlan_eq s (w.provider.poolSize event.cluster) event
      have hno : ∀ f : Fault, ¬∃ a, (.error f : Outcome (UpgradeEvent × Decision UpgradeState)) =
          .ok a := by simp
      rw [Program.keeps_bind]
      refine keeps_drain (drainedWorld_nil hs).symm ?_ fun f v hv =>
        drains_of_eq_or_eq ?_ (hno f) hv
      · simp only [Program.Then]
        split
        · rw [Program.keeps_bind]
          refine keeps_drain rfl ?_ fun f v hv => drains_of_eq_or_eq ?_ (hno f) hv
          · exact drains_drainedWorld (hplan ▸ List.prefix_rfl) fun _ => hplan.symm
          · exact hplan ▸ List.prefix_rfl
        · rename_i hlt
          rw [Nat.sub_eq_zero_of_le (Nat.le_of_not_lt hlt), List.take_zero, List.append_nil]
            at hplan
          exact drains_drainedWorld (hplan ▸ List.prefix_rfl) fun _ => hplan.symm
      · exact hplan ▸ List.prefix_append _ _

theorem onTimeout_sparesFleet (event : UpgradeEvent) (source : UpgradeState) :
    (onTimeout event source).Only Call.SparesFleet := by
  refine Program.Only.bind (Program.only_perform.mpr (sparesFleet_setClusterState _ _))
    fun _ => Program.Only.bind ?_ fun env => Program.only_perform.mpr (sparesFleet_post _)
  refine Program.Only.bind (Program.only_perform.mpr (sparesFleet_getEnvironment _))
    fun _ => Program.only_orFail _ _

/-- A timeout drains nothing. -/
theorem keeps_timeOut (config : ReplacementSettings) {event : UpgradeEvent} {now : Instant}
    (hs : w.store = some s) :
    ((lifecycle config).timeOut event now).Keeps (World.Possible Eq raises) (fun _ _ => True)
      (fun r => Drains w s env plan (∃ p : Progress UpgradeState, r = .ok p ∧ p.isStep)) w := by
  simp only [Lifecycle.timeOut, Program.bind_eq, Program.pure_eq]
  rw [Program.keeps_bind]
  refine Program.keeps_sparing (Program.only_perform.mpr (sparesFleet_updateItem _ _)) ?_
  rintro (f | u) v hv
  · exact drains_nothing hs hv (by simp)
  · simp only [Program.Then]
    rw [Program.keeps_bind]
    refine Program.keeps_sparing (onTimeout_sparesFleet _ _).attempt ?_
    rintro (f | u) v' hv'
    · exact drains_nothing hs (hv.trans hv') (by simp)
    · exact drains_nothing hs (hv.trans hv') (by simp [Progress.isStep])

/-- Storing what a step made of the event leaves its drains as they are. -/
theorem keeps_takeStep (config : ReplacementSettings) {event : UpgradeEvent} {now : Instant}
    (hs : w.store = some s)
    (hst : event.state = UpgradeState.replacing) :
    ((lifecycle config).takeStep event now).Keeps (World.Possible Eq raises) (fun _ _ => True)
      (fun r => Drains w s event.envId
        (drainPlan s (w.provider.poolSize event.cluster) event)
        (∃ p : Progress UpgradeState, r = .ok p ∧ p.isStep)) w := by
  have hstep : (lifecycle config).step event now = replacing event := by
    simp only [lifecycle, step, hst]
  simp only [Lifecycle.takeStep, Program.bind_eq, Program.pure_eq, hstep]
  rw [Program.keeps_bind]
  refine (keeps_replacing hs).mono (fun _ _ => id) ?_
  rintro (f | ⟨changed, decision⟩) v hv
  · exact hv.weaken (by simp)
  · simp only [Program.Then]
    rw [Program.keeps_bind]
    refine Program.keeps_sparing (Program.only_perform.mpr (sparesFleet_updateItem _ _)) ?_
    rintro (f | u) v' hv'
    · exact (hv.spared hv').weaken (by simp)
    · cases decision with
      | stay => exact (hv.spared hv').weaken (by simp)
      | move target status error => exact (hv.spared hv').weaken (by simp)

/-- A tick of an event in REPLACING touches the fleet only by draining a beginning of its
plan, or all of it if the step was taken. -/
theorem keeps_advance (config : ReplacementSettings) {event : UpgradeEvent} {id : ItemId}
    {now : Instant} (hs : w.store = some s) (he : s.getItem .upgrade id = some event)
    (hst : event.state = UpgradeState.replacing) :
    ((lifecycle config).advance id now).Keeps (World.Possible Eq raises) (fun _ _ => True)
      (fun r => Drains w s event.envId
        (drainPlan s (w.provider.poolSize event.cluster) event)
        (∃ p : Progress UpgradeState, r = .ok p ∧ p.isStep)) w := by
  have hf : ∀ f : Fault, Drains w s event.envId
      (drainPlan s (w.provider.poolSize event.cluster) event)
      (∃ p : Progress UpgradeState, (.error f : Outcome _) = .ok p ∧ p.isStep) w :=
    fun f => drains_nothing hs (.refl w) (by simp)
  have hget : World.answer (.store (.getItem .upgrade id)) w = (.ok (some event), w) :=
    World.answer_ask hs (by rw [Store.answer, he])
  simp only [Lifecycle.advance, Program.bind_eq, Program.pure_eq]
  rw [Program.keeps_bind]
  refine Program.keeps_look hget ?_ hf
  simp only [Program.Then]
  rw [if_neg (by simp [Item.isTerminal_iff, hst, ItemKind.terminal])]
  simp only [lifecycle, clusterIsPaused, requireCluster, Program.bind_eq, Program.pure_eq,
    Program.bind_assoc]
  rw [Program.keeps_bind]
  refine Program.keeps_look (World.answer_ask hs rfl) ?_ hf
  simp only [Program.Then]
  cases s.clusters.get? event.cluster with
  | none => exact hf _
  | some cluster =>
      simp only [Program.orFail, Program.bind]
      split
      · rw [Program.keeps_bind]
        refine Program.keeps_sparing (Program.only_perform.mpr (sparesFleet_updateItem _ _)) ?_
        rintro (f | u) v hv
        · exact drains_nothing hs hv (by simp)
        · exact drains_nothing hs hv (by simp [Progress.isStep])
      · cases Span.ofSetting config.timeoutSecs with
        | error f => exact hf f
        | ok limit =>
            simp only [Program.ofOutcome, Program.bind]
            split
            · exact keeps_timeOut config hs
            · exact keeps_takeStep config hs hst

/-! ## The capacity that a tick leaves -/

/-- Draining a beginning of the plan takes its serving agents from the capacity. -/
theorem capacity_of_drained {s' : Store} {event : UpgradeEvent} {poolSize : Nat} {now : Instant}
    (hk : s.Keyed) (hp : ids <+: drainPlan s poolSize event)
    (hs' : (s.drainHosts now event.envId ids).SameFleet s') :
    s'.capacity event.envId + ids.countP (s.serves event.envId) = s.capacity event.envId := by
  rw [hs'.capacity_eq]
  exact s.capacity_drainHosts hk (hp.sublist.nodup (nodup_drainPlan hk))
    fun a ha => stays_of_mem_drainPlan hk (hp.subset ha)

/-- The capacity falls short of the pool's size by no more than lagged behind. -/
theorem le_capacity_add_lagging {s' : Store} {event : UpgradeEvent} {poolSize : Nat}
    {now : Instant} (hk : s.Keyed) (hp : ids <+: drainPlan s poolSize event)
    (hs' : (s.drainHosts now event.envId ids).SameFleet s')
    (hle : poolSize ≤ s.capacity event.envId) :
    poolSize ≤ s'.capacity event.envId + s.lagging event.envId := by
  have hcap := capacity_of_drained hk hp hs'
  have hlen : ids.length ≤ s.countServing event.envId - poolSize :=
    Nat.le_trans hp.length_le length_drainPlan_le
  have hcount : ids.countP (s.serves event.envId) ≤ ids.length := List.countP_le_length
  rw [s.countServing_eq] at hlen
  omega

/-- The capacity that a tick in REPLACING leaves. If it sufficed for the pool it still does
exactly when the drained agents that serve are no more than serve beyond the pool's size on
staying hosts. What it falls short of that size is at most what lagged behind before. -/
theorem capacity_advance (config : ReplacementSettings) (raises : Fault → Prop) {w w' : World}
    {s s' : Store} {event : UpgradeEvent} {id : ItemId} {now : Instant}
    {r : Outcome (Progress UpgradeState)} (hs : w.store = some s) (hk : s.Keyed)
    (he : s.getItem .upgrade id = some event) (hst : event.state = UpgradeState.replacing)
    (hr : ((lifecycle config).advance id now).Ends (World.Possible Eq raises) w r w')
    (hs' : w'.store = some s') :
    ∃ drained, drained <+: drainPlan s (w.provider.poolSize event.cluster) event ∧
      (∀ p, r = .ok p → p.isStep →
        drained = drainPlan s (w.provider.poolSize event.cluster) event) ∧
      (s.drainHosts w.clock event.envId drained).SameFleet s' ∧
      (w.provider.poolSize event.cluster ≤ s.capacity event.envId →
        (w.provider.poolSize event.cluster ≤ s'.capacity event.envId ↔
          w.provider.poolSize event.cluster + drained.countP (s.serves event.envId) ≤
            s.capacity event.envId) ∧
        w.provider.poolSize event.cluster ≤ s'.capacity event.envId + s.lagging event.envId) := by
  obtain ⟨drained, hp, hd, hsame⟩ := (keeps_advance config hs he hst).ends hr
  have hcap := capacity_of_drained hk hp (hsame s' hs')
  have hlag := le_capacity_add_lagging hk hp (hsame s' hs')
  refine ⟨drained, hp, fun p hr' hp' => hd ⟨p, hr', hp'⟩, hsame s' hs', fun hle => ⟨?_, hlag hle⟩⟩
  omega

/-! ## Pools over many ticks -/

/-- As many agents serve on staying hosts as the pool is to have, as far as there is a
store to look at. -/
def Suffices (cluster : String) (env : EnvId) (w : World) : Prop :=
  ∀ s, w.store = some s → w.provider.poolSize cluster ≤ s.capacity env

/-- A tick of an event of a pool in REPLACING. -/
inductive PoolTick (config : ReplacementSettings) (raises : Fault → Prop) (cluster : String)
    (env : EnvId) (w w' : World) : Prop where
  | intro {s : Store} {event : UpgradeEvent} {id : ItemId} {now : Instant}
      {r : Outcome (Progress UpgradeState)} (hs : w.store = some s)
      (he : s.getItem .upgrade id = some event) (hst : event.state = UpgradeState.replacing)
      (hc : event.cluster = cluster) (henv : event.envId = env)
      (hr : ((lifecycle config).advance id now).Ends (World.Possible Eq raises) w r w')

/-- A move in the life of a pool: a tick of one of its events in REPLACING, or anything else
by which the capacity does not fall below the pool's size. -/
inductive PoolMove (config : ReplacementSettings) (raises : Fault → Prop) (cluster : String)
    (env : EnvId) (w w' : World) : Prop where
  | tick (h : PoolTick config raises cluster env w w')
  | other (hk : w.tables.Keyed → w'.tables.Keyed)
      (hc : Suffices cluster env w → Suffices cluster env w')

variable {config : ReplacementSettings} {cluster : String}

theorem PoolMove.keyed (h : PoolMove config raises cluster env w w') (hk : w.tables.Keyed) :
    w'.tables.Keyed := by
  cases h with
  | tick h =>
      obtain ⟨-, -, -, -, -, hr⟩ := h
      refine hr.preserves_answered (I := fun w => w.tables.Keyed) ?_ ?_ hk
      · rintro u _ rfl h
        exact h
      · exact fun c v h => World.keyed_answer h c
  | other h' _ => exact h' hk

theorem keyed_of_moves (h : Relation.ReflTransGen (PoolMove config raises cluster env) w w')
    (hk : w.tables.Keyed) : w'.tables.Keyed := by
  induction h with
  | refl => exact hk
  | tail _ hm ih => exact hm.keyed ih

/-- A tick after which the capacity no longer suffices began while an agent lagged behind. -/
theorem PoolTick.lagging_pos (h : PoolTick config raises cluster env w w')
    (hk : w.tables.Keyed) (hw : Suffices cluster env w) (hn : ¬ Suffices cluster env w') :
    0 < w.tables.lagging env := by
  obtain @⟨s, event, id, now, r, hs, he, hst, hc, henv, hr⟩ := h
  subst hc henv
  rw [World.tables_eq hs] at hk ⊢
  obtain ⟨drained, hp, -, hsame⟩ := (keeps_advance config hs he hst).ends hr
  have hsize : w'.provider.poolSize event.cluster = w.provider.poolSize event.cluster := by
    refine hr.preserves_answered
      (I := fun v => v.provider.poolSize event.cluster = w.provider.poolSize event.cluster)
      ?_ ?_ rfl
    · rintro u _ rfl h
      exact h
    · exact fun c v h => (v.poolSize_answer c event.cluster).trans h
  rcases Nat.eq_zero_or_pos (s.lagging event.envId) with hlag | hlag
  · refine absurd (fun s' hs' => ?_) hn
    have hle := le_capacity_add_lagging hk hp (hsame s' hs') (hw s hs)
    omega
  · exact hlag

/-- If the capacity no longer suffices after a run, then a tick took what was needed while an
agent lagged behind. -/
theorem exists_lagging_tick (h : Relation.ReflTransGen (PoolMove config raises cluster env) w w')
    (hk : w.tables.Keyed) (hw : Suffices cluster env w) (hn : ¬ Suffices cluster env w') :
    ∃ u v, Relation.ReflTransGen (PoolMove config raises cluster env) w u ∧
      PoolTick config raises cluster env u v ∧
      Relation.ReflTransGen (PoolMove config raises cluster env) v w' ∧
      Suffices cluster env u ∧ ¬ Suffices cluster env v ∧ 0 < u.tables.lagging env := by
  induction h with
  | refl => exact absurd hw hn
  | @tail u v hrun hm ih =>
      by_cases hu : Suffices cluster env u
      · cases hm with
        | tick ht =>
            have hlag := ht.lagging_pos (keyed_of_moves hrun hk) hu hn
            exact ⟨u, v, hrun, ht, .refl, hu, hn, hlag⟩
        | other _ hc => exact absurd (hc hu) hn
      · obtain ⟨x, y, hx, ht, hy, hlaw⟩ := ih hu
        exact ⟨x, y, hx, ht, hy.tail hm, hlaw⟩

/-! ## The law of the capacity -/

/-- A pool of one place, served by two hosts that both may go. -/
def sparePool : World :=
  let host (id : HostId) : Host := ⟨id, "web", .running, true, .epoch, .epoch⟩
  let agent (id : HostId) : Agent :=
    ⟨id, "prod", .servingBuild, .succeeded, .normal, none, none, .epoch⟩
  let cluster : Cluster := ⟨"web", "prod", .normal, none, 0, ⟨[], [], none⟩, .epoch⟩
  let event : UpgradeEvent :=
    { UpgradeEvent.new "event" "web" "prod" .epoch with state := UpgradeState.replacing }
  let hosts := (Store.empty.insertHost (host "a")).insertHost (host "b")
  let store := ((hosts.putAgent (agent "a")).putAgent (agent "b")).putItem .upgrade event
  { World.initial .epoch (.seeded 0) with
    store := some { store with clusters := store.clusters.insert cluster.name cluster }
    provider := Provider.empty.setPoolSize "web" 1 }

/-- One tick of the event of the spare pool. -/
def tickOnce (w : World) : Outcome (Progress UpgradeState) × World :=
  ((lifecycle {}).advance "event" .epoch).run World.answer w

theorem keyed_sparePool : sparePool.tables.Keyed := by
  have h : ∀ {s : Store}, s.Keyed → ∀ c : Cluster,
      ({ s with clusters := s.clusters.insert c.name c } : Store).Keyed :=
    fun hs c => { hs with clusters := hs.clusters.insert c }
  refine h (.putItem (.putAgent (.putAgent (.insertHost (.insertHost ?_ _) _) _) _) _ _) _
  exact Store.keyed_empty

theorem poolTick_tickOnce (hs : w.store.isSome = true)
    (he : (w.tables.getItem .upgrade "event").map (fun e => (e.state, e.cluster, e.envId)) =
      some (UpgradeState.replacing, "web", "prod")) :
    PoolTick {} (fun _ => False) "web" "prod" w (tickOnce w).2 := by
  obtain ⟨s, hs⟩ := Option.isSome_iff_exists.mp hs
  obtain ⟨event, hget, hmap⟩ := Option.map_eq_some_iff.mp he
  rw [World.tables_eq hs] at hget
  exact ⟨hs, hget, congrArg Prod.fst hmap, congrArg (fun x => x.2.1) hmap,
    congrArg (fun x => x.2.2) hmap,
    Program.ends_run Eq (fun _ => False) (fun _ => rfl) _ w⟩

/-- A tick in REPLACING drains a beginning of its plan, all of it if the step was taken. If
the capacity sufficed before, it still does exactly when the drained agents that serve are no
more than serve beyond the pool's size on staying hosts, and what it falls short of that size
is at most what lagged behind. Over any number of ticks of any events of the pool, in any
order, the capacity therefore never falls below the pool's size except by a tick that began
while an agent lagged behind. -/
theorem capacity_moves (config : ReplacementSettings) (raises : Fault → Prop) {w : World}
    (hk : w.tables.Keyed) :
    (∀ {w' : World} {s s' : Store} {event : UpgradeEvent} {id : ItemId} {now : Instant}
        {r : Outcome (Progress UpgradeState)}, w.store = some s →
      s.getItem .upgrade id = some event → event.state = UpgradeState.replacing →
      ((lifecycle config).advance id now).Ends (World.Possible Eq raises) w r w' →
      w'.store = some s' →
      ∃ drained, drained <+: drainPlan s (w.provider.poolSize event.cluster) event ∧
        (∀ p, r = .ok p → p.isStep →
          drained = drainPlan s (w.provider.poolSize event.cluster) event) ∧
        (s.drainHosts w.clock event.envId drained).SameFleet s' ∧
        (w.provider.poolSize event.cluster ≤ s.capacity event.envId →
          (w.provider.poolSize event.cluster ≤ s'.capacity event.envId ↔
            w.provider.poolSize event.cluster + drained.countP (s.serves event.envId) ≤
              s.capacity event.envId) ∧
          w.provider.poolSize event.cluster ≤
            s'.capacity event.envId + s.lagging event.envId)) ∧
    (∀ {cluster : String} {env : EnvId} {w' : World}, Suffices cluster env w →
      Relation.ReflTransGen (PoolMove config raises cluster env) w w' →
      ¬ Suffices cluster env w' →
      ∃ u v, Relation.ReflTransGen (PoolMove config raises cluster env) w u ∧
        PoolTick config raises cluster env u v ∧
        Relation.ReflTransGen (PoolMove config raises cluster env) v w' ∧
        Suffices cluster env u ∧ ¬ Suffices cluster env v ∧ 0 < u.tables.lagging env) := by
  constructor
  · intro w' s s' event id now r hs he hst hr hs'
    rw [World.tables_eq hs] at hk
    exact capacity_advance config raises hs hk he hst hr hs'
  · intro cluster env w' hw hrun hn
    exact exists_lagging_tick hrun hk hw hn

/-- The law of the capacity at the first tick of the spare pool, which drains one host, and at
the second, which leaves none. -/
theorem capacity_moves_sparePool :
    (∃ drained, drained = ["a"] ∧
      (1 ≤ (tickOnce sparePool).2.tables.capacity "prod" ↔
        1 + drained.countP (sparePool.tables.serves "prod") ≤ 2)) ∧
    ∃ u v, PoolTick {} (fun _ => False) "web" "prod" u v ∧ Suffices "web" "prod" u ∧
      ¬ Suffices "web" "prod" v ∧ 0 < u.tables.lagging "prod" := by
  have hlaw := capacity_moves {} (fun _ => False) keyed_sparePool
  constructor
  · have hstore : (tickOnce sparePool).2.store.isSome = true := by decide +kernel
    obtain ⟨s', hs'⟩ := Option.isSome_iff_exists.mp hstore
    have hout : ∃ p, (tickOnce sparePool).1 = .ok p ∧ p.isStep = true := ⟨.stayed, rfl, rfl⟩
    obtain ⟨p, hp, hstep⟩ := hout
    have hr := Program.ends_run Eq (fun _ => False) (fun _ => rfl)
      ((lifecycle {}).advance "event" .epoch) sparePool
    obtain ⟨drained, -, hall, -, hle⟩ := hlaw.1 rfl rfl rfl hr hs'
    have hplan : drained = ["a"] := (hall p hp hstep).trans (by decide +kernel)
    refine ⟨drained, hplan, ?_⟩
    rw [World.tables_eq hs']
    exact (hle (by decide +kernel)).1
  · have hfirst : PoolTick {} (fun _ => False) "web" "prod" sparePool (tickOnce sparePool).2 :=
      poolTick_tickOnce rfl rfl
    have hsecond : PoolTick {} (fun _ => False) "web" "prod" (tickOnce sparePool).2
        (tickOnce (tickOnce sparePool).2).2 :=
      poolTick_tickOnce (by decide +kernel) (by decide +kernel)
    have hw : Suffices "web" "prod" sparePool := by
      intro s hs
      cases hs
      decide +kernel
    have hn : ¬ Suffices "web" "prod" (tickOnce (tickOnce sparePool).2).2 := by
      have hstore : (tickOnce (tickOnce sparePool).2).2.store.isSome = true := by decide +kernel
      obtain ⟨s, hs⟩ := Option.isSome_iff_exists.mp hstore
      have hcap : (tickOnce (tickOnce sparePool).2).2.tables.capacity "prod" <
          (tickOnce (tickOnce sparePool).2).2.provider.poolSize "web" := by decide +kernel
      intro h
      have hle := h s hs
      rw [World.tables_eq hs] at hcap
      omega
    obtain ⟨u, v, -, ht, -, hu, hv, hlag⟩ :=
      hlaw.2 hw ((Relation.ReflTransGen.single (.tick hfirst)).tail (.tick hsecond)) hn
    exact ⟨u, v, ht, hu, hv, hlag⟩

/-- The agent of the host drained first still counts as serving at the second tick, which
takes the last host that the pool needs. -/
theorem capacity_falls_short :
    let first := tickOnce sparePool
    let second := tickOnce first.2
    first.1.toOption = some .stayed ∧ second.1.toOption = some .stayed ∧
      first.2.provider.poolSize "web" = 1 ∧
      first.2.tables.capacity "prod" = 1 ∧ first.2.tables.lagging "prod" = 1 ∧
      second.2.tables.capacity "prod" = 0 := by
  decide +kernel

end Tick

end Replacement

end FleetControl
