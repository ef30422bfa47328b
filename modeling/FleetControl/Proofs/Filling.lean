import FleetControl.Proofs.Holding
import FleetControl.Proofs.Launching
import FleetControl.Proofs.Smooth

/-!
# Filling up with temporary hosts

Ticks of an event in INIT, any number of them, whatever the provider grants and whether or not
its launches fail. The event tracks all hosts that were launched for it before the next launch
is requested, and no launch asks for more than what is missing. A tick goes on until nothing is
missing, unless a launch fails or grants nothing.
-/
namespace FleetControl

/-! ## What is launched is counted -/

namespace IdSet

theorem length_insertSorted {x : String} {xs : List String} (h : x ∉ xs) :
    (insertSorted x xs).length = xs.length + 1 := by
  induction xs with
  | nil => rfl
  | cons y ys ih =>
      simp only [List.mem_cons, not_or] at h
      simp only [insertSorted]
      split
      · rfl
      · rw [if_neg h.1, List.length_cons, ih h.2, List.length_cons]

/-- New members are counted. -/
theorem size_insertAll {s : IdSet} {ids : List String} (hd : ids.Nodup) (hn : ∀ a ∈ ids, a ∉ s) :
    (s.insertAll ids).size = s.size + ids.length := by
  induction ids generalizing s with
  | nil => rfl
  | cons a ids ih =>
      obtain ⟨ha, hids⟩ := List.nodup_cons.mp hd
      have hsize : (s.insert a).size = s.size + 1 :=
        length_insertSorted (hn a List.mem_cons_self)
      have hnew : ∀ b ∈ ids, b ∉ s.insert a := by
        intro b hb hmem
        rcases mem_insert.mp hmem with rfl | hmem
        · exact ha hb
        · exact hn b (List.mem_cons_of_mem _ hb) hmem
      have hrest := ih hids hnew
      rw [hsize] at hrest
      rw [List.length_cons, ← Nat.add_assoc, Nat.add_right_comm]
      exact hrest

end IdSet

/-- The hosts of one launch are told apart. -/
theorem Provider.nodup_launchHosts {p p' : Provider} {cluster : String} {count : Nat}
    {image : Option String} {ids : List HostId}
    (h : p.launchHosts cluster count image = (.ok ids, p')) : ids.Nodup := by
  rw [(launched_of_launchHosts h).1]
  exact List.Pairwise.map _ (fun m n hne he => hne (Nat.add_left_cancel (launchedId_inj he)))
    List.nodup_range

namespace Entry

/-- Whether a call is a launch that brought nothing. -/
def isBarren : Entry World → Bool
  | ⟨_, .provider (.launchHosts _ _ _), .ok [], _⟩ => true
  | _ => false

/-- The notification that a call hands over. -/
def posted (e : Entry World) : List Notification :=
  match e.call with
  | .post n => [n]
  | _ => []

theorem isBarren_eq_false {e : Entry World} (h : e.call.launches = false) :
    e.isBarren = false := by
  unfold isBarren
  split
  · cases h
  · rfl

end Entry

/-- The notifications that were handed over along a log, in the order of the calls. -/
def postedIn (log : List (Entry World)) : List Notification := log.reverse.flatMap Entry.posted

@[simp] theorem postedIn_cons (e : Entry World) (log : List (Entry World)) :
    postedIn (e :: log) = postedIn log ++ e.posted := by
  simp [postedIn, List.flatMap_append]

open Program

namespace Replacement

/-! ## The loop has no bound of its own -/

/-- Every launch that the loop goes on after brings a host. So a bound that covers what is
missing never ends it. -/
theorem launchMissing_congr (config : ReplacementSettings) (env : Environment)
    {limit needed : Nat} (launchedAny : Bool) (event : UpgradeEvent) (h : needed ≤ limit) :
    launchMissing config env limit needed launchedAny event =
      launchMissing config env needed needed launchedAny event := by
  induction limit using Nat.strongRecOn generalizing needed launchedAny event with
  | ind limit ih =>
      cases needed with
      | zero => cases limit <;> simp [launchMissing]
      | succ needed =>
          obtain ⟨limit, rfl⟩ : ∃ n, limit = n + 1 := ⟨limit - 1, by omega⟩
          simp only [launchMissing, Nat.succ_ne_zero, if_false, bind_eq]
          refine congrArg _ (funext fun launched => ?_)
          cases hl : launched.isEmpty with
          | true => rfl
          | false =>
              have hsome : 0 < launched.length := by
                rw [List.length_pos_iff]
                rintro rfl
                cases hl
              have hless : needed + 1 - launched.length ≤ needed := by omega
              have hrest := fun event => (ih limit (by omega) true event
                (hless.trans (by omega))).trans (ih needed (by omega) true event hless).symm
              simp only [Bool.false_eq_true, if_false, hrest]

/-! ## What may happen to an event in INIT -/

/-- What a store holds for a version of an event that can take steps: the version itself, its
environment, and its cluster, which is not paused. -/
structure Stocked (env : Environment) (y : UpgradeEvent) (s : Store) : Prop where
  has : s.Has y.id y
  environment : s.environments.get? y.envId = some env
  cluster : ∃ c, s.clusters.get? y.cluster = some c ∧ c.state ≠ .pause

/-- A version of an event that can take steps is stored. -/
def Open (env : Environment) (y : UpgradeEvent) (w : World) : Prop :=
  ∃ s, w.store = some s ∧ Stocked env y s

/-- Others may do anything that leaves an event, its environment and the pause of its cluster
as they are. So the provider may grant what it likes at each call. -/
def Spares (env : Environment) (id : ItemId) (v w : World) : Prop :=
  ∀ y : UpgradeEvent, y.id = id → Open env y v → Open env y w

/-- What may happen while an event fills up. Only launches fail, before or after they have
taken place, and no host that the event tracks is launched. -/
def filling (env : Environment) (id : ItemId) : Behaviour World := fun c w r w' =>
  World.Possible (Spares env id) (fun _ => True) c w r w' ∧
    (c.launches = false → ∃ a, r = .ok a) ∧
    ∀ y : UpgradeEvent, y.id = id → Open env y w →
      ∀ host ∈ Entry.launched ⟨w, c, r, w'⟩, host ∉ y.hostIds

section

variable {env : Environment} {id : ItemId} {y z : UpgradeEvent} {w w' : World} {s : Store}

/-- A world shows one version of an event. -/
theorem Open.eq (hy : Open env y w) (hz : Open env z w) (hid : z.id = y.id) : z = y := by
  obtain ⟨s, hs, hy⟩ := hy
  obtain ⟨t, ht, hz⟩ := hz
  cases hs.symm.trans ht
  have hget := hz.has.2
  rw [hid, hy.has.2] at hget
  exact (Option.some.inj hget).symm

theorem Open.getItem (h : Open env y w) : w.tables.getItem .upgrade y.id = some y := by
  obtain ⟨s, hs, hstocked⟩ := h
  rw [World.tables_eq hs]
  exact hstocked.has.2

/-- Storing another version of an event. -/
theorem Stocked.putItem (h : Stocked env y s) (hid : z.id = y.id) (henv : z.envId = y.envId)
    (hcluster : z.cluster = y.cluster) : Stocked env z (s.putItem .upgrade z) where
  has := by
    rw [hid]
    exact h.has.putSame hid
  environment := henv ▸ h.environment
  cluster := hcluster ▸ h.cluster

/-- A call that succeeds was answered, in a world that others have spared. -/
theorem filling_ok {c : Call} {r : Outcome c.Reply} (h : Open env y w) (hid : y.id = id)
    (hc : c.launches = false) (hb : filling env id c w r w') :
    ∃ a v, r = .ok a ∧ Open env y v ∧ World.answer c v = (.ok a, w') := by
  obtain ⟨⟨v, hv, ha⟩, hok, -⟩ := hb
  obtain ⟨a, rfl⟩ := hok hc
  obtain ha | ⟨f, -, hr, -⟩ := ha
  · exact ⟨a, v, rfl, hv y hid h, ha⟩
  · cases hr

/-- What is read is what is stored. -/
theorem filling_read {q : StoreCall} {P : q.Reply → Prop} {r : Outcome q.Reply}
    (h : Open env y w) (hid : y.id = id)
    (hq : ∀ s clock, Stocked env y s → ∃ a, P a ∧ s.answer clock q = (.ok a, s))
    (hb : filling env id (.store q) w r w') : ∃ a, P a ∧ r = .ok a ∧ Open env y w' := by
  obtain ⟨b, v, rfl, ⟨s, hs, hstocked⟩, hb⟩ := filling_ok h hid rfl hb
  obtain ⟨a, hp, ha⟩ := hq s v.now hstocked
  rw [World.answer_ask hs ha] at hb
  cases hb
  exact ⟨_, hp, rfl, s, hs, hstocked⟩

theorem filling_update {r : Outcome Unit} (h : Open env y w) (hid : y.id = id)
    (hz : z.id = y.id) (henv : z.envId = y.envId) (hcluster : z.cluster = y.cluster)
    (hb : filling env id (.store (.updateItem .upgrade z)) w r w') :
    r = .ok () ∧ Open env z w' := by
  obtain ⟨_, v, rfl, ⟨s, hs, hstocked⟩, ha⟩ := filling_ok h hid rfl hb
  rw [World.eq_of_update hs ha]
  exact ⟨rfl, _, rfl, hstocked.putItem hz henv hcluster⟩

theorem filling_post {n : Notification} {r : Outcome Unit} (h : Open env y w) (hid : y.id = id)
    (hb : filling env id (.post n) w r w') : r = .ok () ∧ Open env y w' := by
  obtain ⟨_, v, rfl, ⟨s, hs, hstocked⟩, ha⟩ := filling_ok h hid rfl hb
  cases ha
  refine ⟨rfl, s, ?_, hstocked⟩
  rw [World.post]
  split <;> exact hs

/-- A notification is dropped if it is addressed to nobody. -/
theorem filling_posted {n : Notification} {r : Outcome Unit}
    (hb : filling env id (.post n) w r w') : ∃ u, Spares env id w u ∧
      w' = if n.isAddressed then { u with outbox := u.outbox ++ [n] } else u := by
  obtain ⟨⟨u, hu, ha⟩, hok, -⟩ := hb
  obtain ⟨a, rfl⟩ := hok rfl
  obtain ha | ⟨f, -, hf, -⟩ := ha
  · cases ha
    exact ⟨u, hu, rfl⟩
  · cases hf

/-- A launch leaves the store alone. The hosts that it brings are new to the event. -/
theorem filling_launch {cluster : String} {count : Nat} {image : Option String}
    {r : Outcome (List HostId)} (h : Open env y w) (hid : y.id = id)
    (hb : filling env id (.provider (.launchHosts cluster count image)) w r w') :
    Open env y w' ∧ ∀ ids, r = .ok ids →
      ids.Nodup ∧ ids.length ≤ count ∧ ∀ host ∈ ids, host ∉ y.hostIds := by
  obtain ⟨hp, -, hfresh⟩ := hb
  refine ⟨?_, ?_⟩
  · obtain ⟨v, hv, ha⟩ := hp
    obtain ⟨s, hs, hstocked⟩ := hv y hid h
    refine ⟨s, ?_, hstocked⟩
    obtain ha | ⟨f, -, -, rfl | rfl⟩ := ha
    · rw [← (Prod.mk.inj ha).2]
      exact hs
    · exact hs
    · exact hs
  · rintro ids rfl
    refine ⟨?_, hp.length_launched_le, hfresh y hid h⟩
    obtain ⟨v, -, ha | ⟨f, -, hr, -⟩⟩ := hp
    · have hgrant : v.provider.launchHosts cluster count image = (.ok ids, w'.provider) := by
        rw [← (Prod.mk.inj ha).2, ← (Prod.mk.inj ha).1]
        rfl
      exact Provider.nodup_launchHosts hgrant
    · cases hr

end

/-! ## A step in INIT -/

/-- How many temporary hosts an event needs. -/
abbrev target (env : Environment) : Nat := max env.maxParallelReplacement 1

/-- What may be entered while an event fills up that was `y` at the start of the tick. At each
call some version of it is stored. No call takes a host from it, and it grows only up to the
target. A launch asks for a batch of what is missing, and all hosts of earlier launches are
tracked by then. -/
def fills (config : ReplacementSettings) (env : Environment) (y : UpgradeEvent) : Rule World :=
  fun past e => ∃ x x' : UpgradeEvent, x.id = y.id ∧ Open env x e.before ∧ x'.id = y.id ∧
    Open env x' e.after ∧ (∀ host ∈ x.hostIds, host ∈ x'.hostIds) ∧
    x'.hostIds.size ≤ max (target env) y.hostIds.size ∧
    ∀ cluster count image, e.call = .provider (.launchHosts cluster count image) →
      cluster = y.cluster ∧ 1 ≤ count ∧
      count ≤ min (max config.launchBatch 1) (target env - x.hostIds.size) ∧
      ∀ host, host ∈ x.hostIds ↔ host ∈ y.hostIds ∨ Launched past host

/-- What a log has come to when the event, which was `y` at its start, tracks some hosts. Those
launched are among them, further launches for some number of missing hosts are due, and there
was one notification for each launch that brought nothing. -/
structure Muster (env : Environment) (y : UpgradeEvent) (hosts : IdSet) (missing : Nat)
    (alerts : List Notification) (log : List (Entry World)) : Prop where
  tracked : ∀ host, host ∈ hosts ↔ host ∈ y.hostIds ∨ Launched log host
  size_le : hosts.size ≤ max (target env) y.hostIds.size
  launches : log.countP (·.call.launches) + missing ≤ target env - y.hostIds.size
  posted : postedIn log = alerts
  barren : log.countP Entry.isBarren = alerts.length

/-- During a tick of `y` the version `x` is stored, with all hosts launched so far. -/
structure Filled (env : Environment) (y x : UpgradeEvent) (missing : Nat)
    (alerts : List Notification) (j : Journal World) : Prop extends
    Muster env y x.hostIds missing alerts j.log where
  retracks : Retracks y x
  isOpen : Open env x j.state

/-- How a step of `y` in INIT ends. It is done when nothing is missing. Otherwise a launch has
failed, or one has brought nothing; the latter is an error only if it was the first. -/
def StepEnds (env : Environment) (y : UpgradeEvent) :
    Outcome (UpgradeEvent × Decision UpgradeState) → Journal World → Prop
  | .ok (x, d), j =>
      (d = .enter .launching .succeeded ∧ target env ≤ x.hostIds.size ∧ Filled env y x 0 [] j) ∨
      ∃ count, d = .stay ∧ x.hostIds.size < target env ∧
        Filled env y x 0 [launchFailure y.cluster count env.recipients] j ∧
        ∃ host, Launched j.log host
  | .error f, j => ∃ x : UpgradeEvent, x.hostIds.size < target env ∧
      ((Filled env y x 0 [] j ∧ ∃ before count after past, j.log =
        ⟨before, .provider (.launchHosts y.cluster count none), .error f, after⟩ :: past) ∨
      ∃ count, Filled env y x 0 [launchFailure y.cluster count env.recipients] j ∧
        (¬∃ host, Launched j.log host) ∧
        f = .error (.fleet s!"launched none of {count} hosts for cluster {y.cluster}"))

section

variable {config : ReplacementSettings} {env : Environment} {y x x' : UpgradeEvent}
  {missing : Nat} {alerts : List Notification} {j : Journal World} {α β : Type}

theorem Filled.eq_withHostIds (h : Filled env y x missing alerts j) :
    x = y.withHostIds x.hostIds := by
  obtain ⟨ids, hids⟩ := h.retracks
  rw [hids]
  rfl

theorem Filled.id_eq (h : Filled env y x missing alerts j) : x.id = y.id := by
  rw [h.eq_withHostIds]
  rfl

theorem Filled.cluster_eq (h : Filled env y x missing alerts j) : x.cluster = y.cluster := by
  rw [h.eq_withHostIds]
  rfl

theorem Filled.state_eq (h : Filled env y x missing alerts j) : x.state = y.state := by
  rw [h.eq_withHostIds]
  rfl

/-- A call that launches nothing may leave any version that goes on from the one before. -/
theorem fills_of_launchless {c : Call} {r : Outcome c.Reply} {w : World}
    (hc : c.launches = false) (hx : Open env x j.state) (hid : x.id = y.id)
    (hx' : Open env x' w) (hid' : x'.id = y.id) (hsub : ∀ host ∈ x.hostIds, host ∈ x'.hostIds)
    (hsize : x'.hostIds.size ≤ max (target env) y.hostIds.size) :
    fills config env y j.log ⟨j.state, c, r, w⟩ := by
  refine ⟨x, x', hid, hx, hid', hx', hsub, hsize, fun _ _ _ hcall => ?_⟩
  obtain rfl : c = _ := hcall
  cases hc

theorem launched_cons {e : Entry World} {log : List (Entry World)} {host : HostId} :
    Launched (e :: log) host ↔ host ∈ e.launched ∨ Launched log host := by
  simp [Launched]

section

variable {hosts : IdSet} {log : List (Entry World)} {cluster : String} {count : Nat}
  {image : Option String} {u v : World}

/-- A call that neither launches nor notifies. -/
theorem Muster.cons (h : Muster env y hosts missing alerts log) {e : Entry World}
    (hc : e.call.launches = false) (hp : e.posted = []) :
    Muster env y hosts missing alerts (e :: log) where
  tracked host := by
    rw [launched_cons, Entry.launched_eq_nil hc, h.tracked]
    simp
  size_le := h.size_le
  launches := by
    rw [List.countP_cons_of_neg (by simp [hc])]
    exact h.launches
  posted := by rw [postedIn_cons, hp, h.posted, List.append_nil]
  barren := by
    rw [List.countP_cons_of_neg (by simp [Entry.isBarren_eq_false hc])]
    exact h.barren

/-- A launch that fails ends the step. -/
theorem Muster.failed (h : Muster env y hosts (missing + 1) alerts log) {f : Fault} :
    Muster env y hosts 0 alerts
      (⟨u, .provider (.launchHosts cluster count image), .error f, v⟩ :: log) where
  tracked host := by
    rw [launched_cons, h.tracked]
    simp [Entry.launched]
  size_le := h.size_le
  launches := by
    have := h.launches
    rw [List.countP_cons_of_pos rfl]
    omega
  posted := by
    rw [postedIn_cons, h.posted]
    exact List.append_nil _
  barren := by
    rw [List.countP_cons_of_neg (by simp [Entry.isBarren])]
    exact h.barren

/-- A launch that brings nothing is told. -/
theorem Muster.alerted (h : Muster env y hosts (missing + 1) alerts log) {n : Notification}
    {v' : World} {r : Outcome Unit} : Muster env y hosts 0 (alerts ++ [n])
      (⟨v, .post n, r, v'⟩ ::
        ⟨u, .provider (.launchHosts cluster count image), .ok [], v⟩ :: log) where
  tracked host := by
    rw [launched_cons, launched_cons, h.tracked]
    simp [Entry.launched]
  size_le := h.size_le
  launches := by
    have := h.launches
    rw [List.countP_cons_of_neg (by simp [Call.launches]), List.countP_cons_of_pos rfl]
    omega
  posted := by
    rw [postedIn_cons, postedIn_cons, h.posted]
    exact congrArg (· ++ [n]) (List.append_nil _)
  barren := by
    rw [List.countP_cons_of_neg (by simp [Entry.isBarren]), List.countP_cons_of_pos rfl,
      h.barren, List.length_append]
    rfl

/-- A launch that brings hosts. -/
theorem Muster.launched (h : Muster env y hosts (target env - hosts.size) alerts log)
    {ids : List HostId} (hcount : count ≤ target env - hosts.size) (hd : ids.Nodup)
    (hl : ids.length ≤ count) (hn : ∀ host ∈ ids, host ∉ hosts) (hsome : ids ≠ []) :
    Muster env y (hosts.insertAll ids) (target env - (hosts.insertAll ids).size) alerts
      (⟨u, .provider (.launchHosts cluster count image), .ok ids, v⟩ :: log) := by
  have hsize : (hosts.insertAll ids).size = hosts.size + ids.length := IdSet.size_insertAll hd hn
  have hlength : 0 < ids.length := List.length_pos_iff.mpr hsome
  refine ⟨fun host => ?_, by omega, ?_, ?_, ?_⟩
  · rw [launched_cons, IdSet.mem_insertAll, h.tracked, or_left_comm]
    simp [Entry.launched]
  · have := h.launches
    rw [List.countP_cons_of_pos rfl]
    omega
  · rw [postedIn_cons, h.posted]
    exact List.append_nil _
  · have hgranted : Entry.isBarren ⟨u, .provider (.launchHosts cluster count image), .ok ids, v⟩ =
        false := by
      cases ids with
      | nil => exact absurd rfl hsome
      | cons => rfl
    rw [List.countP_cons_of_neg (by simp [hgranted]), h.barren]

end

/-- The first part of a sequence makes a call. -/
theorem fills_next {σ : Type} {B : Behaviour σ} {R : Rule σ} {Q : Outcome β → Journal σ → Prop}
    {j : Journal σ} {c : Call} {f : c.Reply → Program β}
    (h : ∀ r v, B c j.state r v → R j.log ⟨j.state, c, r, v⟩ ∧
      Then B.recorded (Journal.Adds R) Q f r (j.enter c r v)) :
    ((perform c).bind f).Keeps B.recorded (Journal.Adds R) Q j := by
  refine keeps_bind.mpr (keeps_perform.mpr ?_)
  rintro r _ ⟨v, hb, rfl⟩
  obtain ⟨hR, hq⟩ := h r v hb
  exact ⟨⟨_, rfl, hR⟩, hq⟩

/-- The first part of a sequence reads what is stored. -/
theorem filled_read {q : StoreCall} {P : q.Reply → Prop} {f : q.Reply → Program β}
    {Q : Outcome β → Journal World → Prop} (h : Filled env y x missing alerts j)
    (hq : ∀ s clock, Stocked env x s → ∃ a, P a ∧ s.answer clock q = (.ok a, s))
    (hf : ∀ a j', P a → Filled env y x missing alerts j' →
      (∀ host, Launched j'.log host → Launched j.log host) →
        (f a).Keeps (filling env y.id).recorded (Journal.Adds (fills config env y)) Q j') :
    ((ask q).bind f).Keeps (filling env y.id).recorded (Journal.Adds (fills config env y)) Q
      j := by
  refine fills_next fun r v hb => ?_
  obtain ⟨a, hp, rfl, hv⟩ := filling_read h.isOpen h.id_eq hq hb
  exact ⟨fills_of_launchless rfl h.isOpen h.id_eq hv h.id_eq (fun _ => id) h.size_le,
    hf a _ hp ⟨h.cons rfl rfl, h.retracks, hv⟩ fun _ => launched_enter rfl⟩


/-- A launch asks for a batch of what is missing. -/
theorem Filled.admits_launch (h : Filled env y x missing alerts j) {count : Nat}
    (hpos : 1 ≤ count) (hle : count ≤ min (max config.launchBatch 1) (target env - x.hostIds.size))
    {r : Outcome (List HostId)} {v : World} (hv : Open env x v) :
    fills config env y j.log
      ⟨j.state, .provider (.launchHosts y.cluster count none), r, v⟩ := by
  refine ⟨x, x, h.id_eq, h.isOpen, h.id_eq, hv, fun _ => id, h.size_le, fun _ _ _ hcall => ?_⟩
  cases hcall
  exact ⟨rfl, hpos, hle, h.tracked⟩

/-- After a launch that brought nothing the step ends. -/
theorem stepEnds_barren {launchedAny : Bool} {count : Nat} {v v' : World} {B : Behaviour World}
    {G : Journal World → Journal World → Prop} (h : Filled env y x (missing + 1) [] j)
    (hv : Open env x v') (hmissing : x.hostIds.size < target env)
    (hany : launchedAny = true ↔ ∃ host, Launched j.log host) :
    (if launchedAny then pure (x, .stay) else fail (.fleet
      s!"launched none of {count} hosts for cluster {y.cluster}") : Program _).Keeps B.recorded G
        (StepEnds env y) ((j.enter (.provider (.launchHosts y.cluster count none)) (.ok []) v).enter
          (.post (launchFailure y.cluster count env.recipients)) (.ok ()) v') := by
  have halerted : Filled env y x 0 [launchFailure y.cluster count env.recipients] ((j.enter
      (.provider (.launchHosts y.cluster count none)) (.ok []) v).enter
        (.post (launchFailure y.cluster count env.recipients)) (.ok ()) v') :=
    ⟨h.alerted, h.retracks, hv⟩
  have hlaunched : ∀ host, Launched
      ((j.enter (.provider (.launchHosts y.cluster count none)) (.ok []) v).enter
        (.post (launchFailure y.cluster count env.recipients)) (.ok ()) v').log host ↔
          Launched j.log host := by
    intro host
    rw [Journal.enter, Journal.enter, launched_cons, launched_cons]
    simp [Entry.launched]
  cases launchedAny with
  | true =>
      obtain ⟨host, hhost⟩ := hany.mp rfl
      exact .inr ⟨count, rfl, hmissing, halerted, host, (hlaunched host).mpr hhost⟩
  | false =>
      refine ⟨x, hmissing, .inr ⟨count, halerted, ?_, rfl⟩⟩
      rintro ⟨host, hhost⟩
      exact absurd (hany.mpr ⟨host, (hlaunched host).mp hhost⟩) Bool.false_ne_true

/-- The launches go on until nothing is missing, unless one fails or brings nothing. -/
theorem fills_launchMissing {limit : Nat} {launchedAny : Bool}
    (h : Filled env y x (target env - x.hostIds.size) [] j)
    (hlimit : target env - x.hostIds.size ≤ limit)
    (hany : launchedAny = true ↔ ∃ host, Launched j.log host) :
    (launchMissing config env limit (target env - x.hostIds.size) launchedAny x).Keeps
      (filling env y.id).recorded (Journal.Adds (fills config env y)) (StepEnds env y) j := by
  have hdone : ∀ {x : UpgradeEvent} {j : Journal World}, target env - x.hostIds.size = 0 →
      Filled env y x (target env - x.hostIds.size) [] j →
        StepEnds env y (.ok (x, .enter .launching .succeeded)) j := by
    intro x j hnone h
    rw [hnone] at h
    exact .inl ⟨rfl, by omega, h⟩
  induction limit generalizing x launchedAny j with
  | zero => exact hdone (by omega) h
  | succ limit ih =>
      rw [launchMissing]
      split
      · rename_i hnone
        exact hdone hnone h
      · rename_i hsome
        obtain ⟨missing, hmissing⟩ : ∃ n, target env - x.hostIds.size = n + 1 :=
          ⟨target env - x.hostIds.size - 1, by omega⟩
        have hlast : Filled env y x (missing + 1) [] j := hmissing ▸ h
        have hpos : 1 ≤ min (target env - x.hostIds.size) (max config.launchBatch 1) := by omega
        have hle := Nat.le_of_eq
          (Nat.min_comm (target env - x.hostIds.size) (max config.launchBatch 1))
        rw [h.cluster_eq]
        generalize min (target env - x.hostIds.size) (max config.launchBatch 1) = count
          at hpos hle
        refine fills_next fun r v hb => ?_
        obtain ⟨hv, hids⟩ := filling_launch h.isOpen h.id_eq hb
        refine ⟨h.admits_launch hpos hle hv, ?_⟩
        cases r with
        | error f =>
            have hfailed : Filled env y x 0 [] (j.enter
                (.provider (.launchHosts y.cluster count none)) (.error f) v) :=
              ⟨hlast.failed, h.retracks, hv⟩
            exact ⟨x, by omega, .inl ⟨hfailed, j.state, count, v, j.log, rfl⟩⟩
        | ok ids =>
            obtain ⟨hd, hl, hn⟩ := hids ids rfl
            cases ids with
            | nil =>
                refine fills_next fun r v' hb' => ?_
                obtain ⟨rfl, hv'⟩ := filling_post hv h.id_eq hb'
                refine ⟨fills_of_launchless rfl hv h.id_eq hv' h.id_eq (fun _ => id) h.size_le, ?_⟩
                exact stepEnds_barren hlast hv' (by omega) hany
            | cons first others =>
                refine fills_next fun r v' hb' => ?_
                obtain ⟨rfl, hv'⟩ := filling_update
                  (z := x.withHostIds (x.hostIds.insertAll (first :: others)))
                  hv h.id_eq rfl rfl rfl hb'
                have hmuster : Muster env y (x.hostIds.insertAll (first :: others))
                    (target env - (x.hostIds.insertAll (first :: others)).size) []
                    (⟨j.state, .provider (.launchHosts y.cluster count none),
                      .ok (first :: others), v⟩ :: j.log) :=
                  h.toMuster.launched (by omega) hd hl hn (List.cons_ne_nil _ _)
                refine ⟨fills_of_launchless rfl hv h.id_eq hv' h.id_eq (fun host hmem =>
                  IdSet.mem_insertAll.mpr (.inr hmem)) hmuster.size_le, ?_⟩
                have hsize := IdSet.size_insertAll hd hn
                have hneeded : target env - x.hostIds.size - (first :: others).length =
                    target env - (x.hostIds.insertAll (first :: others)).size := by
                  rw [hsize, Nat.sub_sub]
                have hlength : 1 ≤ (first :: others).length := Nat.succ_pos _
                simp only [Then, hneeded]
                refine ih (x := x.withHostIds (x.hostIds.insertAll (first :: others)))
                  ⟨hmuster.cons rfl rfl, h.retracks.withHostIds _, hv'⟩ ?_
                  ⟨fun _ => ⟨first, ?_⟩, fun _ => rfl⟩
                · rw [Item.hostIds_withHostIds, ← hneeded]
                  omega
                · exact launched_cons.mpr (.inr (launched_cons.mpr (.inl List.mem_cons_self)))

theorem fills_init (h : Filled env y y (target env - y.hostIds.size) [] j)
    (hnone : ∀ host, ¬Launched j.log host) :
    (init config y).Keeps (filling env y.id).recorded (Journal.Adds (fills config env y))
      (StepEnds env y) j := by
  simp only [init, requireEnvironment, bind_eq, bind_assoc]
  refine filled_read h (P := (· = some env)) (fun s clock hs => ⟨_, rfl, ?_⟩) ?_
  · rw [Store.answer, hs.environment]
  · rintro _ j₁ rfl h₁ hlog
    refine fills_launchMissing h₁ (Nat.le_refl _) ⟨Bool.false_ne_true.elim, ?_⟩
    rintro ⟨host, hhost⟩
    exact (hnone host (hlog host hhost)).elim

end

/-! ## A tick in INIT -/

/-- A version is not overdue. -/
def Timely (config : ReplacementSettings) (y : UpgradeEvent) (now : Instant) : Prop :=
  ∃ limit, Span.ofSetting config.timeoutSecs = .ok limit ∧
    ¬limit < now.since y.header.lastWorkedOn

/-- How a tick of `y` in INIT ends. All hosts launched in it are tracked by the version that it
leaves, and for each launch that brought nothing there was one notification. The event moves on
if nothing is missing. Otherwise it stays in INIT, because a launch has failed or because one
brought nothing. -/
def TickEnds (env : Environment) (y : UpgradeEvent) (now : Instant)
    (r : Outcome (Progress UpgradeState)) (j : Journal World) : Prop :=
  ∃ (z : UpgradeEvent) (alerts : List Notification), z.id = y.id ∧ Open env z j.state ∧
    Muster env y z.hostIds 0 alerts j.log ∧
    ((target env ≤ z.hostIds.size ∧ alerts = [] ∧
        r = .ok (.transitioned UpgradeState.init UpgradeState.launching) ∧
        z = (y.withHostIds z.hostIds).afterStep now (.enter .launching .succeeded)) ∨
      (z.hostIds.size < target env ∧ z.state = UpgradeState.init ∧
        ((alerts = [] ∧ z = y.withHostIds z.hostIds ∧ ∃ f before count after past,
            r = .error f ∧ j.log =
              ⟨before, .provider (.launchHosts y.cluster count none), .error f, after⟩ :: past) ∨
          ∃ count, alerts = [launchFailure y.cluster count env.recipients] ∧
            ((∃ host, Launched j.log host) → r = .ok .stayed ∧
              z = (y.withHostIds z.hostIds).touch now) ∧
            ((¬∃ host, Launched j.log host) → z = y ∧ r = .error (.error (.fleet
              s!"launched none of {count} hosts for cluster {y.cluster}"))))))

section

variable {config : ReplacementSettings} {env : Environment} {y : UpgradeEvent} {w : World}
  {now : Instant} {j : Journal World}

/-- What a step has decided is stored. -/
theorem fills_takeStep (hst : y.state = UpgradeState.init)
    (h : Filled env y y (target env - y.hostIds.size) [] j)
    (hnone : ∀ host, ¬Launched j.log host) :
    ((lifecycle config).takeStep y now).Keeps (filling env y.id).recorded
      (Journal.Adds (fills config env y)) (TickEnds env y now) j := by
  have hstep : (lifecycle config).step y now = init config y := by
    simp only [lifecycle, step, hst]
  rw [Lifecycle.takeStep, hstep]
  refine keeps_bind.mpr ((fills_init h hnone).imp ?_)
  rintro (f | ⟨x, d⟩) j₁ hends
  · obtain ⟨x, hsize, ⟨h₁, before, count, after, past, hlog⟩ | ⟨count, h₁, hnone, rfl⟩⟩ := hends
    · exact ⟨x, [], h₁.id_eq, h₁.isOpen, h₁.toMuster, .inr ⟨hsize, h₁.state_eq.trans hst,
        .inl ⟨rfl, h₁.eq_withHostIds, f, before, count, after, past, rfl, hlog⟩⟩⟩
    · refine ⟨x, _, h₁.id_eq, h₁.isOpen, h₁.toMuster, .inr ⟨hsize, h₁.state_eq.trans hst,
        .inr ⟨count, rfl, fun hsome => absurd hsome hnone, fun _ => ⟨?_, rfl⟩⟩⟩⟩
      have hsame : x.hostIds = y.hostIds :=
        IdSet.ext fun host => (h₁.tracked host).trans (or_iff_left fun hl => hnone ⟨host, hl⟩)
      rw [h₁.eq_withHostIds, hsame]
      rfl
  · obtain ⟨rfl, hsize, h₁⟩ | ⟨count, rfl, hsize, h₁, hsome⟩ := hends
    · refine fills_next fun r v hb => ?_
      obtain ⟨rfl, hv⟩ := filling_update
        (z := x.afterStep now (.enter .launching .succeeded)) h₁.isOpen h₁.id_eq rfl rfl rfl hb
      refine ⟨fills_of_launchless rfl h₁.isOpen h₁.id_eq hv h₁.id_eq (fun _ => id) h₁.size_le, ?_⟩
      refine ⟨x.afterStep now (.enter .launching .succeeded), [], h₁.id_eq, hv, h₁.cons rfl rfl,
        .inl ⟨hsize, rfl, by rw [hst], ?_⟩⟩
      exact congrArg (fun x => x.afterStep now (.enter .launching .succeeded)) h₁.eq_withHostIds
    · refine fills_next fun r v hb => ?_
      obtain ⟨rfl, hv⟩ := filling_update (z := x.touch now) h₁.isOpen h₁.id_eq rfl rfl rfl hb
      refine ⟨fills_of_launchless rfl h₁.isOpen h₁.id_eq hv h₁.id_eq (fun _ => id) h₁.size_le, ?_⟩
      obtain ⟨host, hhost⟩ := hsome
      have hlaunched : ∃ host, Launched (⟨j₁.state, .store (.updateItem .upgrade (x.touch now)),
        .ok (), v⟩ :: j₁.log) host := ⟨host, launched_cons.mpr (.inr hhost)⟩
      refine ⟨x.touch now, _, h₁.id_eq, hv, h₁.cons rfl rfl, .inr ⟨hsize,
        h₁.state_eq.trans hst, .inr ⟨count, rfl, fun _ => ⟨rfl, ?_⟩,
          fun hnone => absurd hlaunched hnone⟩⟩⟩
      exact congrArg (fun x => x.touch now) h₁.eq_withHostIds

/-- A tick looks at the event and at its cluster before it takes the step. -/
theorem fills_advance (hy : Open env y w) (hst : y.state = UpgradeState.init)
    (ht : Timely config y now) :
    ((lifecycle config).advance y.id now).Keeps (filling env y.id).recorded
      (Journal.Adds (fills config env y)) (TickEnds env y now) (.start w) := by
  obtain ⟨limit, hlimit, htimely⟩ := ht
  have hopen : y.state ≠ UpgradeState.completed := by simp [hst]
  have hstart : Filled env y y (target env - y.hostIds.size) [] (.start w) :=
    ⟨⟨by simp [Launched, Journal.start], by omega, by simp [Journal.start], rfl, rfl⟩,
      .refl y, hy⟩
  rw [Lifecycle.advance_eq]
  refine filled_read hstart (P := (· = some y)) (fun s clock hs => ⟨_, rfl, ?_⟩) ?_
  · rw [Store.answer, hs.has.2]
  · rintro _ j₁ rfl h₁ hlog₁
    simp only [Lifecycle.work, Item.isTerminal_iff, ItemKind.terminal, if_neg hopen, lifecycle,
      clusterIsPaused, requireCluster, bind_eq, pure_eq, bind_assoc]
    refine filled_read h₁ (P := fun found => ∃ c, found = some c ∧ c.state ≠ .pause)
      (fun s clock hs => ?_) ?_
    · obtain ⟨c, hc, hnormal⟩ := hs.cluster
      refine ⟨some c, ⟨c, rfl, hnormal⟩, ?_⟩
      rw [Store.answer, hc]
    · rintro _ j₂ ⟨c, rfl, hnormal⟩ h₂ hlog₂
      simp only [orFail, Program.bind, hlimit, ofOutcome, Lifecycle.heartbeat, beq_iff_eq,
        if_neg hnormal, if_neg htimely]
      refine fills_takeStep hst h₂ fun host hl => ?_
      obtain ⟨e, he, -⟩ := hlog₁ host (hlog₂ host hl)
      cases he

end

/-! ## Any number of ticks -/

/-- Ticks of an event in INIT that is not overdue, with their calls, the last one first. Between
them the others do what they may do during a tick. -/
inductive InitTicks (env : Environment) (id : ItemId) (w : World) :
    List (List (Entry World)) → World → Prop where
  | start : InitTicks env id w [] w
  | others {logs : List (List (Entry World))} {v v' : World} (past : InitTicks env id w logs v)
      (h : Spares env id v v') : InitTicks env id w logs v'
  | tick {logs : List (List (Entry World))} {v : World} (past : InitTicks env id w logs v)
      {config : ReplacementSettings} {y : UpgradeEvent} {now : Instant}
      {r : Outcome (Progress UpgradeState)} {j : Journal World} (hid : y.id = id)
      (hy : Open env y v) (hst : y.state = UpgradeState.init) (ht : Timely config y now)
      (he : ((lifecycle config).advance id now).Ends (filling env id).recorded (.start v) r j) :
      InitTicks env id w (j.log :: logs) j.state

/-- What a version has in common with the event at the start of all ticks. -/
structure Extends (env : Environment) (event y : UpgradeEvent) (log : List (Entry World)) :
    Prop where
  id_eq : y.id = event.id
  cluster_eq : y.cluster = event.cluster
  tracked : ∀ host, host ∈ y.hostIds ↔ host ∈ event.hostIds ∨ Launched log host
  size_le : y.hostIds.size ≤ max (target env) event.hostIds.size

section

variable {config : ReplacementSettings} {env : Environment} {event y : UpgradeEvent}
  {w v : World} {now : Instant} {r : Outcome (Progress UpgradeState)} {j : Journal World}
  {log : List (Entry World)} {logs : List (List (Entry World))}

theorem launched_append {later past : List (Entry World)} {host : HostId} :
    Launched (later ++ past) host ↔ Launched later host ∨ Launched past host := by
  simp only [Launched, List.mem_append, or_and_right, exists_or]

/-- A tick goes on from what the ticks before it have left. -/
theorem Extends.tick (h : Extends env event y log) (he : TickEnds env y now r j) :
    ∃ z, Open env z j.state ∧ Extends env event z (j.log ++ log) := by
  obtain ⟨z, alerts, hid, hz, hm, hcases⟩ := he
  have hcluster : z.cluster = y.cluster := by
    obtain ⟨-, -, -, hz⟩ | ⟨-, -, ⟨-, hz, -⟩ | ⟨count, -, hsome, hnone⟩⟩ := hcases
    · rw [hz]
      rfl
    · rw [hz]
      rfl
    · by_cases hl : ∃ host, Launched j.log host
      · rw [(hsome hl).2]
        rfl
      · rw [(hnone hl).1]
  refine ⟨z, hz, hid.trans h.id_eq, hcluster.trans h.cluster_eq, fun host => ?_, ?_⟩
  · rw [hm.tracked, h.tracked, launched_append, or_assoc]
    exact or_congr_right or_comm
  · have := hm.size_le
    have := h.size_le
    omega

theorem InitTicks.extends (h : InitTicks env event.id w logs v) (hw : Open env event w) :
    ∃ y, Open env y v ∧ Extends env event y logs.flatten := by
  induction h with
  | start => exact ⟨event, hw, rfl, rfl, by simp [Launched], Nat.le_max_right _ _⟩
  | others _ hspared ih =>
      obtain ⟨y, hy, hext⟩ := ih
      exact ⟨y, hspared y hext.id_eq hy, hext⟩
  | tick _ hid hy hst ht he ih =>
      obtain ⟨x, hx, hext⟩ := ih
      obtain rfl := hx.eq hy (hid.trans hext.id_eq.symm)
      rw [← hext.id_eq] at he
      exact hext.tick ((fills_advance hy hst ht).ends he)

/-- After any number of ticks of an event in INIT, whatever the provider has granted, the next
one launches what is missing. Its launches come to an end, because no bound of the loop matters
and none of them asks for more than a batch of what is missing. The event tracks what it tracked
at first and all hosts launched since, from before the next launch on, and never more than the
target unless it did so at first. It moves on when nothing is missing. When a launch brings
nothing the event stays in INIT, with one notification that is dropped if it is addressed to
nobody. -/
theorem launches_what_is_missing (hw : Open env event w)
    (hrun : InitTicks env event.id w logs v) (hy : Open env y v) (hid : y.id = event.id)
    (hst : y.state = UpgradeState.init) (ht : Timely config y now)
    (he : ((lifecycle config).advance event.id now).Ends (filling env event.id).recorded
      (.start v) r j) :
    Extends env event y logs.flatten ∧
      (∀ needed more, launchMissing config env (needed + more) needed false y =
        launchMissing config env needed needed false y) ∧
      (∀ later e past, j.log = later ++ e :: past → fills config env y past e) ∧
      (∀ e ∈ j.log, ∀ n, e.call = .post n → ∃ u, Spares env event.id e.before u ∧
        e.after = if n.isAddressed then { u with outbox := u.outbox ++ [n] } else u) ∧
      TickEnds env y now r j := by
  obtain ⟨x, hx, hext⟩ := hrun.extends hw
  obtain rfl := hx.eq hy (hid.trans hext.id_eq.symm)
  have htick := fills_advance hy hst ht
  rw [hid] at htick
  refine ⟨hext, fun needed more => launchMissing_congr _ _ _ _ (Nat.le_add_right _ _),
    fun later e past hlog => htick.allows he hlog List.nil_suffix, ?_, htick.ends he⟩
  rintro ⟨before, c, a, after⟩ hmem n rfl
  exact filling_posted ((he.traces .nil).possible hmem)

end

/-! ## A provider that runs short -/

/-- A run whose calls all have a property. -/
theorem Ends.and {α σ : Type} {B : Behaviour σ} {P : Entry σ → Prop} {p : Program α}
    {j j' : Journal σ} {r : Outcome α} (he : p.Ends B.recorded j r j') (hP : ∀ e ∈ j'.log, P e) :
    p.Ends (Behaviour.recorded fun c s r s' => B c s r s' ∧ P ⟨s, c, r, s'⟩) j r j' := by
  induction he with
  | done r j => exact .done r j
  | call hb hrest ih =>
      obtain ⟨s', hb, rfl⟩ := hb
      exact .call ⟨s', ⟨hb, hP _ (hrest.suffix.subset List.mem_cons_self)⟩, rfl⟩ (ih hP)

/-- Whether a call succeeds, and the hosts that it launches are new to an event. -/
def succeedsAfresh (id : ItemId) (e : Entry World) : Bool :=
  e.reply.isOk && e.launched.all fun host =>
    (e.before.tables.getItem .upgrade id).all fun y => !y.hostIds.toList.contains host

theorem ends_filling {α : Type} {p : Program α} {w : World} (env : Environment) (id : ItemId)
    (hok : (p.undisturbed (.start w)).log.all (succeedsAfresh id) = true) :
    p.Ends (filling env id).recorded (.start w) (p.run (failing fun _ _ => none) (.start w)).1
      (p.undisturbed (.start w)) := by
  have he : p.Ends (World.Possible (Spares env id) fun _ => True).recorded (.start w)
      (p.run (failing fun _ _ => none) (.start w)).1 (p.undisturbed (.start w)) :=
    ends_undisturbed (fun _ _ _ h => h) p (.start w)
  refine (Ends.and he (List.all_eq_true.mp hok)).mono ?_
  rintro c j r _ ⟨v, ⟨hb, hp⟩, rfl⟩
  rw [succeedsAfresh, Bool.and_eq_true, List.all_eq_true] at hp
  refine ⟨v, ⟨hb, fun _ => ?_, fun y hid hy host hl => ?_⟩, rfl⟩
  · cases r with
    | ok a => exact ⟨a, rfl⟩
    | error f => cases hp.1
  · obtain ⟨s, hs, hstocked⟩ := hy
    have hnew := hp.2 host hl
    rw [World.tables_eq hs, ← hid, hstocked.has.2] at hnew
    simpa using hnew

/-- An environment whose replacements use two temporary hosts. -/
def twoAtATime : Environment :=
  ⟨"prod", "prod", "prod", .normal, none, "app", 2, ⟨["ops"], [], none⟩⟩

/-- A new event. -/
def newEvent : UpgradeEvent := UpgradeEvent.new "event" "web" "prod" .epoch

/-- A provider that has one host to launch when the event needs two. -/
def shortPool : World :=
  let cluster : Cluster := ⟨"web", "prod", .normal, none, 0, ⟨[], [], none⟩, .epoch⟩
  let store := Store.empty.putItem .upgrade newEvent
  { World.initial .epoch (.seeded 0) with
    store := some { store with
      clusters := store.clusters.insert cluster.name cluster
      environments := store.environments.insert twoAtATime.id twoAtATime }
    provider := { Provider.empty with launchCapacity := some 1 } }

theorem open_shortPool : Open twoAtATime newEvent shortPool :=
  ⟨_, rfl, ⟨Store.keyed_empty.putItem .upgrade newEvent |>.items .upgrade, rfl⟩, rfl, _, rfl,
    by decide⟩

/-- A tick of the event in which nobody interferes. -/
abbrev tickOf (w : World) : Journal World :=
  ((lifecycle {}).advance "event" .epoch).undisturbed (.start w)

/-- After the first tick there is room for more hosts. -/
def restocked : World :=
  let w := (tickOf shortPool).state
  { w with provider := { w.provider with launchCapacity := none } }

/-- The first tick launches one host and tells that a second one could not be launched. The
second tick launches what is missing, and the event moves on with both hosts. -/
theorem launches_what_is_missing_shortPool :
    let logs := [(tickOf shortPool).log]
    Open twoAtATime newEvent shortPool ∧ InitTicks twoAtATime "event" shortPool logs restocked ∧
    ∃ y r z, Open twoAtATime y restocked ∧ y.state = UpgradeState.init ∧
      Timely {} y .epoch ∧
      ((lifecycle {}).advance "event" .epoch).Ends (filling twoAtATime "event").recorded
        (.start restocked) r (tickOf restocked) ∧
      postedIn logs.flatten = [launchFailure "web" 1 twoAtATime.recipients] ∧
      (∀ host, host ∈ y.hostIds ↔ host ∈ newEvent.hostIds ∨ Launched logs.flatten host) ∧
      r = .ok (.transitioned UpgradeState.init UpgradeState.launching) ∧
      Open twoAtATime z (tickOf restocked).state ∧
      z.hostIds.toList = ["i-mock-0001", "i-mock-0002"] := by
  intro logs
  have he₁ := ends_filling (p := (lifecycle {}).advance "event" .epoch) (w := shortPool)
    twoAtATime "event" (by decide +kernel)
  have he₂ := ends_filling (p := (lifecycle {}).advance "event" .epoch) (w := restocked)
    twoAtATime "event" (by decide +kernel)
  have hfirst : Timely {} newEvent .epoch := ⟨_, rfl, by decide⟩
  have hrun : InitTicks twoAtATime newEvent.id shortPool logs restocked :=
    .others (.tick .start rfl open_shortPool rfl hfirst he₁) fun y _ hy => hy
  obtain ⟨y, hy, hextends⟩ := hrun.extends open_shortPool
  have hbetween : (restocked.tables.getItem .upgrade "event").map
      (fun y => (y.state, y.header.lastWorkedOn)) = some (UpgradeState.init, .epoch) := by
    decide +kernel
  have hyid : y.id = "event" := hextends.id_eq
  rw [← hyid, hy.getItem, Option.map_some, Option.some_inj, Prod.mk.injEq] at hbetween
  have htimely : Timely {} y .epoch := ⟨_, rfl, by rw [hbetween.2]; decide⟩
  obtain ⟨hext, -, -, -, z, alerts, hid, hz, -, hcases⟩ := launches_what_is_missing
    open_shortPool hrun hy hextends.id_eq hbetween.1 htimely he₂
  have hafter : ((tickOf restocked).state.tables.getItem .upgrade "event").map
      (·.hostIds.toList) = some ["i-mock-0001", "i-mock-0002"] := by
    decide +kernel
  have hzid : z.id = "event" := hid.trans hextends.id_eq
  rw [← hzid, hz.getItem, Option.map_some, Option.some_inj] at hafter
  have hfull : target twoAtATime ≤ z.hostIds.size := by
    rw [IdSet.size, hafter]
    decide
  obtain ⟨-, -, hr, -⟩ | ⟨hless, -⟩ := hcases
  · exact ⟨open_shortPool, hrun, y, _, z, hy, hbetween.1, htimely, he₂, by decide +kernel,
      hext.tracked, hr, hz, hafter⟩
  · exact absurd hfull (Nat.not_le_of_lt hless)

end Replacement

end FleetControl
