import FleetControl.Proofs.Reporting
import FleetControl.Proofs.Vetting

/-!
# Items that are overdue

An item without progress for too long is sent to its timeout state whatever its state would do,
as soon as it and its cluster can be read and it can be stored. What follows the timeout may fail
at any call. It gives the cluster of an event back, and it terminates the probe host of a check
that is never stepped again. Nothing else changes. Before that time no tick says that an item has
timed out, and as ticks that fail do not put the time off, an event whose steps keep failing
times out at the first tick that comes late enough.
-/
namespace FleetControl

open Program

/-- Whether a fault is an error, and no crash. -/
def Fault.IsError (f : Fault) : Prop := ∃ e, f = .error e

/-- How many seconds an item of a kind may go without progress. -/
def Config.timeoutSecs (config : Config) : ItemKind → Nat
  | .upgrade => config.replacement.timeoutSecs
  | .check => config.healthCheck.timeoutSecs

namespace Item

/-- The instant from which the time without progress counts: for an event its heartbeat, for a
check the time at which it entered its state. -/
def idleSince : {k : ItemKind} → Item k → Instant
  | .upgrade, event => event.header.lastWorkedOn
  | .check, check => check.header.stateStartTime

/-- The probe host of a check that is never stepped again. -/
def condemned : {k : ItemKind} → Item k → List HostId
  | .upgrade, _ => []
  | .check, check =>
      if check.state = HealthCheckState.completed then check.details.hostId.toList else []

/-- The same item, unless it is noted that its probe host was terminated. -/
def Cleared : {k : ItemKind} → Item k → Item k → Prop
  | .upgrade, event, stored => stored = event
  | .check, check, stored => stored = check ∨ stored = ImageCheck.released check

/-- What may follow the timeout of an item. -/
inductive Clears {k : ItemKind} (x : Item k) : Call → Prop where
  | looks {c : Call} (h : c.isRead = true) : Clears x c
  | stores {y : Item k} (h : x.Cleared y) : Clears x (.store (.updateItem k y))
  | resumes : Clears x (.store (.setClusterState x.cluster .normal))
  | terminates {id : HostId} (h : id ∈ x.condemned) :
      Clears x (.provider (.terminateHosts x.cluster [id] false))
  | marks {id : HostId} (h : id ∈ x.condemned) :
      Clears x (.store (.setHostState [id] .terminating))

variable {k : ItemKind} {x y : Item k}

theorem Cleared.refl (x : Item k) : x.Cleared x := by
  cases k with
  | upgrade => rfl
  | check => exact .inl rfl

theorem Cleared.id_eq (h : x.Cleared y) : y.id = x.id := by
  cases k with
  | upgrade => rw [show y = x from h]
  | check => rcases h with rfl | rfl <;> rfl

end Item

/-! ## What follows a timeout -/

theorem Replacement.within_clears (event : UpgradeEvent) (source : UpgradeState) :
    (Replacement.onTimeout event source).Within event.Clears Fault.IsError := by
  refine .seq (within_ask.mpr .resumes) fun _ => .seq ?_ fun env => within_notify.mpr (.looks rfl)
  exact .seq (within_ask.mpr (.looks rfl)) fun _ => within_orFail fun _ => ⟨_, rfl⟩

namespace ImageCheck

variable {config : ImageCheckSettings} {limit : Nat}

theorem within_clears (hlook : lookback (config.failuresBeforePage - 1) = .ok limit)
    (check : HealthCheck) : (onTimeout config check).Within check.Clears Fault.IsError := by
  refine within_onTimeout_of ?_ fun _ _ =>
    within_alert_of (fun _ => .looks) (fun _ _ => ⟨_, rfl⟩) (hlook ▸ trivial)
  refine meets_cleanUp (fun _ => .stores (.inr rfl)) fun hs id hid => ?_
  have hprobe : id ∈ check.condemned := by
    simp only [Item.condemned, if_pos hs, hid, Option.toList_some, List.mem_singleton]
  exact ⟨.terminates hprobe, .marks hprobe⟩

end ImageCheck

theorem within_clears (config : Config) {k : ItemKind}
    (hpage : k = .check → config.healthCheck.failuresBeforePage ≤ 0x8000000000000000)
    (x : Item k) (source : k.State) :
    ((config.lifecycle k).onTimeout x source).Within x.Clears Fault.IsError := by
  cases k with
  | upgrade => exact Replacement.within_clears x source
  | check =>
      obtain ⟨limit, hlook⟩ := ImageCheck.lookback_eq_ok_iff.mpr (hpage rfl)
      exact ImageCheck.within_clears hlook x

/-! ## What a timeout leaves -/

/-- With a clock that can be read, a store fails with errors only, and none of them reports a
crash. -/
theorem Store.failsOnly_of_answer {E : Fault → Prop}
    (hE : ∀ e, (∀ detail, e ≠ .internal ("panicked: " ++ detail)) → E (.error e))
    (s : Store) (n : Instant) (c : StoreCall) : FailsOnly E (s.answer (.ok n) c).1 := by
  have hsettle : ∀ {r : Outcome Store}, FailsOnly E r → FailsOnly E (s.settle r).1 := by
    intro r hr
    cases r with
    | ok s' => trivial
    | error f => exact hr
  cases c with
  | insertItem k i =>
      refine hsettle ?_
      rw [insertItem]
      split
      · refine hE _ fun detail he => ?_
        have hfirst := congrArg (fun s : String => s.toList.head?) (ControlError.internal.inj he)
        cases k <;> simp [ItemKind.label] at hfirst
      · trivial
  | updateItem k i =>
      refine hsettle ?_
      rw [updateItem]
      split
      · trivial
      · exact hE _ fun _ h => by cases h
  | setPromoteKind env kind =>
      refine hsettle ?_
      rw [setPromoteKind]
      split
      · trivial
      · exact hE _ fun _ h => by cases h
  | setClusterState name state =>
      refine hsettle ?_
      rw [setClusterState, changeCluster]
      split
      · trivial
      · exact hE _ fun _ h => by cases h
  | setClusterImage name image =>
      refine hsettle ?_
      rw [setClusterImage, changeCluster]
      split
      · trivial
      · exact hE _ fun _ h => by cases h
  | setConstraintState id state =>
      refine hsettle ?_
      rw [setConstraintState]
      split
      · trivial
      · exact hE _ fun _ h => by cases h
  | createDeploy d =>
      simp only [Store.answer, createDeploy]
      split
      · trivial
      · rename_i f he
        split at he
        · cases he
        · cases he
          exact hE _ fun _ h => by cases h
  | _ => trivial

theorem Store.isError_of_answer (s : Store) (n : Instant) (c : StoreCall) :
    FailsOnly Fault.IsError (s.answer (.ok n) c).1 :=
  s.failsOnly_of_answer (fun e _ => ⟨e, rfl⟩) n c

namespace World

variable {v : World} {s : Store} {n : Instant}

/-- A store that is there is left as its answer leaves it. -/
theorem answer_store (hs : v.store = some s) (hn : v.now = .ok n) (q : StoreCall) :
    answer (.store q) v = ((s.answer (.ok n) q).1, v.withStore (s.answer (.ok n) q).2) := by
  have herror := s.isError_of_answer n q
  simp only [answer, useStore, hs, hn]
  split
  · rename_i payload _ he
    rw [he] at herror
    obtain ⟨e, he⟩ := herror
    cases he
  · rename_i r s' _ he
    rw [he]

/-- A call that only looks leaves the tables, the provider and the clock alone. -/
theorem answer_looks {c : Call} (hc : c.isRead = true) (hs : v.store = some s)
    (hn : v.now = .ok n) : FailsOnly Fault.IsError (answer c v).1 ∧
      (answer c v).2.store = some s ∧ (answer c v).2.provider = v.provider ∧
      (answer c v).2.clock = v.clock := by
  cases c with
  | now =>
      refine ⟨?_, hs, rfl, rfl⟩
      rw [answer, hn]
      trivial
  | post n =>
      rw [answer_post_eq]
      exact ⟨trivial, hs, rfl, rfl⟩
  | store q =>
      rw [answer_store hs hn]
      have hq : (s.answer (.ok n) q).2 = s := by
        obtain ⟨a, ha⟩ : ∃ a, s.answer (.ok n) q = (.ok a, s) := Store.answer_of_isRead hc
        rw [ha]
      exact ⟨s.isError_of_answer n q, congrArg some hq, rfl, rfl⟩
  | provider q => cases q <;> first | exact ⟨trivial, hs, rfl, rfl⟩ | cases hc
  | shuffle | note => exact ⟨trivial, hs, rfl, rfl⟩
  | acquire | release => cases hc

end World

namespace Provider

/-- A termination of one host leaves the other hosts alone, and is recorded if it is accepted. -/
theorem terminateHosts_one (p : Provider) (cluster : String) (id : HostId) (drain : Bool) :
    let p' := (p.terminateHosts cluster [id] drain).2
    p' = { p with hosts := p'.hosts, terminations := p'.terminations } ∧
      (∀ host, host ≠ id → p'.hosts.get? host = p.hosts.get? host) ∧
      ∃ ts, p'.terminations = p.terminations ++ ts ∧ ∀ t ∈ ts, t.ids = [id] := by
  refine ⟨p.terminateHosts_eq cluster [id] drain, ?_⟩
  rw [terminateHosts]
  obtain hm | ⟨e, hm⟩ := p.markAll_one cluster id <;> rw [hm]
  · refine ⟨fun host hne => ?_, [⟨cluster, [id], drain⟩], ?_, by simp⟩
    · exact (p.get?_retire [id] host).trans (if_neg fun hmem => hne (List.mem_singleton.mp hmem))
    · exact congrArg (· ++ _) (p.terminations_retire [id])
  · exact ⟨fun _ _ => rfl, [], (List.append_nil _).symm, by simp⟩

end Provider

section

variable {k : ItemKind} {w v : World} {s s' : Store} {x y : Item k} {c : Call} {n : Instant}
  {raises : Fault → Prop}

/-- The world after a timeout and some of what follows it. The item is stored with the timeout.
Apart from it only clusters, but not their images, the condemned host, and what is recorded of its
termination differ from what was there before. -/
structure Aftermath (w : World) (s : Store) (x : Item k) (v : World) (s' : Store) (y : Item k) :
    Prop where
  clock : v.clock = w.clock
  store : v.store = some s'
  cleared : x.Cleared y
  tables : s' = { s.putItem k y with hosts := s'.hosts, clusters := s'.clusters }
  hosts : ∀ id, id ∉ x.condemned → s'.hosts.get? id = s.hosts.get? id
  images : ∀ name, (s'.clusters.get? name).map Cluster.imageId =
    (s.clusters.get? name).map Cluster.imageId
  provider : v.provider = { w.provider with
    hosts := v.provider.hosts
    terminations := v.provider.terminations }
  running : ∀ id, id ∉ x.condemned → v.provider.hosts.get? id = w.provider.hosts.get? id
  terminations : ∃ ts, v.provider.terminations = w.provider.terminations ++ ts ∧
    ∀ t ∈ ts, ∃ id ∈ x.condemned, t.ids = [id]

namespace Aftermath

/-- A call that leaves the tables, the provider and the clock alone. -/
theorem of_same {u : World} (h : Aftermath w s x v s' y) (hs : u.store = some s')
    (hp : u.provider = v.provider) (hc : u.clock = v.clock) : Aftermath w s x u s' y where
  __ := h
  clock := hc.trans h.clock
  store := hs
  provider := hp ▸ h.provider
  running := hp ▸ h.running
  terminations := hp ▸ h.terminations

/-- The item is stored again. -/
theorem put {z : Item k} (h : Aftermath w s x v s' y) (hz : x.Cleared z) :
    Aftermath w s x (v.withStore (s'.putItem k z)) (s'.putItem k z) z where
  __ := h
  store := rfl
  cleared := hz
  tables := by
    have hput : (s.putItem k y).putItem k z = s.putItem k z :=
      s.putItem_putItem (hz.id_eq.trans h.cleared.id_eq.symm)
    rw [← hput, h.tables]
    cases k <;> rfl
  hosts := by
    have hsame : (s'.putItem k z).hosts = s'.hosts := by cases k <;> rfl
    rw [hsame]
    exact h.hosts
  images := by
    have hsame : (s'.putItem k z).clusters = s'.clusters := by cases k <;> rfl
    rw [hsame]
    exact h.images

/-- Hosts that may go change. -/
theorem mark {state : HostState} {ids : List HostId} (h : Aftermath w s x v s' y)
    (hids : ∀ id ∈ ids, id ∈ x.condemned) :
    Aftermath w s x (v.withStore (s'.setHostState n ids state)) (s'.setHostState n ids state) y where
  __ := h
  store := rfl
  tables := by
    rw [Store.setHostState, h.tables]
  hosts id hid := by
    rw [Store.get?_setHostState, if_neg fun hmem => hid (hids id hmem)]
    exact h.hosts id hid

/-- A cluster changes, but not its image. -/
theorem modify {name : String} {change : Cluster → Cluster} (h : Aftermath w s x v s' y)
    (hchange : ∀ a, (change a).imageId = a.imageId) :
    let s'' := { s' with clusters := s'.clusters.modify name change }
    Aftermath w s x (v.withStore s'') s'' y where
  __ := h
  store := rfl
  tables := by
    rw [h.tables]
  images other := by
    have hsame : ((s'.clusters.modify name change).get? other).map Cluster.imageId =
        (s'.clusters.get? other).map Cluster.imageId := by
      rw [Table.get?_modify]
      split
      · rw [Option.map_map]
        exact congrArg (Option.map · _) (funext hchange)
      · rfl
    exact hsame.trans (h.images other)

/-- A condemned host is terminated. -/
theorem terminate {id : HostId} (h : Aftermath w s x v s' y) (hid : id ∈ x.condemned)
    (cluster : String) : Aftermath w s x
      { v with provider := (v.provider.terminateHosts cluster [id] false).2 } s' y := by
  obtain ⟨hp, hothers, ts, hts, hone⟩ := v.provider.terminateHosts_one cluster id false
  obtain ⟨ts', hts', hone'⟩ := h.terminations
  exact { h with
    provider := by
      have hbefore := h.provider
      generalize (v.provider.terminateHosts cluster [id] false).2 = p at hp
      rw [hp, hbefore]
    running := fun host hhost => by
      have hne : host ≠ id := fun he => hhost (he ▸ hid)
      exact (hothers host hne).trans (h.running host hhost)
    terminations := by
      refine ⟨ts' ++ ts, by rw [← List.append_assoc, ← hts', hts], fun t ht => ?_⟩
      rcases List.mem_append.mp ht with ht | ht
      · exact hone' t ht
      · exact ⟨id, hid, hone t ht⟩ }

/-- What may follow a timeout leaves such a world, and fails with errors only. -/
theorem answer (h : Aftermath w s x v s' y) (hn : w.now = .ok n) (hc : x.Clears c) :
    FailsOnly Fault.IsError (World.answer c v).1 ∧
      ∃ s'' y', Aftermath w s x (World.answer c v).2 s'' y' := by
  have hv : v.now = .ok n := by
    rw [World.now, h.clock]
    exact hn
  cases hc with
  | looks hc =>
      obtain ⟨herror, hstore, hprovider, hclock⟩ := World.answer_looks hc h.store hv
      exact ⟨herror, s', y, h.of_same hstore hprovider hclock⟩
  | @stores z hz =>
      rw [World.answer_store h.store hv]
      refine ⟨s'.isError_of_answer n _, ?_⟩
      simp only [Store.answer]
      cases hu : s'.updateItem k z with
      | error e => exact ⟨s', y, h.of_same rfl rfl rfl⟩
      | ok t =>
          obtain rfl := (Store.updateItem_eq_ok_iff.mp hu).2
          exact ⟨_, z, h.put hz⟩
  | resumes =>
      rw [World.answer_store h.store hv]
      refine ⟨s'.isError_of_answer n _, ?_⟩
      simp only [Store.answer, Store.setClusterState, Store.changeCluster]
      split
      · exact ⟨_, y, h.modify fun _ => rfl⟩
      · exact ⟨s', y, h.of_same rfl rfl rfl⟩
  | marks hid =>
      rw [World.answer_store h.store hv]
      refine ⟨s'.isError_of_answer n _, _, y, h.mark ?_⟩
      rintro _ hmem
      rw [List.mem_singleton.mp hmem]
      exact hid
  | @terminates id hid =>
      refine ⟨?_, s', y, ?_⟩
      · simp only [World.answer, Provider.answer]
        cases (v.provider.terminateHosts x.cluster [id] false).1 with
        | ok u => trivial
        | error e => exact ⟨e, rfl⟩
      · exact h.terminate hid _

/-- What was stored with the timeout. -/
theorem start (w : World) (s : Store) (x : Item k) :
    Aftermath w s x (w.withStore (s.putItem k x)) (s.putItem k x) x where
  clock := rfl
  store := rfl
  cleared := .refl x
  tables := rfl
  hosts id _ := by cases k <;> rfl
  images name := by cases k <;> rfl
  provider := rfl
  running _ _ := rfl
  terminations := ⟨[], (List.append_nil _).symm, by simp⟩

/-- What follows a timeout leaves such a world, whichever calls fail with errors. -/
theorem follows {α : Type} {p : Program α} {j : Journal World} (hn : w.now = .ok n)
    (hraises : ∀ f, raises f → f.IsError) (hp : p.Within x.Clears Fault.IsError)
    (h : Aftermath w s x j.state s' y) (hlog : ∀ e ∈ j.log, x.Clears e.call) :
    p.Keeps (World.Possible Eq raises).recorded (fun _ _ => True) (fun r j' =>
      FailsOnly Fault.IsError r ∧ (∃ s'' y', Aftermath w s x j'.state s'' y') ∧
        ∀ e ∈ j'.log, x.Clears e.call) j := by
  refine (Meets.keeps (J := fun j' => (∃ s'' y', Aftermath w s x j'.state s'' y') ∧
    ∀ e ∈ j'.log, x.Clears e.call) hp ?_ ⟨⟨s', y, h⟩, hlog⟩).imp fun r j' hq => ⟨hq.2.2, hq.1⟩
  rintro c j₁ r _ hc ⟨⟨s₁, y₁, h₁⟩, hlog₁⟩ ⟨v, hb, rfl⟩
  obtain ⟨herror, hafter⟩ := h₁.answer hn hc
  have hlog' : ∀ e ∈ (j₁.enter c r v).log, x.Clears e.call := by
    intro e he
    obtain rfl | he := List.mem_cons.mp he
    · exact hc
    · exact hlog₁ e he
  obtain ⟨_, rfl, hb | ⟨f, hf, rfl, rfl | rfl⟩⟩ := hb
  · rw [hb] at herror hafter
    exact ⟨trivial, ⟨hafter, hlog'⟩, herror⟩
  · exact ⟨trivial, ⟨⟨s₁, y₁, h₁⟩, hlog'⟩, hraises f hf⟩
  · exact ⟨trivial, ⟨hafter, hlog'⟩, hraises f hf⟩

end Aftermath

end

/-! ## The tick of an overdue item -/

namespace Program

variable {α : Type} {raises : Fault → Prop} {j j' : Journal World} {r : Outcome α}

/-- A call that got its reply was answered. -/
theorem Ends.of_replied {c : Call} {f : c.Reply → Program α}
    (he : ((perform c).bind f).Ends (World.Possible Eq raises).recorded j r j')
    (hok : ∀ q v, (j.enter c q v).log <:+ j'.log → q.isOk = true) :
    ∃ a v, World.answer c j.state = (.ok a, v) ∧
      (f a).Ends (World.Possible Eq raises).recorded (j.enter c (.ok a) v) r j' := by
  obtain - | ⟨hb, hrest⟩ := he
  obtain ⟨v, hb, rfl⟩ := hb
  rename_i q
  have hq : q.isOk = true := hok q v hrest.suffix
  cases q with
  | error e => cases hq
  | ok a =>
      obtain ⟨_, rfl, hb | ⟨f, -, hr, -⟩⟩ := hb
      · exact ⟨a, v, hb, hrest⟩
      · cases hr

end Program

/-- An entry with few before it is among the first ones. -/
theorem mem_take_of_suffix {σ : Type} {e : Entry σ} {past log : List (Entry σ)} {n : Nat}
    (h : e :: past <:+ log) (hn : past.length < n) : e ∈ log.reverse.take n := by
  obtain ⟨later, rfl⟩ := h
  rw [List.reverse_append, List.reverse_cons, List.append_assoc, List.take_append]
  refine List.mem_append_right _ ?_
  rw [List.length_reverse]
  obtain ⟨m, hm⟩ : ∃ m, n - past.length = m + 1 := ⟨n - past.length - 1, by omega⟩
  rw [hm]
  exact List.mem_cons_self

section

variable {config : Config} {k : ItemKind} {w : World} {s : Store} {i : Item k} {now n : Instant}
  {raises : Fault → Prop} {r : Outcome (Progress k.State)} {j : Journal World}

/-- An item that is not done, in a cluster that nobody holds. -/
structure Workable (w : World) (s : Store) (i : Item k) : Prop where
  store : w.store = some s
  stored : s.getItem k i.id = some i
  unfinished : i.state ≠ k.terminal
  normal : ∃ cluster, s.clusters.get? i.cluster = some cluster ∧ cluster.state = .normal

/-- The item as it is stored with its timeout. -/
def Item.timedOut (config : Config) (i : Item k) (now : Instant) : Item k :=
  i.afterTimeout now ((config.lifecycle k).timeoutTarget i.state)
    ((config.lifecycle k).timeoutMessage i)

theorem isPaused_lifecycle (config : Config) (i : Item k) :
    (config.lifecycle k).isPaused i = clusterIsPaused i.cluster := by
  cases k <;> rfl

theorem timeout_lifecycle (config : Config) (k : ItemKind) :
    (config.lifecycle k).timeout = Span.ofSetting (config.timeoutSecs k) := by
  cases k <;> rfl

theorem timeoutBasis_lifecycle (config : Config) (i : Item k) :
    (config.lifecycle k).timeoutBasis i = i.idleSince := by
  cases k <;> rfl

/-- A tick of an overdue item whose first three calls get their replies says that it has timed
out. -/
theorem Workable.times_out (h : Workable w s i) (hn : w.now = .ok n)
    (hraises : ∀ f, raises f → f.IsError)
    (hpage : k = .check → config.healthCheck.failuresBeforePage ≤ 0x8000000000000000)
    (hlimit : (config.timeoutSecs k : Int) ≤ Span.maxSeconds)
    (hlate : (⟨config.timeoutSecs k * nanosPerSecond⟩ : Span) < now.since i.idleSince)
    (he : ((config.lifecycle k).advance i.id now).Ends (World.Possible Eq raises).recorded
      (.start w) r j)
    (hok : ∀ e ∈ j.log.reverse.take 3, e.reply.isOk = true) :
    r = .ok (.timedOut i.state ((config.lifecycle k).timeoutTarget i.state)) ∧
      (∃ s' y, Aftermath w s (i.timedOut config now) j.state s' y) ∧
      ∀ e ∈ j.log, (i.timedOut config now).Clears e.call := by
  obtain ⟨cluster, hcluster, hnormal⟩ := h.normal
  have hreplied : ∀ {e : Entry World} {past : List (Entry World)}, e :: past <:+ j.log →
      past.length < 3 → e.reply.isOk = true := fun hlog hlen => hok _ (mem_take_of_suffix hlog hlen)
  rw [Lifecycle.advance_eq] at he
  obtain ⟨a, v, ha, he⟩ := he.of_replied fun _ _ hlog => hreplied hlog (by decide : 0 < 3)
  cases (World.answer_ask h.store (by rw [Store.answer, h.stored])).symm.trans ha
  simp only [Lifecycle.work, Item.isTerminal_iff, if_neg h.unfinished, isPaused_lifecycle,
    clusterIsPaused, requireCluster, bind_eq, pure_eq, Program.bind_assoc] at he
  obtain ⟨a, v, ha, he⟩ := he.of_replied fun _ _ hlog => hreplied hlog (by decide : 1 < 3)
  cases (World.answer_ask (a := some cluster) h.store
    (by rw [Store.answer, hcluster])).symm.trans ha
  simp only [orFail, Program.bind, hnormal, timeout_lifecycle, Span.ofSetting_of_le hlimit,
    ofOutcome, timeoutBasis_lifecycle, if_pos hlate, Lifecycle.timeOut, bind_eq, pure_eq] at he
  rw [if_neg (by decide)] at he
  obtain ⟨u, v, ha, he⟩ := he.of_replied fun _ _ hlog => hreplied hlog (by decide : 2 < 3)
  obtain rfl := World.eq_of_update h.store ha
  -- the timeout is stored, and what follows it cannot take that back
  let j₂ := ((Journal.start w).enter (.store (.getItem k i.id)) (.ok (some i)) w).enter
    (.store (.getCluster i.cluster)) (.ok (some cluster)) w
  let j₃ := j₂.enter (.store (.updateItem k (i.timedOut config now))) (.ok u)
    (w.withStore (s.putItem k (i.timedOut config now)))
  have hlog : ∀ e ∈ j₃.log, (i.timedOut config now).Clears e.call := by
    simp only [j₃, j₂, Journal.enter, Journal.start, List.mem_cons, List.not_mem_nil, or_false]
    rintro e (rfl | rfl | rfl)
    · exact .stores (.refl _)
    · exact .looks rfl
    · exact .looks rfl
  have hfollows := (Aftermath.start w s (i.timedOut config now)).follows (j := j₃) hn hraises
    (within_clears config hpage (i.timedOut config now) i.state) hlog
  obtain ⟨f, hf, rfl⟩ | ⟨outcome, j₁, hf, hdone⟩ := he.of_bind
  · obtain ⟨q, hq, hattempt⟩ := hf.of_attempt
    obtain ⟨herror, -⟩ := hfollows.ends hq
    cases q with
    | ok u => cases hattempt
    | error g =>
        obtain ⟨e, rfl⟩ := herror
        cases hattempt
  · obtain ⟨q, hq, -⟩ := hf.of_attempt
    cases hdone
    exact ⟨rfl, (hfollows.ends hq).2⟩

end

/-! ## The tick of an item in time -/

section

variable {config : Config} {k : ItemKind} {w : World} {s : Store} {i y : Item k} {now : Instant}
  {raises : Fault → Prop} {r : Outcome (Progress k.State)} {j : Journal World}

/-- Whether a version says that the item has timed out only if it said so before. -/
def Item.Timely (i y : Item k) : Prop :=
  y.header.status = some .timeout → i.header.status = some .timeout

theorem Item.timely_of_status (h : y.header.status = i.header.status) : i.Timely y :=
  fun hy => h.symm.trans hy

theorem Replacement.meets_step_timely (config : ReplacementSettings) (event : UpgradeEvent)
    (now : Instant) (hs : event.state ≠ UpgradeState.completed) :
    ((lifecycle config).step event now).Meets (Call.Stores event.Timely) (fun _ => True)
      fun result => event.Timely (result.1.afterStep now result.2) := by
  refine Meets.mono (meets_step (fun _ _ => trivial) config event fun hc => absurd hc hs)
    (fun c hc => (stores_of_actsOrStores hs hc).mono fun y hy => ?_) ?_
  · obtain ⟨ids, rfl⟩ := hy.retracks
    exact Item.timely_of_status rfl
  · rintro ⟨changed, d⟩ ⟨⟨ids, rfl⟩, hd⟩
    generalize (event.state : UpgradeState) = state at hd
    cases hd with
    | wait | finished => exact Item.timely_of_status rfl
    | _ => exact fun h => by cases h

theorem ImageCheck.meets_step_timely (config : ImageCheckSettings) (check : HealthCheck)
    (now : Instant) (hs : check.state ≠ HealthCheckState.completed) :
    ((lifecycle config).step check now).Meets (Call.Stores check.Timely) (fun _ => True)
      fun result => check.Timely (result.1.afterStep now result.2) := by
  refine Meets.mono (meets_step (fun _ _ => trivial) config check now (fun hc => absurd hc hs)
    fun _ _ _ => trivial) (fun _ => stores_of_stepActs) ?_
  rintro ⟨changed, d⟩ h
  have hstatus := congrArg ItemHeader.status h.identity.1
  generalize (check.state : HealthCheckState) = state at h
  cases h with
  | wait | finished | unneeded => exact Item.timely_of_status hstatus
  | _ => exact fun h => by cases h

theorem meets_step_timely (config : Config) (i : Item k) (now : Instant)
    (hi : i.state ≠ k.terminal) :
    ((config.lifecycle k).step i now).Meets (Call.Stores i.Timely) (fun _ => True)
      fun result => i.Timely (result.1.afterStep now result.2) := by
  cases k with
  | upgrade => exact Replacement.meets_step_timely _ i now hi
  | check => exact ImageCheck.meets_step_timely _ i now hi

/-- Working on an item in time stores nothing that says otherwise. -/
theorem meets_work_timely (config : Config) (i : Item k) (now : Instant)
    (hlimit : (config.timeoutSecs k : Int) ≤ Span.maxSeconds)
    (htimely : ¬(⟨config.timeoutSecs k * nanosPerSecond⟩ : Span) < now.since i.idleSince) :
    ((config.lifecycle k).work i now).Meets (Call.Stores i.Timely) (fun _ => True)
      fun p => ∀ source target, p ≠ .timedOut source target := by
  rw [Lifecycle.work]
  split
  · intro source target hp
    cases hp
  · rename_i hterminal
    have hi : i.state ≠ k.terminal := fun he => hterminal (Item.isTerminal_iff.mpr he)
    rw [isPaused_lifecycle]
    refine .seq (only_clusterIsPaused (fun _ => Call.stores_of_isRead) _) fun paused => ?_
    split
    · refine .seq (within_update (Item.timely_of_status rfl)) fun _ => ?_
      intro source target hp
      cases hp
    · rw [timeout_lifecycle, Span.ofSetting_of_le hlimit, timeoutBasis_lifecycle]
      simp only [ofOutcome, Program.bind, if_neg htimely]
      refine .bind (meets_step_timely config i now hi) ?_
      rintro ⟨changed, d⟩ hresult
      refine .seq (within_update hresult) fun _ => ?_
      cases d <;> intro source target hp <;> cases hp

/-- A tick of an item in time neither says nor stores that it has timed out. -/
theorem Workable.stays_timely (h : Workable w s i)
    (hlimit : (config.timeoutSecs k : Int) ≤ Span.maxSeconds)
    (htimely : ¬(⟨config.timeoutSecs k * nanosPerSecond⟩ : Span) < now.since i.idleSince)
    (he : ((config.lifecycle k).advance i.id now).Ends (World.Possible Eq raises).recorded
      (.start w) r j) :
    (∀ source target, r ≠ .ok (.timedOut source target)) ∧
      ∀ e ∈ j.log, e.call.Stores i.Timely := by
  refine Keeps.ends (G := fun _ _ => True) (Q := fun r j => (∀ source target,
    r ≠ .ok (.timedOut source target)) ∧ ∀ e ∈ j.log, e.call.Stores i.Timely) ?_ he
  rw [Lifecycle.advance_eq, keeps_bind]
  rw [keeps_ask]
  rintro q j₁ ⟨v, hb, hj⟩
  refine ⟨trivial, ?_⟩
  have hlog : ∀ e ∈ j₁.log, e.call.Stores i.Timely := by
    rw [hj]
    intro e he
    obtain rfl := List.mem_singleton.mp he
    exact Call.stores_of_isRead rfl
  obtain ⟨_, rfl, hb | ⟨f, -, rfl, -⟩⟩ := hb
  · cases (World.answer_ask h.store (by rw [Store.answer, h.stored])).symm.trans hb
    refine (Meets.keeps (J := fun j => ∀ e ∈ j.log, e.call.Stores i.Timely)
      (meets_work_timely config i now hlimit htimely) ?_ hlog).imp ?_
    · rintro c j₂ q _ hc hlog₂ ⟨v, -, rfl⟩
      refine ⟨trivial, fun e he => ?_, by cases q <;> trivial⟩
      obtain rfl | he := List.mem_cons.mp he
      · exact hc
      · exact hlog₂ e he
    · rintro r j₂ ⟨hlog₂, hp, -⟩
      refine ⟨?_, hlog₂⟩
      rintro source target rfl
      exact hp _ rfl source target rfl
  · refine ⟨fun source target hr => ?_, hlog⟩
    cases hr

end

/-! ## Ticks that fail -/

section

variable {config : Config} {id : ItemId} {outside : World → World → Prop}
  {raises : Fault → Prop} {w v : World} {since basis : Instant} {event : UpgradeEvent}

/-- Ticks of an event in a row that end with an error or find its cluster paused, whatever others
do in the meantime. What is kept is the instant of the last pause. -/
inductive Stalls (config : Config) (id : ItemId) (outside : World → World → Prop)
    (raises : Fault → Prop) (w : World) (since : Instant) : World → Instant → Prop where
  | start : Stalls config id outside raises w since w since
  | others {v v' : World} {basis : Instant} (past : Stalls config id outside raises w since v basis)
      (h : outside v v') : Stalls config id outside raises w since v' basis
  | failed {v v' : World} {basis now : Instant} {e : ControlError}
      (past : Stalls config id outside raises w since v basis)
      (tick : ((config.lifecycle .upgrade).advance id now).Ends
        (World.Transactional outside raises) v (.error (.error e)) v') :
      Stalls config id outside raises w since v' basis
  | paused {v v' : World} {basis now : Instant}
      (past : Stalls config id outside raises w since v basis)
      (tick : ((config.lifecycle .upgrade).advance id now).Ends
        (World.Transactional outside raises) v (.ok .paused) v') :
      Stalls config id outside raises w since v' now

/-- Ticks that fail change nothing of the event but its hosts, and pauses refresh its heartbeat. -/
theorem Stalls.shows (h : Stalls config id outside raises w event.header.lastWorkedOn v basis)
    (ho : ∀ u v (x : UpgradeEvent), outside u v → World.Shows id u x → World.Shows id v x)
    (hw : World.Shows id w event) : ∃ ids, World.Shows id v { event.withHostIds ids with
      header := { event.header with lastWorkedOn := basis } } := by
  have hreports := reports_lifecycle config .upgrade
  induction h with
  | start => exact ⟨event.hostIds, hw⟩
  | others _ h ih =>
      obtain ⟨ids, hids⟩ := ih
      exact ⟨ids, ho _ _ _ h hids⟩
  | failed _ tick ih =>
      obtain ⟨ids, hids⟩ := ih
      obtain ⟨t, ht, ids', rfl⟩ := (hreports.keeps_advance _).shown ho tick hids
      exact ⟨ids', ht⟩
  | paused _ tick ih =>
      obtain ⟨ids, hids⟩ := ih
      obtain ⟨t, ht, rfl⟩ := (hreports.keeps_advance _).shown ho tick hids
      exact ⟨ids, ht⟩

/-- What is stored at the end is what the timeout made of the item. -/
theorem Aftermath.stored {k : ItemKind} {s s' : Store} {x y : Item k}
    (h : Aftermath w s x v s' y) : s'.getItem k x.id = some y := by
  have hput : s'.getItem k x.id = (s.putItem k y).getItem k x.id := by
    rw [h.tables]
    cases k <;> rfl
  rw [hput, Store.getItem_putItem, if_pos h.cleared.id_eq.symm]

end

/-- Ticks of an item in a cluster that nobody holds, whichever calls fail with errors. If the item
has been without progress for longer than its limit, and it and its cluster can be read and it can
be stored, the tick says that it has timed out and stores that, whatever fails after it; the rest
of the world is left alone but for the host of a check that is never stepped again. If not, the
tick neither says nor stores that the item has timed out. So an event whose steps keep failing,
whose cluster may have been held in the meantime, times out at the first tick that comes late
enough after its last progress or pause. -/
theorem overdue_items_time_out (config : Config) {raises : Fault → Prop}
    (hraises : ∀ f, raises f → f.IsError)
    (hset : ∀ k, (config.timeoutSecs k : Int) ≤ 9223372036854775) :
    let limit (k : ItemKind) : Span := ⟨config.timeoutSecs k * nanosPerSecond⟩
    let timedOut {k : ItemKind} (i : Item k) (now : Instant) : Item k := { i with
      state := (config.lifecycle k).timeoutTarget i.state
      header := { i.header with
        status := some .timeout
        errorMessage := some ((config.lifecycle k).timeoutMessage i)
        stateStartTime := now
        lastWorkedOn := now } }
    (∀ {k : ItemKind} {w : World} {s : Store} {i : Item k} {now : Instant}
        {r : Outcome (Progress k.State)} {j : Journal World}, Workable w s i →
      ((config.lifecycle k).advance i.id now).Ends (World.Possible Eq raises).recorded
        (.start w) r j →
      (limit k < now.since i.idleSince → (∃ n, w.now = .ok n) →
        (k = .check → config.healthCheck.failuresBeforePage ≤ 0x8000000000000000) →
        (∀ e ∈ j.log.reverse.take 3, e.reply.isOk = true) →
        r = .ok (.timedOut i.state ((config.lifecycle k).timeoutTarget i.state)) ∧
        (∀ e ∈ j.log, (timedOut i now).Clears e.call) ∧
        ∃ s' y, s'.getItem k i.id = some y ∧ Aftermath w s (timedOut i now) j.state s' y) ∧
      (¬limit k < now.since i.idleSince →
        (∀ source target, r ≠ .ok (.timedOut source target)) ∧
        ∀ e ∈ j.log, ∀ y : Item k, e.call = .store (.updateItem k y) →
          y.header.status = some .timeout → i.header.status = some .timeout)) ∧
    ∀ {outside : World → World → Prop} {event : UpgradeEvent} {w v : World} {basis : Instant},
      (∀ u v (x : UpgradeEvent), outside u v → World.Shows event.id u x →
        World.Shows event.id v x) →
      World.Shows event.id w event → event.state ≠ UpgradeState.completed →
      Stalls config event.id outside raises w event.header.lastWorkedOn v basis →
      ∀ {s : Store} {cluster : Cluster} {now n : Instant} {r : Outcome (Progress UpgradeState)}
        {j : Journal World}, v.store = some s → s.clusters.get? event.cluster = some cluster →
      cluster.state = .normal → v.now = .ok n → limit .upgrade < now.since basis →
      ((config.lifecycle .upgrade).advance event.id now).Ends (World.Possible Eq raises).recorded
        (.start v) r j →
      (∀ e ∈ j.log.reverse.take 3, e.reply.isOk = true) →
      r = .ok (.timedOut event.state (Replacement.timeoutTarget event.state)) ∧
      ∃ s' ids, j.state.store = some s' ∧
        s'.getItem .upgrade event.id = some (timedOut (event.withHostIds ids) now) := by
  refine ⟨fun h he => ⟨fun hlate ⟨n, hn⟩ hpage hok => ?_, fun htimely => ?_⟩, ?_⟩
  · obtain ⟨hr, ⟨s', y, hafter⟩, hlog⟩ := h.times_out hn hraises hpage (hset _) hlate he hok
    exact ⟨hr, hlog, s', y, hafter.stored, hafter⟩
  · obtain ⟨hr, hlog⟩ := h.stays_timely (hset _) htimely he
    exact ⟨hr, fun e hmem y => hlog e hmem y⟩
  · intro outside event w v basis ho hw hopen hstalls s cluster now n r j hs hcluster hnormal hn
      hlate he hok
    obtain ⟨ids, hids⟩ := hstalls.shows ho hw
    have hwork : Workable v s { event.withHostIds ids with
        header := { event.header with lastWorkedOn := basis } } :=
      ⟨hs, (hids s hs).2, hopen, cluster, hcluster, hnormal⟩
    obtain ⟨hr, ⟨s', y, hafter⟩, -⟩ := hwork.times_out hn hraises nofun (hset _) hlate he hok
    obtain rfl := hafter.cleared
    exact ⟨hr, s', ids, hafter.store, hafter.stored⟩

/-! ## Ticks that come too late -/

/-- A check with a probe host in a state. -/
def probedCheck (state : HealthCheckState) : HealthCheck :=
  let check := HealthCheck.new "check" "web" "prod" .manuallyTriggered "image" .epoch
  { check with
    state := state
    details := { check.details with hostId := some "p" } }

/-- The check and its probe host. -/
def probedPool (state : HealthCheckState) : World :=
  let cluster : Cluster := ⟨"web", "prod", .normal, none, 0, ⟨[], [], none⟩, .epoch⟩
  let store := (Store.empty.putItem .check (probedCheck state)).insertHost
    ⟨"p", "web", .running, false, .epoch, .epoch⟩
  { World.initial .epoch (.seeded 0) with
    store := some { store with clusters := Table.empty.insert cluster.name cluster }
    provider := Provider.empty.addHost "web" "p" }

theorem workable_probedPool (state : HealthCheckState) (h : state ≠ .completed) :
    Workable (probedPool state) (probedPool state).tables (probedCheck state) :=
  ⟨rfl, rfl, h, _, rfl, rfl⟩

/-- More than half an hour after the beginning. -/
def tooLate : Instant := .ofMillis 1801000

/-- The probe host of a check in INIT is terminated when the check times out. -/
theorem probe_terminated_in_init :
    Workable (probedPool .init) (probedPool .init).tables (probedCheck .init) ∧
    (⟨Config.timeoutSecs {} .check * nanosPerSecond⟩ : Span) <
      tooLate.since (probedCheck .init).idleSince ∧
    ∃ r j, ((Config.lifecycle {} .check).advance (probedCheck .init).id tooLate).Ends
        (World.Possible Eq fun _ => False).flawless.recorded (.start (probedPool .init)) r j ∧
      r = .ok (.timedOut .init .completed) ∧
      (probedPool .init).provider.isTerminated "p" = false ∧
      j.state.provider.isTerminated "p" = true := by
  refine ⟨workable_probedPool .init (by decide), by decide, _, _,
    ends_smooth (fun _ => False) (by decide +kernel), ?_, by decide +kernel, by decide +kernel⟩
  decide +kernel

/-- The provider says nothing. -/
def silent : Call → Option Fault
  | .provider _ => some (.error (.fleet "no answer"))
  | _ => none

/-- A tick of the event with launched hosts in which the provider says nothing. -/
def tickSilent : Outcome (Progress UpgradeState) × World :=
  let answer : Handler World := fun c w =>
    match silent c with
    | some f => (.error f, w)
    | none => World.answer c w
  ((Config.lifecycle {} .upgrade).advance "event" .epoch).run answer Replacement.launchedPool

theorem ends_tickSilent : ((Config.lifecycle {} .upgrade).advance "event" .epoch).Ends
    (World.Transactional Eq Fault.IsError) Replacement.launchedPool tickSilent.1
    tickSilent.2 := by
  refine ends_handler (fun c w => ⟨w, rfl, ?_⟩) _ _
  unfold silent
  cases c with
  | provider q => exact .inr ⟨_, ⟨_, rfl⟩, rfl, .inl rfl⟩
  | _ => exact .inl rfl

/-- Every call fails from the fourth on. -/
def disrupted (log : List (Entry World)) (_ : Call) : Option Fault :=
  if 3 ≤ log.length then some (.error (.database "connection lost")) else none

theorem ends_disrupted {α : Type} (p : Program α) (w : World) :
    p.Ends (World.Possible Eq Fault.IsError).recorded (.start w)
      (p.run (failing disrupted) (.start w)).1 (p.run (failing disrupted) (.start w)).2 := by
  refine ends_failing (I := fun _ => True) (fun _ _ => rfl) (fun _ _ _ => trivial) ?_ p trivial
  intro log c f hf
  unfold disrupted at hf
  split at hf <;> cases hf
  exact ⟨_, rfl⟩

/-- A check in COMPLETING and an event in LAUNCHING, of which a tick has failed, time out in late
ticks of which all calls fail that come after the timeout, and in time the check does not. -/
theorem overdue_items_time_out_disrupted :
    (∃ s' y, Aftermath (probedPool .completing) (probedPool .completing).tables
        { probedCheck .completing with
          state := HealthCheckState.completed
          header := { (probedCheck .completing).header with
            status := some .timeout
            errorMessage := some "Health check timeout at state COMPLETING"
            stateStartTime := tooLate
            lastWorkedOn := tooLate } }
        (((Config.lifecycle {} .check).advance "check" tooLate).run (failing disrupted)
          (.start (probedPool .completing))).2.state s' y) ∧
    (∀ source target, (((Config.lifecycle {} .check).advance "check" .epoch).run
      (failing disrupted) (.start (probedPool .completing))).1 ≠ .ok (.timedOut source target)) ∧
    tickSilent.1 = .error (.error (.fleet "no answer")) ∧
    (((Config.lifecycle {} .upgrade).advance "event" tooLate).run (failing disrupted)
      (.start tickSilent.2)).1 = .ok (.timedOut .launching .completing) := by
  have hraises : ∀ f, Fault.IsError f → f.IsError := fun _ hf => hf
  have hset : ∀ k, (Config.timeoutSecs {} k : Int) ≤ 9223372036854775 := by
    intro k
    cases k <;> decide
  obtain ⟨hitem, hevent⟩ := overdue_items_time_out {} hraises hset
  have hwork := workable_probedPool .completing (by decide)
  refine ⟨?_, ?_, by decide +kernel, ?_⟩
  · have he := ends_disrupted ((Config.lifecycle {} .check).advance "check" tooLate)
    obtain ⟨hlate, -⟩ := hitem hwork (he _)
    obtain ⟨-, -, s', y, -, hafter⟩ := hlate (by decide) ⟨_, rfl⟩ (fun _ => by decide)
      (List.all_eq_true.mp (by decide +kernel))
    exact ⟨s', y, hafter⟩
  · have he := ends_disrupted ((Config.lifecycle {} .check).advance "check" .epoch)
    obtain ⟨-, htimely⟩ := hitem hwork (he _)
    exact (htimely (by decide)).1
  · let event := Replacement.vettingEvent
    have hshows : World.Shows event.id Replacement.launchedPool event := by
      rintro s hs
      cases hs
      exact ⟨Replacement.keyed_launchedPool.items .upgrade, rfl⟩
    have hothers : ∀ (u v : World) (x : UpgradeEvent), u = v → World.Shows event.id u x →
        World.Shows event.id v x := by
      rintro u _ x rfl hx
      exact hx
    have htick := ends_tickSilent
    have herror : tickSilent.1 = .error (.error (.fleet "no answer")) := by decide +kernel
    rw [herror] at htick
    have hstalls : Stalls {} event.id Eq Fault.IsError Replacement.launchedPool .epoch
        tickSilent.2 .epoch := .failed .start htick
    have hsame : tickSilent.2 = Replacement.launchedPool := rfl
    rw [hsame] at hstalls ⊢
    have he := ends_disrupted ((Config.lifecycle {} .upgrade).advance event.id tooLate)
    exact (hevent hothers hshows (by decide) hstalls rfl rfl rfl rfl (by decide) (he _)
      (List.all_eq_true.mp (by decide +kernel))).1

end FleetControl
