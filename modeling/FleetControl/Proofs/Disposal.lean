import FleetControl.Proofs.Attachment
import FleetControl.Proofs.Tracking

/-!
# What becomes of temporary hosts

Ticks of an event, any number of them, whatever fails on the way and whatever the others do
meanwhile, as long as they do not write the event. A host that some version tracked is tracked
to the end, unless it was attached to the pool, was terminated, or was not reported running.
An event ends with no host at all, unless it ended while the pool lacked serving capacity or by
a timeout in COMPLETING: then it keeps those that were left.
-/
namespace FleetControl

open Program

/-- The version of an event that the store holds. -/
def World.Holds (id : ItemId) (w : World) (y : UpgradeEvent) : Prop :=
  ∃ s, w.store = some s ∧ s.getItem .upgrade id = some y

theorem World.Shows.eq_of_holds {id : ItemId} {w : World} {x y : UpgradeEvent}
    (h : World.Shows id w x) (hy : World.Holds id w y) : x = y := by
  obtain ⟨s, hs, hget⟩ := hy
  exact Option.some.inj ((h s hs).2.symm.trans hget)

namespace Replacement

variable {raises : Fault → Prop} {id : ItemId} {event x y : UpgradeEvent} {w w' : World}
  {log : List (Entry World)} {logs : List (List (Entry World))} {host : HostId}

/-- Whether a version that a call left in the store tracks a host. -/
def Seen (id : ItemId) (log : List (Entry World)) (host : HostId) : Prop :=
  ∃ e ∈ log, ∃ y, World.Holds id e.after y ∧ host ∈ y.hostIds

/-- A version that was stored in a tick. If it is in COMPLETED with hosts, the pool lacked
serving capacity or the event had timed out. -/
def Closed (log : List (Entry World)) (y : UpgradeEvent) : Prop :=
  (∃ e ∈ log, e.call = .store (.updateItem .upgrade y)) ∧
    (y.state = UpgradeState.completed → y.hostIds = .empty ∨ Scarce log ∨ GivenUp y)

theorem Scarce.mono {past : List (Entry World)} (h : Scarce past) (hp : past ⊆ log) :
    Scarce log := by
  obtain ⟨count, size, ⟨e, he, hcount⟩, ⟨e', he', hsize⟩, hle⟩ := h
  exact ⟨count, size, ⟨e, hp he, hcount⟩, ⟨e', hp he', hsize⟩, hle⟩

theorem Closed.cons (h : Closed log y) (e : Entry World) : Closed (e :: log) y := by
  obtain ⟨⟨a, ha, hc⟩, hended⟩ := h
  refine ⟨⟨a, List.mem_cons_of_mem _ ha, hc⟩, fun hy => (hended hy).imp_right ?_⟩
  exact Or.imp_left fun hs => hs.mono (List.subset_cons_self _ _)

/-- Where a tick that has read `y` stands: the version that is stored now accounts for all that
were stored on the way. -/
structure Stands (id : ItemId) (y : UpgradeEvent) (log : List (Entry World)) (w : World)
    (x : UpgradeEvent) : Prop where
  shows : World.Shows id w x
  stored : x = y ∨ Closed log x
  kept : ∀ host, host ∈ y.hostIds ∨ Seen id log host → host ∈ x.hostIds ∨ Parted log host

/-- A version that is stored last is tracked last, and so is whatever it tracks. -/
theorem Stands.seen_cons {c : Call} {r : Outcome c.Reply} (hx : World.Shows id w' x)
    (h : host ∈ y.hostIds ∨ Seen id (⟨w, c, r, w'⟩ :: log) host) :
    host ∈ x.hostIds ∨ host ∈ y.hostIds ∨ Seen id log host := by
  rcases h with h | ⟨e, he, z, hz, hmem⟩
  · exact .inr (.inl h)
  · rcases List.mem_cons.mp he with rfl | he
    · rw [hx.eq_of_holds hz]
      exact .inl hmem
    · exact .inr (.inr ⟨e, he, z, hz, hmem⟩)

/-- An allowed call keeps the account. -/
theorem Stands.entry {c : Call} {r : Outcome c.Reply} (h : Stands id y log w x)
    (hb : aside id raises c w r w') (hR : accounts y log ⟨w, c, r, w'⟩) :
    ∃ x', Item.Possible .upgrade id (fun f => f.isBreach = true → raises f) c x r x' ∧
      Stands id y (⟨w, c, r, w'⟩ :: log) w' x' := by
  have hmono : ∀ {host}, Parted log host → Parted (⟨w, c, r, w'⟩ :: log) host :=
    fun hp => hp.mono (List.subset_cons_self _ _)
  obtain ⟨x', hx', hp⟩ := h.shows.possible_untouched hb
  refine ⟨x', hp, ?_⟩
  rcases hp.eq_or_stored with rfl | ⟨-, hstore⟩
  · refine ⟨hx', h.stored.imp_right fun hc => hc.cons _, fun host hseen => ?_⟩
    rcases Stands.seen_cons hx' hseen with hmem | hseen
    · exact .inl hmem
    · exact (h.kept host hseen).imp_right hmono
  · obtain ⟨hkept, -, hended⟩ := hR.1 x' hstore
    have hclosed : Closed (⟨w, c, r, w'⟩ :: log) x' :=
      ⟨⟨_, List.mem_cons_self, hstore⟩, fun hs => (hended hs).imp_right
        (Or.imp_left fun hs => hs.mono (List.subset_cons_self _ _))⟩
    refine ⟨hx', .inr hclosed, fun host hseen => ?_⟩
    rcases Stands.seen_cons hx' hseen with hmem | hseen
    · exact .inl hmem
    · rcases h.kept host hseen with hmem | hp
      · -- what stood before was read or stored by the tick, so the new version accounts for it
        have hever : EverTracked y log host := by
          rcases h.stored with rfl | ⟨⟨e, he, hc⟩, -⟩
          · exact .inl hmem
          · exact .inr ⟨e, he, by rw [hc]; exact hmem⟩
        exact (hkept host hever).imp_right hmono
      · exact .inr (hmono hp)

theorem Stands.start (hy : World.Shows id w y) : Stands id y [] w y := by
  refine ⟨hy, .inl rfl, fun host hseen => hseen.imp_right ?_⟩
  rintro ⟨e, he, -⟩
  cases he

theorem Stands.traces {t : World} (h : Traces (aside id raises) w log t)
    (hy : World.Shows id w y) (hR : (accounts y).Admits log) : ∃ x, Stands id y log t x := by
  induction h with
  | nil => exact ⟨y, .start hy⟩
  | cons _ hb ih =>
      obtain ⟨x, hx⟩ := ih hR.2
      obtain ⟨x', -, hx'⟩ := hx.entry hb hR.1
      exact ⟨x', hx'⟩

/-- A tick accounts for the hosts of the version that is stored when it begins. -/
theorem accounts_of_tick {config : ReplacementSettings} {now : Instant}
    {r : Outcome (Progress UpgradeState)} {j : Journal World} (h : World.Shows id w y)
    (he : ((lifecycle config).advance id now).Ends (aside id raises).recorded (.start w) r j) :
    (accounts y).Admits j.log ∧ Squared j.log := by
  have hfollows : Accounted y (World.Untouched .upgrade id) raises
      (fun _ j' => pending j'.log = []) ((lifecycle config).advance id now) (.start w) :=
    accounted_advance config id now (fun found v hb => h.read hb) rfl
  refine ⟨Keeps.admits hfollows he trivial, ?_⟩
  have hend := Keeps.ends hfollows he
  cases r with
  | ok progress => exact .inl hend
  | error f => exact hend

/-- Where a run of ticks stands. -/
structure Standing (event : UpgradeEvent) (logs : List (List (Entry World))) (w : World)
    (x : UpgradeEvent) : Prop where
  shows : World.Shows event.id w x
  stored : x.state = UpgradeState.completed → ∃ log ∈ logs, Closed log x
  kept : ∀ host, host ∈ event.hostIds ∨ (∃ log ∈ logs, Seen event.id log host) →
    host ∈ x.hostIds ∨ Parted logs.flatten host

theorem Standing.start (hw : World.Shows event.id w event)
    (hs : event.state ≠ UpgradeState.completed) : Standing event [] w event := by
  refine ⟨hw, fun hc => absurd hc hs, fun host hseen => hseen.imp_right ?_⟩
  rintro ⟨log, hlog, -⟩
  cases hlog

theorem Standing.others (h : Standing event logs w x)
    (ho : World.Untouched .upgrade event.id w w') : Standing event logs w' x :=
  ⟨h.shows.outside ho, h.stored, h.kept⟩

/-- A tick goes on with the account that it begins with. -/
theorem Standing.tick {t : World} (h : Standing event logs w y)
    (hx : Stands event.id y log t x) : Standing event (log :: logs) t x := by
  have hnow : ∀ {host}, Parted log host → Parted (log :: logs).flatten host :=
    fun hp => hp.mono (List.subset_append_left _ _)
  refine ⟨hx.shows, fun hs => ?_, fun host hseen => ?_⟩
  · rcases hx.stored with rfl | hclosed
    · obtain ⟨l, hl, hclosed⟩ := h.stored hs
      exact ⟨l, List.mem_cons_of_mem _ hl, hclosed⟩
    · exact ⟨log, List.mem_cons_self, hclosed⟩
  · -- seen in this tick, or accounted for when it began
    have hsplit : Seen event.id log host ∨
        (host ∈ event.hostIds ∨ ∃ log ∈ logs, Seen event.id log host) := by
      rcases hseen with hmem | ⟨l, hl, hseen⟩
      · exact .inr (.inl hmem)
      · rcases List.mem_cons.mp hl with rfl | hl
        · exact .inl hseen
        · exact .inr (.inr ⟨l, hl, hseen⟩)
    rcases hsplit with hseen | hseen
    · exact (hx.kept host (.inr hseen)).imp_right hnow
    · rcases h.kept host hseen with hmem | hp
      · exact (hx.kept host (.inl hmem)).imp_right hnow
      · exact .inr (hp.mono (List.subset_append_right _ _))

theorem Ticks.standing (h : Ticks raises event.id w logs w') (hw : World.Shows event.id w event)
    (hs : event.state ≠ UpgradeState.completed) : ∃ x, Standing event logs w' x := by
  induction h with
  | start => exact ⟨event, .start hw hs⟩
  | others _ ho ih =>
      obtain ⟨x, hx⟩ := ih
      exact ⟨x, hx.others ho⟩
  | tick _ he ih =>
      obtain ⟨y, hy⟩ := ih
      obtain ⟨x, hx⟩ := Stands.traces (he.traces .nil) hy.shows (accounts_of_tick hy.shows he).1
      exact ⟨x, hy.tick hx⟩

/-! ## The law of temporary hosts -/

/-- A new event. -/
def launchEvent : UpgradeEvent := UpgradeEvent.new "event" "web" "prod" .epoch

/-- A cluster with a pool of some size, which one host serves, and a new event. -/
def launchPool (size : Nat) : World :=
  let agent : Agent := ⟨"steady", "prod", .servingBuild, .succeeded, .normal, none, none, .epoch⟩
  let cluster : Cluster := ⟨"web", "prod", .normal, none, 0, ⟨[], [], none⟩, .epoch⟩
  let env : Environment := ⟨"prod", "web", "prod", .normal, none, "web", 1, ⟨[], [], none⟩⟩
  let store := (Store.empty.putAgent agent).putItem .upgrade launchEvent
  { World.initial .epoch (.seeded 0) with
    store := some { store with
      clusters := store.clusters.insert cluster.name cluster
      environments := store.environments.insert env.id env }
    provider := Provider.empty.setPoolSize "web" size }

theorem keyed_launchPool (size : Nat) : (launchPool size).tables.Keyed := by
  have hstore := (Store.keyed_empty.putAgent
    ⟨"steady", "prod", .servingBuild, .succeeded, .normal, none, none, .epoch⟩).putItem .upgrade
      launchEvent
  exact { hstore with
    clusters := hstore.clusters.insert ⟨"web", "prod", .normal, none, 0, ⟨[], [], none⟩, .epoch⟩
    environments := hstore.environments.insert
      ⟨"prod", "web", "prod", .normal, none, "web", 1, ⟨[], [], none⟩⟩ }

/-- The agent of the first host that was launched serves. -/
def arrive (w : World) : World :=
  { w with store := w.store.map fun s =>
      s.putAgent ⟨Provider.launchedId 0, "prod", .servingBuild, .succeeded, .normal, none, none,
        .epoch⟩ }

/-- A tick of the event in which no call fails. -/
def quietTick (w : World) : Journal World := (tickCramped (fun _ _ => none) w).2

/-- The first ticks of the event of a cluster, the last one first. The host that the first one
has launched serves before the second one. -/
def launchTicks (size : Nat) : List (Journal World) :=
  let first := quietTick (launchPool size)
  let second := quietTick (arrive first.state)
  let third := quietTick second.state
  [quietTick third.state, third, second, first]

/-- Where the first ticks of the event lead. -/
def launchEnd (size : Nat) : World := (quietTick (quietTick (quietTick (arrive (quietTick
  (launchPool size)).state)).state).state).state

theorem keyed_quietTick (h : w.tables.Keyed) : (quietTick w).state.tables.Keyed :=
  keyed_tickCramped h

theorem Ticks.quiet (h : Ticks (fun _ => False) "event" w logs w') (hk : w'.tables.Keyed) :
    Ticks (fun _ => False) "event" w ((quietTick w').log :: logs) (quietTick w').state :=
  h.tick (tick_tickCramped hk (by simp))

theorem keyed_arrive (h : w.tables.Keyed) : (arrive w).tables.Keyed :=
  World.keyed_mapStore h fun _ hs => hs.putAgent _

theorem untouched_arrive (h : w.tables.Keyed) :
    World.Untouched .upgrade "event" w (arrive w) :=
  World.untouched_mapStore h (fun _ => rfl) fun _ hs => hs.putAgent _

theorem ticks_launchTicks (size : Nat) :
    Ticks (fun _ => False) "event" (launchPool size) ((launchTicks size).map Journal.log)
      (launchEnd size) := by
  have hfirst := keyed_quietTick (keyed_launchPool size)
  have hsecond := keyed_quietTick (keyed_arrive hfirst)
  have hrun := (Ticks.start.quiet (keyed_launchPool size)).others (untouched_arrive hfirst)
  exact ((hrun.quiet (keyed_arrive hfirst)).quiet hsecond).quiet (keyed_quietTick hsecond)

/-- Each host that the event tracked at first, or that any version tracked which was stored on
the way, is tracked by the version that is stored last, unless it was attached to the pool, was
terminated, or was not reported running. If this version is in COMPLETED, it tracks no host at
all, unless it was stored by a tick that found no more agents serving than the pool is to have
hosts, or because of a timeout in COMPLETING. -/
theorem tracked_hosts_accounted (raises : Fault → Prop) {w w' : World} {event y : UpgradeEvent}
    {logs : List (List (Entry World))} (hw : World.Shows event.id w event)
    (hs : event.state ≠ UpgradeState.completed) (hrun : Ticks raises event.id w logs w')
    (hy : World.Holds event.id w' y) :
    (∀ host, host ∈ event.hostIds ∨ (∃ log ∈ logs, Seen event.id log host) →
      host ∈ y.hostIds ∨ Parted logs.flatten host) ∧
    (y.state = UpgradeState.completed → y.hostIds = .empty ∨
      ∃ log ∈ logs, (∃ e ∈ log, e.call = .store (.updateItem .upgrade y)) ∧
        (Scarce log ∨ GivenUp y)) := by
  obtain ⟨x, hx⟩ := hrun.standing hw hs
  obtain rfl := hx.shows.eq_of_holds hy
  refine ⟨hx.kept, fun hcompleted => ?_⟩
  obtain ⟨log, hlog, hstored, hended⟩ := hx.stored hcompleted
  exact (hended hcompleted).imp_right fun h => ⟨log, hlog, hstored, h⟩

/-- A version of the event that is stored in the end. -/
theorem holds_launchEnd (size : Nat) {P : UpgradeEvent → Bool}
    (h : ((launchEnd size).store.bind (·.getItem .upgrade "event")).any P = true) :
    ∃ y, World.Holds "event" (launchEnd size) y ∧ P y = true := by
  obtain ⟨y, hy, hP⟩ := (Option.any_eq_true _ _).mp h
  exact ⟨y, Option.bind_eq_some_iff.mp hy, hP⟩

/-- The event of a pool of one place, in which no call fails: the launched host is not needed
in the end, and is terminated. -/
theorem tracked_hosts_accounted_launchPool : ∃ y logs, Ticks (fun _ => False) "event"
    (launchPool 1) logs (launchEnd 1) ∧ World.Holds "event" (launchEnd 1) y ∧
      y.state = UpgradeState.completed ∧ y.hostIds = .empty ∧
        Parted logs.flatten (Provider.launchedId 0) := by
  obtain ⟨y, hy, hend⟩ := holds_launchEnd 1
    (P := fun y => decide (y.state = UpgradeState.completed ∧ y.hostIds = .empty))
    (by decide +kernel)
  obtain ⟨hcompleted, hnone⟩ := of_decide_eq_true hend
  have hshows : World.Shows launchEvent.id (launchPool 1) launchEvent := by
    rintro s hs
    cases hs
    exact ⟨(keyed_launchPool 1).items .upgrade, rfl⟩
  have hseen : ∃ log ∈ (launchTicks 1).map Journal.log,
      Seen "event" log (Provider.launchedId 0) := by
    have hany : ((launchTicks 1).map Journal.log).any (fun log => log.any fun e =>
        (e.after.store.bind (·.getItem .upgrade "event")).any fun y =>
          decide (Provider.launchedId 0 ∈ y.hostIds)) = true := by
      decide +kernel
    obtain ⟨log, hlog, hany⟩ := List.any_eq_true.mp hany
    obtain ⟨e, he, hany⟩ := List.any_eq_true.mp hany
    obtain ⟨z, hz, hmem⟩ := (Option.any_eq_true _ _).mp hany
    exact ⟨log, hlog, e, he, z, Option.bind_eq_some_iff.mp hz, of_decide_eq_true hmem⟩
  have hlaw := tracked_hosts_accounted (fun _ => False) hshows (by decide)
    (ticks_launchTicks 1) hy
  refine ⟨y, _, ticks_launchTicks 1, hy, hcompleted, hnone, ?_⟩
  rcases hlaw.1 _ (.inr hseen) with hmem | hparted
  · rw [hnone] at hmem
    exact absurd hmem (by simp)
  · exact hparted

/-- If the pool is to have two hosts, the launched one is needed to serve. The event ends, but
still tracks the host, which runs and was neither attached nor terminated. -/
theorem launched_host_left_behind : ∃ y logs, Ticks (fun _ => False) "event" (launchPool 2) logs
    (launchEnd 2) ∧ (∀ log ∈ logs, ∀ e ∈ log, e.reply.isOk = true) ∧
      World.Holds "event" (launchEnd 2) y ∧ y.state = UpgradeState.completed ∧
        Provider.launchedId 0 ∈ y.hostIds ∧
          (launchEnd 2).provider.isRunning (Provider.launchedId 0) = true ∧
            ∀ log ∈ logs, ∀ e ∈ log, Provider.launchedId 0 ∉ e.attached ++ e.dismissed := by
  obtain ⟨y, hy, hend⟩ := holds_launchEnd 2
    (P := fun y => decide (y.state = UpgradeState.completed ∧ Provider.launchedId 0 ∈ y.hostIds))
    (by decide +kernel)
  obtain ⟨hcompleted, hleft⟩ := of_decide_eq_true hend
  have hall : ((launchTicks 2).map Journal.log).all (fun log => log.all fun e =>
      e.reply.isOk && decide (Provider.launchedId 0 ∉ e.attached ++ e.dismissed)) = true := by
    decide +kernel
  have hentry : ∀ log ∈ (launchTicks 2).map Journal.log, ∀ e ∈ log,
      e.reply.isOk = true ∧ Provider.launchedId 0 ∉ e.attached ++ e.dismissed := by
    intro log hlog e he
    have hboth := List.all_eq_true.mp (List.all_eq_true.mp hall log hlog) e he
    exact ⟨(Bool.and_eq_true_iff.mp hboth).1, of_decide_eq_true (Bool.and_eq_true_iff.mp hboth).2⟩
  exact ⟨y, _, ticks_launchTicks 2, fun log hlog e he => (hentry log hlog e he).1, hy,
    hcompleted, hleft, by decide +kernel, fun log hlog e he => (hentry log hlog e he).2⟩

end Replacement

end FleetControl
