import FleetControl.Proofs.Swapping

/-!
# What becomes of attached hosts

Ticks of an event in COMPLETING, any number of them, whatever fails on the way and whatever
the others do meanwhile, as long as they do not write the event. Each time hosts are attached,
the next call stores the event without them. Unless this call has no effect, they are out of
the event for good: no later version tracks them, and no tick terminates them other than as
failed hosts of the pool.
-/
namespace FleetControl

open Program

namespace Replacement

variable {raises : Fault → Prop} {event y : UpgradeEvent} {w v w' : World}
  {log past later : List (Entry World)} {host : HostId}

/-- The worlds in which others may do anything but write an event. -/
abbrev aside (id : ItemId) (raises : Fault → Prop) : Behaviour World :=
  World.Possible (World.Untouched .upgrade id) raises

/-- Ticks of an event, with their calls, the last one first. Between them the others may do
anything but write the event. -/
inductive Ticks (raises : Fault → Prop) (id : ItemId) (w : World) :
    List (List (Entry World)) → World → Prop where
  | start : Ticks raises id w [] w
  | others {logs : List (List (Entry World))} {v v' : World} (past : Ticks raises id w logs v)
      (h : World.Untouched .upgrade id v v') : Ticks raises id w logs v'
  | tick {logs : List (List (Entry World))} {v : World} (past : Ticks raises id w logs v)
      {config : ReplacementSettings} {now : Instant} {r : Outcome (Progress UpgradeState)}
      {j : Journal World}
      (h : ((lifecycle config).advance id now).Ends (aside id raises).recorded (.start v) r j) :
      Ticks raises id w (j.log :: logs) j.state

/-- A later version of an event that has nothing left to do but to finish. -/
structure Succeeds (event y : UpgradeEvent) : Prop where
  id : y.id = event.id
  cluster : y.cluster = event.cluster
  state : Finishing y.state

/-- The stored version of the event is a later one with a property. -/
def Stored (event : UpgradeEvent) (P : UpgradeEvent → Prop) (w : World) : Prop :=
  ∃ y, World.Shows event.id w y ∧ Succeeds event y ∧ P y

/-- The rule of a tick that has read a version. -/
def tickRule (y : UpgradeEvent) : Rule World := fun past e => conduct y past e ∧ letsBe [] past e

/-- What is stored is a later version. -/
theorem Conducts.succeeds {c : Call} {z : UpgradeEvent} (h : Conducts y past c)
    (hy : Succeeds event y) (hc : c = .store (.updateItem .upgrade z)) :
    Succeeds event z ∧ ∀ id ∈ z.hostIds, id ∈ y.hostIds := by
  subst hc
  cases h with
  | looks h => cases h
  | stores hid hcluster hs hh =>
      refine ⟨⟨hid.trans hy.id, hcluster.trans hy.cluster, hs hy.state⟩, fun id hmem => ?_⟩
      rcases hh id hmem with hmem | ⟨hinit, -⟩
      · exact hmem
      · rcases hy.state with hs | hs <;> rw [hs] at hinit <;> cases hinit

/-- A tick follows the rule of the version that is stored when it begins, and its last call
attaches no host. -/
theorem rule_of_tick {config : ReplacementSettings} {now : Instant}
    {r : Outcome (Progress UpgradeState)} {j : Journal World}
    (h : World.Shows event.id w y)
    (he : ((lifecycle config).advance event.id now).Ends (aside event.id raises).recorded
      (.start w) r j) : (tickRule y).Admits j.log ∧ Rested j.log := by
  have hfollows : Swaps y [] (World.Untouched .upgrade event.id) raises
      (fun _ j' => ∃ ids, Settled [] ids j'.log) ((lifecycle config).advance event.id now)
      (.start w) := by
    rw [Lifecycle.advance_eq]
    refine .bind (Q := fun found j' => found = some y ∧ Settled [] [] j'.log)
      (swaps_perform (.looks rfl) rfl settled_base (by simp) fun found v hb hs => ⟨?_, hs⟩) ?_
    · obtain ⟨_, -, hp⟩ := h.possible_untouched hb
      cases hp with
      | read => rfl
      | readOther hj => exact absurd rfl hj
      | spared hc => simp [Call.spares] at hc
    · rintro _ j' ⟨rfl, hs⟩ -
      exact swaps_work config y now hs
  refine ⟨Keeps.admits hfollows he trivial, fun e hlast => ?_⟩
  have hsettled : ∃ ids, Settled [] ids j.log := by
    have hend := Keeps.ends hfollows he
    cases r <;> exact hend
  obtain ⟨ids, hall, rfl | hrested⟩ := hsettled
  · rw [List.eq_nil_iff_forall_not_mem]
    intro id hid
    exact List.not_mem_nil (hall id ⟨⟨e, List.mem_of_head? hlast, hid⟩, by simp⟩)
  · exact hrested e hlast

/-- A call that stores only versions with a property keeps it of the stored one. -/
theorem Stored.entry {P : UpgradeEvent → Prop} {c : Call} {r : Outcome c.Reply}
    (h : Stored event P w) (hb : aside event.id raises c w r w')
    (hc : ∀ z, c = .store (.updateItem .upgrade z) → Succeeds event z ∧ P z) :
    Stored event P w' := by
  obtain ⟨y, hshows, hy⟩ := h
  obtain ⟨z, hz, hp⟩ := hshows.possible_untouched hb
  rcases hp.eq_or_stored with rfl | ⟨-, hstore⟩
  · exact ⟨z, hz, hy⟩
  · exact ⟨z, hz, hc z hstore⟩

theorem Stored.traces {P : UpgradeEvent → Prop} (h : Stored event P w)
    (ht : Traces (aside event.id raises) w log w')
    (hall : ∀ e ∈ log, ∀ z, e.call = .store (.updateItem .upgrade z) → Succeeds event z ∧ P z) :
    Stored event P w' := by
  induction ht with
  | nil => exact h
  | cons _ hb ih =>
      have hlog := ih fun e he => hall e (List.mem_cons_of_mem _ he)
      exact hlog.entry hb fun z hz => hall _ List.mem_cons_self z hz

theorem Stored.others {P : UpgradeEvent → Prop} (h : Stored event P w)
    (ho : World.Untouched .upgrade event.id w w') : Stored event P w' := by
  obtain ⟨y, hshows, hy⟩ := h
  exact ⟨y, hshows.outside ho, hy⟩

/-- In a tick each call is as the version that it has read allows. -/
theorem conducts_of_mem {e : Entry World} (hR : (tickRule y).Admits log) (he : e ∈ log) :
    ∃ past, Conducts y past e.call := by
  obtain ⟨later, past, rfl⟩ := List.append_of_mem he
  exact ⟨past, hR.of_append.1⟩

/-- No call stores an event that tracks a host, and none terminates it, unless as a failed host
of the cluster. -/
def spares (cluster : String) (host : HostId) : Rule World := fun past e =>
  host ∉ e.call.tracked ∧ (host ∈ e.call.terminated → ∃ a ∈ past, host ∈ a.failedHosts cluster)

/-- A tick that reads a version without a host spares the host. -/
theorem spares_of_conducts {e : Entry World} (h : Conducts y past e.call)
    (hy : Succeeds event y) (hh : host ∉ y.hostIds) : spares event.cluster host past e := by
  constructor
  · intro ht
    cases hc : e.call with
    | store c =>
        rw [hc] at h ht
        cases c with
        | updateItem k z =>
            cases k with
            | upgrade => exact hh ((h.succeeds hy rfl).2 host ht)
            | check => cases ht
        | _ => cases ht
    | _ => rw [hc] at ht; cases ht
  · intro ht
    cases hc : e.call with
    | provider c =>
        rw [hc] at h ht
        cases c with
        | terminateHosts name ids drain =>
            cases h with
            | looks h => cases h
            | terminates h =>
                rcases h host ht with hmem | hfailed
                · exact absurd hmem hh
                · rwa [hy.cluster] at hfailed
        | _ => cases ht
    | _ => rw [hc] at ht; cases ht

/-- A tick takes no host in, so it keeps what a version without some hosts keeps. -/
theorem tick_stored {config : ReplacementSettings} {now : Instant}
    {r : Outcome (Progress UpgradeState)} {j : Journal World} {P : UpgradeEvent → Prop}
    (hP : ∀ y z : UpgradeEvent, (∀ id ∈ z.hostIds, id ∈ y.hostIds) → P y → P z)
    (h : Stored event P w)
    (he : ((lifecycle config).advance event.id now).Ends (aside event.id raises).recorded
      (.start w) r j) : Stored event P j.state := by
  obtain ⟨y, hshows, hy, hp⟩ := id h
  have hR := (rule_of_tick hshows he).1
  refine h.traces (he.traces .nil) fun e hmem z hz => ?_
  obtain ⟨past, hc⟩ := conducts_of_mem hR hmem
  obtain ⟨hsucceeds, hids⟩ := hc.succeeds hy hz
  exact ⟨hsucceeds, hP y z hids hp⟩

/-- A tick keeps a host out of the event. -/
theorem tick_spares {config : ReplacementSettings} {now : Instant}
    {r : Outcome (Progress UpgradeState)} {j : Journal World}
    (h : Stored event (host ∉ ·.hostIds) w)
    (he : ((lifecycle config).advance event.id now).Ends (aside event.id raises).recorded
      (.start w) r j) :
    (spares event.cluster host).Admits j.log ∧ Stored event (host ∉ ·.hostIds) j.state := by
  obtain ⟨y, hshows, hy, hh⟩ := id h
  refine ⟨(rule_of_tick hshows he).1.mono fun past e hc => spares_of_conducts hc.1 hy hh, ?_⟩
  exact tick_stored (fun _ _ hids hout hid => hout (hids host hid)) h he

theorem Ticks.stored {logs : List (List (Entry World))} (h : Ticks raises event.id w logs w')
    (hw : Stored event (fun _ => True) w) : Stored event (fun _ => True) w' := by
  induction h with
  | start => exact hw
  | others _ ho ih => exact ih.others ho
  | tick _ he ih => exact tick_stored (fun _ _ _ => id) ih he

/-- Once a host is out of the event, ticks keep it out. -/
theorem Ticks.spares {logs : List (List (Entry World))} (h : Ticks raises event.id w logs w')
    (hw : Stored event (host ∉ ·.hostIds) w) :
    (∀ log ∈ logs, (spares event.cluster host).Admits log) ∧
      Stored event (host ∉ ·.hostIds) w' := by
  induction h with
  | start => exact ⟨by simp, hw⟩
  | others _ ho ih => exact ⟨ih.1, ih.2.others ho⟩
  | tick _ he ih =>
      obtain ⟨hlog, hstored⟩ := tick_spares ih.2 he
      exact ⟨List.forall_mem_cons.mpr ⟨hlog, ih.1⟩, hstored⟩

/-- A run of ticks up to one of them, this one, and the rest. -/
theorem Ticks.split {newer older : List (List (Entry World))}
    (h : Ticks raises event.id w (newer ++ log :: older) w') :
    ∃ v config now r j, Ticks raises event.id w older v ∧ j.log = log ∧
      ((lifecycle config).advance event.id now).Ends (aside event.id raises).recorded
        (.start v) r j ∧ Ticks raises event.id j.state newer w' := by
  generalize hlogs : newer ++ log :: older = logs at h
  induction h generalizing newer with
  | start => simp at hlogs
  | others _ ho ih =>
      obtain ⟨v, config, now, r, j, hold, hj, he, hnew⟩ := ih hlogs
      exact ⟨v, config, now, r, j, hold, hj, he, hnew.others ho⟩
  | tick hpast he ih =>
      cases newer with
      | nil =>
          obtain ⟨rfl, rfl⟩ := List.cons.inj hlogs
          exact ⟨_, _, _, _, _, hpast, rfl, he, .start⟩
      | cons first newer =>
          obtain ⟨rfl, htail⟩ := List.cons.inj hlogs
          obtain ⟨v, config, now, r, j, hold, hj, hthis, hnew⟩ := ih htail
          exact ⟨v, config, now, r, j, hold, hj, hthis, hnew.tick he⟩

/-! ## The law of attached hosts -/

/-- An event in COMPLETING that tracks one host. -/
def crampedEvent : UpgradeEvent :=
  { (UpgradeEvent.new "event" "web" "prod" .epoch).withHostIds (.ofList ["spare"]) with
    state := UpgradeState.completing }

/-- A pool of one place with a failed host, served by another one, while an event tracks a
healthy one. -/
def crampedPool : World :=
  let host (id : HostId) : Host := ⟨id, "web", .running, false, .epoch, .epoch⟩
  let agent (id : HostId) (stage : DeployStage) (status : AgentStatus) : Agent :=
    ⟨id, "prod", stage, status, .normal, none, none, .epoch⟩
  let cluster : Cluster := ⟨"web", "prod", .normal, none, 0, ⟨[], [], none⟩, .epoch⟩
  let hosts := ["failed", "spare", "steady"].foldl (fun s id => s.insertHost (host id)) .empty
  let agents := [agent "failed" .staging .agentFailed, agent "spare" .servingBuild .succeeded,
    agent "steady" .servingBuild .succeeded].foldl Store.putAgent hosts
  let store := agents.putItem .upgrade crampedEvent
  { World.initial .epoch (.seeded 0) with
    store := some { store with clusters := store.clusters.insert cluster.name cluster }
    provider := (Provider.empty.setPoolSize "web" 1).addHost "web" "spare" }

theorem keyed_crampedPool : crampedPool.tables.Keyed := by
  have hhosts : ((["failed", "spare", "steady"].map fun id =>
      (⟨id, "web", .running, false, .epoch, .epoch⟩ : Host)).foldl Store.insertHost .empty).Keyed :=
    ((Store.keyed_empty.insertHost _).insertHost _).insertHost _
  exact ((((hhosts.putAgent _).putAgent _).putAgent _).putItem .upgrade _).insertCluster _

/-- A tick of the event of the cramped pool, in which some calls fail. -/
def tickCramped (fails : List (Entry World) → Call → Option Fault) (w : World) :
    Outcome (Progress UpgradeState) × Journal World :=
  ((lifecycle {}).advance "event" .epoch).run (failing fails) (.start w)

theorem tick_tickCramped {fails : List (Entry World) → Call → Option Fault}
    {raises : Fault → Prop} (h : w.tables.Keyed)
    (hf : ∀ log c f, fails log c = some f → raises f) :
    ((lifecycle {}).advance "event" .epoch).Ends (aside "event" raises).recorded (.start w)
      (tickCramped fails w).1 (tickCramped fails w).2 :=
  ends_failing (I := fun w => w.tables.Keyed) (fun _ => World.untouched_refl)
    (fun c _ hk => World.keyed_answer hk c) hf _ h

theorem keyed_tickCramped {fails : List (Entry World) → Call → Option Fault}
    (h : w.tables.Keyed) : (tickCramped fails w).2.state.tables.Keyed := by
  have hends : ((lifecycle {}).advance "event" .epoch).Ends
      (World.Possible Eq fun _ => True).recorded (.start w) (tickCramped fails w).1
        (tickCramped fails w).2 :=
    ends_failing (I := fun _ => True) (fun _ _ => rfl) (fun _ _ _ => trivial)
      (fun _ _ _ _ => trivial) _ trivial
  refine hends.preserves (I := fun j => j.state.tables.Keyed) ?_ h
  rintro c j r _ hj ⟨v, hb, rfl⟩
  refine hb.preserves (I := fun u => u.tables.Keyed) ?_ (fun u hu => World.keyed_answer hu c) hj
  rintro _ rfl
  exact id

/-- No item can be stored. -/
def storeless : List (Entry World) → Call → Option Fault
  | _, .store (.updateItem _ _) => some (.error (.database "connection lost"))
  | _, _ => none

/-- The agent of the failed host serves again. -/
def recover (w : World) : World :=
  { w with store := w.store.map fun s =>
      s.putAgent ⟨"failed", "prod", .servingBuild, .succeeded, .normal, none, none, .epoch⟩ }

theorem keyed_recover (h : w.tables.Keyed) : (recover w).tables.Keyed :=
  World.keyed_mapStore h fun _ hs => hs.putAgent _

theorem untouched_recover (h : w.tables.Keyed) :
    World.Untouched .upgrade "event" w (recover w) :=
  World.untouched_mapStore h (fun _ => rfl) fun _ hs => hs.putAgent _

/-- Whenever hosts are attached, the next call stores the event without them, and for the rest
of the tick they are neither tracked nor terminated. If this call has no effect, the version
stored before is left behind. Otherwise no later version tracks the hosts, and no later tick
terminates one unless it is then listed as a failed host of the pool. -/
theorem attached_hosts_stay (raises : Fault → Prop) {w w' : World} {event : UpgradeEvent}
    {newer older : List (List (Entry World))} {later past : List (Entry World)}
    {e : Entry World} {host : HostId}
    (hw : World.Shows event.id w event) (hs : event.state = UpgradeState.completing)
    (hrun : Ticks raises event.id w (newer ++ (later ++ e :: past) :: older) w')
    (ha : host ∈ e.attached) :
    ∃ rest u, ∃ y : UpgradeEvent, later = rest ++ [u] ∧
      u.call = .store (.updateItem .upgrade y) ∧ y.id = event.id ∧ host ∉ y.hostIds ∧
      (∀ e' ∈ rest, e'.call.Forgoes host) ∧
      (((∃ f, u.reply = .error f) ∧ ∃ left : UpgradeEvent,
          World.Shows event.id u.before left ∧ World.Shows event.id u.after left) ∨
        ((∀ log ∈ newer, (spares event.cluster host).Admits log) ∧
          ∃ left : UpgradeEvent, World.Shows event.id w' left ∧ host ∉ left.hostIds)) := by
  obtain ⟨v, config, now, r, j, hold, hlog, he, hnew⟩ := hrun.split
  have hv : Stored event (fun _ => True) v :=
    hold.stored ⟨event, hw, ⟨rfl, rfl, .inl hs⟩, trivial⟩
  obtain ⟨x, hx, hxs, -⟩ := id hv
  obtain ⟨hR, hrested⟩ := rule_of_tick hx he
  have htraces := he.traces .nil
  rw [hlog] at hR hrested htraces
  rcases List.eq_nil_or_concat' later with rfl | ⟨rest, u, rfl⟩
  · rw [hrested e rfl] at ha
    cases ha
  have hattached : AttachedSince [] (e :: past) host := ⟨⟨e, List.mem_cons_self, ha⟩, by simp⟩
  -- the call right after the attachment
  have hu : tickRule x (e :: past) u := by
    have hlog : (tickRule x).Admits (rest ++ u :: e :: past) := by simpa using hR
    exact hlog.of_append
  obtain ⟨y, hy, hout⟩ := (hu.2 host hattached).2 e rfl ha
  obtain ⟨hys, -⟩ := hu.1.succeeds hxs hy
  -- the calls after that one
  have hrest : ∀ e' ∈ rest, (∃ p, Conducts x p e'.call) ∧ e'.call.Forgoes host := by
    intro e' he'
    obtain ⟨after, between, rfl⟩ := List.append_of_mem he'
    have hrule : tickRule x (between ++ u :: e :: past) e' := by
      have hlog : (tickRule x).Admits (after ++ e' :: (between ++ u :: e :: past)) := by
        simpa using hR
      exact hlog.of_append
    refine ⟨⟨_, hrule.1⟩, (hrule.2 host ⟨⟨e, by simp, ha⟩, by simp⟩).1⟩
  refine ⟨rest, u, y, rfl, hy, hys.id, hout, fun e' he' => (hrest e' he').2, ?_⟩
  rw [List.append_assoc, Traces.append_iff] at htraces
  obtain ⟨t, hbefore, hafter⟩ := htraces
  cases hbefore with
  | @cons _ s c q _ hpast hb =>
      have hstored : Stored event (fun _ => True) s := by
        refine hv.traces hpast fun e' he' z hz => ⟨?_, trivial⟩
        obtain ⟨p, hc⟩ := conducts_of_mem hR (List.mem_append_right _ he')
        exact (hc.succeeds hxs hz).1
      obtain ⟨left, hleft, -⟩ := hstored
      obtain rfl : c = .store (.updateItem .upgrade y) := hy
      obtain ⟨z, hz, hp⟩ := hleft.possible_untouched hb
      rcases hp.of_update hys.id with rfl | ⟨rfl, f, rfl⟩
      · right
        have hlacks : Stored event (host ∉ ·.hostIds) j.state := by
          refine Stored.traces ⟨z, hz, hys, hout⟩ hafter fun e' he' z' hz' => ?_
          obtain ⟨⟨p, hc⟩, hforgoes⟩ := hrest e' he'
          refine ⟨(hc.succeeds hxs hz').1, ?_⟩
          have htracked := hforgoes.2
          rwa [hz'] at htracked
        obtain ⟨hspares, left', hleft', -, hout'⟩ := hnew.spares hlacks
        exact ⟨hspares, left', hleft', hout'⟩
      · exact .inl ⟨⟨f, rfl⟩, z, hleft, hz⟩

/-- The law of attached hosts for one tick of the cramped pool, in which no call fails. -/
theorem attached_hosts_stay_crampedPool : ∃ log w', Ticks (fun _ => False) "event" crampedPool
    [log] w' ∧ (∃ e ∈ log, "spare" ∈ e.attached) ∧
      ∃ left : UpgradeEvent, World.Shows "event" w' left ∧ "spare" ∉ left.hostIds := by
  have hrun : Ticks (fun _ => False) "event" crampedPool
      ([] ++ (tickCramped (fun _ _ => none) crampedPool).2.log :: [])
        (tickCramped (fun _ _ => none) crampedPool).2.state :=
    Ticks.start.tick (tick_tickCramped keyed_crampedPool (by simp))
  have hattached : "spare" ∈
      (tickCramped (fun _ _ => none) crampedPool).2.log.flatMap Entry.attached := by
    decide +kernel
  have hok : (tickCramped (fun _ _ => none) crampedPool).2.log.all (·.reply.isOk) = true := by
    decide +kernel
  obtain ⟨e, he, ha⟩ := List.mem_flatMap.mp hattached
  refine ⟨_, _, hrun, ⟨e, he, ha⟩, ?_⟩
  obtain ⟨later, past, hlog⟩ := List.append_of_mem he
  rw [hlog] at hok hrun
  have hshows : World.Shows crampedEvent.id crampedPool crampedEvent := by
    rintro s hs
    cases hs
    exact ⟨keyed_crampedPool.items .upgrade, rfl⟩
  obtain ⟨rest, u, y, rfl, -, -, -, -, h⟩ :=
    attached_hosts_stay (fun _ => False) hshows rfl hrun ha
  rcases h with ⟨⟨f, hf⟩, -⟩ | ⟨-, hleft⟩
  · have hu := List.all_eq_true.mp hok u (by simp)
    rw [hf] at hu
    cases hu
  · exact hleft

/-- If the store fails right after the attachment, the event still tracks the host that now
serves in the pool. Once the failed host has recovered, the host is surplus. -/
theorem attached_host_terminated :
    let first := tickCramped storeless crampedPool
    let second := tickCramped (fun _ _ => none) (recover first.2.state)
    (∃ raises, Ticks raises "event" crampedPool [second.2.log, first.2.log] second.2.state) ∧
      "spare" ∈ first.2.log.flatMap Entry.attached ∧
      "spare" ∈ first.2.state.tables.events.values.flatMap (·.hostIds.toList) ∧
      "spare" ∈ second.2.log.flatMap (·.call.terminated) := by
  intro first second
  refine ⟨⟨fun _ => True, ?_⟩, by decide +kernel, by decide +kernel, by decide +kernel⟩
  have hkeyed : first.2.state.tables.Keyed := keyed_tickCramped keyed_crampedPool
  have hfirst : Ticks (fun _ => True) "event" crampedPool [first.2.log] first.2.state :=
    Ticks.start.tick (tick_tickCramped keyed_crampedPool fun _ _ _ _ => trivial)
  have hothers := hfirst.others (untouched_recover hkeyed)
  exact hothers.tick (tick_tickCramped (keyed_recover hkeyed) fun _ _ _ _ => trivial)

end Replacement

end FleetControl
