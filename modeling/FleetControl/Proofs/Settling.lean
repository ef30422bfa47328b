import FleetControl.Proofs.Listing
import FleetControl.Proofs.Roster
import FleetControl.Proofs.Smooth

/-!
# Settling the temporary hosts

A smooth tick of an event in COMPLETING settles every temporary host that still runs: it is
terminated if it has failed, attached to the pool in place of a failed host of the pool as long
as there are any, and terminated otherwise. On the way the world differs from the one at the
start only in what was terminated and attached so far and in the hosts that are still tracked.
-/
namespace FleetControl

open Program

/-- The last value inserted under a key remains. -/
theorem Table.insert_insert {α : Type} (t : Table α) (key : String) (a b : α) :
    (t.insert key a).insert key b = t.insert key b := by
  refine Table.ext_get? fun k => ?_
  rw [Table.get?_insert, Table.get?_insert, Table.get?_insert]
  split <;> rfl

namespace Store

/-- Storing an item twice is storing it once. -/
theorem putItem_putItem (s : Store) {k : ItemKind} {i i' : Item k} (h : i'.id = i.id) :
    (s.putItem k i).putItem k i' = s.putItem k i' := by
  have hitems : ((s.items k).insert i.id i).insert i'.id i' = (s.items k).insert i'.id i' := by
    rw [h, Table.insert_insert]
  cases k <;> simp only [putItem, items_withItems, hitems] <;> rfl

/-- Storing what is stored changes nothing. -/
theorem putItem_self {s : Store} {k : ItemKind} {i : Item k} (h : s.getItem k i.id = some i) :
    s.putItem k i = s := by
  have hitems : (s.items k).insert i.id i = s.items k := by
    refine Table.ext_get? fun key => ?_
    rw [Table.get?_insert]
    split
    · rename_i hk
      rw [hk]
      exact h.symm
    · rfl
  cases k <;> rw [putItem, hitems] <;> rfl

theorem setHostState_append (s : Store) (now : Instant) (ids more : List HostId)
    (state : HostState) : s.setHostState now (ids ++ more) state =
      (s.setHostState now ids state).setHostState now more state := by
  simp only [setHostState, List.foldl_append]

end Store

/-! ## The plan -/

/-- What becomes of the hosts of a cluster at the end of a replacement. -/
structure Settlement where
  /-- Tracked hosts that have failed, to be terminated. -/
  failedTemps : List HostId
  /-- Failed hosts of the pool, to be terminated. -/
  replaced : List HostId
  /-- Tracked hosts that take their places in the pool. -/
  attached : List HostId
  /-- Tracked hosts that nothing needs, to be terminated. -/
  surplus : List HostId

namespace Settlement

/-- Failed hosts of the pool are replaced one for one, as long as there are healthy tracked
hosts among the running ones. -/
def plan (active failed tracked : List HostId) : Settlement :=
  let failedTemps := failed.filter fun id => active.contains id
  let failedPool := failed.filter fun id => !tracked.contains id
  let healthy := active.filter fun id => !failedTemps.contains id
  let swaps := min failedPool.length healthy.length
  ⟨failedTemps, failedPool.take swaps, healthy.take swaps, healthy.drop swaps⟩

/-- The hosts that are terminated, in the order of the calls. -/
def gone (p : Settlement) : List HostId := p.failedTemps ++ p.replaced ++ p.surplus

/-- The terminations that are requested: calls about no hosts are not made. -/
def requested (ts : List Termination) : List Termination := ts.filter fun t => !t.ids.isEmpty

/-- The attachments that are made. -/
def made (as : List Attachment) : List Attachment := as.filter fun a => !a.ids.isEmpty

/-- The terminations of a plan. -/
def terminations (p : Settlement) (cluster : String) : List Termination :=
  requested [⟨cluster, p.failedTemps, true⟩, ⟨cluster, p.replaced, false⟩,
    ⟨cluster, p.surplus, true⟩]

theorem terminations_eq (p : Settlement) (cluster : String) : p.terminations cluster =
    requested [⟨cluster, p.failedTemps, true⟩] ++ requested [⟨cluster, p.replaced, false⟩] ++
      requested [⟨cluster, p.surplus, true⟩] := by
  simp only [requested, ← List.filter_append]
  rfl

/-- The attachments of a plan. -/
def attachments (p : Settlement) (cluster : String) : List Attachment :=
  made [⟨cluster, p.attached⟩]

variable {active failed tracked : List HostId} {id : HostId}

theorem length_attached (active failed tracked : List HostId) :
    (plan active failed tracked).attached.length =
      (plan active failed tracked).replaced.length := by
  simp only [plan, List.length_take]
  omega

theorem not_tracked_of_replaced (h : id ∈ (plan active failed tracked).replaced) :
    id ∉ tracked := by
  have hmem := List.mem_of_mem_take h
  simp only [List.mem_filter, Bool.not_eq_true', List.contains_eq_mem, decide_eq_false_iff_not]
    at hmem
  exact hmem.2

/-- Nothing is terminated twice or attached twice, and nothing that is attached is terminated. -/
theorem nodup_plan (ha : active.Nodup) (hf : failed.Nodup) (hsub : active ⊆ tracked) :
    ((plan active failed tracked).gone ++ (plan active failed tracked).attached).Nodup := by
  have hperm : (plan active failed tracked).gone ++ (plan active failed tracked).attached |>.Perm
      ((plan active failed tracked).failedTemps ++ (plan active failed tracked).replaced ++
        active.filter fun id => !(plan active failed tracked).failedTemps.contains id) := by
    rw [gone, List.append_assoc]
    refine List.Perm.append_left _ (List.perm_append_comm.trans (List.Perm.of_eq ?_))
    exact List.take_append_drop _ _
  rw [hperm.nodup_iff, List.nodup_append, List.nodup_append]
  refine ⟨⟨hf.filter _, (List.take_sublist _ _).nodup (hf.filter _), ?_⟩, ha.filter _, ?_⟩
  · rintro a hft b hrep rfl
    have hactive : a ∈ active := by simpa using (List.mem_filter.mp hft).2
    exact not_tracked_of_replaced hrep (hsub hactive)
  · rintro a hout b hb rfl
    obtain ⟨hactive, hhealthy⟩ := List.mem_filter.mp hb
    rcases List.mem_append.mp hout with hft | hrep
    · simp [hft] at hhealthy
    · exact not_tracked_of_replaced hrep (hsub hactive)

/-- Every running tracked host is attached or terminated. -/
theorem mem_of_active (h : id ∈ active) :
    id ∈ (plan active failed tracked).gone ∨ id ∈ (plan active failed tracked).attached := by
  by_cases hft : id ∈ (plan active failed tracked).failedTemps
  · exact .inl (List.mem_append_left _ (List.mem_append_left _ hft))
  · have hhealthy : id ∈ active.filter fun id =>
        !(plan active failed tracked).failedTemps.contains id := by
      rw [List.mem_filter]
      exact ⟨h, by simpa using hft⟩
    rw [← List.take_append_drop (min (failed.filter fun id => !tracked.contains id).length
      (active.filter fun id => !(plan active failed tracked).failedTemps.contains id).length)
        (active.filter fun id => !(plan active failed tracked).failedTemps.contains id),
      List.mem_append] at hhealthy
    exact hhealthy.symm.imp_left (List.mem_append_right _)

end Settlement

namespace Replacement

open Settlement

variable {config : ReplacementSettings} {raises : Fault → Prop} {event e : UpgradeEvent}
  {s : Store} {w v : World} {now : Instant} {j : Journal World} {cluster : String}
  {gone ids : List HostId} {ts : List Termination} {as : List Attachment}

/-! ## The world on the way -/

/-- The world after some terminations and attachments, with a version of the event stored. -/
def settlingWorld (w : World) (s : Store) (e : UpgradeEvent) (gone : List HostId)
    (ts : List Termination) (as : List Attachment) : World :=
  { w with
    store := some ((s.setHostState w.clock gone .terminating).putItem .upgrade e)
    provider := { w.provider with
      hosts := (w.provider.retire gone).hosts
      terminations := w.provider.terminations ++ ts
      attachments := w.provider.attachments ++ as } }

theorem settlingWorld_start (hs : w.store = some s) (he : s.getItem .upgrade e.id = some e) :
    settlingWorld w s e [] [] [] = w := by
  rw [settlingWorld, List.append_nil, List.append_nil]
  have hstore : (s.setHostState w.clock [] .terminating).putItem .upgrade e = s :=
    Store.putItem_self he
  rw [hstore, ← hs]
  rfl

theorem eq_of_update_settling {e' : UpgradeEvent} {u : Unit} (hid : e'.id = e.id)
    (h : World.answer (.store (.updateItem .upgrade e')) (settlingWorld w s e gone ts as) =
      (.ok u, v)) : v = settlingWorld w s e' gone ts as := by
  rw [World.eq_of_update rfl h, Store.putItem_putItem _ hid]
  rfl

/-- A termination is made at the provider first and recorded in the tables after. -/
theorem eq_of_terminate_settling {drain : Bool} {u u' : Unit} {v' : World}
    (h : World.answer (.provider (.terminateHosts cluster ids drain))
      (settlingWorld w s e gone ts as) = (.ok u, v))
    (h' : World.answer (.store (.setHostState ids .terminating)) v = (.ok u', v')) :
    v' = settlingWorld w s e (gone ++ ids) (ts ++ [⟨cluster, ids, drain⟩]) as := by
  obtain rfl := World.eq_of_terminateHosts h
  have hhosts : ((settlingWorld w s e gone ts as).provider.retire ids).hosts =
      (w.provider.retire (gone ++ ids)).hosts := by
    have hsame : (settlingWorld w s e gone ts as).provider.hosts =
        (w.provider.retire gone).hosts := rfl
    rw [Provider.retire_append, Provider.hosts_retire hsame]
  rw [World.eq_of_setHostState rfl h', Provider.retire_eq, hhosts]
  simp only [settlingWorld, World.withStore, s.setHostState_append, List.append_assoc]
  rfl

theorem eq_of_attach_settling {u : Unit}
    (h : World.answer (.provider (.attachToPool ids cluster)) (settlingWorld w s e gone ts as) =
      (.ok u, v)) : v = settlingWorld w s e gone ts (as ++ [⟨cluster, ids⟩]) := by
  cases h
  simp only [settlingWorld, Provider.attachToPool, List.append_assoc]

/-! ## The phases of the step -/

/-- A version of the event with other tracked hosts is stored, and the world has changed only by
some terminations and attachments. -/
structure Settling (w : World) (s : Store) (event : UpgradeEvent) (gone : List HostId)
    (ts : List Termination) (as : List Attachment) (e : UpgradeEvent) (j : Journal World) :
    Prop where
  retracks : Retracks event e
  state : j.state = settlingWorld w s e gone ts as

theorem Settling.start (hs : w.store = some s) (he : s.getItem .upgrade event.id = some event)
    (hj : j.state = w) : Settling w s event [] [] [] event j :=
  ⟨.refl event, hj.trans (settlingWorld_start hs he).symm⟩

/-- Looking changes nothing. -/
theorem Settling.look {α : Type} {c : Call} {a : c.Reply} {f : c.Reply → Program α}
    {Q : α → Journal World → Prop} (h : Settling w s event gone ts as e j)
    (ha : World.answer c (settlingWorld w s e gone ts as) =
      (.ok a, settlingWorld w s e gone ts as))
    (hf : ∀ j', Settling w s event gone ts as e j' → (f a).Smooth raises Q j') :
    ((perform c).bind f).Smooth raises Q j := by
  rw [← h.state] at ha
  exact .next ha (hf _ ⟨h.retracks, h.state⟩)

/-- Storing the event with other tracked hosts. -/
theorem smooth_retrack (h : Settling w s event gone ts as e j) (kept : IdSet) :
    (ask (.updateItem .upgrade (e.withHostIds kept))).Smooth raises
      (fun _ => Settling w s event gone ts as (e.withHostIds kept)) j := by
  refine smooth_perform fun u v ha => ⟨h.retracks.withHostIds kept, ?_⟩
  rw [h.state] at ha
  exact eq_of_update_settling (e := e) rfl ha

theorem smooth_terminate {drain : Bool} (h : Settling w s event gone ts as e j) :
    (terminate cluster ids drain).Smooth raises (fun _ =>
      Settling w s event (gone ++ ids) (ts ++ [⟨cluster, ids, drain⟩]) as e) j := by
  refine .bind (smooth_perform (Q := fun u j' => World.answer
    (.provider (.terminateHosts cluster ids drain)) (settlingWorld w s e gone ts as) =
      (.ok u, j'.state)) ?_) ?_
  · intro u v ha
    rwa [h.state] at ha
  · intro u j₁ h₁ _
    exact smooth_perform fun u' v ha => ⟨h.retracks, eq_of_terminate_settling h₁ ha⟩

theorem smooth_untrack (h : Settling w s event gone ts as e j) (ids : List HostId) :
    (untrack e ids).Smooth raises (fun e' => Settling w s event gone ts as e') j :=
  .bind (smooth_retrack h _) fun _ _ h₁ _ => h₁

theorem smooth_keepRunning (active : List HostId) (h : Settling w s event gone ts as e j) :
    (keepRunning e active).Smooth raises (fun e' => Settling w s event gone ts as e') j := by
  rw [keepRunning]
  split
  · exact h
  · exact .bind (smooth_retrack h _) fun _ _ h₁ _ => h₁

theorem smooth_discardFailed (failedTemps : List HostId)
    (h : Settling w s event gone ts as e j) :
    (discardFailed cluster e failedTemps).Smooth raises (fun e' =>
      Settling w s event (gone ++ failedTemps)
        (ts ++ requested [⟨cluster, failedTemps, true⟩]) as e') j := by
  rw [discardFailed]
  split
  · rename_i hnone
    obtain rfl := List.isEmpty_iff.mp hnone
    have hts : ts ++ requested [⟨cluster, [], true⟩] = ts := List.append_nil ts
    rw [List.append_nil, hts]
    exact h
  · rename_i hsome
    have hts : requested [⟨cluster, failedTemps, true⟩] = [⟨cluster, failedTemps, true⟩] := by
      simp [requested, hsome]
    rw [hts]
    exact .bind (smooth_terminate h) fun _ _ h₁ _ => smooth_untrack h₁ failedTemps

theorem smooth_swapIn {swaps : Nat} {healthy failedPool : List HostId}
    (hhealthy : swaps ≤ healthy.length) (hfailed : swaps ≤ failedPool.length)
    (h : Settling w s event gone ts as e j) :
    (swapIn cluster e swaps healthy failedPool).Smooth raises (fun e' =>
      Settling w s event (gone ++ failedPool.take swaps)
        (ts ++ requested [⟨cluster, failedPool.take swaps, false⟩])
        (as ++ made [⟨cluster, healthy.take swaps⟩]) e') j := by
  rw [swapIn]
  split
  · rename_i hnone
    subst hnone
    have hts : ts ++ requested [⟨cluster, failedPool.take 0, false⟩] = ts := List.append_nil ts
    have has : as ++ made [⟨cluster, healthy.take 0⟩] = as := List.append_nil as
    have hgone : gone ++ failedPool.take 0 = gone := List.append_nil gone
    rw [hts, has, hgone]
    exact h
  · rename_i hsome
    have hts : requested [⟨cluster, failedPool.take swaps, false⟩] =
        [⟨cluster, failedPool.take swaps, false⟩] := by
      have hne : failedPool.take swaps ≠ [] := by
        rw [← List.length_pos_iff, List.length_take]
        omega
      simp [requested, hne]
    have has : made [⟨cluster, healthy.take swaps⟩] = [⟨cluster, healthy.take swaps⟩] := by
      have hne : healthy.take swaps ≠ [] := by
        rw [← List.length_pos_iff, List.length_take]
        omega
      simp [made, hne]
    rw [hts, has]
    refine .bind (smooth_perform (Q := fun _ =>
      Settling w s event gone ts (as ++ [⟨cluster, healthy.take swaps⟩]) e) ?_) ?_
    · intro u v ha
      rw [h.state] at ha
      exact ⟨h.retracks, eq_of_attach_settling ha⟩
    · intro _ j₁ h₁ _
      refine .bind (smooth_untrack h₁ _) fun e' j₂ h₂ _ => ?_
      exact .bind (smooth_terminate h₂) fun _ j₃ h₃ _ => h₃

theorem smooth_terminateSurplus (surplus : List HostId) (h : Settling w s event gone ts as e j) :
    (terminateSurplus cluster surplus).Smooth raises (fun _ =>
      Settling w s event (gone ++ surplus)
        (ts ++ requested [⟨cluster, surplus, true⟩]) as e) j := by
  rw [terminateSurplus]
  split
  · rename_i hsome
    have hts : requested [⟨cluster, surplus, true⟩] = [⟨cluster, surplus, true⟩] := by
      simpa [requested] using hsome
    rw [hts]
    exact smooth_terminate h
  · rename_i hnone
    obtain rfl : surplus = [] := by simpa using hnone
    have hts : ts ++ requested [⟨cluster, [], true⟩] = ts := List.append_nil ts
    rw [List.append_nil, hts]
    exact h

/-- The plan for the tracked hosts of an event. -/
abbrev settlement (w : World) (s : Store) (event : UpgradeEvent) : Settlement :=
  plan (event.hostIds.toList.filter w.provider.isRunning) (s.failedHostIds event.cluster)
    event.hostIds.toList

/-- A smooth reconciliation carries out the plan and leaves no host tracked. -/
theorem smooth_reconcile (h : Settling w s event [] [] [] event j) :
    (reconcile event).Smooth raises (fun changed j' => changed = event.withHostIds .empty ∧
      ∃ e, Settling w s event (settlement w s event).gone
        ((settlement w s event).terminations event.cluster)
        ((settlement w s event).attachments event.cluster) e j') j := by
  rw [reconcile_eq]
  refine h.look (a := event.hostIds.toList.filter w.provider.isRunning) rfl fun j₀ h₀ => ?_
  refine .bind (smooth_keepRunning _ h₀) fun e₁ j₁ h₁ _ => ?_
  refine h₁.look (a := s.failedHostIds event.cluster) rfl fun j₂ h₂ => ?_
  refine .bind (smooth_discardFailed _ h₂) fun e₃ j₃ h₃ _ => ?_
  refine .bind (smooth_swapIn (Nat.min_le_right _ _) (Nat.min_le_left _ _) h₃)
    fun e₄ j₄ h₄ _ => ?_
  refine .bind (smooth_terminateSurplus _ h₄) fun _ j₅ h₅ _ => ⟨?_, e₄, ?_⟩
  · obtain ⟨ids, hids⟩ := h₅.retracks
    rw [hids]
    rfl
  · rw [terminations_eq]
    exact h₅

/-- A smooth step in COMPLETING of an event with tracked hosts, with capacity to spare. -/
theorem smooth_completing (h : Settling w s event [] [] [] event j)
    (hsome : event.hostIds ≠ .empty)
    (hspare : w.provider.poolSize event.cluster < s.countServing event.envId) :
    (completing event).Smooth raises (fun result j' =>
      result = (event.withHostIds .empty, .keepStatus .completed) ∧
      ∃ e, Retracks event e ∧ j'.state = (settlingWorld w s e (settlement w s event).gone
        ((settlement w s event).terminations event.cluster)
        ((settlement w s event).attachments event.cluster)).withStore
          (let s' := (s.setHostState w.clock (settlement w s event).gone .terminating).putItem
            .upgrade e
          { s' with clusters := s'.clusters.modify event.cluster fun c =>
              { c with state := .normal, lastUpdate := w.clock } })) j := by
  have hdue : (event.hostIds.isEmpty || decide (s.countServing event.envId ≤
      w.provider.poolSize event.cluster)) = false := by
    have hids : event.hostIds.isEmpty = false :=
      Bool.eq_false_iff.mpr (mt IdSet.isEmpty_iff.mp hsome)
    rw [hids, Bool.false_or, decide_eq_false_iff_not]
    omega
  rw [completing_eq]
  refine h.look (a := s.countServing event.envId) rfl fun j₁ h₁ => ?_
  refine h₁.look (a := w.provider.poolSize event.cluster) rfl fun j₂ h₂ => ?_
  rw [reconcileIfDue, hdue]
  refine .bind (smooth_reconcile h₂) ?_
  rintro _ j₃ ⟨rfl, e, h₃⟩ -
  refine .bind (smooth_perform (Q := fun _ j' => j'.state = _) fun u v ha => ?_)
    fun _ j₄ h₄ _ => ⟨rfl, e, h₃.retracks, h₄⟩
  rw [h₃.state] at ha
  exact World.eq_of_setClusterState rfl ha

/-- The event after its reconciliation. -/
abbrev reconciled (event : UpgradeEvent) (now : Instant) : UpgradeEvent :=
  { event.withHostIds .empty with
    state := UpgradeState.completed
    header := { event.header with stateStartTime := now, lastWorkedOn := now } }

/-- The world after a plan was carried out and the cluster given back. -/
def settledWorld (w : World) (s : Store) (event : UpgradeEvent) (now : Instant)
    (p : Settlement) : World :=
  { w with
    store := some { s with
      events := s.events.insert event.id (reconciled event now)
      clusters := s.clusters.modify event.cluster fun c =>
        { c with state := .normal, lastUpdate := w.clock }
      hosts := (s.setHostState w.clock p.gone .terminating).hosts }
    provider := { w.provider with
      hosts := (w.provider.retire p.gone).hosts
      terminations := w.provider.terminations ++ p.terminations event.cluster
      attachments := w.provider.attachments ++ p.attachments event.cluster } }

/-- What a smooth tick in COMPLETING makes of the world: the plan is carried out, and the event
is stored as done. -/
theorem smooth_settle (h : Due config event now w s)
    (hst : event.state = UpgradeState.completing) (hsome : event.hostIds ≠ .empty)
    (hspare : w.provider.poolSize event.cluster < s.countServing event.envId) :
    ((lifecycle config).advance event.id now).Smooth raises (fun progress j' =>
      progress = .transitioned UpgradeState.completing UpgradeState.completed ∧
      j'.state = settledWorld w s event now (settlement w s event)) (.start w) := by
  have hopen : event.state ≠ UpgradeState.completed := by simp [hst]
  refine smooth_advance h hopen fun j hj _ => smooth_takeStep ?_
  have hstep : (lifecycle config).step event now = completing event := by
    simp only [lifecycle, step, hst]
  rw [hstep]
  refine (smooth_completing (.start h.store h.stored hj) hsome hspare).imp ?_
  rintro _ j₁ ⟨rfl, e, ⟨ids, rfl⟩, h₁⟩
  refine ⟨_, by rw [h₁], by rw [hst]; rfl, ?_⟩
  -- of the versions of the event only the last remains
  have hevents : (s.events.insert event.id (event.withHostIds ids)).insert event.id
      (reconciled event now) = s.events.insert event.id (reconciled event now) :=
    Table.insert_insert _ _ _ _
  rw [settledWorld, ← hevents, Journal.enter, h₁]
  rfl

/-- A tick of an event in COMPLETING with tracked hosts in which no call fails and nobody
interferes, with capacity to spare. Every tracked host that runs is attached or terminated and
never both. Failed ones are terminated, each failed host of the pool is terminated for a healthy
one that is attached, as long as there are any, and the other healthy ones are terminated. The
event is done and tracks nothing, and its cluster is given back. Nothing else changes but the
records of the hosts that were terminated. -/
theorem settles_tracked_hosts (raises : Fault → Prop) {r : Outcome (Progress UpgradeState)}
    (h : Due config event now w s) (hst : event.state = UpgradeState.completing)
    (hsome : event.hostIds ≠ .empty)
    (hspare : w.provider.poolSize event.cluster < s.countServing event.envId)
    (he : ((lifecycle config).advance event.id now).Ends
      (World.Possible Eq raises).flawless.recorded (.start w) r j) :
    ∃ A F : List HostId, A.Pairwise (· < ·) ∧
      (∀ id, id ∈ A ↔ id ∈ event.hostIds ∧ w.provider.isRunning id = true) ∧
      F.Pairwise (· < ·) ∧
      (∀ id, id ∈ F ↔ (∃ host, s.hosts.get? id = some host ∧
        Store.StaysIn event.cluster host) ∧ s.hasFailedAgent id = true) ∧
      let FT := F.filter fun id => A.contains id
      let FP := F.filter fun id => decide (id ∉ event.hostIds)
      let H := A.filter fun id => !FT.contains id
      let k := min FP.length H.length
      let gone := FT ++ FP.take k ++ H.drop k
      let c := event.cluster
      (gone ++ H.take k).Nodup ∧ (∀ id ∈ A, id ∈ H.take k ↔ id ∉ gone) ∧
      (∀ id ∈ FP.take k, id ∉ event.hostIds) ∧ (H.take k).length = (FP.take k).length ∧
      r = .ok (.transitioned UpgradeState.completing UpgradeState.completed) ∧
      ∃ s' hosts, j.state = { w with
          store := some s'
          provider := { w.provider with
            hosts := hosts
            terminations := w.provider.terminations ++
              requested [⟨c, FT, true⟩, ⟨c, FP.take k, false⟩, ⟨c, H.drop k, true⟩]
            attachments := w.provider.attachments ++ made [⟨c, H.take k⟩] } } ∧
        (∀ id, hosts.get? id =
          if id ∈ gone then (w.provider.hosts.get? id).map fun host =>
            { host with terminated := true }
          else w.provider.hosts.get? id) ∧
        s' = { s with
          events := s.events.insert event.id { event with
            state := UpgradeState.completed
            details := ⟨.empty⟩
            header := { event.header with stateStartTime := now, lastWorkedOn := now } }
          clusters := s.clusters.modify c fun cluster =>
            { cluster with state := .normal, lastUpdate := w.clock }
          hosts := s'.hosts } ∧
        ∀ id, s'.hosts.get? id =
          if id ∈ gone then (s.hosts.get? id).map fun host =>
            { host with state := .terminating, lastUpdate := w.clock }
          else s.hosts.get? id := by
  obtain ⟨progress, rfl, rfl, hstate⟩ := (smooth_settle h hst hsome hspare).ends he
  have hactive := event.hostIds.sorted.filter (p := w.provider.isRunning)
  have hfailed := s.sorted_listed h.keyed.hosts event.cluster fun host => s.hasFailedAgent host.id
  have hsub : event.hostIds.toList.filter w.provider.isRunning ⊆ event.hostIds.toList :=
    List.filter_subset_self _
  -- the lists of the statement are those of the plan
  refine ⟨_, s.failedHostIds event.cluster, hactive, fun id => List.mem_filter, hfailed,
    fun id => ?_, ?_⟩
  · rw [Store.failedHostIds, Store.mem_listed h.keyed.hosts]
    constructor
    · rintro ⟨host, hget, hstays, hf⟩
      exact ⟨⟨host, hget, hstays⟩, h.keyed.hosts id host hget ▸ hf⟩
    · rintro ⟨⟨host, hget, hstays⟩, hf⟩
      exact ⟨host, hget, hstays, (h.keyed.hosts id host hget).symm ▸ hf⟩
  · have hpool : (fun id => decide (id ∉ event.hostIds)) =
        fun id => !event.hostIds.toList.contains id := by
      funext id
      simp
    rw [hpool]
    have hnodup : ((settlement w s event).gone ++ (settlement w s event).attached).Nodup :=
      nodup_plan (event.hostIds.nodup.filter _) (Store.nodup_failedHostIds h.keyed.hosts _) hsub
    refine ⟨hnodup, fun id hid => ⟨fun hin hout => ?_, fun hout => ?_⟩,
      fun id hid => not_tracked_of_replaced hid, length_attached _ _ _, rfl, _, _, hstate,
      Provider.get?_retire _ _, rfl, Store.get?_setHostState _ _ _ _⟩
    · exact (List.nodup_append.mp hnodup).2.2 id hout id hin rfl
    · exact (mem_of_active hid).resolve_left hout

/-- An event in COMPLETING with four tracked hosts. -/
def settlingEvent : UpgradeEvent :=
  { (UpgradeEvent.new "event" "web" "prod" .epoch).withHostIds (.ofList ["t", "u", "v", "x"]) with
    state := UpgradeState.completing }

/-- A cluster with a failed host and a serving one in its pool. Of its tracked hosts one has
failed, two serve, and one is gone. -/
def swappingPool : World :=
  let host (id : HostId) : Host := ⟨id, "web", .running, false, .epoch, .epoch⟩
  let agent (id : HostId) (stage : DeployStage) (status : AgentStatus) : Agent :=
    ⟨id, "prod", stage, status, .normal, none, none, .epoch⟩
  let cluster : Cluster := ⟨"web", "prod", .normal, none, 0, ⟨[], [], none⟩, .epoch⟩
  let hosts := ["a", "b", "t", "u", "v"].foldl (fun s id => s.insertHost (host id)) Store.empty
  let agents := [agent "a" .restarting .agentFailed, agent "b" .servingBuild .succeeded,
    agent "t" .restarting .agentFailed, agent "u" .servingBuild .succeeded,
    agent "v" .servingBuild .succeeded].foldl Store.putAgent hosts
  let store := agents.putItem .upgrade settlingEvent
  { World.initial .epoch (.seeded 0) with
    store := some { store with clusters := store.clusters.insert cluster.name cluster }
    provider := ["a", "b", "t", "u", "v"].foldl (fun p id => p.addHost "web" id)
      (Provider.empty.setPoolSize "web" 1) }

theorem keyed_swappingPool : swappingPool.tables.Keyed := by
  refine .insertCluster (.putItem ?_ _ _) _
  refine .putAgent (.putAgent (.putAgent (.putAgent (.putAgent ?_ _) _) _) _) _
  exact .insertHost (.insertHost (.insertHost (.insertHost (.insertHost Store.keyed_empty _) _)
    _) _) _

/-- One tracked host takes the place of the failed host of the pool. The others that run are
terminated. -/
theorem settles_tracked_hosts_swappingPool :
    Due {} settlingEvent .epoch swappingPool swappingPool.tables ∧
    ∃ r j s', ((lifecycle {}).advance settlingEvent.id .epoch).Ends
        (World.Possible Eq fun _ => False).flawless.recorded (.start swappingPool) r j ∧
      r = .ok (.transitioned UpgradeState.completing UpgradeState.completed) ∧
      j.state.provider.terminations =
        [⟨"web", ["t"], true⟩, ⟨"web", ["a"], false⟩, ⟨"web", ["v"], true⟩] ∧
      j.state.provider.attachments = [⟨"web", ["u"]⟩] ∧
      j.state.store = some s' ∧ s'.agents = swappingPool.tables.agents := by
  have hdue : Due {} settlingEvent .epoch swappingPool swappingPool.tables :=
    ⟨rfl, keyed_swappingPool, rfl, ⟨_, rfl, by decide⟩, ⟨_, rfl, by decide⟩⟩
  have he := ends_smooth (fun _ => False)
    (p := (lifecycle {}).advance settlingEvent.id .epoch) (w := swappingPool) (by decide +kernel)
  obtain ⟨A, F, -, -, -, -, -, -, -, -, hr, s', hosts, hstate, -, hs', -⟩ :=
    settles_tracked_hosts _ hdue rfl (by decide) (by decide +kernel) he
  refine ⟨hdue, _, _, s', he, hr, by decide +kernel, by decide +kernel, ?_, ?_⟩
  · rw [hstate]
  · rw [hs']

end Replacement

end FleetControl
