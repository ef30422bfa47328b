import FleetControl.Proofs.Leaving
import FleetControl.Proofs.Pause

/-!
# How hosts age

The record of a host moves on from one state to the next, and nothing else of it changes but the
date of the last change. Calls put hosts into a state without looking at the one they are in.
So there is a condition for each call to let all hosts of a store age, and a rule of what may
become of their records: each ages, or is forgotten by the termination controller.
-/
namespace FleetControl

open Program

/-- How far a host is in its life. -/
def HostState.rank : HostState → Nat
  | .provisioned => 0
  | .running => 1
  | .pendingTerminate => 2
  | .terminating => 3

theorem HostState.rank_le_terminating (s : HostState) : s.rank ≤ HostState.terminating.rank := by
  cases s <;> decide

theorem HostState.rank_le_pendingTerminate {s : HostState} (h : s.isLeaving = false) :
    s.rank ≤ HostState.pendingTerminate.rank := by
  cases s <;> first | decide | cases h

/-- A later record of the same host. -/
structure Host.Ages (host later : Host) : Prop where
  id : later.id = host.id
  cluster : later.cluster = host.cluster
  retirable : later.retirable = host.retirable
  createdAt : later.createdAt = host.createdAt
  rank : host.state.rank ≤ later.state.rank

namespace Host.Ages

variable {a b c : Host}

theorem refl (a : Host) : a.Ages a := ⟨rfl, rfl, rfl, rfl, Nat.le_refl _⟩

theorem trans (h : a.Ages b) (h' : b.Ages c) : a.Ages c :=
  ⟨h'.id.trans h.id, h'.cluster.trans h.cluster, h'.retirable.trans h.retirable,
    h'.createdAt.trans h.createdAt, Nat.le_trans h.rank h'.rank⟩

theorem advance (a : Host) {state : HostState} (now : Instant) (h : a.state.rank ≤ state.rank) :
    a.Ages { a with state := state, lastUpdate := now } :=
  ⟨rfl, rfl, rfl, rfl, h⟩

end Host.Ages

/-! ## Calls that let hosts age -/

namespace Call

/-- Whether a call puts no host of a store back and drops none. -/
def LetsAge (s : Store) : Call → Prop
  | .store (.insertHost host) => s.hosts.contains host.id = false
  | .store (.setHostState _ state) => state = .terminating
  | .store (.drainHosts _ ids) => ∀ id ∈ ids, s.isStaying id = true
  | .store (.deleteHost _) => False
  | _ => True

/-- Whether a call puts no host back, whatever the store. -/
def isGentle : Call → Bool
  | .store (.insertHost _) | .store (.drainHosts _ _) | .store (.deleteHost _) => false
  | .store (.setHostState _ state) => state == .terminating
  | _ => true

variable {c : Call}

theorem letsAge_of_isGentle (h : c.isGentle = true) (s : Store) : c.LetsAge s := by
  unfold LetsAge
  split
  · cases h
  · exact beq_iff_eq.mp h
  · cases h
  · cases h
  · trivial

theorem isGentle_of_isRead (h : c.isRead = true) : c.isGentle = true := by
  unfold isGentle
  split <;> first | rfl | cases h

theorem isGentle_of_locks (h : c.isLockless = false) : c.isGentle = true := by
  cases c <;> first | rfl | cases h

end Call

namespace Store

variable {s s' : Store} {clock : Outcome Instant} {c : StoreCall} {id : HostId}

/-- Every record of a host has a later one. -/
def Ages (s s' : Store) : Prop := ∀ id host, s.hosts.get? id = some host →
  ∃ later, s'.hosts.get? id = some later ∧ host.Ages later

theorem Ages.of_hosts (h : s'.hosts = s.hosts) : s.Ages s' :=
  fun _ host hget => ⟨host, by rw [h, hget], .refl host⟩

theorem ages_setHostState {now : Instant} {ids : List HostId} {state : HostState}
    (h : ∀ id ∈ ids, ∀ host, s.hosts.get? id = some host → host.state.rank ≤ state.rank) :
    s.Ages (s.setHostState now ids state) := by
  intro id host hget
  rw [get?_setHostState]
  split
  · rename_i hid
    exact ⟨_, by rw [hget]; rfl, .advance host now (h id hid host hget)⟩
  · exact ⟨host, hget, .refl host⟩

/-- What such a call makes of a store. -/
theorem Effect.ages (h : Effect s clock c s') (hc : (Call.store c).LetsAge s) : s.Ages s' := by
  cases h with
  | @insertItem k => cases k <;> exact .of_hosts rfl
  | @updateItem k => cases k <;> exact .of_hosts rfl
  | insertHost new =>
      intro id host hget
      have hne : id ≠ new.id := by
        rintro rfl
        have hnone : s.hosts.contains new.id = false := hc
        rw [Table.contains, hget] at hnone
        cases hnone
      exact ⟨host, (Table.get?_insert_of_ne _ _ hne).trans hget, .refl host⟩
  | setHostState =>
      obtain rfl : _ = HostState.terminating := hc
      exact ages_setHostState fun _ _ host _ => host.state.rank_le_terminating
  | @drainHosts env ids now =>
      have hages : s.Ages (s.setHostState now ids .pendingTerminate) := by
        refine ages_setHostState fun id hid host hget => ?_
        have hstays : s.isStaying id = true := hc id hid
        rw [Store.isStaying, hget] at hstays
        exact HostState.rank_le_pendingTerminate (by simpa using hstays)
      intro id host hget
      rw [hosts_drainHosts]
      exact hages id host hget
  | deleteHost => exact hc.elim
  | _ => exact .of_hosts rfl

/-- Forgetting a host leaves no trace of it, and all other hosts as they are. -/
theorem deleteHost_cases {host : Host} (forgotten : HostId) (h : s.hosts.get? id = some host) :
    (s.deleteHost forgotten).hosts.get? id = some host ∨ (id = forgotten ∧
      (s.deleteHost forgotten).hosts.get? id = none ∧
        (s.deleteHost forgotten).agentsOn id = []) := by
  by_cases hid : id = forgotten
  · subst hid
    refine .inr ⟨rfl, Table.get?_erase_self _ _, ?_⟩
    rw [agentsOn, deleteHost, Table.get?_erase_self]
    rfl
  · left
    rw [deleteHost, Table.get?_erase, if_neg hid, h]

theorem Effect.eq_of_isRead (h : Effect s clock c s') (hc : c.isRead = true) : s' = s := by
  cases h <;> first | rfl | cases hc

end Store

namespace World.Possible

variable {raises : Fault → Prop} {w w' : World} {c : Call} {r : Outcome c.Reply} {s s' : Store}

/-- A store that is there after a call was there before it. -/
theorem exists_store (hb : World.Possible World.SameStore raises c w r w')
    (hs' : w'.store = some s') : ∃ s, w.store = some s := by
  rcases hb.store_cases fun _ hv => hv with hs | ⟨q, rfl, heffect⟩
  · exact ⟨s', hs.symm.trans hs'⟩
  · obtain ⟨s, clock, hs, -⟩ := heffect s' hs'
    exact ⟨s, hs⟩

theorem keyed (hb : World.Possible World.SameStore raises c w r w') (hk : w.tables.Keyed) :
    w'.tables.Keyed := by
  refine hb.preserves (I := fun w => w.tables.Keyed) (fun v hv h => ?_)
    (fun v hv => World.keyed_answer hv c) hk
  rwa [World.tables, hv]

theorem ages (hb : World.Possible World.SameStore raises c w r w') (hs : w.store = some s)
    (hs' : w'.store = some s') (hc : c.LetsAge s) : s.Ages s' := by
  rcases hb.store_cases fun _ hv => hv with hsame | ⟨q, rfl, heffect⟩
  · refine .of_hosts ?_
    rw [Option.some.inj ((hs'.symm.trans hsame).trans hs)]
  · obtain ⟨s₀, clock, hs₀, he⟩ := heffect s' hs'
    cases hs.symm.trans hs₀
    exact he.ages hc

end World.Possible

/-! ## The rule of ages -/

namespace Entry

/-- The hosts that the provider reported terminated. -/
def gone : Entry World → List HostId
  | ⟨_, .provider (.listTerminated _), .ok ids, _⟩ => ids.toList
  | _ => []

/-- Whether the hosts that were launched were not recorded before. -/
def LaunchesNew (e : Entry World) : Prop :=
  ∀ id ∈ e.launched, e.before.tables.hosts.contains id = false

/-- A host on its way out is forgotten, with all its agents, after the provider has reported it
terminated. -/
structure Forgets (name : String) (past : List (Entry World)) (e : Entry World) (id : HostId)
    (host : Host) (left : Store) : Prop where
  controller : name = Decommission.controller.name
  call : e.call = .store (.deleteHost id)
  leaving : host.state.isLeaving = true
  reported : ∃ report, past.head? = some report ∧ id ∈ report.gone
  unrecorded : left.hosts.get? id = none
  agentless : left.agentsOn id = []

end Entry

/-- What becomes of the records of hosts in a pass of a controller: the host of each one ages,
or is forgotten. -/
def ages (name : String) : Rule World := fun past e => ∀ s s', e.before.store = some s →
  e.after.store = some s' → ∀ id host, s.hosts.get? id = some host →
    (∃ later, s'.hosts.get? id = some later ∧ host.Ages later) ∨ e.Forgets name past id host s'

/-- The rule as long as nothing is launched under the id of a recorded host. -/
def agesIfNew (name : String) : Rule World := fun past e =>
  (∀ a ∈ past, a.LaunchesNew) → ages name past e

/-- The rule in a run of several controllers. -/
theorem admits_ages {log : List (Entry World)}
    (h : Rule.Admits (fun past e => ∃ name, agesIfNew name past e) log)
    (hnew : ∀ e ∈ log, e.LaunchesNew) :
    Rule.Admits (fun past e => ∃ name, ages name past e) log := by
  induction log with
  | nil => trivial
  | cons e past ih =>
      have hpast : ∀ a ∈ past, a.LaunchesNew := fun a ha => hnew a (List.mem_cons_of_mem _ ha)
      obtain ⟨name, hage⟩ := h.1
      exact ⟨⟨name, hage hpast⟩, ih h.2 hpast⟩

section

variable {raises : Fault → Prop} {name : String} {α : Type} {j : Journal World} {c : Call}
  {ids kept : List HostId}

/-- Keeping the rule of ages in well-keyed tables. -/
abbrev Lives (name : String) (raises : Fault → Prop) (Q : α → Journal World → Prop)
    (p : Program α) (j : Journal World) : Prop :=
  p.Follows (World.Possible World.SameStore raises) (agesIfNew name)
    (fun j' => j'.state.tables.Keyed) Q j

/-- Keeping the rule, with well-keyed tables at the end as well. -/
abbrev LivesOn (name : String) (raises : Fault → Prop) (p : Program α) (j : Journal World) : Prop :=
  Lives name raises (fun _ j' => j'.state.tables.Keyed) p j

theorem agesIfNew_of_letsAge {r : Outcome c.Reply} {w : World}
    (hb : World.Possible World.SameStore raises c j.state r w)
    (hc : (∀ a ∈ j.log, a.LaunchesNew) → ∀ s, j.state.store = some s → c.LetsAge s) :
    agesIfNew name j.log ⟨j.state, c, r, w⟩ :=
  fun hnew s _ hs hs' id host hget => .inl (hb.ages hs hs' (hc hnew s hs) id host hget)

theorem lives_perform {Q : c.Reply → Journal World → Prop} (hj : j.state.tables.Keyed)
    (hc : (∀ a ∈ j.log, a.LaunchesNew) → ∀ s, j.state.store = some s → c.LetsAge s)
    (hQ : ∀ a w, World.Possible World.SameStore raises c j.state (.ok a) w → w.tables.Keyed →
      Q a (j.enter c (.ok a) w)) : Lives name raises Q (perform c) j := by
  refine follows_perform.mpr fun r w hb => ⟨agesIfNew_of_letsAge hb hc, ?_⟩
  cases r with
  | ok a => exact hQ a w hb (hb.keyed hj)
  | error f => exact hb.keyed hj

theorem gentle_entry (j : Journal World) (c : Call) (r : Outcome c.Reply) (w : World)
    (hc : c.isGentle = true) (hj : j.state.tables.Keyed)
    (hb : World.Possible World.SameStore raises c j.state r w) :
    agesIfNew name j.log ⟨j.state, c, r, w⟩ ∧ (j.enter c r w).state.tables.Keyed :=
  ⟨agesIfNew_of_letsAge hb fun _ s _ => Call.letsAge_of_isGentle hc s, hb.keyed hj⟩

/-- Programs whose calls put no host back. -/
theorem lives_of_gentle {p : Program α} (h : p.Only (·.isGentle = true))
    (hj : j.state.tables.Keyed) :
    LivesOn name raises p j :=
  (h.follows gentle_entry hj).imp fun _ _ hq => hq.2

/-! ## Hosts that stay -/

/-- Some hosts are known and not on their way out, in well-keyed tables. -/
structure World.Keeps (ids : List HostId) (w : World) : Prop where
  keyed : w.tables.Keyed
  staying : ∀ s, w.store = some s → ∀ id ∈ ids, s.isStaying id = true

theorem World.Keeps.nothing {w : World} (h : w.tables.Keyed) : w.Keeps [] :=
  ⟨h, by simp⟩

/-- Looking for something changes no host. -/
theorem lives_look (hc : c.isRead = true) (h : j.state.Keeps ids) :
    Lives name raises (fun _ j' => j'.state.Keeps ids) (perform c) j := by
  refine lives_perform h.keyed (fun _ s _ => Call.letsAge_of_isGentle
    (Call.isGentle_of_isRead hc) s) fun a w hb hk => ⟨hk, fun s' hs' => ?_⟩
  rcases hb.store_cases fun _ hv => hv with hsame | ⟨q, rfl, heffect⟩
  · exact h.staying s' (hsame.symm.trans hs')
  · obtain ⟨s, clock, hs, he⟩ := heffect s' hs'
    rw [he.eq_of_isRead hc]
    exact h.staying s hs

/-- What is listed of a cluster stays for the time being. -/
theorem lives_list {q : StoreCall} (hq : q.isRead = true) (toIds : q.Reply → List HostId)
    (hlisted : ∀ (s : Store) (clock : Outcome Instant) (a : q.Reply), s.Keyed →
      (s.answer clock q).1 = .ok a → ∀ id ∈ toIds a, s.isStaying id = true)
    (h : j.state.Keeps ids) : Lives name raises
      (fun a j' => j'.state.Keeps (toIds a) ∧ j'.state.Keeps ids) (ask q) j := by
  have hlook : Lives name raises (fun _ j' => j'.state.Keeps ids) (ask q) j := lives_look hq h
  refine follows_perform.mpr fun r w hb => ?_
  obtain ⟨hage, hend⟩ := follows_perform.mp hlook r w hb
  refine ⟨hage, ?_⟩
  cases r with
  | error f => exact hend
  | ok a =>
      refine ⟨⟨hend.keyed, fun s hs => ?_⟩, hend⟩
      obtain ⟨t, clock, ht, ht', ha⟩ := hb.store_of_isRead (fun _ hv => hv) hq
      obtain rfl : t = s := Option.some.inj (ht'.symm.trans hs)
      exact hlisted t clock a (World.tables_eq ht ▸ h.keyed) ha

/-- Draining changes no host that is not drained. -/
theorem lives_drain {event : UpgradeEvent} (h : j.state.Keeps ids) (hkept : j.state.Keeps kept)
    (hapart : ∀ id ∈ kept, id ∉ ids) :
    Lives name raises (fun _ j' => j'.state.Keeps kept) (Replacement.drain event ids) j := by
  rw [Replacement.drain]
  split
  · exact hkept
  · refine lives_perform h.keyed (fun _ s hs => h.staying s hs) fun a w hb hk =>
      ⟨hk, fun s' hs' id hid => ?_⟩
    rcases hb.store_cases fun _ hv => hv with hsame | ⟨q, hq, heffect⟩
    · exact hkept.staying s' (hsame.symm.trans hs') id hid
    · cases hq
      obtain ⟨s, clock, hs, he⟩ := heffect s' hs'
      have hstays := hkept.staying s hs id hid
      cases he with
      | nothing => exact hstays
      | drainHosts =>
          rw [Store.isStaying, Store.hosts_drainHosts]
          refine (Store.isStaying_setHostState s _ _ rfl id).trans ?_
          simp [hstays, hapart id hid]

end

end FleetControl
