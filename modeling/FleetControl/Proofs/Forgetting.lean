import FleetControl.Proofs.Holding
import FleetControl.Proofs.Launching
import FleetControl.Proofs.Pairing

/-!
# What is forgotten

Passes of the replacement and the termination controller, one after another, in which no call
fails, while others give no event a host and put no tracked host on its way out. A host that is
forgotten was on its way out. A tick takes the hosts that it puts there out of its own event
before it ends, unless it has drained them; but it does not look at the other events. So a host
is forgotten while an event tracks it only if it was drained, or terminated as a failed host of
the pool, while an event tracked it.
-/
namespace FleetControl

open Program

/-- Nobody else does anything during a call, and none fails. -/
abbrev unaided : Behaviour World := (World.Possible Eq fun _ => False).flawless

theorem answered_of_unaided {c : Call} {w w' : World} {r : Outcome c.Reply}
    (h : unaided c w r w') : ∃ a, r = .ok a ∧ World.answer c w = (.ok a, w') := by
  obtain ⟨⟨_, rfl, h | ⟨f, hf, -⟩⟩, a, rfl⟩ := h
  · exact ⟨a, rfl, h⟩
  · cases hf

/-- A host is drained, or terminated to be replaced, while an event tracks it. -/
def Entry.Endangers (e : Entry World) (host : HostId) : Prop :=
  e.before.IsTracked host ∧ (host ∈ e.drained ∨ host ∈ e.replaced)

namespace Replacement

variable {event x y : UpgradeEvent} {past log : List (Entry World)} {w₀ w w' : World} {c : Call}
  {a : c.Reply} {host : HostId} {id : ItemId}

/-! ## Where a tick stands -/

/-- The version that is stored in the middle of a tick. -/
structure Latest (event : UpgradeEvent) (log : List (Entry World)) (x : UpgradeEvent) : Prop where
  tracked : ∀ host ∈ x.hostIds, host ∈ event.hostIds ∨
    (event.state = UpgradeState.init ∧ ∃ e ∈ log, host ∈ e.launched)
  marked : ∀ host ∈ x.hostIds, host ∈ markedIn log → host ∈ pending log
  first : (∀ e ∈ log, e.call.storesEvent = false) → x = event

/-- What a tick that has read `event` has made of the world. -/
structure Reached (event : UpgradeEvent) (w₀ : World) (log : List (Entry World)) (w : World) :
    Prop where
  keyed : w.tables.Keyed
  others : ∀ id, id ≠ event.id → ∀ y, World.Holds id w y ↔ World.Holds id w₀ y
  own : ∃ x, World.Holds event.id w x ∧ Latest event log x
  leaving : ∀ host, w.tables.isLeaving host = true → w₀.tables.isLeaving host = true ∨
    ∃ e ∈ log, host ∈ e.drained ∨ host ∈ e.marked
  recorded : ∀ host, w.tables.hosts.contains host = true →
    w₀.tables.hosts.contains host = true
  issued : w₀.provider.issued ≤ w.provider.issued
  launched : ∀ e ∈ log, ∀ host ∈ e.launched, ∃ n, w₀.provider.issued ≤ n ∧
    n < w.provider.issued ∧ host = Provider.launchedId n

theorem Latest.start : Latest event [] event where
  tracked _ hid := .inl hid
  marked _ _ hm := by simp [markedIn] at hm
  first _ := rfl

theorem Latest.cons (h : Latest event past x) {e : Entry World}
    (hs : e.call.storesEvent = false) : Latest event (e :: past) x where
  tracked host hid := by
    refine (h.tracked host hid).imp_right ?_
    rintro ⟨hi, a, ha, hl⟩
    exact ⟨hi, a, List.mem_cons_of_mem _ ha, hl⟩
  marked host hid hm := by
    rw [markedIn, List.flatMap_cons] at hm
    rw [pending, if_neg (by simp [hs])]
    rcases List.mem_append.mp hm with hm | hm
    · exact List.mem_append_left _ hm
    · exact List.mem_append_right _ (h.marked host hid hm)
  first hall := h.first fun a ha => hall a (List.mem_cons_of_mem _ ha)

/-- What is stored tracks none of the hosts that the tick has recorded as terminating. -/
theorem Latest.stored (hc : Conducts event past (.store (.updateItem .upgrade y)))
    (ha : Accounts event past y) {e : Entry World}
    (he : e.call = .store (.updateItem .upgrade y)) : Latest event (e :: past) y where
  tracked host hid := by
    cases hc with
    | looks h => cases h
    | stores _ _ _ hh =>
        refine (hh host hid).imp_right ?_
        rintro ⟨hi, a, ha, hl⟩
        exact ⟨hi, a, List.mem_cons_of_mem _ ha, hl⟩
  marked host hid hm := by
    have hnone : e.marked = [] := by
      unfold Entry.marked
      split
      · cases he
      · rfl
    rw [markedIn_cons hnone] at hm
    exact absurd hm (ha.free host hid)
  first hall := by
    have hs := hall e List.mem_cons_self
    rw [he] at hs
    cases hs

/-- A tick writes its own event only, and admits no host. -/
theorem Conducts.not_writesItem (h : Conducts event past c) (hs : c.storesEvent = false) :
    c.writesItem = false := by
  cases h with
  | looks h => exact Call.not_writesItem_of_isRead h
  | stores => cases hs
  | _ => rfl

theorem Conducts.not_deletes (h : Conducts event past c) (host : HostId) :
    c ≠ .store (.deleteHost host) := by
  rintro rfl
  cases h with
  | looks h => cases h

/-- A tick puts hosts on their way out by draining or recording them. -/
theorem Conducts.leaving (h : Conducts event past c) (ha : World.answer c w = (.ok a, w'))
    (hl : w'.tables.isLeaving host = true) : w.tables.isLeaving host = true ∨
      host ∈ Entry.drained ⟨w, c, .ok a, w'⟩ ∨ host ∈ Entry.marked ⟨w, c, .ok a, w'⟩ := by
  by_cases hmem : host ∈ c.recasts
  · right
    cases h with
    | looks h =>
        rw [Call.recasts_of_isRead h] at hmem
        cases hmem
    | drains => exact .inl hmem
    | marks => exact .inr hmem
    | _ => cases hmem
  · exact .inl (World.leaving_of_answered ha hmem hl)

/-- What a tick launches are the next hosts to be issued. -/
theorem Conducts.issued (h : Conducts event past c) (ha : World.answer c w = (.ok a, w')) :
    w.provider.issued ≤ w'.provider.issued ∧
      ∀ host ∈ Entry.launched ⟨w, c, .ok a, w'⟩, ∃ n, w.provider.issued ≤ n ∧
        n < w'.provider.issued ∧ host = Provider.launchedId n := by
  by_cases hl : c.launches = false
  · rw [World.issued_of_answered ha hl, Entry.launched_eq_nil hl]
    simp
  · cases h with
    | launches hs count =>
        have hanswer : w.provider.answer (.launchHosts event.cluster count none) =
            (.ok a, w'.provider) := by
          have hfst := congrArg Prod.fst ha
          have hsnd := congrArg (fun p => p.2.provider) ha
          exact Prod.ext hfst hsnd
        exact Provider.launched_of_answer hanswer
    | looks h => exact absurd (Call.not_launches_of_isRead h) hl
    | _ => exact absurd rfl hl

theorem Reached.start (hy : World.Holds event.id w event) (hk : w.tables.Keyed) :
    Reached event w [] w where
  keyed := hk
  others _ _ _ := Iff.rfl
  own := ⟨event, hy, .start⟩
  leaving _ hl := .inl hl
  recorded _ hr := hr
  issued := Nat.le_refl _
  launched _ he := by cases he

/-- A call of a tick changes no other event, and leaves some version of its own. -/
theorem Latest.entry (h : Latest event log x) (hx : World.Holds event.id w x)
    (ha : World.answer c w = (.ok a, w')) (hc : Conducts event log c)
    (hR : accounts event log ⟨w, c, .ok a, w'⟩) :
    (∀ id, id ≠ event.id → ∀ y, World.Holds id w' y ↔ World.Holds id w y) ∧
      ∃ x, World.Holds event.id w' x ∧ Latest event (⟨w, c, .ok a, w'⟩ :: log) x := by
  by_cases hs : c.storesEvent = false
  · have hholds : ∀ {id y}, World.Holds id w' y ↔ World.Holds id w y :=
      World.holds_of_answered ha (hc.not_writesItem hs)
    exact ⟨fun _ _ _ => hholds, x, hholds.mpr hx, h.cons hs⟩
  · cases hc with
    | @stores y hid hcluster hf hh =>
        have htables := World.tables_of_stored ha
        have hget : ∀ id, w'.tables.getItem .upgrade id =
            if id = y.id then some y else w.tables.getItem .upgrade id := fun id => by
          rw [htables, Store.getItem_putItem]
        refine ⟨fun id hne z => ?_, y, ?_, ?_⟩
        · rw [World.holds_iff, World.holds_iff, hget, if_neg (by rwa [hid])]
        · rw [World.holds_iff, hget, if_pos hid.symm]
        · exact Latest.stored (.stores hid hcluster hf hh) (hR.1 y rfl) rfl
    | looks h =>
        have hread := Call.storesEvent_of_isPlain (Call.isPlain_of_isRead h)
        exact absurd hread hs
    | _ => exact absurd rfl hs

/-- An entry that the rules of a tick allow. -/
theorem Reached.entry (h : Reached event w₀ log w) (ha : World.answer c w = (.ok a, w'))
    (hc : Conducts event log c) (hR : accounts event log ⟨w, c, .ok a, w'⟩) :
    Reached event w₀ (⟨w, c, .ok a, w'⟩ :: log) w' := by
  have hw' : w' = (World.answer c w).2 := by rw [ha]
  have hissued := hc.issued ha
  obtain ⟨x, hx, hlatest⟩ := h.own
  have hitems := hlatest.entry hx ha hc hR
  constructor
  · rw [hw']
    exact World.keyed_answer h.keyed c
  · intro id hne y
    exact (hitems.1 id hne y).trans (h.others id hne y)
  · exact hitems.2
  · intro host hl
    rcases hc.leaving ha hl with hl | hnew
    · refine (h.leaving host hl).imp_right ?_
      rintro ⟨e, he, hmem⟩
      exact ⟨e, List.mem_cons_of_mem _ he, hmem⟩
    · exact .inr ⟨_, List.mem_cons_self, hnew⟩
  · intro host hk
    exact h.recorded host (World.known_of_answered ha hc.not_admits hk)
  · exact Nat.le_trans h.issued hissued.1
  · intro e he host hl
    rcases List.mem_cons.mp he with rfl | he
    · obtain ⟨n, hn, hlt, rfl⟩ := hissued.2 host hl
      exact ⟨n, Nat.le_trans h.issued hn, hlt, rfl⟩
    · obtain ⟨n, hn, hlt, rfl⟩ := h.launched e he host hl
      exact ⟨n, hn, Nat.lt_of_lt_of_le hlt hissued.1, rfl⟩

/-- Before each of its calls a tick had reached some point, where the rules allowed the call. -/
def Stepwise (event : UpgradeEvent) (w₀ : World) (log : List (Entry World)) : Prop :=
  ∀ e ∈ log, ∃ past, past ⊆ log ∧ Reached event w₀ past e.before ∧
    Conducts event past e.call ∧ accounts event past e

/-- The rules of a tick lead from the version that it has read to where it stands, at its end
and before each of its calls. -/
theorem reached_of_traces (hy : World.Holds event.id w₀ event) (hk : w₀.tables.Keyed)
    (ht : Traces unaided w₀ log w) (hC : (conduct event).Admits log)
    (hA : (accounts event).Admits log) : Reached event w₀ log w ∧ Stepwise event w₀ log := by
  induction ht with
  | nil => exact ⟨.start hy hk, fun _ he => absurd he List.not_mem_nil⟩
  | @cons log t c r t' _ hb ih =>
      obtain ⟨hreached, hall⟩ := ih hC.2 hA.2
      obtain ⟨a, rfl, ha⟩ := answered_of_unaided hb
      refine ⟨hreached.entry ha hC.1 hA.1, fun e he => ?_⟩
      rcases List.mem_cons.mp he with rfl | he
      · exact ⟨log, List.subset_cons_self _ _, hreached, hC.1, hA.1⟩
      · obtain ⟨past, hp, hbefore⟩ := hall e he
        exact ⟨past, fun _ hm => List.mem_cons_of_mem _ (hp hm), hbefore⟩

/-! ## What a tick leaves -/

/-- What is known when no tick is under way: a tracked host is on its way out only if it was
endangered. -/
structure Guarded (log : List (Entry World)) (w : World) : Prop where
  orderly : w.Orderly
  leaving : ∀ host, w.IsTracked host → w.tables.isLeaving host = true →
    ∃ g ∈ log, g.Endangers host

theorem Guarded.elsewhere (h : Guarded past w) (he : w.Elsewhere w') (hp : past ⊆ log) :
    Guarded log w' where
  orderly := h.orderly.elsewhere he
  leaving host ht hl := by
    obtain ⟨g, hg, hendangers⟩ := h.leaving host (he.isTracked ht) (he.leaving host ht hl)
    exact ⟨g, hp hg, hendangers⟩

/-- A tracked host was tracked when the tick began, or the tick has launched it. -/
theorem Reached.tracks (h : Reached event w₀ log w) (hy : World.Holds event.id w₀ event)
    (hs : event.state ≠ UpgradeState.completed) (ht : w.Tracks id host) :
    w₀.Tracks id host ∨ (id = event.id ∧ event.state = UpgradeState.init ∧
      ∃ n, w₀.provider.issued ≤ n ∧ n < w.provider.issued ∧ host = Provider.launchedId n) := by
  obtain ⟨z, hz, hstate, hmem⟩ := ht
  by_cases hid : id = event.id
  · subst hid
    obtain ⟨x, hx, hlatest⟩ := h.own
    obtain rfl := World.holds_inj hz hx
    rcases hlatest.tracked host hmem with hmem | ⟨hinit, e, he, hl⟩
    · exact .inl ⟨event, hy, hs, hmem⟩
    · exact .inr ⟨rfl, hinit, h.launched e he host hl⟩
  · exact .inl ⟨z, (h.others id hid z).mp hz, hstate, hmem⟩

/-- A tick keeps the world orderly. -/
theorem Reached.orderly (h : Reached event w₀ log w) (hw : w₀.Orderly)
    (hy : World.Holds event.id w₀ event) (hs : event.state ≠ UpgradeState.completed) :
    w.Orderly where
  keyed := h.keyed
  apart {id id' host} ht ht' := by
    rcases h.tracks hy hs ht with hold | ⟨rfl, -, n, hn, -, rfl⟩
    · rcases h.tracks hy hs ht' with hold' | ⟨rfl, -, n, hn, -, rfl⟩
      · exact hw.apart hold hold'
      · exact absurd ⟨id, hold⟩ (hw.untracked n hn)
    · rcases h.tracks hy hs ht' with hold' | ⟨rfl, -⟩
      · exact absurd ⟨id', hold'⟩ (hw.untracked n hn)
      · rfl
  unrecorded n hn := by
    have hold := hw.unrecorded n (Nat.le_trans h.issued hn)
    exact Bool.eq_false_iff.mpr fun hk => Bool.eq_false_iff.mp hold (h.recorded _ hk)
  untracked n hn := by
    rintro ⟨id, ht⟩
    rcases h.tracks hy hs ht with hold | ⟨-, -, m, -, hm, he⟩
    · exact hw.untracked n (Nat.le_trans h.issued hn) ⟨id, hold⟩
    · have hsame := Provider.launchedId_inj he
      omega

/-- What the event of a tick tracks in the end, with no host pending, is on its way out only if
it was so at the start, or if the tick has drained it: what was recorded as terminating has left
the event. -/
theorem Reached.own_leaving (h : Reached event w₀ log w) (hw : w₀.Orderly)
    (hy : World.Holds event.id w₀ event) (hs : event.state ≠ UpgradeState.completed)
    (hall : Stepwise event w₀ log) (hpending : pending log = [])
    (ht : w.Tracks event.id host) (hl : w.tables.isLeaving host = true) :
    (w₀.Tracks event.id host ∧ w₀.tables.isLeaving host = true) ∨
      ∃ g ∈ log, g.Endangers host := by
  have ⟨z, hz, hstate, hmem⟩ := ht
  obtain ⟨x, hx, hlatest⟩ := h.own
  obtain rfl := World.holds_inj hz hx
  rcases h.leaving host hl with hl₀ | ⟨e, he, hd | hm⟩
  · rcases h.tracks hy hs ht with ht₀ | ⟨-, -, n, hn, -, rfl⟩
    · exact .inl ⟨ht₀, hl₀⟩
    · -- a host that the tick has launched was not recorded before
      have hnone := hw.unrecorded n hn
      rw [Store.contains_of_isLeaving hl₀] at hnone
      cases hnone
  · -- hosts are drained before the event is stored, and none is launched then
    obtain ⟨before, -, hbefore, -, hR⟩ := hall e he
    obtain ⟨hr, hnone⟩ := hR.2.2 (Entry.isDrain_of_drained hd)
    obtain ⟨x', hx', hlatest'⟩ := hbefore.own
    obtain rfl := hlatest'.first hnone
    rcases hlatest.tracked host hmem with hmem | ⟨hinit, -⟩
    · exact .inr ⟨e, he, ⟨_, _, hx', hs, hmem⟩, .inl hd⟩
    · rw [hr] at hinit
      cases hinit
  · have hp := hlatest.marked host hmem (List.mem_flatMap.mpr ⟨e, he, hm⟩)
    rw [hpending] at hp
    cases hp

/-- What another event tracks stays so throughout a tick. It is put on its way out only as a
host that is drained, or as a failed host of the pool that is replaced. -/
theorem Reached.other_leaving (h : Reached event w₀ log w) (hw : w₀.Orderly)
    (hy : World.Holds event.id w₀ event) (hs : event.state ≠ UpgradeState.completed)
    (hall : Stepwise event w₀ log) (hid : id ≠ event.id) (ht : w.Tracks id host)
    (hl : w.tables.isLeaving host = true) :
    (w₀.Tracks id host ∧ w₀.tables.isLeaving host = true) ∨ ∃ g ∈ log, g.Endangers host := by
  have hthroughout : ∀ {log v}, Reached event w₀ log v → v.Tracks id host := by
    intro log v hv
    have ⟨z, hz, hstate, hmem⟩ := ht
    exact ⟨z, (hv.others id hid z).mpr ((h.others id hid z).mp hz), hstate, hmem⟩
  have ht₀ := hthroughout (.start hy hw.keyed)
  rcases h.leaving host hl with hl₀ | ⟨e, he, hd | hm⟩
  · exact .inl ⟨ht₀, hl₀⟩
  · obtain ⟨_, -, hbefore, -, -⟩ := hall e he
    exact .inr ⟨e, he, ⟨id, hthroughout hbefore⟩, .inl hd⟩
  · obtain ⟨before, hsub, -, -, hR⟩ := hall e he
    obtain ⟨_, ids, _, _, rfl, hmem⟩ := marked_cases hm
    rcases hR.2.1 ids _ rfl host hmem with hown | ⟨g, hg, hreplaced⟩
    · exact absurd (hw.apart ht₀ ⟨event, hy, hs, hown⟩) hid
    · obtain ⟨_, -, hbefore, -, -⟩ := hall g (hsub hg)
      exact .inr ⟨g, hsub hg, ⟨id, hthroughout hbefore⟩, .inr hreplaced⟩

/-- A tick that ends with no host pending leaves nothing tracked on its way out that was not
endangered. -/
theorem Reached.guarded (h : Reached event w₀ log w) (hw : Guarded past w₀)
    (hy : World.Holds event.id w₀ event) (hs : event.state ≠ UpgradeState.completed)
    (hall : Stepwise event w₀ log) (hpending : pending log = []) : Guarded (log ++ past) w where
  orderly := h.orderly hw.orderly hy hs
  leaving := by
    intro host ⟨id, ht⟩ hl
    have hcases : (w₀.Tracks id host ∧ w₀.tables.isLeaving host = true) ∨
        ∃ g ∈ log, g.Endangers host := by
      by_cases hid : id = event.id
      · subst hid
        exact h.own_leaving hw.orderly hy hs hall hpending ht hl
      · exact h.other_leaving hw.orderly hy hs hall hid ht hl
    rcases hcases with ⟨ht₀, hl₀⟩ | ⟨g, hg, hendangers⟩
    · obtain ⟨g, hg, hendangers⟩ := hw.leaving host ⟨id, ht₀⟩ hl₀
      exact ⟨g, List.mem_append_right _ hg, hendangers⟩
    · exact ⟨g, List.mem_append_left _ hg, hendangers⟩

end Replacement

/-! ## Ticks and passes -/

section

variable {w w' : World} {past log : List (Entry World)} {j j' : Journal World} {c : Call}
  {host : HostId} {i : ItemId}

/-- A host that is forgotten is not tracked, unless it was endangered before. -/
def forgets : Rule World := fun past e => ∀ host, e.call = .store (.deleteHost host) →
  e.before.IsTracked host → ∃ g ∈ past, g.Endangers host

/-- What is known between the calls of passes that are not about an event. -/
def Watched (j : Journal World) : Prop :=
  Replacement.Guarded j.log j.state ∧ forgets.Admits j.log

/-- Running under the watch. -/
abbrev Watches {α : Type} (Q : α → Journal World → Prop) (p : Program α) (j : Journal World) :
    Prop := p.Follows unaided (fun _ _ => True) Watched Q j

/-- Hosts may be forgotten that are on their way out. -/
theorem Watched.call (h : Watched j) {a : c.Reply} (he : j.state.Elsewhere w)
    (hd : ∀ host, c = .store (.deleteHost host) → j.state.tables.isLeaving host = true) :
    Watched (j.enter c (.ok a) w) :=
  ⟨h.1.elsewhere he (List.subset_cons_self _ _),
    fun host hc ht => h.1.leaving host ht (hd host hc), h.2⟩

/-- Calls that store no item, launch and admit no host, and concern hosts on their way out. -/
theorem watches_perform {Q : c.Reply → Journal World → Prop} (h : Watched j)
    (hi : c.writesItem = false) (hl : c.launches = false) (ha : c.admits = false)
    (hr : ∀ host ∈ c.recasts, j.state.tables.isLeaving host = true)
    (hd : ∀ host, c = .store (.deleteHost host) → j.state.tables.isLeaving host = true)
    (hQ : ∀ a w, World.answer c j.state = (.ok a, w) → Watched (j.enter c (.ok a) w) →
      Q a (j.enter c (.ok a) w)) : Watches Q (perform c) j := by
  refine follows_perform.mpr fun r w hb => ⟨trivial, ?_⟩
  obtain ⟨a, rfl, hw⟩ := answered_of_unaided hb
  exact hQ a w hw (h.call (World.elsewhere_of_answered hw hi hl ha hr) hd)

/-- Whether a call only looks, or takes a lock or gives one back. -/
def Call.isQuiet (c : Call) : Bool := c.isRead || !c.isLockless

theorem Watched.quiet (h : Watched j) (hc : c.isQuiet = true) {r : Outcome c.Reply}
    (hb : unaided c j.state r w) : Watched (j.enter c r w) := by
  obtain ⟨a, rfl, ha⟩ := answered_of_unaided hb
  have hmild : c.writesItem = false ∧ c.launches = false ∧ c.admits = false ∧ c.recasts = [] ∧
      ∀ host, c ≠ .store (.deleteHost host) := by
    rcases Bool.or_eq_true_iff.mp hc with hread | hlock
    · refine ⟨Call.not_writesItem_of_isRead hread, Call.not_launches_of_isRead hread,
        Call.not_admits_of_isRead hread, Call.recasts_of_isRead hread, ?_⟩
      rintro host rfl
      cases hread
    · cases c with
      | acquire | release => exact ⟨rfl, rfl, rfl, rfl, nofun⟩
      | _ => cases hlock
  obtain ⟨hi, hl, hadmits, hr, hd⟩ := hmild
  have he := World.elsewhere_of_answered ha hi hl hadmits (by simp [hr])
  exact h.call he fun host hdel => absurd hdel (hd host)

theorem watches_quiet (h : Watched j) (hc : c.isQuiet = true) :
    Watches (fun _ => Watched) (perform c) j := by
  refine follows_perform.mpr fun r w hb => ⟨trivial, ?_⟩
  have hw := h.quiet hc hb
  cases r <;> exact hw

theorem answered_of_traces (h : Traces unaided w log w') : ∀ e ∈ log, ∃ a, e.reply = .ok a := by
  induction h with
  | nil => simp
  | cons _ hb ih =>
      obtain ⟨a, rfl, -⟩ := answered_of_unaided hb
      exact List.forall_mem_cons.mpr ⟨⟨a, rfl⟩, ih⟩

/-- A run in which nobody else does anything is one in which nobody else writes an event. -/
theorem aside_of_unaided {α : Type} {p : Program α} {r : Outcome α}
    (he : p.Ends unaided.recorded j r j') (hk : j.state.tables.Keyed) :
    p.Ends (Replacement.aside i fun _ => False).recorded j r j' := by
  refine he.mono_of (I := fun j => j.state.tables.Keyed) ?_ hk
  rintro c j r _ hk ⟨w, ⟨hb, -⟩, rfl⟩
  constructor
  · refine hb.preserves (I := fun w => w.tables.Keyed) ?_ (fun v hv => World.keyed_answer hv c) hk
    rintro _ rfl
    exact id
  · refine ⟨w, hb.weaken ?_, rfl⟩
    rintro _ rfl
    exact World.untouched_refl hk

/-- A tick of an event that is missing or over only looks. -/
theorem watched_idle {config : ReplacementSettings} {now : Instant}
    {r : Outcome (Progress UpgradeState)} (h : Watched j)
    (hn : ∀ y, World.Holds i j.state y → y.state = UpgradeState.completed)
    (he : ((Replacement.lifecycle config).advance i now).Ends unaided.recorded j r j') :
    Watched j' := by
  rw [Lifecycle.advance_eq] at he
  cases he with
  | call hb hrest =>
      obtain ⟨w, hb, rfl⟩ := hb
      have hw := h.quiet (c := .store (.getItem .upgrade i)) rfl hb
      obtain ⟨hp, found, rfl⟩ := id hb
      obtain ⟨s, clock, hs, -, hfound⟩ := hp.store_of_isRead (by rintro _ rfl; rfl) rfl
      cases found with
      | none =>
          cases hrest
          exact hw
      | some y =>
          have hy : World.Holds i j.state y := ⟨s, hs, Except.ok.inj hfound⟩
          have hrest' : ((Replacement.lifecycle config).work y now).Ends unaided.recorded
            (j.enter _ _ w) r j' := hrest
          rw [Lifecycle.work, if_pos (Item.isTerminal_iff.mpr (hn y hy))] at hrest'
          cases hrest'
          exact hw

/-- A tick of an event goes from rest to rest. -/
theorem watched_tick {config : ReplacementSettings} {now : Instant}
    {r : Outcome (Progress UpgradeState)} (h : Watched j)
    (he : ((Replacement.lifecycle config).advance i now).Ends unaided.recorded j r j') :
    Watched j' := by
  by_cases hn : ∀ y, World.Holds i j.state y → y.state = UpgradeState.completed
  · exact watched_idle h hn he
  · simp only [not_forall] at hn
    obtain ⟨y, hy, hs⟩ := hn
    have hk := h.1.orderly.keyed
    obtain rfl : y.id = i := hk.items .upgrade i y (World.holds_iff.mp hy)
    have hshows : World.Shows y.id j.state y := by
      intro s hstore
      rw [World.tables_eq hstore] at hk
      obtain ⟨t, ht, hget⟩ := hy
      cases hstore.symm.trans ht
      exact ⟨hk.items .upgrade, hget⟩
    obtain ⟨log, hlog, he⟩ := he.of_start
    have haside := aside_of_unaided (i := y.id) he hk
    obtain ⟨hA, hsquared⟩ := Replacement.accounts_of_tick hshows haside
    have hC := (Replacement.rule_of_tick hshows haside).1.mono fun _ _ hc => hc.1
    have htraces := he.traces .nil
    obtain ⟨hreached, hall⟩ := Replacement.reached_of_traces hy hk htraces hC hA
    have hpending : Replacement.pending log = [] := by
      rcases hsquared with hsquared | ⟨e, f, hlast, hf⟩
      · exact hsquared
      · obtain ⟨a, ha⟩ := answered_of_traces htraces e (List.mem_of_head? hlast)
        rw [hf] at ha
        cases ha
    rw [Watched, hlog]
    refine ⟨hreached.guarded h.1 hy hs hall hpending, h.2.append fun e hmem past host hdel => ?_⟩
    obtain ⟨_, -, -, hc, -⟩ := hall e hmem
    exact absurd hdel (hc.not_deletes host)

theorem watches_replacement (config : ReplacementSettings) (i : ItemId) (h : Watched j) :
    Watches (fun _ => Watched) ((Replacement.controller config).process i) j := by
  refine .bind (watches_quiet h rfl) fun now j₁ h₁ _ => ?_
  refine .bind (Q := fun _ => Watched) (follows_of_ends fun r j₂ he => ?_) fun _ _ h₂ _ => h₂
  have h₂ := watched_tick h₁ he
  cases r <;> exact h₂

/-- A host that was found on its way out, by a process that has not forgotten it yet. -/
def Departs (host : HostId) (j : Journal World) : Prop :=
  Watched j ∧ j.state.tables.isLeaving host = true

/-- Calls that write nothing in the store leave a host on its way out. -/
theorem watches_unwritten {Q : c.Reply → Journal World → Prop} (h : Departs host j)
    (hc : ∀ q, c = .store q → q.isRead = true) (hl : c.launches = false)
    (hQ : ∀ a w, World.answer c j.state = (.ok a, w) → Departs host (j.enter c (.ok a) w) →
      Q a (j.enter c (.ok a) w)) : Watches Q (perform c) j := by
  have hstore : ∀ {q : StoreCall}, q.isRead = false → c ≠ .store q := by
    rintro q hq rfl
    rw [hc q rfl] at hq
    cases hq
  refine watches_perform h.1 ?_ hl ?_ ?_ (fun host hd => absurd hd (hstore rfl)) ?_
  · unfold Call.writesItem
    split
    · exact absurd rfl (hstore rfl)
    · exact absurd rfl (hstore rfl)
    · rfl
  · unfold Call.admits
    split
    · exact absurd rfl (hstore rfl)
    · exact absurd rfl (hstore rfl)
    · rfl
  · unfold Call.recasts
    split
    · exact absurd rfl (hstore rfl)
    · exact absurd rfl (hstore rfl)
    · exact absurd rfl (hstore rfl)
    · simp
  · intro a w ha hw
    refine hQ a w ha ⟨hw, ?_⟩
    have htables : w.tables = j.state.tables := World.tables_of_unwritten ha hc
    exact (congrArg (·.isLeaving host) htables).trans h.2

theorem watches_forgetIfGone {known : Host} (h : Departs known.id j) :
    Watches (fun removed j' => Watched j' ∧ (removed = false → Departs known.id j'))
      (Decommission.forgetIfGone known) j := by
  refine .bind (Q := fun _ => Departs known.id)
    (watches_unwritten h (by simp) rfl fun _ _ _ hd => hd) fun terminated j₁ h₁ _ => ?_
  split
  · refine .bind (Q := fun _ => Watched) ?_ fun _ j₂ h₂ _ => ⟨h₂, by simp⟩
    refine watches_perform h₁.1 rfl rfl rfl (by simp [Call.recasts]) ?_ fun _ _ _ hw => hw
    rintro host hd
    cases hd
    exact h₁.2
  · exact ⟨h₁.1, fun _ => h₁⟩

theorem watches_terminateIfIdle {known : Host} (h : Departs known.id j) :
    Watches (fun _ => Watched) (Decommission.terminateIfIdle known) j := by
  refine .bind (Q := fun _ => Departs known.id)
    (watches_unwritten h ?_ rfl fun _ _ _ hd => hd) fun agents j₁ h₁ _ => ?_
  · intro q hq
    cases hq
    rfl
  split
  · refine .bind (Q := fun _ => Departs known.id)
      (watches_unwritten h₁ (by simp) rfl fun _ _ _ hd => hd) fun _ j₂ h₂ _ => ?_
    refine watches_perform h₂.1 rfl rfl rfl ?_ nofun fun _ _ _ hw => hw
    intro host hmem
    rw [List.mem_singleton.mp hmem]
    exact h₂.2
  · exact h₁.1

/-- Hosts are looked at again before anything is done to them, and only those on their way out
are terminated or forgotten. -/
theorem watches_termination (host : HostId) (h : Watched j) :
    Watches (fun _ => Watched) (Decommission.process host) j := by
  refine .bind (Q := fun found j' => Watched j' ∧ ∀ known, found = some known →
      known.state.isLeaving = true → Departs known.id j') ?_ ?_
  · refine watches_perform h rfl rfl rfl (by simp [Call.recasts]) nofun fun found w ha hw =>
      ⟨hw, ?_⟩
    rintro known rfl hl
    refine ⟨hw, ?_⟩
    have hb : World.Possible Eq (fun _ => False) (.store (.getHost host)) j.state
        (.ok (some known)) w := ⟨j.state, rfl, .inl ha⟩
    obtain ⟨s, clock, -, hs, hfound⟩ := hb.store_of_isRead (by rintro _ rfl; rfl) rfl
    have hget : s.hosts.get? host = some known := Except.ok.inj hfound
    have hkeyed := hw.1.orderly.keyed.hosts
    have hleaving : w.tables.isLeaving known.id = true := by
      have hkeyed : w.tables.hosts.KeyedBy Host.id := hkeyed
      rw [World.tables_eq hs] at hkeyed ⊢
      rw [hkeyed host known hget, Store.isLeaving, hget]
      exact hl
    exact hleaving
  rintro found j₁ ⟨h₁, hfound⟩ -
  split
  · exact h₁
  · rename_i known
    split
    · exact h₁
    · rename_i hl
      have hd := hfound known rfl (by simpa using hl)
      refine .bind (watches_forgetIfGone hd) ?_
      rintro removed j₂ ⟨h₂, hd₂⟩ -
      split
      · rename_i hidle
        have hkept : removed = false := by
          rw [Bool.and_eq_true, Bool.not_eq_true'] at hidle
          exact hidle.1
        exact watches_terminateIfIdle (hd₂ hkept)
      · exact h₂

/-- A pass is under the watch if its work on each candidate is. -/
theorem watched_pass {controller : Controller} {r : Outcome PassReport} (h : Watched j)
    (hcandidates : controller.candidates.Only (·.isQuiet = true))
    (hprocess : ∀ id j, Watched j → Watches (fun _ => Watched) (controller.process id) j)
    (he : controller.pass.Ends unaided.recorded j r j') : Watched j' := by
  have hpass : Watches (fun _ => Watched) controller.pass j :=
    follows_pass (P := (·.isQuiet = true)) (fun _ _ _ _ hc hj hb => ⟨trivial, hj.quiet hc hb⟩)
      (fun _ => rfl) (fun _ _ => rfl) (fun _ => rfl) hcandidates hprocess h
  have hend := Keeps.ends hpass he
  cases r <;> exact hend

/-- Passes of the replacement and the termination controller, with their calls. Between them
the others may do what is allowed to them. -/
inductive Shifts (w : World) : Journal World → Prop where
  | start : Shifts w (.start w)
  | others {j : Journal World} {v : World} (past : Shifts w j) (h : j.state.Elsewhere v) :
      Shifts w ⟨v, j.log⟩
  | replacement {j j' : Journal World} (past : Shifts w j) {config : ReplacementSettings}
      {r : Outcome PassReport}
      (h : (Replacement.controller config).pass.Ends unaided.recorded j r j') : Shifts w j'
  | termination {j j' : Journal World} (past : Shifts w j) {r : Outcome PassReport}
      (h : Decommission.controller.pass.Ends unaided.recorded j r j') : Shifts w j'

theorem Shifts.watched (h : Shifts w j) (hw : w.Orderly)
    (hclear : ∀ host, w.IsTracked host → w.tables.isLeaving host = false) : Watched j := by
  induction h with
  | start =>
      refine ⟨⟨hw, fun host ht hl => ?_⟩, trivial⟩
      have hl : w.tables.isLeaving host = true := hl
      rw [hclear host ht] at hl
      cases hl
  | others _ ho ih => exact ⟨ih.1.elsewhere ho (List.Subset.refl _), ih.2⟩
  | @replacement _ _ _ config _ he ih =>
      have hcandidates : (Replacement.controller config).candidates.Only (·.isQuiet = true) :=
        only_perform.mpr rfl
      exact watched_pass ih hcandidates (fun id _ => watches_replacement config id) he
  | termination _ he ih =>
      have hcandidates : Decommission.controller.candidates.Only (·.isQuiet = true) :=
        .bind (only_ask.mpr rfl) fun _ => only_done _
      exact watched_pass ih hcandidates (fun id _ => watches_termination id) he

end

namespace Shifts

/-! ## The law of forgotten hosts -/

/-- An event in COMPLETING that tracks a healthy host. -/
def earlyEvent : UpgradeEvent :=
  { (UpgradeEvent.new "early" "web" "prod" .epoch).withHostIds (.ofList ["spare"]) with
    state := UpgradeState.completing }

/-- An event of the same cluster in REPLACING that tracks a host whose agent has failed. -/
def lateEvent : UpgradeEvent :=
  { (UpgradeEvent.new "late" "web" "prod" .epoch).withHostIds (.ofList ["fresh"]) with
    state := UpgradeState.replacing }

/-- A cluster with a pool of one place, which one host serves, and two events. -/
def crowdedPool : World :=
  let host (id : HostId) : Host := ⟨id, "web", .running, false, .epoch, .epoch⟩
  let agent (id : HostId) (stage : DeployStage) (status : AgentStatus) : Agent :=
    ⟨id, "prod", stage, status, .normal, none, none, .epoch⟩
  let cluster : Cluster := ⟨"web", "prod", .normal, none, 0, ⟨[], [], none⟩, .epoch⟩
  let hosts := ["steady", "spare", "fresh"].foldl (fun s id => s.insertHost (host id)) .empty
  let agents := [agent "steady" .servingBuild .succeeded, agent "spare" .servingBuild .succeeded,
    agent "fresh" .staging .agentFailed].foldl Store.putAgent hosts
  let store := (agents.putItem .upgrade earlyEvent).putItem .upgrade lateEvent
  { World.initial .epoch (.seeded 0) with
    store := some { store with clusters := store.clusters.insert cluster.name cluster }
    provider := ((Provider.empty.setPoolSize "web" 1).addHost "web" "spare").addHost "web" "fresh" }

theorem keyed_crowdedPool : crowdedPool.tables.Keyed := by
  have hhosts : ((["steady", "spare", "fresh"].map fun id =>
      (⟨id, "web", .running, false, .epoch, .epoch⟩ : Host)).foldl Store.insertHost .empty).Keyed :=
    ((Store.keyed_empty.insertHost _).insertHost _).insertHost _
  have hagents := ((hhosts.putAgent ⟨"steady", "prod", .servingBuild, .succeeded, .normal, none,
    none, .epoch⟩).putAgent ⟨"spare", "prod", .servingBuild, .succeeded, .normal, none, none,
    .epoch⟩).putAgent ⟨"fresh", "prod", .staging, .agentFailed, .normal, none, none, .epoch⟩
  exact ((hagents.putItem .upgrade earlyEvent).putItem .upgrade lateEvent).insertCluster _

/-- Each event of the crowded pool tracks its own host. -/
theorem tracks_crowdedPool {id : ItemId} {host : HostId} (h : crowdedPool.Tracks id host) :
    (id = "early" ∧ host = "spare") ∨ (id = "late" ∧ host = "fresh") := by
  obtain ⟨y, hy, -, hmem⟩ := h
  have hget : crowdedPool.tables.getItem .upgrade id = if id = "late" then some lateEvent else
      if id = "early" then some earlyEvent else none := by
    change (Store.putItem _ .upgrade lateEvent).getItem .upgrade id = _
    rw [Store.getItem_putItem, Store.getItem_putItem]
    rfl
  rw [World.holds_iff, hget] at hy
  split at hy
  · rename_i hid
    cases hy
    exact .inr ⟨hid, List.mem_singleton.mp (IdSet.mem_ofList.mp hmem)⟩
  · split at hy
    · rename_i hid
      cases hy
      exact .inl ⟨hid, List.mem_singleton.mp (IdSet.mem_ofList.mp hmem)⟩
    · cases hy

/-- The hosts of the crowded pool were not launched by its provider. -/
theorem launchedId_ne {n : Nat} {host : HostId} (h : host.toList.head? ≠ some 'i') :
    Provider.launchedId n ≠ host := by
  rintro rfl
  simp [Provider.launchedId] at h

theorem orderly_crowdedPool : crowdedPool.Orderly where
  keyed := keyed_crowdedPool
  apart ht ht' := by
    rcases tracks_crowdedPool ht with ⟨rfl, rfl⟩ | ⟨rfl, rfl⟩
    · rcases tracks_crowdedPool ht' with ⟨rfl, -⟩ | ⟨-, he⟩
      · rfl
      · exact absurd he (by decide)
    · rcases tracks_crowdedPool ht' with ⟨-, he⟩ | ⟨rfl, -⟩
      · exact absurd he (by decide)
      · rfl
  unrecorded n _ := by
    have hhosts : crowdedPool.tables.hosts.keys = ["fresh", "spare", "steady"] := by
      decide +kernel
    refine Bool.eq_false_iff.mpr fun hk => ?_
    have hmem := Table.mem_keys_iff.mpr hk
    rw [hhosts] at hmem
    simp only [List.mem_cons, List.not_mem_nil, or_false] at hmem
    rcases hmem with he | he | he
    · exact launchedId_ne (by decide) he
    · exact launchedId_ne (by decide) he
    · exact launchedId_ne (by decide) he
  untracked n _ := by
    rintro ⟨id, ht⟩
    rcases tracks_crowdedPool ht with ⟨-, he⟩ | ⟨-, he⟩
    · exact launchedId_ne (by decide) he
    · exact launchedId_ne (by decide) he

/-- A pass in which no call fails. -/
def quietPass (c : Controller) (j : Journal World) : Journal World :=
  (c.pass.run (failing fun _ _ => none) j).2

/-- A pass of the replacement controller over the crowded pool, and one of the termination
controller. -/
def crowdedRun : Journal World :=
  quietPass Decommission.controller (quietPass (Replacement.controller {}) (.start crowdedPool))

/-- A pass in which no call has failed is one of the possible passes. -/
theorem ends_quietPass {j : Journal World} {c : Controller}
    (hok : (quietPass c j).log.all (·.reply.isOk) = true) :
    c.pass.Ends unaided.recorded j (c.pass.run (failing fun _ _ => none) j).1 (quietPass c j) := by
  exact (ends_undisturbed (fun _ => rfl) c.pass j).flawless (List.all_eq_true.mp hok)

/-- The crowded pool is passed over by both controllers. -/
theorem shifts_crowdedRun : Shifts crowdedPool crowdedRun := by
  have hok : crowdedRun.log.all (·.reply.isOk) = true := by decide +kernel
  have hfirst : (quietPass (Replacement.controller {}) (.start crowdedPool)).log.all
      (·.reply.isOk) = true := by decide +kernel
  exact (Shifts.start.replacement (ends_quietPass hfirst)).termination (ends_quietPass hok)

/-- Whether a call forgets a host. -/
def forgetsHost (host : HostId) : Call → Bool
  | .store (.deleteHost id) => id == host
  | _ => false

theorem eq_of_forgetsHost {host : HostId} {c : Call} (h : forgetsHost host c = true) :
    c = .store (.deleteHost host) := by
  unfold forgetsHost at h
  split at h
  · rw [eq_of_beq h]
  · cases h

/-- While both controllers pass over the crowded pool, a host is forgotten that the later event
tracks. -/
theorem forgets_crowdedRun : ∃ later past e, crowdedRun.log = later ++ e :: past ∧
    e.call = .store (.deleteHost "fresh") ∧ e.before.IsTracked "fresh" := by
  have hany : crowdedRun.log.any (fun e => forgetsHost "fresh" e.call &&
      (e.before.store.bind (·.getItem .upgrade "late")).any fun y =>
        decide (y.state ≠ UpgradeState.completed ∧ "fresh" ∈ y.hostIds)) = true := by
    decide +kernel
  obtain ⟨e, he, hboth⟩ := List.any_eq_true.mp hany
  obtain ⟨hforgets, htracked⟩ := Bool.and_eq_true_iff.mp hboth
  obtain ⟨y, hy, hstate⟩ := (Option.any_eq_true _ _).mp htracked
  obtain ⟨later, past, hlog⟩ := List.append_of_mem he
  exact ⟨later, past, e, hlog, eq_of_forgetsHost hforgets, "late", y,
    Option.bind_eq_some_iff.mp hy, of_decide_eq_true hstate⟩

/-- Whenever a host is forgotten, no event that is not over tracks it, unless an earlier call
has drained the host, or terminated it to be replaced, while such an event tracked it. -/
theorem forgotten_hosts_untracked {w : World} {j : Journal World} {later past : List (Entry World)}
    {e : Entry World} {host : HostId} (hw : w.Orderly)
    (hclear : ∀ tracked, w.IsTracked tracked → w.tables.isLeaving tracked = false)
    (hrun : Shifts w j) (hlog : j.log = later ++ e :: past)
    (he : e.call = .store (.deleteHost host)) :
    ¬e.before.IsTracked host ∨ ∃ g ∈ past, g.Endangers host := by
  have hadmits := (hrun.watched hw hclear).2
  rw [hlog] at hadmits
  by_cases ht : e.before.IsTracked host
  · exact .inr (hadmits.of_append host he ht)
  · exact .inl ht

theorem clear_crowdedPool (host : HostId) (h : crowdedPool.IsTracked host) :
    crowdedPool.tables.isLeaving host = false := by
  obtain ⟨id, ht⟩ := h
  rcases tracks_crowdedPool ht with ⟨-, rfl⟩ | ⟨-, rfl⟩
  · decide +kernel
  · decide +kernel

/-- The law of forgotten hosts in the crowded pool: what the later event tracks was endangered
by the tick of the earlier one. -/
theorem forgotten_hosts_untracked_crowdedPool : crowdedPool.Orderly ∧
    Shifts crowdedPool crowdedRun ∧ ∃ g ∈ crowdedRun.log, g.Endangers "fresh" := by
  refine ⟨orderly_crowdedPool, shifts_crowdedRun, ?_⟩
  obtain ⟨later, past, e, hlog, he, ht⟩ := forgets_crowdedRun
  rcases forgotten_hosts_untracked orderly_crowdedPool clear_crowdedPool shifts_crowdedRun hlog he
    with hn | ⟨g, hg, hendangers⟩
  · exact absurd ht hn
  · rw [hlog]
    exact ⟨g, List.mem_append_right _ (List.mem_cons_of_mem _ hg), hendangers⟩

/-- The earlier event takes the host that the later one tracks for a failed host of the pool and
has it terminated, and the host is forgotten while the later event tracks it. -/
theorem forgotten_while_tracked : ∃ w j, w.Orderly ∧
    (∀ host, w.IsTracked host → w.tables.isLeaving host = false) ∧ Shifts w j ∧
      ∃ e ∈ j.log, e.call = .store (.deleteHost "fresh") ∧ e.before.IsTracked "fresh" := by
  obtain ⟨later, past, e, hlog, he, ht⟩ := forgets_crowdedRun
  refine ⟨crowdedPool, crowdedRun, orderly_crowdedPool, clear_crowdedPool, shifts_crowdedRun,
    e, ?_, he, ht⟩
  rw [hlog]
  exact List.mem_append_right _ List.mem_cons_self

end Shifts

end FleetControl
