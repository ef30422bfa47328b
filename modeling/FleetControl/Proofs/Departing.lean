import FleetControl.Proofs.Exclusion
import FleetControl.Proofs.Forgetting
import FleetControl.Proofs.Settling

/-!
# How hosts depart

Ticks of the termination controller in which no call fails, while agents report and the provider
changes between them. A tick handles each host on its own: what it makes of one is told by the
record of this host, its agents, and what the provider knows of it when the tick begins, and by
whether its lock is free then. So a host is asked to be terminated at most once, and a host that
the provider reports terminated takes nothing with it but its own agents.
-/
namespace FleetControl

open Program

/-! ## What is known of a host -/

/-- What a tick looks at in a host, and may change. -/
structure Dossier where
  record : Option Host
  agents : Option (Table Agent)
  /-- What the provider knows of it. -/
  entry : Option ProviderHost

/-- What a tick may make of a host. -/
inductive Fate where
  | stays
  /-- Its termination is requested. -/
  | requested
  | forgotten
  deriving DecidableEq

namespace Dossier

/-- The provider has terminated the host. -/
def isGone (d : Dossier) : Bool := d.entry.any ProviderHost.terminated

/-- All agents of the host have let go of their workloads. -/
def isIdle (d : Dossier) : Bool := (d.agents.getD .empty).values.all Agent.isStopped

/-- The host is on its way out. -/
def isLeaving (d : Dossier) : Bool := d.record.any fun host => host.state.isLeaving

/-- A host on its way out is forgotten once the provider has terminated it. Before that its
termination is requested as soon as it is idle. -/
def fate (d : Dossier) : Fate :=
  match d.record with
  | none => .stays
  | some host =>
      if !host.state.isLeaving then .stays
      else if d.isGone then .forgotten
      else if host.state == .pendingTerminate && d.isIdle then .requested
      else .stays

/-- The dossier of a host whose fate was carried out at some instant. -/
def after (d : Dossier) (now : Instant) : Dossier :=
  match d.fate with
  | .stays => d
  | .requested =>
      { d with
        record := d.record.map fun h => { h with state := .terminating, lastUpdate := now }
        entry := d.entry.map fun e => { e with terminated := true } }
  | .forgotten => { d with record := none, agents := none }

variable {d : Dossier} {host : Host}

/-- Only the state of a host tells whether it is on its way out. -/
theorem isLeaving_eq (d : Dossier) :
    d.isLeaving = (d.record.map Host.state).any HostState.isLeaving := by
  rw [isLeaving, Option.any_map]

theorem fate_of_leaving (h : d.record = some host) (hl : host.state.isLeaving = true) :
    d.fate = if d.isGone then .forgotten
      else if host.state == .pendingTerminate && d.isIdle then .requested else .stays := by
  simp only [fate, h, hl, Bool.not_true, Bool.false_eq_true, if_false]

theorem fate_of_not_leaving (h : d.isLeaving = false) : d.fate = .stays := by
  cases hrecord : d.record with
  | none => simp only [fate, hrecord]
  | some host =>
      have hl : host.state.isLeaving = false := by simpa [isLeaving, hrecord] using h
      simp only [fate, hrecord, hl, Bool.not_false, if_true]

theorem isLeaving_of_fate (h : d.fate ≠ .stays) : d.isLeaving = true := by
  by_contra hn
  exact h (fate_of_not_leaving (Bool.eq_false_iff.mpr hn))

theorem after_of_stays (h : d.fate = .stays) (now : Instant) : d.after now = d := by
  rw [after, h]

/-- Whatever becomes of a host, it keeps its name. -/
theorem exists_of_after {now : Instant} (h : (d.after now).record = some host) :
    ∃ old, d.record = some old ∧ host.id = old.id := by
  rw [after] at h
  split at h
  · exact ⟨host, h, rfl⟩
  · obtain ⟨old, hold, rfl⟩ := Option.map_eq_some_iff.mp h
    exact ⟨old, hold, rfl⟩
  · cases h

end Dossier

namespace World

variable {w v : World} {s : Store} {id : HostId} {c : Call}

def dossier (w : World) (id : HostId) : Dossier :=
  ⟨w.tables.hosts.get? id, w.tables.agents.get? id, w.provider.hosts.get? id⟩

theorem dossier_eq (ht : v.tables = w.tables) (hp : v.provider = w.provider) (id : HostId) :
    v.dossier id = w.dossier id := by
  rw [dossier, dossier, ht, hp]

/-- What a call leaves alone that only looks, or takes a lock or gives one back. -/
theorem eq_of_isQuiet {a : c.Reply} (hc : c.isQuiet = true) (ha : answer c w = (.ok a, v)) :
    v.tables = w.tables ∧ v.provider = w.provider := by
  have hv : v = (answer c w).2 := by rw [ha]
  cases c with
  | store q =>
      have hq : q.isRead = true := by simpa [Call.isQuiet, Call.isRead, Call.isLockless] using hc
      obtain ⟨s, -, rfl, -⟩ := found_of_ask hq ha
      exact ⟨rfl, rfl⟩
  | provider q =>
      subst hv
      cases q with
      | launchHosts | terminateHosts | attachToPool => cases hc
      | _ => exact ⟨rfl, rfl⟩
  | post n =>
      rw [hv, answer_post_eq]
      exact ⟨rfl, rfl⟩
  | release name token =>
      rw [hv, answer_release_eq]
      exact ⟨rfl, rfl⟩
  | now | shuffle | note | acquire =>
      subst hv
      exact ⟨rfl, rfl⟩

/-- Forgetting a host leaves no trace of it in the tables. -/
theorem dossier_deleteHost (hs : w.store = some s) (forgotten id : HostId) :
    (w.withStore (s.deleteHost forgotten)).dossier id =
      if id = forgotten then { w.dossier id with record := none, agents := none }
      else w.dossier id := by
  have hrecord : (s.deleteHost forgotten).hosts.get? id = if id = forgotten then none
      else s.hosts.get? id := Table.get?_erase _ _ _
  have hagents : (s.deleteHost forgotten).agents.get? id = if id = forgotten then none
      else s.agents.get? id := Table.get?_erase _ _ _
  simp only [dossier, tables_eq hs, tables_eq (show (w.withStore _).store = some _ from rfl),
    hrecord, hagents]
  split <;> rfl

/-- A host is recorded as terminating. -/
theorem dossier_setHostState (hs : w.store = some s) (now : Instant) (marked id : HostId) :
    (w.withStore (s.setHostState now [marked] .terminating)).dossier id =
      if id = marked then
        { w.dossier id with
          record := (w.dossier id).record.map fun h =>
            { h with state := .terminating, lastUpdate := now } }
      else w.dossier id := by
  have hrecord := s.get?_setHostState now [marked] .terminating id
  have hagents : (s.setHostState now [marked] .terminating).agents = s.agents := rfl
  simp only [List.mem_singleton] at hrecord
  simp only [dossier, tables_eq hs, tables_eq (show (w.withStore _).store = some _ from rfl),
    hrecord, hagents]
  split <;> rfl

/-- The world in which the provider has marked some hosts, whatever it has recorded of that. -/
abbrev retire (w : World) (ids : List HostId) (ts : List Termination) : World :=
  { w with provider := { w.provider.retire ids with terminations := ts } }

theorem dossier_retire (w : World) (ts : List Termination) (gone id : HostId) :
    (w.retire [gone] ts).dossier id =
      if id = gone then
        { w.dossier id with
          entry := (w.dossier id).entry.map fun e => { e with terminated := true } }
      else w.dossier id := by
  have hentry := w.provider.get?_retire [gone] id
  have htables : (w.retire [gone] ts).tables = w.tables := rfl
  simp only [List.mem_singleton] at hentry
  simp only [dossier, htables, hentry]
  split <;> rfl

end World

namespace Decommission

variable {raises : Fault → Prop} {w v u : World} {s : Store} {id : HostId} {ids : List HostId}
  {c : Call} {past : List (Entry World)} {j : Journal World} {known : Host}

/-! ## What a tick may ask for -/

/-- What a tick may do after other calls. Terminations are requested of one host at a time, which
was drained, has stopped, and was not asked before. Hosts that are not on their way out are left
alone. -/
structure Undertakes (past : List (Entry World)) (e : Entry World) : Prop where
  requests : ∀ cluster ids drain, e.call = .provider (.terminateHosts cluster ids drain) →
    ∃ host, e.before.tables.hosts.get? host.id = some host ∧ host.state = .pendingTerminate ∧
      (e.before.tables.agentsOn host.id).all Agent.isStopped = true ∧ cluster = host.cluster ∧
      ids = [host.id] ∧ ∀ g ∈ past, host.id ∉ g.call.terminated
  spares : ∀ id, (e.before.dossier id).isLeaving = false → e.after.dossier id = e.before.dossier id

theorem terminated_of_isQuiet (hc : c.isQuiet = true) : c.terminated = [] := by
  unfold Call.terminated
  split
  · cases hc
  · rfl

theorem undertakes_of_isQuiet {a : c.Reply} (hc : c.isQuiet = true)
    (ha : World.answer c w = (.ok a, v)) : Undertakes past ⟨w, c, .ok a, v⟩ := by
  obtain ⟨ht, hp⟩ := World.eq_of_isQuiet hc ha
  refine ⟨?_, fun id _ => World.dossier_eq ht hp id⟩
  rintro cluster ids drain rfl
  cases hc

/-- A host whose termination was requested is terminating, or was forgotten. -/
def Asked (j : Journal World) (id : HostId) : Prop :=
  (∃ host, (j.state.dossier id).record = some host ∧ host.state = .terminating) ∨
    ((∃ e ∈ j.log, e.call = .store (.deleteHost id)) ∧ (j.state.dossier id).isLeaving = false)

theorem Asked.of_dossier {j' : Journal World} (h : Asked j id)
    (hd : j'.state.dossier id = j.state.dossier id) (hl : j.log ⊆ j'.log) : Asked j' id := by
  rw [Asked, hd]
  refine h.imp_right fun ⟨⟨e, he, hc⟩, hn⟩ => ⟨⟨e, hl he, hc⟩, hn⟩

/-- A host that waits for its termination was not asked before. -/
theorem Asked.not_pending (h : Asked j known.id)
    (hfound : (j.state.dossier known.id).record = some known) :
    known.state ≠ .pendingTerminate := by
  intro hs
  obtain ⟨host, hhost, ht⟩ | ⟨-, hn⟩ := h
  · cases hfound.symm.trans hhost
    rw [hs] at ht
    cases ht
  · simp [Dossier.isLeaving, hfound, hs, HostState.isLeaving] at hn

/-- What is known between the calls of ticks, except between a request and its record. -/
structure Rested (j : Journal World) : Prop where
  keyed : ∀ id host, (j.state.dossier id).record = some host → host.id = id
  admits : Rule.Admits Undertakes j.log
  asked : ∀ id, (∃ e ∈ j.log, id ∈ e.call.terminated) → Asked j id

theorem Rested.quiet {a : c.Reply} (h : Rested j) (hc : c.isQuiet = true)
    (ha : World.answer c j.state = (.ok a, v)) : Rested (j.enter c (.ok a) v) := by
  obtain ⟨ht, hp⟩ := World.eq_of_isQuiet hc ha
  have hd : ∀ id, v.dossier id = j.state.dossier id := World.dossier_eq ht hp
  refine ⟨fun id host hrecord => h.keyed id host (hd id ▸ hrecord),
    ⟨undertakes_of_isQuiet hc ha, h.admits⟩, ?_⟩
  rintro id ⟨e, he, hid⟩
  rcases List.mem_cons.mp he with rfl | he
  · rw [terminated_of_isQuiet hc] at hid
    cases hid
  · exact (h.asked id ⟨e, he, hid⟩).of_dossier (hd id) (List.subset_cons_self _ _)

/-! ## One host -/

/-- One world is another in which the fates of some hosts were carried out. -/
structure Swept (w : World) (ids : List HostId) (v : World) : Prop where
  clock : v.clock = w.clock
  stored : v.store.isSome = true
  locks : ∀ id, v.locks.holder? (lockOf lockPrefix id) = w.locks.holder? (lockOf lockPrefix id)
  handled : ∀ id ∈ ids, v.dossier id = (w.dossier id).after w.clock
  others : ∀ id, id ∉ ids → v.dossier id = w.dossier id

theorem Swept.nothing (hs : w.store = some s) : Swept w [] w where
  clock := rfl
  stored := by rw [hs]; rfl
  locks _ := rfl
  handled := by simp
  others _ _ := rfl

/-- A host may stay as it is. -/
theorem Swept.stay (hs : w.store = some s) (hf : (w.dossier id).fate = .stays) :
    Swept w [id] w where
  __ := Swept.nothing hs
  handled other hmem := by
    rw [List.mem_singleton.mp hmem, Dossier.after_of_stays hf]
  others _ _ := rfl

theorem Swept.forget (hs : w.store = some s) (hf : (w.dossier id).fate = .forgotten) :
    Swept w [id] (w.withStore (s.deleteHost id)) where
  clock := rfl
  stored := rfl
  locks _ := rfl
  handled other hmem := by
    rw [List.mem_singleton.mp hmem, World.dossier_deleteHost hs, if_pos rfl, Dossier.after, hf]
  others other hmem := by
    rw [World.dossier_deleteHost hs, if_neg fun he => hmem (List.mem_singleton.mpr he)]

theorem Swept.request (hs : w.store = some s) (hf : (w.dossier id).fate = .requested)
    (ts : List Termination) :
    let v := w.retire [id] ts
    Swept w [id] (v.withStore (s.setHostState v.clock [id] .terminating)) := by
  intro v
  have hasked := w.dossier_retire ts id
  have hmarked := World.dossier_setHostState (w := v) hs v.clock id
  refine ⟨rfl, rfl, fun _ => rfl, fun other hmem => ?_, fun other hmem => ?_⟩
  · rw [List.mem_singleton.mp hmem, hmarked, if_pos rfl, hasked, if_pos rfl, Dossier.after, hf]
  · have hne : other ≠ id := fun he => hmem (List.mem_singleton.mpr he)
    rw [hmarked, if_neg hne, hasked, if_neg hne]

/-- Fates are carried out one after the other, as no host is looked at twice. -/
theorem Swept.append {more : List HostId} (h : Swept w ids v) (h' : Swept v more u)
    (hd : ids.Disjoint more) : Swept w (ids ++ more) u where
  clock := h'.clock.trans h.clock
  stored := h'.stored
  locks id := (h'.locks id).trans (h.locks id)
  handled id hmem := by
    rcases List.mem_append.mp hmem with hid | hid
    · rw [h'.others id (hd hid), h.handled id hid]
    · rw [h'.handled id hid, h.others id fun hold => hd hold hid, h.clock]
  others id hmem := by
    rw [List.mem_append, not_or] at hmem
    rw [h'.others id hmem.2, h.others id hmem.1]

/-- What is known stays known while the fate of a host is carried out. -/
theorem Rested.sweep (h : Rested j) (new : List (Entry World)) (hw : Swept j.state [id] v)
    (hadmits : Rule.Admits Undertakes (new ++ j.log))
    (hasks : ∀ e ∈ new, ∀ other ∈ e.call.terminated,
      other = id ∧ (j.state.dossier id).fate = .requested)
    (hforgets : (j.state.dossier id).fate = .forgotten →
      ∃ e ∈ new, e.call = .store (.deleteHost id)) : Rested ⟨v, new ++ j.log⟩ := by
  have hown : v.dossier id = (j.state.dossier id).after j.state.clock :=
    hw.handled id List.mem_cons_self
  have hothers : ∀ other, other ≠ id → v.dossier other = j.state.dossier other :=
    fun other hne => hw.others other fun hmem => hne (List.mem_singleton.mp hmem)
  refine ⟨fun other host hrecord => ?_, hadmits, ?_⟩
  · have hrecord : (v.dossier other).record = some host := hrecord
    by_cases hid : other = id
    · subst hid
      rw [hown] at hrecord
      obtain ⟨old, hold, hname⟩ := Dossier.exists_of_after hrecord
      exact hname.trans (h.keyed other old hold)
    · rw [hothers other hid] at hrecord
      exact h.keyed other host hrecord
  · rintro other ⟨e, he, hmem⟩
    have hbefore : other ≠ id ∨ (j.state.dossier id).fate ≠ .requested → Asked j other := by
      intro hne
      refine h.asked other ⟨e, (List.mem_append.mp he).resolve_left fun hnew => ?_, hmem⟩
      obtain ⟨hid, hf⟩ := hasks e hnew other hmem
      exact hne.elim (absurd hid) (absurd hf)
    by_cases hid : other = id
    · subst hid
      rw [Dossier.after] at hown
      split at hown
      · rename_i hf
        exact (hbefore (.inr (by simp [hf]))).of_dossier hown (List.subset_append_right _ _)
      · rename_i hf
        obtain ⟨host, hhost, -⟩ := (Option.any_eq_true _ _).mp
          (Dossier.isLeaving_of_fate (by simp [hf] : (j.state.dossier other).fate ≠ .stays))
        refine .inl ⟨{ host with state := .terminating, lastUpdate := j.state.clock }, ?_, rfl⟩
        change (v.dossier other).record = _
        rw [hown, hhost]
        rfl
      · rename_i hf
        obtain ⟨e, hnew, hc⟩ := hforgets hf
        refine .inr ⟨⟨e, List.mem_append_left _ hnew, hc⟩, ?_⟩
        change (v.dossier other).isLeaving = false
        rw [hown]
        rfl
    · exact (hbefore (.inl hid)).of_dossier (hothers other hid) (List.subset_append_right _ _)

/-- A host whose fate is to be forgotten may be forgotten. -/
theorem Rested.forget {a : Unit} (h : Rested j) (hs : j.state.store = some s)
    (hf : (j.state.dossier id).fate = .forgotten) :
    Rested (j.enter (.store (.deleteHost id)) (.ok a) (j.state.withStore (s.deleteHost id))) := by
  have hl : (j.state.dossier id).isLeaving = true := Dossier.isLeaving_of_fate (by simp [hf])
  have hswept := Swept.forget hs hf
  refine h.sweep [⟨j.state, .store (.deleteHost id), .ok a, _⟩] hswept
    ⟨⟨?_, fun other hn => ?_⟩, h.admits⟩ ?_ fun _ => ⟨_, List.mem_cons_self, rfl⟩
  · rintro cluster ids drain hc
    cases hc
  · refine hswept.others other fun hmem => ?_
    rw [List.mem_singleton.mp hmem, hl] at hn
    cases hn
  · rintro e he other hmem
    rw [List.mem_singleton.mp he] at hmem
    cases hmem

/-- A host whose fate is a request may be asked to be terminated, if this is recorded at once. -/
theorem Rested.request {a b : Unit} (h : Rested j) (hs : j.state.store = some s)
    (hfound : (j.state.dossier known.id).record = some known)
    (hp : known.state = .pendingTerminate) (hidle : (j.state.dossier known.id).isIdle = true)
    (hf : (j.state.dossier known.id).fate = .requested) (ts : List Termination) :
    let w := j.state.retire [known.id] ts
    Rested ((j.enter (.provider (.terminateHosts known.cluster [known.id] true)) (.ok a) w).enter
      (.store (.setHostState [known.id] .terminating)) (.ok b)
      (w.withStore (s.setHostState w.clock [known.id] .terminating))) := by
  intro w
  have hne : ∀ d : Dossier, d.record = some known → d.isLeaving = false → False := by
    intro d hd hn
    simp [Dossier.isLeaving, hd, hp, HostState.isLeaving] at hn
  refine h.sweep [⟨w, .store (.setHostState [known.id] .terminating), .ok b, _⟩,
    ⟨j.state, .provider (.terminateHosts known.cluster [known.id] true), .ok a, w⟩]
    (Swept.request hs hf ts) ⟨⟨?_, fun id hn => ?_⟩, ⟨?_, fun id hn => ?_⟩, h.admits⟩ ?_ (by simp [hf])
  · rintro cluster ids drain hc
    cases hc
  · refine (World.dossier_setHostState (w := w) hs w.clock known.id id).trans (if_neg ?_)
    rintro rfl
    refine hne (w.dossier known.id) ?_ hn
    rw [j.state.dossier_retire ts, if_pos rfl, hfound]
  · rintro cluster ids drain hc
    cases hc
    refine ⟨known, hfound, hp, hidle, rfl, rfl, fun g hg hmem => ?_⟩
    exact (h.asked known.id ⟨g, hg, hmem⟩).not_pending hfound hp
  · refine (j.state.dossier_retire ts known.id id).trans (if_neg ?_)
    rintro rfl
    exact hne (j.state.dossier known.id) hfound hn
  · rintro e he other hmem
    obtain rfl | rfl : e = _ ∨ e = _ := by simpa using he
    · cases hmem
    · exact ⟨List.mem_singleton.mp hmem, hf⟩

theorem smooth_forgetIfGone (h : Rested j) (hs : j.state.store = some s)
    (hfound : (j.state.dossier known.id).record = some known)
    (hl : known.state.isLeaving = true) :
    (forgetIfGone known).Smooth raises (fun removed j' => Rested j' ∧
      if removed then Swept j.state [known.id] j'.state
      else (j.state.dossier known.id).isGone = false ∧ j'.state = j.state) j := by
  have hanswer : World.answer (.provider (.listTerminated [known.id])) j.state =
      (.ok (.ofList ([known.id].filter j.state.provider.isTerminated)), j.state) := rfl
  have h₁ := h.quiet rfl hanswer
  refine .next hanswer ?_
  split
  · rename_i hmem
    have hgone : j.state.provider.isTerminated known.id = true := by simpa using hmem
    have hfate : (j.state.dossier known.id).fate = .forgotten := by
      exact (Dossier.fate_of_leaving hfound hl).trans (if_pos hgone)
    refine .bind (smooth_perform (Q := fun _ j' => Rested j' ∧
      Swept j.state [known.id] j'.state) ?_) fun _ j₂ h₂ _ => h₂
    intro u v ha
    obtain ⟨s', he, rfl⟩ := World.eq_of_ask (w := j.state) hs ha
    cases he
    exact ⟨h₁.forget hs hfate, .forget hs hfate⟩
  · rename_i hmem
    have hgone : j.state.provider.isTerminated known.id = false := by simpa using hmem
    exact ⟨h₁, hgone, rfl⟩

theorem smooth_terminateIfIdle (h : Rested j) (hj : j.state = w) (hs : w.store = some s)
    (hfound : (w.dossier known.id).record = some known)
    (hp : known.state = .pendingTerminate) (hgone : (w.dossier known.id).isGone = false) :
    (terminateIfIdle known).Smooth raises (fun _ j' => Rested j' ∧
      Swept w [known.id] j'.state) j := by
  subst hj
  have hl : known.state.isLeaving = true := by rw [hp]; rfl
  have hfate : (j.state.dossier known.id).fate =
      if (j.state.dossier known.id).isIdle then .requested else .stays := by
    rw [Dossier.fate_of_leaving hfound hl, hgone, hp]
    simp
  have hanswer : World.answer (.store (.agentsByHost known.id)) j.state =
      (.ok (s.agentsOn known.id), j.state) := World.answer_ask hs rfl
  have hagents : (s.agentsOn known.id).all Agent.isStopped =
      (j.state.dossier known.id).isIdle := by
    rw [← World.tables_eq hs]
    rfl
  have h₁ := h.quiet rfl hanswer
  refine .next hanswer ?_
  rw [hagents]
  split
  · rename_i hidle
    rw [if_pos hidle] at hfate
    refine .bind (smooth_perform (Q := fun _ j' => ∃ a w, j' = (j.enter _ _ _).enter _ (.ok a) w ∧
      World.answer _ j.state = (.ok a, w)) fun a w ha => ⟨a, w, rfl, ha⟩) ?_
    rintro _ _ ⟨a, w, rfl, ha⟩ -
    obtain rfl := World.eq_of_terminateHosts ha
    refine smooth_perform fun b v hb => ?_
    obtain rfl := World.eq_of_setHostState (s := s) (by exact hs) hb
    exact ⟨h₁.request hs hfound hp hidle hfate _, .request hs hfate _⟩
  · rename_i hidle
    rw [if_neg hidle] at hfate
    exact ⟨h₁, .stay hs hfate⟩

/-- To process a host is to carry out its fate. -/
theorem smooth_process (h : Rested j) (hs : j.state.store = some s) (id : HostId) :
    (process id).Smooth raises (fun _ j' => Rested j' ∧ Swept j.state [id] j'.state) j := by
  have hanswer : World.answer (.store (.getHost id)) j.state =
      (.ok (s.hosts.get? id), j.state) := World.answer_ask hs rfl
  have hrecord : s.hosts.get? id = (j.state.dossier id).record := by
    rw [← World.tables_eq hs]
    rfl
  have h₁ := h.quiet rfl hanswer
  refine .next hanswer ?_
  rw [hrecord] at h₁ ⊢
  split
  · rename_i hnone
    refine ⟨h₁, .stay hs (Dossier.fate_of_not_leaving ?_)⟩
    rw [Dossier.isLeaving, hnone]
    rfl
  · rename_i known hfound
    obtain rfl := h.keyed id known hfound
    split
    · rename_i hn
      refine ⟨h₁, .stay hs (Dossier.fate_of_not_leaving ?_)⟩
      simpa [Dossier.isLeaving, hfound] using hn
    · rename_i hl
      have hl : known.state.isLeaving = true := by simpa using hl
      refine .bind (smooth_forgetIfGone h₁ hs hfound hl) ?_
      rintro removed j₂ ⟨h₂, hremoved⟩ -
      cases removed with
      | true => exact ⟨h₂, hremoved⟩
      | false =>
          obtain ⟨hgone, hstate⟩ := hremoved
          split
          · rename_i hp
            have hp : known.state = .pendingTerminate := by simpa using hp
            exact smooth_terminateIfIdle h₂ hstate hs hfound hp hgone
          · rename_i hp
            have hp : (known.state == .pendingTerminate) = false := by simpa using hp
            have hfate : (j.state.dossier known.id).fate = .stays := by
              rw [Dossier.fate_of_leaving hfound hl]
              simp [show (j.state.dossier known.id).isGone = false from hgone, hp]
            refine ⟨h₂, ?_⟩
            rw [hstate]
            exact .stay hs hfate

/-! ## A tick -/

/-- Nobody holds the lock of a host. -/
def isFree (w : World) (id : HostId) : Bool := (w.locks.holder? (lockOf lockPrefix id)).isNone

/-- What was carried out under a lock is carried out when the lock is given back. -/
theorem Swept.release {name : String} {token : Token} {locks : LockTable}
    (hfree : w.locks.holder? name = none)
    (h : Swept { w with locks := (w.locks.acquire name).2 } ids v)
    (hr : v.locks.release? name token = some locks) : Swept w ids { v with locks := locks } where
  clock := h.clock
  stored := h.stored
  locks id := by
    rw [LockTable.holder?_release? hr]
    split
    · rename_i hname
      rw [hname, hfree]
    · rename_i hname
      exact (h.locks id).trans (w.locks.holder?_acquire_of_ne hname)
  handled := h.handled
  others := h.others

/-- The fate of a host is carried out under its lock, unless the lock is held. -/
theorem smooth_exclusively (h : Rested j) (hs : j.state.store = some s) (id : HostId) :
    (exclusively (lockOf lockPrefix id) (process id)).Smooth raises (fun _ j' => Rested j' ∧
      Swept j.state ([id].filter (isFree j.state)) j'.state) j := by
  cases hholder : j.state.locks.holder? (lockOf lockPrefix id) with
  | some holder =>
      have hanswer : World.answer (.acquire (lockOf lockPrefix id)) j.state =
          (.ok none, j.state) := by
        rw [World.answer, World.acquire, LockTable.acquire_of_held hholder]
      have hnone : [id].filter (isFree j.state) = [] := by simp [isFree, hholder]
      rw [hnone]
      exact .next hanswer ⟨h.quiet rfl hanswer, .nothing hs⟩
  | none =>
      have hanswer : World.answer (.acquire (lockOf lockPrefix id)) j.state =
          (.ok (some (.issued j.state.locks.issued)),
            { j.state with locks := (j.state.locks.acquire (lockOf lockPrefix id)).2 }) := by
        rw [World.answer, World.acquire, LockTable.acquire_of_free hholder]
      have hone : [id].filter (isFree j.state) = [id] := by simp [isFree, hholder]
      rw [hone]
      refine .next hanswer ?_
      refine .bind (smooth_process (h.quiet rfl hanswer) hs id).contain fun outcome j₁ h₁ _ => ?_
      cases outcome with
      | error e => exact h₁.elim
      | ok u =>
          obtain ⟨hrested, hswept⟩ := h₁
          have hgive : (perform (.release (lockOf lockPrefix id)
              (.issued j.state.locks.issued))).Smooth raises (fun _ j' => Rested j' ∧
                Swept j.state [id] j'.state) j₁ := by
            refine smooth_perform fun u v ha => ⟨hrested.quiet rfl ha, ?_⟩
            simp only [World.answer, World.release] at ha
            split at ha
            · rename_i hr
              cases ha
              exact hswept.release hholder hr
            · cases ha
          refine .bind hgive.attempt fun given j₂ h₂ _ => ?_
          cases given with
          | error e => exact h₂.elim
          | ok u => exact h₂

theorem smooth_attempt (h : Rested j) (hs : j.state.store = some s) (id : HostId) :
    (controller.attempt id).Smooth raises (fun _ j' => Rested j' ∧
      Swept j.state ([id].filter (isFree j.state)) j'.state) j := by
  refine .bind (smooth_exclusively h hs id).attempt fun outcome j₁ h₁ _ => ?_
  rcases outcome with e | _ | u
  · exact h₁.elim
  · exact h₁
  · exact h₁

/-- Attempts at different hosts carry out the fates of those whose locks are free. -/
theorem smooth_attemptAll (hd : ids.Nodup) (report : PassReport) (h : Rested j)
    (hs : j.state.store = some s) :
    (controller.attemptAll ids report).Smooth raises (fun _ j' => Rested j' ∧
      Swept j.state (ids.filter (isFree j.state)) j'.state) j := by
  induction ids generalizing report j s with
  | nil => exact ⟨h, .nothing hs⟩
  | cons id ids ih =>
      obtain ⟨hid, hids⟩ := List.nodup_cons.mp hd
      refine .bind (smooth_attempt h hs id) fun a j₁ ⟨h₁, hswept⟩ _ => ?_
      obtain ⟨s₁, hs₁⟩ := Option.isSome_iff_exists.mp hswept.stored
      refine (ih hids _ h₁ hs₁).imp fun _ j₂ ⟨h₂, hrest⟩ => ⟨h₂, ?_⟩
      have hfree : isFree j₁.state = isFree j.state := by
        funext other
        rw [isFree, isFree, hswept.locks]
      have hdisjoint : ([id].filter (isFree j.state)).Disjoint (ids.filter (isFree j.state)) := by
        intro other hone hmore
        rw [List.mem_singleton.mp (List.mem_filter.mp hone).1] at hmore
        exact hid (List.mem_filter.mp hmore).1
      rw [hfree] at hrest
      have happend := hswept.append hrest hdisjoint
      rwa [← List.filter_append] at happend

/-- What a tick makes of a host. -/
def swept (w : World) (id : HostId) : Dossier :=
  if isFree w id then (w.dossier id).after w.clock else w.dossier id

/-- The hosts that a tick looks at. -/
def due (s : Store) : List HostId :=
  (s.hostsInStates [.pendingTerminate, .terminating]).map Host.id

theorem nodup_due (hk : s.hosts.KeyedBy Host.id) : (due s).Nodup := by
  have hkeys := s.hosts.nodup_keys
  rw [← hk.map_values] at hkeys
  exact (List.filter_sublist.map Host.id).nodup hkeys

/-- Every host on its way out is looked at. -/
theorem mem_due (hk : s.hosts.KeyedBy Host.id) (hl : s.isLeaving id = true) : id ∈ due s := by
  obtain ⟨host, hhost, hleaving⟩ := (Option.any_eq_true _ _).mp hl
  refine List.mem_map.mpr ⟨host, List.mem_filter.mpr ⟨?_, ?_⟩, hk id host hhost⟩
  · exact Table.mem_values_iff.mpr ⟨id, hhost⟩
  · cases hstate : host.state <;> simp_all [HostState.isLeaving]

/-- A tick carries out the fate of every host whose lock is free. -/
theorem smooth_pass (h : Rested j) :
    controller.pass.Smooth raises (fun _ j' => Rested j' ∧
      ∀ id, j'.state.dossier id = swept j.state id) j := by
  have hlist : (controller.candidates).Smooth raises (fun ids j' => Rested j' ∧
      j'.state = j.state ∧ ∃ s, j.state.store = some s ∧ ids = due s) j := by
    refine .bind (smooth_perform (Q := fun found j' => Rested j' ∧ j'.state = j.state ∧
      ∃ s, j.state.store = some s ∧
        found = s.hostsInStates [.pendingTerminate, .terminating]) ?_) ?_
    · intro found w ha
      refine ⟨h.quiet rfl ha, ?_⟩
      obtain ⟨s, hs, hw, hfound⟩ := World.found_of_ask rfl ha
      exact ⟨hw, s, hs, (Except.ok.inj hfound).symm⟩
    · rintro found j₁ ⟨h₁, hstate, s, hs, rfl⟩ -
      exact ⟨h₁, hstate, s, hs, rfl⟩
  refine .bind hlist.attempt fun listed j₁ h₁ _ => ?_
  cases listed with
  | error e => exact h₁.elim
  | ok ids =>
      obtain ⟨h₁, hstate, s, hs, rfl⟩ := h₁
      obtain ⟨w, log⟩ := j₁
      obtain rfl : w = j.state := hstate
      have hkeyed : s.hosts.KeyedBy Host.id := by
        rw [← World.tables_eq hs]
        exact h.keyed
      have hanswer : World.answer (.shuffle (due s)) j.state =
          (.ok (j.state.selector.shuffle (due s)).1, { j.state with
            selector := (j.state.selector.shuffle (due s)).2 }) := rfl
      have hperm := j.state.selector.shuffle_perm (due s)
      refine Smooth.next hanswer ?_
      refine (smooth_attemptAll (hperm.nodup_iff.mpr (nodup_due hkeyed)) _
        (h₁.quiet rfl hanswer) hs).imp fun _ j₂ ⟨h₂, hswept⟩ => ⟨h₂, fun id => ?_⟩
      by_cases hfree : isFree j.state id = true
      · rw [swept, if_pos hfree]
        by_cases hmem : id ∈ due s
        · exact hswept.handled id (List.mem_filter.mpr ⟨hperm.mem_iff.mpr hmem, hfree⟩)
        · have hstays : (j.state.dossier id).isLeaving = false := by
            refine Bool.eq_false_iff.mpr fun hl => hmem (mem_due hkeyed ?_)
            rw [← World.tables_eq hs]
            exact hl
          rw [Dossier.after_of_stays (Dossier.fate_of_not_leaving hstays)]
          exact hswept.others id fun hfound =>
            hmem (hperm.mem_iff.mp (List.mem_filter.mp hfound).1)
      · rw [swept, if_neg hfree]
        exact hswept.others id fun hfound => hfree (List.mem_filter.mp hfound).2

/-! ## Runs of ticks -/

/-- What the others may do between ticks: anything, as long as they change the state of no host,
and record none that is on its way out. -/
structure Aside (w v : World) : Prop where
  keyed : w.tables.hosts.KeyedBy Host.id → v.tables.hosts.KeyedBy Host.id
  states : ∀ id, (v.tables.hosts.get? id).map Host.state = (w.tables.hosts.get? id).map Host.state ∨
    (w.tables.hosts.get? id = none ∧ v.tables.isLeaving id = false)

/-- Ticks in which no call fails, with their calls. Between them agents report, the provider
changes, and the others do what else is allowed to them. -/
inductive Ticks (w : World) : Journal World → Prop where
  | start : Ticks w (.start w)
  | others {j : Journal World} {v : World} (past : Ticks w j) (h : Aside j.state v) :
      Ticks w ⟨v, j.log⟩
  | tick {j j' : Journal World} (past : Ticks w j) {r : Outcome PassReport}
      (h : controller.pass.Ends unaided.recorded j r j') : Ticks w j'

theorem Aside.asked (h : Aside j.state v) (ha : Asked j id) : Asked ⟨v, j.log⟩ id := by
  have hstates : (v.dossier id).record.map Host.state =
      (j.state.dossier id).record.map Host.state ∨
        ((j.state.dossier id).record = none ∧ (v.dossier id).isLeaving = false) := h.states id
  obtain ⟨host, hhost, hs⟩ | ⟨hgone, hn⟩ := ha
  · obtain hsame | ⟨hnone, -⟩ := hstates
    · rw [hhost, Option.map_some, hs, Option.map_eq_some_iff] at hsame
      exact .inl hsame
    · rw [hhost] at hnone
      cases hnone
  · refine .inr ⟨hgone, ?_⟩
    obtain hsame | ⟨-, hn⟩ := hstates
    · rw [Dossier.isLeaving_eq] at hn ⊢
      exact hsame ▸ hn
    · exact hn

theorem Ticks.rested (h : Ticks w j) (hk : w.tables.hosts.KeyedBy Host.id) : Rested j := by
  induction h with
  | start =>
      refine ⟨hk, trivial, ?_⟩
      rintro id ⟨e, he, -⟩
      cases he
  | others _ ho ih => exact ⟨ho.keyed ih.keyed, ih.admits, fun id he => ho.asked (ih.asked id he)⟩
  | tick _ he ih =>
      obtain ⟨-, -, hrested, -⟩ := (smooth_pass ih).ends he
      exact hrested

/-- A host whose termination was requested is terminating until it is forgotten. -/
theorem Rested.isTerminating (h : Rested j) (hasked : ∃ e ∈ j.log, id ∈ e.call.terminated)
    (hkept : ∀ e ∈ j.log, e.call ≠ .store (.deleteHost id)) :
    ∃ host, (j.state.dossier id).record = some host ∧ host.state = .terminating := by
  obtain hhost | ⟨⟨e, he, hc⟩, -⟩ := h.asked id hasked
  · exact hhost
  · exact absurd hc (hkept e he)

/-- A terminating host whose lock is free is forgotten once the provider has terminated it. -/
theorem swept_of_terminated (hfound : (w.dossier known.id).record = some known)
    (hs : known.state = .terminating) (hgone : w.provider.isTerminated known.id = true)
    (hfree : isFree w known.id = true) :
    swept w known.id = { w.dossier known.id with record := none, agents := none } := by
  have hl : known.state.isLeaving = true := by rw [hs]; rfl
  have hfate : (w.dossier known.id).fate = .forgotten :=
    (Dossier.fate_of_leaving hfound hl).trans (if_pos hgone)
  rw [swept, if_pos hfree, Dossier.after, hfate]

/-- In every run of ticks a termination is requested of one host at a time and for its own
cluster, while it is recorded as waiting for its termination and all its agents have stopped, and
never twice of a host. No call changes a host that is not on its way out. Once a host was asked
and the provider reports it terminated, the next tick that finds its lock free leaves neither its
record nor any of its agents. Every other host is left by the tick as its own fate wants it. -/
theorem hosts_depart_once_stopped {w : World} {j : Journal World}
    (hkeyed : w.tables.hosts.KeyedBy Host.id) (hrun : Ticks w j) :
    (∀ later past e cluster ids drain, j.log = later ++ e :: past →
      e.call = .provider (.terminateHosts cluster ids drain) →
      ∃ host, e.before.tables.hosts.get? host.id = some host ∧ host.state = .pendingTerminate ∧
        (∀ a ∈ e.before.tables.agentsOn host.id,
          a.deployStage = .stopped ∨ a.state = .pausedBySystem) ∧
        cluster = host.cluster ∧ ids = [host.id] ∧ ∀ g ∈ past, host.id ∉ g.call.terminated) ∧
    (∀ e ∈ j.log, ∀ id, e.before.tables.isLeaving id = false →
      e.after.dossier id = e.before.dossier id) ∧
    ∀ r j', controller.pass.Ends unaided.recorded j r j' →
      (∀ id, (∃ e ∈ j.log, id ∈ e.call.terminated) →
        (∀ e ∈ j.log, e.call ≠ .store (.deleteHost id)) →
        j.state.provider.isTerminated id = true → isFree j.state id = true →
        j'.state.tables.hosts.get? id = none ∧ j'.state.tables.agents.get? id = none) ∧
      ∀ id, j'.state.dossier id = swept j.state id := by
  have hrested := hrun.rested hkeyed
  refine ⟨fun later past e cluster ids drain hlog hc => ?_, fun e he => ?_, fun r j' he => ?_⟩
  · have hadmits := hrested.admits
    rw [hlog] at hadmits
    obtain ⟨host, hfound, hp, hstopped, hrest⟩ := hadmits.of_append.requests cluster ids drain hc
    refine ⟨host, hfound, hp, fun a ha => ?_, hrest⟩
    simpa [Agent.isStopped] using List.all_eq_true.mp hstopped a ha
  · obtain ⟨later, past, hlog⟩ := List.append_of_mem he
    have hadmits := hrested.admits
    rw [hlog] at hadmits
    exact hadmits.of_append.spares
  · obtain ⟨-, -, -, hswept⟩ := (smooth_pass hrested).ends he
    refine ⟨fun id hasked hkept hgone hfree => ?_, hswept⟩
    obtain ⟨host, hhost, hs⟩ := hrested.isTerminating hasked hkept
    obtain rfl := hrested.keyed id host hhost
    have hleft := hswept host.id
    rw [swept_of_terminated hhost hs hgone hfree] at hleft
    exact ⟨congrArg Dossier.record hleft, congrArg Dossier.agents hleft⟩

/-- Two hosts that were drained. The agent of the first has stopped, that of the second serves. -/
def emptying : World :=
  let host (id : HostId) : Host := ⟨id, "web", .pendingTerminate, false, .epoch, .epoch⟩
  let agent (id : HostId) (stage : DeployStage) : Agent :=
    ⟨id, "prod", stage, .succeeded, .normal, none, none, .epoch⟩
  let hosts := (Store.empty.insertHost (host "first")).insertHost (host "second")
  { World.initial .epoch (.seeded 0) with
    store := some ((hosts.putAgent (agent "first" .stopped)).putAgent
      (agent "second" .servingBuild))
    provider := (Provider.empty.addHost "web" "first").addHost "web" "second" }

theorem keyed_emptying : emptying.tables.hosts.KeyedBy Host.id :=
  ((Store.keyed_empty.insertHost _).insertHost _).hosts

/-- The agent of the second host stops. -/
def secondStops (w : World) : World :=
  { w with store := w.store.map fun s =>
      s.putAgent ⟨"second", "prod", .stopped, .succeeded, .normal, none, none, .epoch⟩ }

/-- Somebody takes the lock of the first host. -/
def firstTaken (w : World) : World :=
  { w with locks := (w.locks.acquire (lockOf lockPrefix "first")).2 }

/-- Where the hosts are the same, the others did what they may. -/
theorem aside_of_hosts (h : v.tables.hosts = w.tables.hosts) : Aside w v where
  keyed hk := h ▸ hk
  states id := .inl (by rw [h])

theorem aside_secondStops (w : World) : Aside w (secondStops w) := by
  apply aside_of_hosts
  rw [secondStops, World.tables, World.tables]
  cases w.store <;> rfl

/-- The first host is asked to be terminated, and then the agent of the second one stops. -/
def emptyingRun : Journal World :=
  let first := controller.pass.undisturbed (.start emptying)
  ⟨secondStops first.state, first.log⟩

/-- A tick in which no call has failed. -/
theorem ends_tick {j : Journal World}
    (hok : (controller.pass.undisturbed j).log.all (·.reply.isOk) = true) :
    controller.pass.Ends unaided.recorded j (controller.pass.run (failing fun _ _ => none) j).1
      (controller.pass.undisturbed j) :=
  (ends_undisturbed (fun _ => rfl) controller.pass j).flawless (List.all_eq_true.mp hok)

theorem ticks_emptyingRun : Ticks emptying emptyingRun :=
  (Ticks.start.tick (ends_tick (by decide +kernel))).others (aside_secondStops _)

theorem asked_emptyingRun : ∃ e ∈ emptyingRun.log, "first" ∈ e.call.terminated := by
  have hany : emptyingRun.log.any (fun e => e.call.terminated.contains "first") = true := by
    decide +kernel
  obtain ⟨e, he, hmem⟩ := List.any_eq_true.mp hany
  exact ⟨e, he, List.contains_iff_mem.mp hmem⟩

/-- The law of departing hosts where the first host is asked in one tick and forgotten in the
next, with its agents. -/
theorem hosts_depart_once_stopped_emptying :
    emptying.tables.hosts.KeyedBy Host.id ∧ Ticks emptying emptyingRun ∧
      ∃ r j', controller.pass.Ends unaided.recorded emptyingRun r j' ∧
        emptyingRun.state.tables.hosts.contains "first" = true ∧
        j'.state.tables.hosts.get? "first" = none ∧ j'.state.tables.agents.get? "first" = none ∧
        j'.state.dossier "second" = swept emptyingRun.state "second" := by
  have he := ends_tick (j := emptyingRun) (by decide +kernel)
  have hkept : ∀ e ∈ emptyingRun.log, e.call ≠ .store (.deleteHost "first") := by
    have hall : emptyingRun.log.all (fun e => !Shifts.forgetsHost "first" e.call) = true := by
      decide +kernel
    intro e hmem hc
    have hforgets := List.all_eq_true.mp hall e hmem
    rw [hc] at hforgets
    cases hforgets
  obtain ⟨-, -, hlaw⟩ := hosts_depart_once_stopped keyed_emptying ticks_emptyingRun
  obtain ⟨hgone, hswept⟩ := hlaw _ _ he
  have hfirst := hgone "first" asked_emptyingRun hkept (by decide +kernel) (by decide +kernel)
  exact ⟨keyed_emptying, ticks_emptyingRun, _, _, he, by decide +kernel, hfirst.1, hfirst.2,
    hswept "second"⟩

/-- The tick that forgets the first host also asks for the second one, which was waiting for its
termination and is terminating from then on. While somebody holds the lock of the first host, a
tick does not forget it. -/
theorem second_host_departs_too :
    emptying.tables.hosts.KeyedBy Host.id ∧
    (∃ e ∈ emptyingRun.log, "first" ∈ e.call.terminated) ∧
    (∃ j r j', Ticks emptying j ∧ controller.pass.Ends unaided.recorded j r j' ∧
      j.log = emptyingRun.log ∧ j.state.provider.isTerminated "first" = true ∧
      j'.state.tables.hosts.get? "first" = none ∧
      (j.state.tables.hosts.get? "second").map Host.state = some .pendingTerminate ∧
      (j'.state.tables.hosts.get? "second").map Host.state = some .terminating) ∧
    ∃ j r j', Ticks emptying j ∧ controller.pass.Ends unaided.recorded j r j' ∧
      j.log = emptyingRun.log ∧ j.state.provider.isTerminated "first" = true ∧
      j'.state.tables.hosts.contains "first" = true := by
  have htaken : Ticks emptying ⟨firstTaken emptyingRun.state, emptyingRun.log⟩ :=
    ticks_emptyingRun.others (aside_of_hosts rfl)
  refine ⟨keyed_emptying, asked_emptyingRun, ?_, ?_⟩
  · exact ⟨emptyingRun, _, _, ticks_emptyingRun, ends_tick (by decide +kernel), rfl,
      by decide +kernel, by decide +kernel, by decide +kernel, by decide +kernel⟩
  · exact ⟨_, _, _, htaken, ends_tick (by decide +kernel), rfl, by decide +kernel,
      by decide +kernel⟩

end Decommission

end FleetControl
