import FleetControl.Proofs.Conduct
import FleetControl.Provider.Provisioning

/-!
# What a remote provider can have terminated

A provisioning service is asked which tracked hosts run and which are terminated. The client
keeps only those of the running hosts that were asked for, but takes over the terminated ones
as the service names them. A step of an event in LAUNCHING terminates all that are named, so
it keeps to the hosts of the event exactly if the service names no other.
-/
namespace FleetControl

open Program

/-- What may happen at a call that a handler answers: others change the state as `outside`
allows, and then the call is answered, or fails with a fault from `raises`, before or after
its effect. -/
def Behaviour.handling {σ : Type} (h : Program.Handler σ) (outside : σ → σ → Prop)
    (raises : Fault → Prop) : Behaviour σ := fun c s r s' =>
  ∃ v, outside s v ∧ (h c v = (r, s') ∨
    ∃ f, raises f ∧ r = .error f ∧ (s' = v ∨ s' = (h c v).2))

namespace Program

variable {α σ : Type}

/-- A handler that writes down what it answers. -/
def recording (h : Handler σ) : Handler (Journal σ) := fun c j =>
  let (r, s) := h c j.state
  (r, j.enter c r s)

/-- To write down what a handler answers is a run among others, if these may do nothing. -/
theorem ends_recording (h : Handler σ) {outside : σ → σ → Prop} (raises : Fault → Prop)
    (ho : ∀ s, outside s s) (p : Program α) (j : Journal σ) :
    p.Ends (Behaviour.handling h outside raises).recorded j (p.run (recording h) j).1
      (p.run (recording h) j).2 := by
  apply ends_handler
  intro c j
  exact ⟨(h c j.state).2, ⟨j.state, ho _, .inl rfl⟩, rfl⟩

end Program

/-- The hosts that a query names as terminated. -/
def Entry.reported {σ : Type} : Entry σ → List HostId
  | ⟨_, .provider (.listTerminated _), .ok gone, _⟩ => gone.toList
  | _ => []

/-- The hosts that a call asks to terminate or records as terminating. -/
def Call.dooms : Call → List HostId
  | .provider (.terminateHosts _ ids _) => ids
  | .store (.setHostState ids .terminating) => ids
  | _ => []

/-! ## The client -/

namespace Provisioning

variable {τ : Type} {e : Http.Exchange τ} {address : String} {c : ProviderCall}
  {ids names : List HostId} {t t' : τ}

/-- The service answers a query with a list of hosts that can be read. -/
def Tells (e : Http.Exchange τ) (address : String) (c : ProviderCall) (t : τ)
    (names : List HostId) (t' : τ) : Prop :=
  ∃ r, e (request address c) t = (some r, t') ∧ Http.isSuccess r.status = true ∧
    (Json.parse? r.body).bind hostsOf? = some names

/-- A call that needs a request has the reply that can be read from a successful response. -/
theorem answer_eq_ok_iff (h : withoutHosts? c = none) {a : c.Reply} :
    answer e address c t = (.ok a, t') ↔ ∃ r, e (request address c) t = (some r, t') ∧
      Http.isSuccess r.status = true ∧ read? r.body c = some a := by
  rw [answer, h]
  dsimp only
  rw [Http.send]
  rcases e (request address c) t with ⟨_ | r, u⟩
  · simp
  · simp only [interpret, Prod.mk.injEq, Option.some.injEq]
    constructor
    · rintro ⟨hr, hu⟩
      split at hr
      · rename_i hs
        split at hr
        · rename_i hread
          cases hr
          exact ⟨r, ⟨rfl, hu⟩, hs, hread⟩
        · cases hr
      · cases hr
    · rintro ⟨_, ⟨rfl, hu⟩, hs, hread⟩
      simp only [hs, hread, if_true]
      exact ⟨trivial, hu⟩

/-- A query that is read off a list of hosts is answered by what the service tells. -/
theorem answer_of_hosts (h : withoutHosts? c = none) {f : List HostId → c.Reply}
    (hf : ∀ content, read? content c = ((Json.parse? content).bind hostsOf?).map f)
    {a : c.Reply} : answer e address c t = (.ok a, t') ↔
      ∃ names, Tells e address c t names t' ∧ a = f names := by
  rw [answer_eq_ok_iff h]
  constructor
  · rintro ⟨r, he, hs, hread⟩
    rw [hf] at hread
    obtain ⟨names, hnames, rfl⟩ := Option.map_eq_some_iff.mp hread
    exact ⟨names, ⟨r, he, hs, hnames⟩, rfl⟩
  · rintro ⟨names, ⟨r, he, hs, hnames⟩, rfl⟩
    refine ⟨r, he, hs, ?_⟩
    rw [hf, hnames]
    rfl

/-- Asked about terminated hosts, the client passes on whatever the service names. -/
theorem answer_listTerminated (hids : ids ≠ []) {found : IdSet} :
    answer e address (.listTerminated ids) t = (.ok found, t') ↔
      ∃ names, Tells e address (.listTerminated ids) t names t' ∧ found = .ofList names := by
  cases ids with
  | nil => exact absurd rfl hids
  | cons id ids => exact answer_of_hosts rfl fun _ => rfl

/-- Asked about running hosts, the client keeps those that were asked for. -/
theorem answer_listRunning (hids : ids ≠ []) {found : List HostId} :
    answer e address (.listRunning ids) t = (.ok found, t') ↔
      ∃ names, Tells e address (.listRunning ids) t names t' ∧
        found = ids.filter names.contains := by
  cases ids with
  | nil => exact absurd rfl hids
  | cons id ids => exact answer_of_hosts rfl fun _ => rfl

theorem sublist_of_listRunning {found : List HostId}
    (h : answer e address (.listRunning ids) t = (.ok found, t')) : found.Sublist ids := by
  cases ids with
  | nil =>
      cases h
      exact List.Sublist.refl _
  | cons id ids =>
      obtain ⟨names, -, rfl⟩ := (answer_listRunning (by simp)).mp h
      exact List.filter_sublist

/-- Answer the calls of the provider over a network and all others in memory. -/
def overNetwork (e : Http.Exchange τ) (address : String) : Program.Handler (World × τ)
  | .provider c, (w, t) =>
      let (r, t) := answer e address c t
      (r.mapError Fault.error, (w, t))
  | c, (w, t) =>
      let (r, w) := World.answer c w
      (r, (w, t))

end Provisioning

/-! ## The step -/

namespace Replacement

variable {σ : Type} {B : Behaviour σ} {config : ReplacementSettings} {event : UpgradeEvent}
  {j : Journal σ} {past log : List (Entry σ)} {ids : List HostId}

/-- The hosts that were lost: tracked or reported ones, and all reported ones are among them. -/
structure Lost (event : UpgradeEvent) (past : List (Entry σ)) (ids : List HostId) : Prop where
  known : ∀ id ∈ ids, id ∈ event.hostIds ∨ ∃ e ∈ past, id ∈ e.reported
  reported : ∀ e ∈ past, ∀ id ∈ e.reported, id ∈ ids

/-- The calls of a step in LAUNCHING. The query for terminated hosts is the first. -/
inductive Watches (event : UpgradeEvent) (past : List (Entry σ)) : Call → Prop where
  | asks (first : past = []) :
      Watches event past (.provider (.listTerminated event.hostIds.toList))
  | lists : Watches event past (.provider (.listRunning event.hostIds.toList))
  | looks (id : HostId) : Watches event past (.store (.agentsByHost id))
  | terminates {ids : List HostId} (h : Lost event past ids) :
      Watches event past (.provider (.terminateHosts event.cluster ids true))
  | marks {ids : List HostId} (h : Lost event past ids) :
      Watches event past (.store (.setHostState ids .terminating))

/-- Each call is one of a step in LAUNCHING. -/
def watching (event : UpgradeEvent) : Rule σ := fun past e => Watches event past e.call

/-- A call other than the first reports no terminated hosts. -/
theorem reported_eq_nil {e : Entry σ} (h : Watches event past e.call) (hp : past ≠ []) :
    e.reported = [] := by
  obtain ⟨s, c, r, s'⟩ := e
  cases h with
  | asks first => exact absurd first hp
  | _ => rfl

/-- The hosts found failed are those known as failed and some of those looked at. -/
theorem meets_inspect_failed (hosts : List HostId) (ready : Bool) (failed : IdSet) :
    (inspect hosts ready failed).Meets (fun c => ∃ id, c = .store (.agentsByHost id))
      (fun _ => True) fun found =>
        (∀ id ∈ failed, id ∈ found.2) ∧ ∀ id ∈ found.2, id ∈ failed ∨ id ∈ hosts := by
  induction hosts generalizing ready failed with
  | nil => exact ⟨fun _ h => h, fun _ => .inl⟩
  | cons host hosts ih =>
      have hmore : ∀ failed' : IdSet, (∀ id ∈ failed, id ∈ failed') →
          (∀ id ∈ failed', id ∈ failed ∨ id = host) → ∀ ready,
          (inspect hosts ready failed').Meets (fun c => ∃ id, c = .store (.agentsByHost id))
            (fun _ => True) fun found =>
              (∀ id ∈ failed, id ∈ found.2) ∧
                ∀ id ∈ found.2, id ∈ failed ∨ id ∈ host :: hosts := by
        intro failed' hkept hnew ready
        refine (ih ready failed').mono (fun _ => id) fun found h => ⟨?_, ?_⟩
        · exact fun id hid => h.1 id (hkept id hid)
        · intro id hid
          obtain hid | hid := h.2 id hid
          · exact (hnew id hid).imp_right fun heq => List.mem_cons.mpr (.inl heq)
          · exact .inr (List.mem_cons_of_mem _ hid)
      refine .seq (within_ask.mpr ⟨host, rfl⟩) fun agents => ?_
      split
      · exact hmore failed (fun _ h => h) (fun _ => .inl) false
      · split
        · refine hmore _ (fun id hid => ?_) (fun id hid => ?_) _
          · exact IdSet.mem_insert.mpr (.inr hid)
          · exact (IdSet.mem_insert.mp hid).symm
        · exact hmore failed (fun _ h => h) (fun _ => .inl) _

/-- The query for terminated hosts was made and named these. -/
structure Reports (gone : IdSet) (log : List (Entry σ)) : Prop where
  asked : log ≠ []
  mem_iff : ∀ id, id ∈ gone ↔ ∃ e ∈ log, id ∈ e.reported

/-- Later calls report nothing more. -/
theorem Reports.cons {gone : IdSet} (h : Reports gone log) {e : Entry σ}
    (he : Watches event log e.call) : Reports gone (e :: log) := by
  constructor
  · simp
  · intro id
    rw [h.mem_iff]
    simp [reported_eq_nil he h.asked]

theorem Reports.lost {gone failed : IdSet} (h : Reports gone log)
    (hgone : ∀ id ∈ gone, id ∈ failed)
    (hfailed : ∀ id ∈ failed, id ∈ gone ∨ id ∈ event.hostIds) :
    Lost event log failed.toList := by
  constructor
  · intro id hid
    obtain hid | hid := hfailed id hid
    · exact .inr ((h.mem_iff id).mp hid)
    · exact .inl hid
  · intro e he id hid
    exact hgone id ((h.mem_iff id).mpr ⟨e, he, hid⟩)

/-- Every host that was reported as terminated was doomed in the end. -/
def Settles (log : List (Entry σ)) : Prop :=
  ∀ e ∈ log, ∀ id ∈ e.reported, ∃ e' ∈ log, id ∈ e'.call.dooms

/-- What is lost is asked to terminate and recorded as terminating. -/
theorem follows_terminate (event : UpgradeEvent) {gone failed : IdSet} (h : Reports gone j.log)
    (hgone : ∀ id ∈ gone, id ∈ failed)
    (hfailed : ∀ id ∈ failed, id ∈ gone ∨ id ∈ event.hostIds) :
    (terminate event.cluster failed.toList true).Follows B (watching event) (fun _ => True)
      (fun _ j' => Settles j'.log) j := by
  have hterminates := Watches.terminates (h.lost hgone hfailed)
  refine .bind (Q := fun _ j₁ => Reports gone j₁.log)
    (follows_perform.mpr fun r s' _ => ⟨hterminates, ?_⟩) fun _ j₁ h₁ _ => ?_
  · cases r with
    | ok a => exact h.cons hterminates
    | error f => trivial
  · have hmarks := Watches.marks (h₁.lost hgone hfailed)
    refine follows_perform.mpr fun r s' _ => ⟨hmarks, ?_⟩
    cases r with
    | ok a =>
        intro e he id hid
        have hreports : Reports gone (j₁.enter _ (.ok a) s').log := h₁.cons hmarks
        exact ⟨_, List.mem_cons_self, hgone id ((hreports.mem_iff id).mpr ⟨e, he, hid⟩)⟩
    | error f => trivial

/-- Looking at agents reports nothing. -/
theorem follows_inspect {gone : IdSet} (h : Reports gone j.log) (hosts : List HostId)
    (ready : Bool) :
    (inspect hosts ready gone).Follows B (watching event) (fun _ => True)
      (fun found j' => ((∀ id ∈ gone, id ∈ found.2) ∧ ∀ id ∈ found.2, id ∈ gone ∨ id ∈ hosts) ∧
        Reports gone j'.log) j := by
  have hlooks : ∀ (j : Journal σ) (c : Call) r s, (∃ id, c = .store (.agentsByHost id)) →
      Reports gone j.log → B c j.state r s →
        watching event j.log ⟨j.state, c, r, s⟩ ∧ Reports gone (j.enter c r s).log := by
    rintro j _ r s ⟨id, rfl⟩ hj -
    have hwatches : Watches event j.log (.store (.agentsByHost id)) := .looks id
    exact ⟨hwatches, hj.cons hwatches⟩
  have hfollows := (meets_inspect_failed hosts ready gone).follows
    (E := fun j => Reports gone j.log) hlooks h
  exact hfollows.mono (fun _ _ => id) (fun _ _ => trivial) fun _ _ => id

/-- A step in LAUNCHING dooms tracked hosts and all that are reported as terminated, provided
that of the tracked hosts only such are found running. -/
theorem follows_launching (event : UpgradeEvent) (hB : ∀ s found s',
      B (.provider (.listRunning event.hostIds.toList)) s (.ok found) s' →
        found.Sublist event.hostIds.toList) (s : σ) :
    (launching event).Follows B (watching event) (fun _ => True) (fun _ j' => Settles j'.log)
      (.start s) := by
  rw [launching]
  split
  · intro e he
    cases he
  · refine .bind (Q := fun gone j₁ => Reports gone j₁.log)
      (follows_perform.mpr fun r s' _ => ⟨.asks rfl, ?_⟩) fun gone j₁ h₁ _ => ?_
    · cases r with
      | ok gone => exact ⟨by simp [Journal.enter], fun id => by
          simp [Journal.enter, Journal.start, Entry.reported]⟩
      | error f => trivial
    have hlists : Watches event j₁.log (.provider (.listRunning event.hostIds.toList)) := .lists
    refine .bind (Q := fun running j₂ => Reports gone j₂.log ∧
        running.Sublist event.hostIds.toList)
      (follows_perform.mpr fun r s' hb => ⟨hlists, ?_⟩) fun running j₂ h₂ _ => ?_
    · cases r with
      | ok running => exact ⟨h₁.cons hlists, hB _ _ _ hb⟩
      | error f => trivial
    refine .bind (follows_inspect h₂.1 running _) ?_
    rintro ⟨ready, failed⟩ j₃ ⟨⟨hgone, hfailed⟩, h₃⟩ _
    dsimp only
    split
    · rename_i hnone
      intro e he id hid
      have hmem := hgone id ((h₃.mem_iff id).mpr ⟨e, he, hid⟩)
      rw [IdSet.isEmpty_iff.mp hnone] at hmem
      exact absurd hmem (IdSet.not_mem_empty id)
    · have hterminate := follows_terminate (B := B) event h₃ hgone fun id hid =>
        (hfailed id hid).imp_right fun hid => h₂.2.subset hid
      exact .bind hterminate fun _ j₄ h₄ _ => h₄

theorem Watches.lost {c : Call} (h : Watches event past c) :
    c.dooms = [] ∨ Lost event past c.dooms := by
  cases h with
  | terminates h => exact .inr h
  | marks h => exact .inr h
  | _ => exact .inl rfl

/-- What is doomed at all contains all that was reported. -/
theorem reported_of_dooms (h : (watching event).Admits log) {doom : Entry σ} (hdoom : doom ∈ log)
    (hd : doom.call.dooms ≠ []) :
    ∀ e ∈ log, ∀ id ∈ e.reported, id ∈ doom.call.dooms := by
  obtain ⟨later, past, rfl⟩ := List.append_of_mem hdoom
  have hlost : Lost event past doom.call.dooms :=
    (Watches.lost h.of_append).resolve_left hd
  have hlater : ∀ e ∈ later, e.reported = [] := by
    clear hdoom
    induction later with
    | nil => exact fun e he => nomatch he
    | cons a later ih =>
        intro e he
        obtain rfl | he := List.mem_cons.mp he
        · exact reported_eq_nil h.1 (by simp)
        · exact ih h.2 e he
  intro e he id hid
  obtain he | he := List.mem_append.mp he
  · rw [hlater e he] at hid
    cases hid
  obtain rfl | he := List.mem_cons.mp he
  · obtain ⟨s, c, r, s'⟩ := e
    have hwatches : Watches event past c := h.of_append
    cases hwatches with
    | asks => exact absurd rfl hd
    | _ => cases hid
  · exact hlost.reported e he id hid

/-- What is doomed is tracked or was reported. -/
theorem known_of_dooms (h : (watching event).Admits log) {e : Entry σ} (he : e ∈ log)
    {id : HostId} (hid : id ∈ e.call.dooms) :
    id ∈ event.hostIds ∨ ∃ e' ∈ log, id ∈ e'.reported := by
  obtain ⟨later, past, rfl⟩ := List.append_of_mem he
  obtain hnil | hlost := Watches.lost h.of_append
  · rw [hnil] at hid
    cases hid
  · refine (hlost.known id hid).imp_right ?_
    rintro ⟨e', he', hid'⟩
    exact ⟨e', List.mem_append_right _ (List.mem_cons_of_mem _ he'), hid'⟩

/-- Only tracked hosts are doomed exactly if no other is reported, once the step has ended well
or anything is doomed. -/
theorem dooms_tracked_iff (h : (watching event).Admits log)
    (hend : Settles log ∨ ∃ e ∈ log, e.call.dooms ≠ []) :
    (∀ e ∈ log, ∀ id ∈ e.call.dooms, id ∈ event.hostIds) ↔
      ∀ e ∈ log, ∀ id ∈ e.reported, id ∈ event.hostIds := by
  constructor
  · intro htracked e he id hid
    obtain hsettles | ⟨doom, hdoom, hd⟩ := hend
    · obtain ⟨e', he', hid'⟩ := hsettles e he id hid
      exact htracked e' he' id hid'
    · exact htracked doom hdoom id (reported_of_dooms h hdoom hd e he id hid)
  · intro htracked e he id hid
    obtain hid | ⟨e', he', hid'⟩ := known_of_dooms h he hid
    · exact hid
    · exact htracked e' he' id hid'

end Replacement

/-! ## The step over a network -/

namespace Provisioning

open Replacement

variable {τ : Type} {e : Http.Exchange τ} {address : String}
  {outside : World × τ → World × τ → Prop} {raises : Fault → Prop} {s s' : World × τ}

/-- A query over the network is answered as the client does, once the others are done. -/
theorem answered_of_handling {c : ProviderCall} {a : c.Reply}
    (h : Behaviour.handling (overNetwork e address) outside raises (.provider c) s (.ok a) s') :
    ∃ t, answer e address c t = (.ok a, s'.2) := by
  obtain ⟨v, -, hv | ⟨f, -, hr, -⟩⟩ := h
  · refine ⟨v.2, ?_⟩
    simp only [overNetwork, Prod.mk.injEq] at hv
    obtain ⟨hr, rfl⟩ := hv
    exact Prod.ext (ok_of_mapError hr) rfl
  · cases hr

/-- Each host that is reported was named by the service. -/
theorem told_of_reported {s₀ : World × τ} {ids : List HostId} {log : List (Entry (World × τ))}
    (h : Traces (Behaviour.handling (overNetwork e address) outside raises) s₀ log s)
    (hids : ∀ en ∈ log, ∀ asked, en.call = .provider (.listTerminated asked) → asked = ids)
    {en : Entry (World × τ)} (hen : en ∈ log) {id : HostId} (hid : id ∈ en.reported) :
    ∃ t names, Tells e address (.listTerminated ids) t names en.after.2 ∧ id ∈ names := by
  have hpossible := h.possible hen
  unfold Entry.reported at hid
  split at hid
  · rename_i before asked gone after
    obtain rfl := hids _ hen asked rfl
    obtain ⟨t, ht⟩ := answered_of_handling hpossible
    have hne : asked ≠ [] := by
      rintro rfl
      cases ht
      cases hid
    obtain ⟨names, htells, rfl⟩ := (answer_listTerminated hne).mp ht
    exact ⟨t, names, htells, IdSet.mem_ofList.mp hid⟩
  · cases hid

/-- Whatever a service answers, of the hosts asked for the client finds none running but those,
while it takes all that are named for terminated. So a step in LAUNCHING dooms only hosts that
the event tracks or that the service named as terminated. It keeps to tracked hosts exactly if
the service named no other, once it has ended well or has doomed any host. -/
theorem named_hosts_are_doomed {config : ReplacementSettings} {event : UpgradeEvent}
    {j : Journal (World × τ)} {r : Outcome (UpgradeEvent × Decision UpgradeState)}
    (hs : event.state = UpgradeState.launching)
    (he : (step config event).Ends
      (Behaviour.handling (overNetwork e address) outside raises).recorded (.start s) r j) :
    (∀ ids t found t', answer e address (.listRunning ids) t = (.ok found, t') →
      found.Sublist ids) ∧
    (∀ ids t names t', ids ≠ [] → Tells e address (.listTerminated ids) t names t' →
      answer e address (.listTerminated ids) t = (.ok (.ofList names), t')) ∧
    (∀ en ∈ j.log, ∀ id ∈ en.reported, ∃ t names,
      Tells e address (.listTerminated event.hostIds.toList) t names en.after.2 ∧ id ∈ names) ∧
    (∀ en ∈ j.log, ∀ id ∈ en.call.dooms,
      id ∈ event.hostIds ∨ ∃ en' ∈ j.log, id ∈ en'.reported) ∧
    ((r.isOk = true ∨ ∃ en ∈ j.log, en.call.dooms ≠ []) →
      ((∀ en ∈ j.log, ∀ id ∈ en.call.dooms, id ∈ event.hostIds) ↔
        ∀ en ∈ j.log, ∀ id ∈ en.reported, id ∈ event.hostIds)) := by
  have hstep : step config event = launching event := by
    simp only [step]
    rw [hs]
  rw [hstep] at he
  have hfollows := follows_launching event
    (B := Behaviour.handling (overNetwork e address) outside raises) (fun s found s' hb => by
      obtain ⟨t, ht⟩ := answered_of_handling hb
      exact sublist_of_listRunning ht) s
  have hadmits : (watching event).Admits j.log := Keeps.admits hfollows he trivial
  have htraces := he.traces .nil
  refine ⟨fun _ _ _ _ => sublist_of_listRunning, ?_, ?_, ?_, ?_⟩
  · intro ids t names t' hids htells
    exact (answer_listTerminated hids).mpr ⟨names, htells, rfl⟩
  · intro en hen id hid
    refine told_of_reported htraces (fun en hen asked hasked => ?_) hen hid
    obtain ⟨later, past, hlog⟩ := List.append_of_mem hen
    rw [hlog] at hadmits
    have hwatches : Watches event past en.call := hadmits.of_append
    rw [hasked] at hwatches
    cases hwatches
    rfl
  · intro en hen id hid
    exact known_of_dooms hadmits hen hid
  · intro hend
    refine dooms_tracked_iff hadmits (hend.imp_left fun hok => ?_)
    have hwants := Keeps.ends hfollows he
    cases r with
    | ok a => exact hwants
    | error f => cases hok

/-- An event in LAUNCHING that tracks one host. -/
def remoteEvent : UpgradeEvent :=
  { (UpgradeEvent.new "event" "web" "prod" .epoch).withHostIds (.ofList ["t"]) with
    state := UpgradeState.launching }

/-- The tracked host serves, and another cluster has a host. -/
def remotePool : World :=
  let host (id : HostId) (cluster : String) : Host :=
    ⟨id, cluster, .running, false, .epoch, .epoch⟩
  let hosts := (Store.empty.insertHost (host "t" "web")).insertHost (host "z" "api")
  let agents := hosts.putAgent
    ⟨"t", "prod", .servingBuild, .succeeded, .normal, none, none, .epoch⟩
  { World.initial .epoch (.seeded 0) with store := some (agents.putItem .upgrade remoteEvent) }

/-- A service that names one host as terminated and the tracked one as running, and accepts a
termination. -/
def naming (gone : HostId) : Http.Server :=
  let named (id : HostId) := "\x7b\"host_ids\": [\"" ++ id ++ "\"]\x7d"
  ⟨[⟨200, named gone⟩, ⟨200, named "t"⟩, ⟨204, ""⟩], []⟩

/-- The service names the tracked host as terminated, and the step terminates no other. -/
theorem named_hosts_are_doomed_remotePool :
    remoteEvent.state = UpgradeState.launching ∧
    ∃ (j : Journal (World × Http.Server)) (r : Outcome (UpgradeEvent × Decision UpgradeState)),
      (step {} remoteEvent).Ends (Behaviour.handling (overNetwork Http.Server.exchange "") Eq
        fun _ => False).recorded (.start (remotePool, naming "t")) r j ∧
      (∃ en ∈ j.log, en.call.dooms = ["t"]) ∧
      ∀ en ∈ j.log, ∀ id ∈ en.call.dooms, id ∈ remoteEvent.hostIds := by
  have hs : remoteEvent.state = UpgradeState.launching := by decide
  have he := ends_recording (overNetwork Http.Server.exchange "") (fun _ => False)
    (fun _ => rfl) (step {} remoteEvent) (.start (remotePool, naming "t"))
  obtain ⟨-, -, -, -, hiff⟩ := named_hosts_are_doomed hs he
  refine ⟨hs, _, _, he, by decide +kernel, (hiff (.inl ?_)).mpr ?_⟩
  · decide +kernel
  · decide +kernel

/-- The service names a host that it was not asked about. The client passes it on, and the step
terminates this host of another cluster. -/
theorem strange_host_is_doomed :
    let run := (step {} remoteEvent).run (overNetwork Http.Server.exchange "")
      (remotePool, naming "z")
    remoteEvent.state = UpgradeState.launching ∧ "z" ∉ remoteEvent.hostIds ∧
      (answer Http.Server.exchange "" (.listTerminated ["t"]) (naming "z")).1.toOption =
        some (.ofList ["z"]) ∧
      run.2.2.seen.map Http.Request.path =
        ["/hosts/terminated", "/hosts/running", "/clusters/web/hosts/terminate"] ∧
      (run.2.2.seen.getLast?.bind Http.Request.body).bind hostsOf? = some ["z"] ∧
      (remotePool.tables.hosts.get? "z").map Host.cluster = some "api" ∧
      (run.2.1.tables.hosts.get? "z").map Host.state = some .terminating := by
  refine ⟨by decide, by decide, ?_, ?_, ?_, ?_, ?_⟩ <;> decide +kernel

end Provisioning

end FleetControl
