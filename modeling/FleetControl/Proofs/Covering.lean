import FleetControl.Proofs.Alignment
import FleetControl.Proofs.Exclusion
import Mathlib.Logic.Relation

/-!
# What the kept tags of a constraint come to cover

A second alignment changes nothing that the first has left. So two passes decide: a constraint
is finished if every host of its environment had a record or carries the tag, and it is never
finished otherwise, since a host without the tag never gets a record. Other constraints of the
same environment and tag may be aligned in between; they cover the same hosts.
-/
namespace FleetControl.TagCoverage

open Program

section

variable {c d : DeployConstraint} {hosts tagged : IdSet} {carries : HostId → Bool}
  {state : TagSyncState} {holder : Option Token} {w : World} {raises : Fault → Prop}
  {j : Journal World}

/-! ## One attempt -/

/-- Work on a constraint that is found ends as its alignment does. -/
theorem goes_of_align {config : TagSettings} {Q : World → Prop} (id : String)
    (h : Goes c raises (align config d) (fun _ => Q) j) :
    Goes c raises ((align config d).attempt.bind fun
      | .ok () => pure ()
      | .error e =>
          if e.isTransient then Program.fail e
          else (ask (.setConstraintState id .error)).bind fun _ => Program.fail e)
      (fun _ => Q) j := by
  refine .bind (Follows.attempt h) fun r j₁ h₁ _ => ?_
  cases r with
  | ok u => exact h₁
  | error e => exact h₁.elim

/-- A constraint is decided on when it is processed. -/
theorem goes_process_own {config : TagSettings}
    (h : Shows c hosts carries tagged state holder j.state) :
    Goes c raises (process config c.id) (fun _ w => Shows c hosts carries
      (hosts.covered tagged carries) (verdict hosts tagged) holder w) j := by
  refine .bind (goes_look rfl h) fun found j₁ ⟨h₁, _, hfound⟩ _ => ?_
  obtain ⟨t, hrecord⟩ := h₁.record
  obtain rfl : some { c with state := state, lastUpdate := t } = found :=
    hrecord.symm.trans (Except.ok.inj hfound)
  refine goes_of_align c.id ?_
  have halign : Goes c raises (align config { c with state := state, lastUpdate := t }) _ j₁ :=
    goes_align (fun _ => ⟨rfl, rfl, rfl⟩) h₁
  simpa only [and_self, if_true] using halign

/-- The same, where one of several sets of hosts has records. -/
def ShowsOneOf (c : DeployConstraint) (hosts : IdSet) (carries : HostId → Bool)
    (sets : IdSet → Prop) (state : TagSyncState) (holder : Option Token) (w : World) : Prop :=
  ∃ tagged, sets tagged ∧ Shows c hosts carries tagged state holder w

/-- Processing another constraint covers the hosts or leaves their records alone. -/
theorem goes_process_other {config : TagSettings} {id : String} (hid : id ≠ c.id)
    {sets : IdSet → Prop} (hsets : ∀ tagged, sets tagged → sets (hosts.covered tagged carries))
    (h : ShowsOneOf c hosts carries sets state holder j.state) :
    Goes c raises (process config id)
      (fun _ => ShowsOneOf c hosts carries sets state holder) j := by
  obtain ⟨tagged, ht, h⟩ := h
  refine .bind (goes_look rfl h) fun found j₁ ⟨h₁, _, hfound⟩ _ => ?_
  cases found with
  | none => exact ⟨tagged, ht, h₁⟩
  | some d =>
      have hd : d.id ≠ c.id := by
        rwa [h₁.keyed id d (Except.ok.inj hfound)]
      refine goes_of_align (Q := ShowsOneOf c hosts carries sets state holder) id ?_
      refine Follows.imp (goes_align (fun he => absurd he hd) h₁) fun _ j₂ h₂ => ?_
      rw [if_neg hd] at h₂
      split at h₂
      · exact ⟨_, hsets tagged ht, h₂⟩
      · exact ⟨_, ht, h₂⟩

/-- Other locks come and go. -/
theorem goes_acquire_other {name : String} (hname : lockOf lockPrefix c.id ≠ name)
    (h : Shows c hosts carries tagged state holder j.state) :
    Goes c raises (perform (.acquire name))
      (fun _ => Shows c hosts carries tagged state holder) j := by
  refine goes_perform h fun v w found hv ha => ?_
  cases ha
  refine hv.relock rfl rfl ?_
  rw [← hv.holder]
  exact v.locks.holder?_acquire_of_ne hname

theorem goes_release_other {name : String} {token : Token}
    (hname : lockOf lockPrefix c.id ≠ name)
    (h : Shows c hosts carries tagged state holder j.state) :
    Goes c raises (perform (.release name token))
      (fun _ => Shows c hosts carries tagged state holder) j := by
  refine goes_perform h fun v w u hv ha => ?_
  simp only [World.answer, World.release] at ha
  split at ha
  · rename_i hr
    cases ha
    refine hv.relock rfl rfl ?_
    rw [← hv.holder, LockTable.holder?_release? hr, if_neg hname]
  · cases ha

/-- A constraint whose lock is free is taken. -/
theorem goes_acquire_own (h : Shows c hosts carries tagged state none j.state) :
    Goes c raises (perform (.acquire (lockOf lockPrefix c.id))) (fun found w =>
      ∃ token, found = some token ∧ Shows c hosts carries tagged state (some token) w) j := by
  refine goes_perform h fun v w found hv ha => ?_
  have hq := LockTable.acquire_of_free hv.holder
  rw [World.answer, World.acquire, hq] at ha
  cases ha
  exact ⟨_, rfl, hv.relock rfl rfl (Table.get?_insert_self _ _ _)⟩

theorem goes_release_own {token : Token}
    (h : Shows c hosts carries tagged state (some token) j.state) :
    Goes c raises (perform (.release (lockOf lockPrefix c.id) token))
      (fun _ => Shows c hosts carries tagged state none) j := by
  refine goes_perform h fun v w u hv ha => ?_
  simp only [World.answer, World.release] at ha
  split at ha
  · rename_i hr
    cases ha
    refine hv.relock rfl rfl ?_
    rw [LockTable.holder?_release? hr, if_pos rfl]
  · cases ha

/-- What holds with a lock, and with it again after some work, holds when it is given back. -/
theorem goes_exclusively {name : String} {body : Program α} {S : World → Prop}
    {P Q : Token → World → Prop}
    (htake : Goes c raises (perform (.acquire name)) (fun found w =>
      (found = none → S w) ∧ ∀ token, found = some token → P token w) j)
    (hbody : ∀ token j, P token j.state → Goes c raises body (fun _ => Q token) j)
    (hgive : ∀ token j, Q token j.state →
      Goes c raises (perform (.release name token)) (fun _ => S) j) :
    Goes c raises (exclusively name body) (fun _ => S) j := by
  refine .bind htake fun found j₁ ⟨hrefused, htaken⟩ _ => ?_
  cases found with
  | none => exact hrefused rfl
  | some token =>
      refine .bind (hbody token j₁ (htaken token rfl)).contain fun outcome j₂ h₂ _ => ?_
      cases outcome with
      | error e => exact h₂.elim
      | ok a =>
          refine .bind (hgive token j₂ h₂).attempt fun given j₃ h₃ _ => ?_
          cases given with
          | error e => exact h₃.elim
          | ok u => exact h₃

theorem goes_attempt {config : TagSettings} {id : String} {S : World → Prop}
    (h : Goes c raises (exclusively (lockOf lockPrefix id) (process config id)) (fun _ => S) j) :
    Goes c raises ((controller config).attempt id) (fun _ => S) j := by
  refine .bind h.attempt fun outcome j₁ h₁ _ => ?_
  rcases outcome with e | _ | u
  · exact h₁.elim
  · exact h₁
  · exact h₁

/-- An attempt at a constraint whose lock is free decides on it. -/
theorem goes_attempt_own {config : TagSettings}
    (h : Shows c hosts carries tagged state none j.state) :
    Goes c raises ((controller config).attempt c.id) (fun _ => Shows c hosts carries
      (hosts.covered tagged carries) (verdict hosts tagged) none) j := by
  refine goes_attempt (goes_exclusively
    (P := fun token => Shows c hosts carries tagged state (some token))
    (Q := fun token => Shows c hosts carries (hosts.covered tagged carries)
      (verdict hosts tagged) (some token)) ?_ ?_ ?_)
  · refine Follows.imp (goes_acquire_own h) ?_
    rintro _ _ ⟨token, rfl, hshows⟩
    exact ⟨nofun, fun _ he => by cases he; exact hshows⟩
  · exact fun token j h => goes_process_own h
  · exact fun token j h => goes_release_own h

/-- An attempt at another constraint covers the hosts or leaves their records alone. -/
theorem goes_attempt_other {config : TagSettings} {id : String} (hid : id ≠ c.id)
    {sets : IdSet → Prop} (hsets : ∀ tagged, sets tagged → sets (hosts.covered tagged carries))
    (h : ShowsOneOf c hosts carries sets state none j.state) :
    Goes c raises ((controller config).attempt id)
      (fun _ => ShowsOneOf c hosts carries sets state none) j := by
  have hname : lockOf lockPrefix c.id ≠ lockOf lockPrefix id := fun he => by
    have hdash : '-' ∉ lockPrefix.toList := dash_not_mem (by simp [lockPrefixes])
    exact hid (eq_of_lockOf_eq hdash hdash he).2.symm
  refine goes_attempt (goes_exclusively
    (P := fun _ => ShowsOneOf c hosts carries sets state none)
    (Q := fun _ => ShowsOneOf c hosts carries sets state none) ?_ ?_ ?_)
  · obtain ⟨tagged, ht, h⟩ := h
    refine Follows.imp (goes_acquire_other hname h) fun found j₁ h₁ => ?_
    exact ⟨fun _ => ⟨tagged, ht, h₁⟩, fun _ _ => ⟨tagged, ht, h₁⟩⟩
  · exact fun _ _ h => goes_process_other hid hsets h
  · rintro token j₁ ⟨tagged, ht, h⟩
    exact Follows.imp (goes_release_other hname h) fun _ _ h₁ => ⟨tagged, ht, h₁⟩

/-! ## Passes -/

/-- Attempts keep what they keep one by one. -/
theorem goes_attemptAll {config : TagSettings} {P : World → Prop}
    (hP : ∀ id j, P j.state → Goes c raises ((controller config).attempt id) (fun _ => P) j)
    (ids : List String) (report : PassReport) (hj : P j.state) :
    Goes c raises ((controller config).attemptAll ids report) (fun _ => P) j := by
  induction ids generalizing report j with
  | nil => exact hj
  | cons id ids ih => exact .bind (hP id j hj) fun a j₁ h₁ _ => ih _ h₁

/-- Among attempts one at a constraint is decisive. -/
theorem goes_attemptAll_of_mem {config : TagSettings} {P Q : World → Prop}
    (hother : ∀ id j, id ≠ c.id → P j.state →
      Goes c raises ((controller config).attempt id) (fun _ => P) j)
    (hown : ∀ j, P j.state → Goes c raises ((controller config).attempt c.id) (fun _ => Q) j)
    (hQ : ∀ id j, Q j.state → Goes c raises ((controller config).attempt id) (fun _ => Q) j)
    {ids : List String} (hmem : c.id ∈ ids) (report : PassReport) (hj : P j.state) :
    Goes c raises ((controller config).attemptAll ids report) (fun _ => Q) j := by
  induction ids generalizing report j with
  | nil => cases hmem
  | cons id ids ih =>
      by_cases hid : id = c.id
      · subst hid
        exact .bind (hown j hj) fun a j₁ h₁ _ => goes_attemptAll hQ ids _ h₁
      · have hrest : c.id ∈ ids := (List.mem_cons.mp hmem).resolve_left (Ne.symm hid)
        exact .bind (hother id j hid hj) fun a j₁ h₁ _ => ih hrest _ h₁

/-- The states in which a constraint is still worked on. -/
def openStates : List TagSyncState := [.init, .processing]

/-- A constraint that is worked on is listed. -/
theorem goes_candidates {config : TagSettings}
    (h : Shows c hosts carries tagged state holder j.state) :
    Goes c raises (controller config).candidates (fun ids w =>
      (state ∈ openStates → c.id ∈ ids) ∧ Shows c hosts carries tagged state holder w) j := by
  refine Follows.imp (goes_look rfl h) ?_
  rintro ids j₁ ⟨h₁, clock, hids⟩
  refine ⟨fun hopen => ?_, h₁⟩
  obtain ⟨t, hrecord⟩ := h₁.record
  obtain rfl : j₁.state.tables.constraintIdsInStates openStates = ids := Except.ok.inj hids
  refine List.mem_map.mpr ⟨_, List.mem_filter.mpr ⟨Table.mem_values_iff.mpr ⟨_, hrecord⟩, ?_⟩, rfl⟩
  simpa using hopen

theorem goes_shuffle {ids : List String} (h : Shows c hosts carries tagged state holder j.state) :
    Goes c raises (perform (.shuffle ids)) (fun order w =>
      order.Perm ids ∧ Shows c hosts carries tagged state holder w) j := by
  refine goes_perform h fun v w order hv ha => ?_
  cases ha
  exact ⟨v.selector.shuffle_perm ids, hv.relock rfl rfl hv.holder⟩

/-- A pass makes of the world what its attempts make of it, at the listed constraints. -/
theorem goes_pass {config : TagSettings} {Q : World → Prop}
    (h : Shows c hosts carries tagged state holder j.state)
    (hall : ∀ ids report j, (state ∈ openStates → c.id ∈ ids) →
      Shows c hosts carries tagged state holder j.state →
      Goes c raises ((controller config).attemptAll ids report) (fun _ => Q) j) :
    Goes c raises (controller config).pass (fun _ => Q) j := by
  refine .bind (goes_candidates h).attempt fun listed j₁ h₁ _ => ?_
  cases listed with
  | error e => exact h₁.elim
  | ok ids =>
      obtain ⟨hlisted, hshows⟩ := h₁
      refine .bind (goes_shuffle hshows) fun order j₂ ⟨hperm, h₂⟩ _ => ?_
      exact hall order _ j₂ (fun hopen => hperm.mem_iff.mpr (hlisted hopen)) h₂

/-- Where the hosts are covered, attempts at other constraints change nothing. -/
theorem goes_attempt_aside {config : TagSettings} {id : String} (hid : id ≠ c.id)
    (h : Shows c hosts carries (hosts.covered tagged carries) state none j.state) :
    Goes c raises ((controller config).attempt id)
      (fun _ => Shows c hosts carries (hosts.covered tagged carries) state none) j := by
  have hkept : ∀ t, t = hosts.covered tagged carries →
      hosts.covered t carries = hosts.covered tagged carries := by
    rintro _ rfl
    exact IdSet.covered_covered
  refine Follows.imp (goes_attempt_other hid hkept ⟨_, rfl, h⟩) ?_
  rintro _ j₁ ⟨_, rfl, h₁⟩
  exact h₁

/-- The hosts are covered, and the state says whether they are all of them. -/
def Decided (c : DeployConstraint) (hosts : IdSet) (carries : HostId → Bool) (tagged : IdSet) :
    World → Prop :=
  Shows c hosts carries (hosts.covered tagged carries)
    (verdict hosts (hosts.covered tagged carries)) none

/-- Where the hosts are covered, the next attempt decides. -/
theorem goes_attempt_again {config : TagSettings}
    (h : Shows c hosts carries (hosts.covered tagged carries) state none j.state) :
    Goes c raises ((controller config).attempt c.id)
      (fun _ => Decided c hosts carries tagged) j := by
  refine Follows.imp (goes_attempt_own h) fun _ j₁ h₁ => ?_
  rwa [IdSet.covered_covered] at h₁

/-- What is decided stays so. -/
theorem goes_attempt_decided {config : TagSettings} {id : String}
    (h : Decided c hosts carries tagged j.state) :
    Goes c raises ((controller config).attempt id)
      (fun _ => Decided c hosts carries tagged) j := by
  by_cases hid : id = c.id
  · subst hid
    exact goes_attempt_again h
  · exact goes_attempt_aside hid h

theorem goes_pass_decided {config : TagSettings} (h : Decided c hosts carries tagged j.state) :
    Goes c raises (controller config).pass (fun _ => Decided c hosts carries tagged) j :=
  goes_pass h fun ids report _ _ h₁ =>
    goes_attemptAll (fun _ _ => goes_attempt_decided) ids report h₁

/-- The hosts are covered, and the state is right or still to be set right. -/
def Covered (c : DeployConstraint) (hosts : IdSet) (carries : HostId → Bool) (tagged : IdSet)
    (w : World) : Prop :=
  Shows c hosts carries (hosts.covered tagged carries) .processing none w ∨
    Decided c hosts carries tagged w

theorem goes_attempt_covered {config : TagSettings} {id : String}
    (h : Covered c hosts carries tagged j.state) :
    Goes c raises ((controller config).attempt id)
      (fun _ => Covered c hosts carries tagged) j := by
  obtain h | h := h
  · by_cases hid : id = c.id
    · subst hid
      exact Follows.imp (goes_attempt_again h) fun _ _ => .inr
    · exact Follows.imp (goes_attempt_aside hid h) fun _ _ => .inl
  · exact Follows.imp (goes_attempt_decided h) fun _ _ => .inr

/-- Deciding on a constraint covers its hosts, as far as they can be. -/
theorem covered_of_verdict (h : Shows c hosts carries (hosts.covered tagged carries)
    (verdict hosts tagged) none w) : Covered c hosts carries tagged w := by
  by_cases hsync : tagged = hosts
  · subst hsync
    right
    show Shows _ _ _ _ _ _ _
    simpa only [IdSet.covered_self] using h
  · rw [verdict, if_neg hsync] at h
    exact .inl h

/-- The first pass covers the hosts. -/
theorem goes_pass_first {config : TagSettings} (hopen : state ∈ openStates)
    (h : Shows c hosts carries tagged state none j.state) :
    Goes c raises (controller config).pass (fun _ => Covered c hosts carries tagged) j := by
  refine goes_pass h fun ids report j₁ hmem h₁ => ?_
  refine goes_attemptAll_of_mem (P := ShowsOneOf c hosts carries
    (fun t => t = tagged ∨ t = hosts.covered tagged carries) state none) ?_ ?_
    (fun _ _ => goes_attempt_covered) (hmem hopen) report ⟨tagged, .inl rfl, h₁⟩
  · intro id j₂ hid h₂
    refine goes_attempt_other hid ?_ h₂
    rintro t (rfl | rfl)
    · exact .inr rfl
    · exact .inr IdSet.covered_covered
  · rintro j₂ ⟨t, rfl | rfl, h₂⟩
    · exact Follows.imp (goes_attempt_own h₂) fun _ _ => covered_of_verdict
    · exact Follows.imp (goes_attempt_again h₂) fun _ _ => .inr

/-- The second pass decides. -/
theorem goes_pass_second {config : TagSettings} (h : Covered c hosts carries tagged j.state) :
    Goes c raises (controller config).pass (fun _ => Decided c hosts carries tagged) j := by
  obtain h | h := h
  · refine goes_pass h fun ids report j₁ hmem h₁ => ?_
    have hlisted : c.id ∈ ids := hmem (by simp [openStates])
    exact goes_attemptAll_of_mem (fun _ _ => goes_attempt_aside) (fun _ => goes_attempt_again)
      (fun _ _ => goes_attempt_decided) hlisted report h₁
  · exact goes_pass_decided h

end

/-! ## Ticks -/

section

variable {c : DeployConstraint} {hosts tagged : IdSet} {carries : HostId → Bool} {w w' : World}

/-- A tick of some worker in which no call fails, while the others leave a constraint alone. -/
def Ticks (c : DeployConstraint) (w w' : World) : Prop :=
  ∃ config out log, (controller config).pass.Ends
    (World.Possible (Spares c) fun _ => False).flawless.recorded (.start w) out ⟨w', log⟩

/-- What a pass makes of every world, a tick makes of it. -/
theorem Ticks.of_goes {Q : World → Prop} (h : Ticks c w w')
    (hgoes : ∀ config, Goes c (fun _ => False) (controller config).pass (fun _ => Q) (.start w)) :
    Q w' := by
  obtain ⟨config, out, log, he⟩ := h
  have hend := (hgoes config).ends he
  cases out with
  | ok report => exact hend
  | error f => exact hend.elim

theorem Ticks.decided (h : Ticks c w w') (hw : Decided c hosts carries tagged w) :
    Decided c hosts carries tagged w' :=
  h.of_goes fun _ => goes_pass_decided hw

/-- Two ticks decide on a constraint, and nothing changes from then on. -/
theorem decided_of_ticks {w₁ w₂ : World} (hopen : c.state ∈ openStates)
    (h : Shows c hosts carries tagged c.state none w) (h₁ : Ticks c w w₁) (h₂ : Ticks c w₁ w₂)
    (hlater : Relation.ReflTransGen (Ticks c) w₂ w') : Decided c hosts carries tagged w' := by
  have hcovered := h₁.of_goes fun _ => goes_pass_first hopen h
  have hdecided := h₂.of_goes fun _ => goes_pass_second hcovered
  induction hlater with
  | refl => exact hdecided
  | tail _ htick ih => exact htick.decided ih

/-- What a world shows of a constraint that can be worked on. -/
theorem Shows.of_world (hkeyed : w.tables.constraints.KeyedBy DeployConstraint.id)
    (henv : w.tables.environments.contains c.envId = true)
    (hrecord : w.tables.constraints.get? c.id = some c)
    (hfree : w.locks.holder? (lockOf lockPrefix c.id) = none) :
    Shows c (w.tables.envHostIds c.envId) (fun id => (w.provider.tagOf id c.tagName).isSome)
      (w.tables.taggedHostIds c.envId c.tagName) c.state none w :=
  ⟨hkeyed, henv, rfl, rfl, ⟨c.lastUpdate, hrecord⟩, fun _ => rfl, hfree⟩

/-- Two ticks in which no call fails decide on a constraint that is open, for all later ticks as
well: the hosts that have a record are the hosts of the environment that had one or that carry
the tag, and the constraint is finished exactly if these are all hosts of the environment.
Otherwise it is worked on for ever. -/
theorem finished_iff_covered {w₁ w₂ : World}
    (hkeyed : w.tables.constraints.KeyedBy DeployConstraint.id)
    (henv : w.tables.environments.contains c.envId = true)
    (hrecord : w.tables.constraints.get? c.id = some c) (hopen : c.state ∈ openStates)
    (hfree : w.locks.holder? (lockOf lockPrefix c.id) = none)
    (h₁ : Ticks c w w₁) (h₂ : Ticks c w₁ w₂)
    (hlater : Relation.ReflTransGen (Ticks c) w₂ w') :
    (∀ id, id ∈ w'.tables.taggedHostIds c.envId c.tagName ↔
      id ∈ w.tables.envHostIds c.envId ∧ (id ∈ w.tables.taggedHostIds c.envId c.tagName ∨
        (w.provider.tagOf id c.tagName).isSome = true)) ∧
    ∃ state now, w'.tables.constraints.get? c.id =
        some { c with state := state, lastUpdate := now } ∧
      (state = .finished ∨ state = .processing) ∧
      (state = .finished ↔ ∀ id ∈ w.tables.envHostIds c.envId,
        id ∈ w.tables.taggedHostIds c.envId c.tagName ∨
          (w.provider.tagOf id c.tagName).isSome = true) := by
  have hdecided := decided_of_ticks hopen (.of_world hkeyed henv hrecord hfree) h₁ h₂ hlater
  constructor
  · intro id
    rw [hdecided.tagged, IdSet.mem_covered]
  · obtain ⟨now, hfound⟩ := hdecided.record
    refine ⟨_, now, hfound, ?_, ?_⟩
    · rw [verdict]
      split <;> simp
    · rw [← IdSet.covered_eq_iff, verdict]
      split <;> simp [*]

/-- The world after a tick in which no call fails and nobody interferes. -/
def ticked (w : World) : World := ((controller {}).pass.undisturbed (.start w)).state

theorem ticks_ticked
    (hok : ((controller {}).pass.undisturbed (.start w)).log.all (·.reply.isOk) = true) :
    Ticks c w (ticked w) :=
  ⟨{}, _, _, (ends_undisturbed (.refl c) (controller {}).pass (.start w)).flawless
    (List.all_eq_true.mp hok)⟩

/-- A new constraint. -/
def zone : DeployConstraint := ⟨"c-1", "prod", "zone", .init, .epoch⟩

/-- An environment with two hosts, some of which carry the tag at the provider. A third host has
left the environment, but still has a record. -/
def zoned (carriers : List HostId) : World :=
  let agent (id : HostId) : Agent :=
    ⟨id, "prod", .servingBuild, .succeeded, .normal, none, none, .epoch⟩
  let agents := [agent "north", agent "south"].foldl Store.putAgent .empty
  let env : Environment := ⟨"prod", "web", "prod", .normal, none, "web", 1, ⟨[], [], none⟩⟩
  let store := { agents with
    environments := agents.environments.insert env.id env
    constraints := agents.constraints.insert zone.id zone
    hostTags := [⟨"gone", "prod", "zone", some "west"⟩] }
  let provider := ["north", "south"].foldl (Provider.addHost · "web" ·) .empty
  { World.initial .epoch (.seeded 0) with
    store := some store
    provider := carriers.foldl (Provider.setTag · · "zone" "east") provider }

theorem keyed_zoned (carriers : List HostId) :
    (zoned carriers).tables.constraints.KeyedBy DeployConstraint.id := by
  intro id c hc
  have hget : (Table.empty.insert zone.id zone).get? id = some c := hc
  rw [Table.get?_insert] at hget
  split at hget
  · cases hget
    exact Eq.symm ‹_›
  · cases hget

/-- Where all hosts carry the tag, two ticks finish the constraint. -/
theorem finished_iff_covered_zoned :
    ∃ w', Ticks zone (ticked (zoned ["north", "south"])) w' ∧
      ∃ now, w'.tables.constraints.get? "c-1" =
        some { zone with state := .finished, lastUpdate := now } := by
  have hcovered : ∀ id ∈ ((zoned ["north", "south"]).tables.envHostIds "prod").toList,
      ((zoned ["north", "south"]).provider.tagOf id "zone").isSome = true := by decide +kernel
  have h₁ : Ticks zone (zoned ["north", "south"]) (ticked (zoned ["north", "south"])) :=
    ticks_ticked (by decide +kernel)
  have h₂ : Ticks zone _ (ticked (ticked (zoned ["north", "south"]))) :=
    ticks_ticked (by decide +kernel)
  obtain ⟨-, state, now, hfound, -, hfinished⟩ := finished_iff_covered (keyed_zoned _)
    (by decide +kernel) (by decide +kernel) (by decide) (by decide +kernel) h₁ h₂ .refl
  refine ⟨_, h₂, now, ?_⟩
  rw [← hfinished.mpr fun id hid => .inr (hcovered id (IdSet.mem_toList.mpr hid))]
  exact hfound

/-- A host that does not carry the tag keeps the constraint from ever being finished, although
no call fails. -/
theorem never_finished : ∃ w w₂ : World,
    (w.tables.environments.contains zone.envId = true ∧
      w.tables.constraints.get? zone.id = some zone ∧ zone.state = .init ∧
      w.locks.holder? (lockOf lockPrefix zone.id) = none) ∧
    (∃ w₁, Ticks zone w w₁ ∧ Ticks zone w₁ w₂) ∧
    ∀ w', Relation.ReflTransGen (Ticks zone) w₂ w' → ∃ now,
      w'.tables.constraints.get? zone.id =
        some { zone with state := .processing, lastUpdate := now } := by
  have henv : (zoned ["north"]).tables.environments.contains zone.envId = true := by
    decide +kernel
  have hrecord : (zoned ["north"]).tables.constraints.get? zone.id = some zone := by
    decide +kernel
  have hfree : (zoned ["north"]).locks.holder? (lockOf lockPrefix zone.id) = none := by
    decide +kernel
  have h₁ : Ticks zone (zoned ["north"]) (ticked (zoned ["north"])) :=
    ticks_ticked (by decide +kernel)
  have h₂ : Ticks zone _ (ticked (ticked (zoned ["north"]))) :=
    ticks_ticked (by decide +kernel)
  refine ⟨_, _, ⟨henv, hrecord, rfl, hfree⟩, ⟨_, h₁, h₂⟩, fun w' hlater => ?_⟩
  have hdecided := decided_of_ticks (by decide)
    (.of_world (keyed_zoned _) henv hrecord hfree) h₁ h₂ hlater
  obtain ⟨now, hfound⟩ := hdecided.record
  have hlacks : verdict ((zoned ["north"]).tables.envHostIds zone.envId)
      (((zoned ["north"]).tables.envHostIds zone.envId).covered
        ((zoned ["north"]).tables.taggedHostIds zone.envId zone.tagName)
        fun id => ((zoned ["north"]).provider.tagOf id zone.tagName).isSome) = .processing := by
    decide +kernel
  rw [hlacks] at hfound
  exact ⟨now, hfound⟩

end

end FleetControl.TagCoverage
