import FleetControl.Proofs.Footprint
import FleetControl.Proofs.Journal
import FleetControl.Proofs.Keyed
import Mathlib.Logic.Basic

/-!
# One alignment of a constraint

What an alignment without failures makes of the records of the hosts of an environment: those of
other hosts are dropped, and one is added for each host that carries the tag at the provider and
has none. So the hosts that end up with a record are those that had one or carry the tag. This
is told of a world by `Shows`, as long as the others leave the constraint alone, and followed
through the calls of an alignment by `Goes`.
-/
namespace FleetControl

namespace IdSet

/-- The members of the one set that are in the other or pass a test. -/
def covered (hosts tagged : IdSet) (carries : HostId → Bool) : IdSet :=
  hosts.filter fun id => tagged.toList.contains id || carries id

variable {hosts tagged : IdSet} {carries : HostId → Bool} {id : HostId}

@[simp] theorem mem_covered :
    id ∈ hosts.covered tagged carries ↔ id ∈ hosts ∧ (id ∈ tagged ∨ carries id = true) := by
  simp [covered]

/-- A second time nothing changes. -/
theorem covered_covered :
    hosts.covered (hosts.covered tagged carries) carries = hosts.covered tagged carries := by
  ext id
  simp only [mem_covered]
  grind

theorem covered_self : hosts.covered hosts carries = hosts := by
  ext id
  simp only [mem_covered]
  grind

theorem covered_eq_iff : hosts.covered tagged carries = hosts ↔
    ∀ id ∈ hosts, id ∈ tagged ∨ carries id = true := by
  constructor
  · intro h id hid
    rw [← h, mem_covered] at hid
    exact hid.2
  · intro h
    ext id
    exact mem_covered.trans (and_iff_left_of_imp (h id))

/-- Without what is left over and with what is missing and passes the test. -/
theorem eraseAll_insertAll : (tagged.eraseAll (tagged.difference hosts).toList).insertAll
    ((hosts.difference tagged).toList.filter carries) = hosts.covered tagged carries := by
  ext id
  simp only [mem_insertAll, List.mem_filter, mem_toList, mem_difference, mem_eraseAll, mem_covered]
  grind

/-- Nothing is missing and nothing is left over. -/
theorem differences_isEmpty :
    ((hosts.difference tagged).toList.isEmpty && (tagged.difference hosts).toList.isEmpty) = true ↔
      tagged = hosts := by
  simp only [Bool.and_eq_true, List.isEmpty_iff, List.eq_nil_iff_forall_not_mem, mem_toList,
    mem_difference, not_and, not_not]
  constructor
  · rintro ⟨hmissing, hextra⟩
    ext id
    exact ⟨hextra id, hmissing id⟩
  · rintro rfl
    exact ⟨fun _ => id, fun _ => id⟩

end IdSet

namespace Store

variable {s : Store} {env env' : EnvId} {tag tag' : String} {id : HostId}

theorem mem_taggedHostIds : id ∈ s.taggedHostIds env tag ↔
    ∃ t ∈ s.hostTags, t.envId = env ∧ t.tagName = tag ∧ t.hostId = id := by
  simp [taggedHostIds, and_assoc]

theorem mem_taggedHostIds_deleteHostTags {ids : List HostId} :
    id ∈ (s.deleteHostTags env tag ids).taggedHostIds env' tag' ↔
      id ∈ s.taggedHostIds env' tag' ∧ ¬ (env' = env ∧ tag' = tag ∧ id ∈ ids) := by
  simp only [mem_taggedHostIds, deleteHostTags, List.mem_filter]
  constructor
  · rintro ⟨t, ⟨hm, hkept⟩, rfl, rfl, rfl⟩
    refine ⟨⟨t, hm, rfl, rfl, rfl⟩, ?_⟩
    rintro ⟨he, ht, hid⟩
    simp [he, ht, hid] at hkept
  · rintro ⟨⟨t, hm, rfl, rfl, rfl⟩, hkept⟩
    refine ⟨t, ⟨hm, ?_⟩, rfl, rfl, rfl⟩
    simpa [or_assoc, imp_iff_not_or] using hkept

/-- Recording tags adds their hosts to those that have a record. -/
theorem mem_taggedHostIds_insertHostTags {tags : List HostTag} :
    id ∈ (s.insertHostTags tags).taggedHostIds env tag ↔
      id ∈ s.taggedHostIds env tag ∨
        ∃ t ∈ tags, t.envId = env ∧ t.tagName = tag ∧ t.hostId = id := by
  simp only [mem_taggedHostIds, insertHostTags]
  generalize s.hostTags = old
  induction tags generalizing old with
  | nil => simp
  | cons t tags ih =>
      rw [List.foldl_cons, ih]
      have hput : (∃ u ∈ putHostTag old t, u.envId = env ∧ u.tagName = tag ∧ u.hostId = id) ↔
          (∃ u ∈ old, u.envId = env ∧ u.tagName = tag ∧ u.hostId = id) ∨
            (t.envId = env ∧ t.tagName = tag ∧ t.hostId = id) := by
        simp only [putHostTag, List.mem_append, List.mem_filter, List.mem_singleton]
        constructor
        · rintro ⟨u, ⟨hm, -⟩ | rfl, hu⟩
          · exact .inl ⟨u, hm, hu⟩
          · exact .inr hu
        · rintro (⟨u, hm, hu⟩ | ht)
          · by_cases hsame : u.hostId = t.hostId ∧ u.envId = t.envId ∧ u.tagName = t.tagName
            · refine ⟨t, .inr rfl, ?_⟩
              rwa [← hsame.1, ← hsame.2.1, ← hsame.2.2]
            · refine ⟨u, .inl ⟨hm, ?_⟩, hu⟩
              simpa [and_assoc, imp_iff_not_or, or_assoc] using hsame
          · exact ⟨t, .inr rfl, ht⟩
      rw [hput]
      simp only [List.mem_cons, exists_eq_or_imp]
      grind

end Store

/-- Looking up what a function gives on some keys. -/
theorem Table.get?_ofList_filterMap {α : Type} (f : String → Option α) (keys : List String)
    (k : String) : (Table.ofList (keys.filterMap fun k => (f k).map (k, ·))).get? k =
      if k ∈ keys then f k else none := by
  have hfold : ∀ (keys : List String) (t : Table α),
      ((keys.filterMap fun k => (f k).map (k, ·)).foldl (fun t e => t.insert e.1 e.2) t).get? k =
        if k ∈ keys ∧ (f k).isSome = true then f k else t.get? k := by
    intro keys
    induction keys with
    | nil => simp
    | cons a keys ih =>
        intro t
        cases hf : f a with
        | none =>
            simp only [List.filterMap_cons, hf, Option.map_none, ih]
            grind
        | some v =>
            simp only [List.filterMap_cons, hf, Option.map_some, List.foldl_cons, ih,
              Table.get?_insert]
            grind
  rw [Table.ofList, hfold]
  cases f k <;> simp

/-- The value of a tag on a host. -/
def Provider.tagOf (p : Provider) (id : HostId) (tag : String) : Option String :=
  (p.hosts.get? id).bind fun host => host.tags.get? tag

theorem Provider.get?_tagValues (p : Provider) (ids : List HostId) (tag : String) (id : HostId) :
    (p.tagValues ids tag).get? id = if id ∈ ids then p.tagOf id tag else none := by
  have hvalue : (fun id => do
      let host ← p.hosts.get? id
      let value ← host.tags.get? tag
      some (id, value)) = fun id => (p.tagOf id tag).map (id, ·) := by
    funext a
    cases ha : p.hosts.get? a with
    | none => simp [tagOf, ha]
    | some host => cases hv : host.tags.get? tag <;> simp [tagOf, ha, hv]
  rw [tagValues, hvalue]
  exact Table.get?_ofList_filterMap (p.tagOf · tag) ids id

namespace TagCoverage

open Program

/-- What bears on a constraint is the same in two worlds: its record and its lock, the hosts of
its environment with their records, and which hosts carry the tag. -/
structure Spares (c : DeployConstraint) (w v : World) : Prop where
  keyed : w.tables.constraints.KeyedBy DeployConstraint.id →
    v.tables.constraints.KeyedBy DeployConstraint.id
  environment : v.tables.environments.contains c.envId = w.tables.environments.contains c.envId
  hosts : v.tables.envHostIds c.envId = w.tables.envHostIds c.envId
  tagged : v.tables.taggedHostIds c.envId c.tagName = w.tables.taggedHostIds c.envId c.tagName
  record : v.tables.constraints.get? c.id = w.tables.constraints.get? c.id
  carries : ∀ id, (v.provider.tagOf id c.tagName).isSome = (w.provider.tagOf id c.tagName).isSome
  holder : v.locks.holder? (lockOf lockPrefix c.id) = w.locks.holder? (lockOf lockPrefix c.id)

theorem Spares.refl (c : DeployConstraint) (w : World) : Spares c w w :=
  ⟨id, rfl, rfl, rfl, rfl, fun _ => rfl, rfl⟩

/-- What a world shows of a constraint. -/
structure Shows (c : DeployConstraint) (hosts : IdSet) (carries : HostId → Bool) (tagged : IdSet)
    (state : TagSyncState) (holder : Option Token) (w : World) : Prop where
  keyed : w.tables.constraints.KeyedBy DeployConstraint.id
  environment : w.tables.environments.contains c.envId = true
  hosts : w.tables.envHostIds c.envId = hosts
  tagged : w.tables.taggedHostIds c.envId c.tagName = tagged
  record : ∃ t, w.tables.constraints.get? c.id = some { c with state := state, lastUpdate := t }
  carries : ∀ id, (w.provider.tagOf id c.tagName).isSome = carries id
  holder : w.locks.holder? (lockOf lockPrefix c.id) = holder

section

variable {c d : DeployConstraint} {hosts tagged : IdSet} {carries : HostId → Bool}
  {state : TagSyncState} {holder : Option Token} {v w : World}

theorem Shows.spared (h : Shows c hosts carries tagged state holder w) (hs : Spares c w v) :
    Shows c hosts carries tagged state holder v where
  keyed := hs.keyed h.keyed
  environment := hs.environment.trans h.environment
  hosts := hs.hosts.trans h.hosts
  tagged := hs.tagged.trans h.tagged
  record := by
    rw [hs.record]
    exact h.record
  carries id := (hs.carries id).trans (h.carries id)
  holder := hs.holder.trans h.holder

/-- Only the lock of a constraint may have changed hands. -/
theorem Shows.relock {holder' : Option Token} (h : Shows c hosts carries tagged state holder v)
    (ht : w.tables = v.tables) (hp : w.provider = v.provider)
    (hl : w.locks.holder? (lockOf lockPrefix c.id) = holder') :
    Shows c hosts carries tagged state holder' w where
  keyed := ht ▸ h.keyed
  environment := ht ▸ h.environment
  hosts := ht ▸ h.hosts
  tagged := ht ▸ h.tagged
  record := ht ▸ h.record
  carries := hp ▸ h.carries
  holder := hl

theorem setConstraintState_eq {s s' : Store} {clock : Outcome Instant} {id : String}
    {target : TagSyncState} {u : Unit}
    (h : s.answer clock (.setConstraintState id target) = (.ok u, s')) :
    ∃ now, clock = .ok now ∧ s' = { s with constraints := s.constraints.modify id fun c =>
      { c with state := target, lastUpdate := now } } := by
  simp only [Store.answer, Store.setConstraintState] at h
  split at h
  · cases clock with
    | error f => cases h
    | ok now =>
        cases h
        exact ⟨now, rfl, rfl⟩
  · cases h

/-- Setting the state of a constraint shows in its own record only. -/
theorem Shows.setState (h : Shows c hosts carries tagged state holder v) {id : String}
    {target : TagSyncState} {u : Unit}
    (ha : World.answer (.store (.setConstraintState id target)) v = (.ok u, w)) :
    Shows c hosts carries tagged (if id = c.id then target else state) holder w := by
  obtain ⟨hs, hp, hl⟩ := World.ask_cases ha
  obtain ⟨now, -, ht⟩ := setConstraintState_eq hs
  refine ⟨?_, ?_, ?_, ?_, ?_, hp ▸ h.carries, hl ▸ h.holder⟩ <;> rw [ht]
  · exact h.keyed.modify id fun _ => rfl
  · exact h.environment
  · exact h.hosts
  · exact h.tagged
  · obtain ⟨t, hr⟩ := h.record
    rw [Table.get?_modify, hr]
    split
    · rename_i hid
      rw [if_pos hid.symm]
      exact ⟨now, rfl⟩
    · rename_i hid
      rw [if_neg (Ne.symm hid)]
      exact ⟨t, rfl⟩

/-- A change of the tag records shows in which hosts have one. -/
theorem Shows.retag (h : Shows c hosts carries tagged state holder v) {tags : List HostTag}
    {tagged' : IdSet} (ht : w.tables = { v.tables with hostTags := tags })
    (hp : w.provider = v.provider) (hl : w.locks = v.locks)
    (hmem : ∀ id, id ∈ w.tables.taggedHostIds c.envId c.tagName ↔ id ∈ tagged') :
    Shows c hosts carries tagged' state holder w where
  keyed := by rw [ht]; exact h.keyed
  environment := by rw [ht]; exact h.environment
  hosts := by rw [ht]; exact h.hosts
  tagged := IdSet.ext hmem
  record := by rw [ht]; exact h.record
  carries := hp ▸ h.carries
  holder := hl ▸ h.holder

/-! ## One alignment -/

variable {α β : Type} {raises : Fault → Prop} {j : Journal World}

/-- Where no call fails and the others leave a constraint alone, a program ends with a value
and a world as wanted. -/
abbrev Goes (c : DeployConstraint) (raises : Fault → Prop) (p : Program α)
    (Q : α → World → Prop) (j : Journal World) : Prop :=
  p.Follows (World.Possible (Spares c) raises).flawless (fun _ _ => True) (fun _ => False)
    (fun a j' => Q a j'.state) j

theorem goes_perform {q : Call} {Q : q.Reply → World → Prop}
    (h : Shows c hosts carries tagged state holder j.state)
    (hq : ∀ v w a, Shows c hosts carries tagged state holder v →
      World.answer q v = (.ok a, w) → Q a w) : Goes c raises (perform q) Q j := by
  refine follows_perform.mpr fun r w hb => ⟨trivial, ?_⟩
  obtain ⟨⟨v, hv, ha | ⟨f, -, rfl, -⟩⟩, a, hr⟩ := hb
  · subst hr
    exact hq v w a (h.spared hv) ha
  · cases hr

/-- Asking finds what the tables hold. -/
theorem goes_look {q : StoreCall} (hq : q.isRead = true)
    (h : Shows c hosts carries tagged state holder j.state) :
    Goes c raises (ask q) (fun a w => Shows c hosts carries tagged state holder w ∧
      ∃ clock, (w.tables.answer clock q).1 = .ok a) j := by
  refine goes_perform h fun v w a hv ha => ?_
  obtain ⟨hs, hp, hl⟩ := World.ask_cases ha
  obtain ⟨b, hb⟩ : ∃ b, v.tables.answer v.now q = (.ok b, v.tables) := Store.answer_of_isRead hq
  rw [hb] at hs
  obtain ⟨hab, ht⟩ := Prod.mk.inj hs
  cases hab
  refine ⟨hv.relock ht.symm hp ?_, v.now, by rw [← ht, hb]⟩
  rw [hl]
  exact hv.holder

theorem goes_setState {id : String} {target : TagSyncState}
    (h : Shows c hosts carries tagged state holder j.state) :
    Goes c raises (ask (.setConstraintState id target)) (fun _ w =>
      Shows c hosts carries tagged (if id = c.id then target else state) holder w) j :=
  goes_perform h fun _ _ _ hv ha => hv.setState ha

/-- Dropping records for an environment and a tag. -/
theorem goes_drop {env : EnvId} {tag : String} {ids : List HostId}
    (h : Shows c hosts carries tagged state holder j.state) :
    Goes c raises (ask (.deleteHostTags env tag ids)) (fun _ w => Shows c hosts carries
      (if env = c.envId ∧ tag = c.tagName then tagged.eraseAll ids else tagged) state holder w) j := by
  refine goes_perform h fun v w u hv ha => ?_
  obtain ⟨hs, hp, hl⟩ := World.ask_cases ha
  have ht : w.tables = v.tables.deleteHostTags env tag ids := (Prod.mk.inj hs).2.symm
  refine hv.retag ht hp hl fun id => ?_
  rw [ht, Store.mem_taggedHostIds_deleteHostTags, hv.tagged]
  split
  · rename_i he
    simp [he]
  · rename_i he
    exact and_iff_left fun ⟨he', ht', _⟩ => he ⟨he'.symm, ht'.symm⟩

/-- Recording tags of an environment. -/
theorem goes_record {env : EnvId} {tag : String} {tags : List HostTag}
    (htags : ∀ t ∈ tags, t.envId = env ∧ t.tagName = tag)
    (h : Shows c hosts carries tagged state holder j.state) :
    Goes c raises (ask (.insertHostTags tags)) (fun _ w => Shows c hosts carries
      (if env = c.envId ∧ tag = c.tagName then tagged.insertAll (tags.map HostTag.hostId)
        else tagged) state holder w) j := by
  refine goes_perform h fun v w u hv ha => ?_
  obtain ⟨hs, hp, hl⟩ := World.ask_cases ha
  have ht : w.tables = v.tables.insertHostTags tags := (Prod.mk.inj hs).2.symm
  refine hv.retag ht hp hl fun id => ?_
  rw [ht, Store.mem_taggedHostIds_insertHostTags, hv.tagged]
  split
  · rename_i he
    rw [IdSet.mem_insertAll, List.mem_map, or_comm]
    refine or_congr_left (exists_congr fun t => and_congr_right fun hm => ?_)
    obtain ⟨henv, htag⟩ := htags t hm
    exact ⟨fun ht => ht.2.2, fun hid => ⟨henv.trans he.1, htag.trans he.2, hid⟩⟩
  · rename_i he
    refine or_iff_left fun ⟨t, hm, henv, htag, _⟩ => he ?_
    obtain ⟨henv', htag'⟩ := htags t hm
    exact ⟨henv'.symm.trans henv, htag'.symm.trans htag⟩

theorem mem_tagsOf {ids : List HostId} {values : Table String} {t : HostTag} :
    t ∈ tagsOf d ids values ↔
      ∃ id ∈ ids, ∃ value, values.get? id = some value ∧ ⟨id, d.envId, d.tagName, some value⟩ = t := by
  simp [tagsOf]

/-- The tags that are looked up are of the constraint, and of its hosts that carry the tag. -/
theorem goes_lookUp {batches : List (List HostId)}
    (h : Shows c hosts carries tagged state holder j.state) :
    Goes c raises (lookUp d batches) (fun tags w => Shows c hosts carries tagged state holder w ∧
      (∀ t ∈ tags, t.envId = d.envId ∧ t.tagName = d.tagName) ∧
      (d.tagName = c.tagName → ∀ id,
        id ∈ tags.map HostTag.hostId ↔ id ∈ batches.flatten ∧ carries id = true)) j := by
  induction batches generalizing j with
  | nil => exact ⟨h, by simp, by simp⟩
  | cons ids rest ih =>
      have hask : Goes c raises (request (.hostTags ids d.tagName)) (fun values w =>
          Shows c hosts carries tagged state holder w ∧ (d.tagName = c.tagName → ∀ id ∈ ids,
            (values.get? id).isSome = carries id)) j := by
        refine goes_perform h fun v w values hv ha => ?_
        cases ha
        refine ⟨hv, fun htag id hid => ?_⟩
        rw [Provider.get?_tagValues, if_pos hid, htag]
        exact hv.carries id
      refine .bind hask fun values j₁ ⟨h₁, hvalues⟩ _ => .bind (ih h₁) fun tags j₂ h₂ _ => ?_
      obtain ⟨h₂, hown, hcarry⟩ := h₂
      refine ⟨h₂, fun t ht => ?_, fun htag id => ?_⟩
      · obtain ht | ht := List.mem_append.mp ht
        · obtain ⟨id, -, value, -, rfl⟩ := mem_tagsOf.mp ht
          exact ⟨rfl, rfl⟩
        · exact hown t ht
      · rw [List.map_append, List.mem_append, hcarry htag, List.flatten_cons, List.mem_append,
          or_and_right]
        refine or_congr_left ?_
        simp only [List.mem_map, mem_tagsOf]
        constructor
        · rintro ⟨t, ⟨id, hid, value, hget, rfl⟩, rfl⟩
          refine ⟨hid, ?_⟩
          rw [← hvalues htag id hid, hget]
          rfl
        · rintro ⟨hid, hc⟩
          rw [← hvalues htag id hid] at hc
          obtain ⟨value, hget⟩ := Option.isSome_iff_exists.mp hc
          exact ⟨_, ⟨id, hid, value, hget, rfl⟩, rfl⟩

/-- Fetching what is missing records the hosts among it that carry the tag. -/
theorem goes_fetch {config : TagSettings} {missing : List HostId}
    (h : Shows c hosts carries tagged state holder j.state) :
    Goes c raises (fetch config d missing) (fun _ w => Shows c hosts carries
      (if d.envId = c.envId ∧ d.tagName = c.tagName
        then tagged.insertAll (missing.filter carries) else tagged) state holder w) j := by
  rw [fetch]
  split
  · refine .bind (goes_lookUp h) fun tags j₁ hlook _ => ?_
    obtain ⟨h₁, hown, hcarry⟩ := hlook
    refine (goes_record hown h₁).imp fun _ j₂ h₂ => ?_
    split at h₂
    · rename_i hshares
      rw [if_pos hshares]
      have hsame : tagged.insertAll (tags.map HostTag.hostId) =
          tagged.insertAll (missing.filter carries) := by
        ext id
        rw [IdSet.mem_insertAll, IdSet.mem_insertAll, hcarry hshares.2, flatten_batches,
          List.mem_filter]
      rwa [hsame] at h₂
    · rename_i hshares
      rwa [if_neg hshares]
  · rename_i hnone
    obtain rfl : missing = [] := by simpa using hnone
    show Shows _ _ _ _ _ _ _
    split <;> exact h

/-- Mend the records of a constraint: drop what is left over and fetch what is missing. -/
def mend (config : TagSettings) (d : DeployConstraint) (missing extra : List HostId) :
    Program Unit := do
  ask (.setConstraintState d.id .processing)
  if !extra.isEmpty then ask (.deleteHostTags d.envId d.tagName extra)
  fetch config d missing

theorem goes_mend {config : TagSettings} {missing extra : List HostId}
    (h : Shows c hosts carries tagged state holder j.state) :
    Goes c raises (mend config d missing extra) (fun _ w => Shows c hosts carries
      (if d.envId = c.envId ∧ d.tagName = c.tagName
        then (tagged.eraseAll extra).insertAll (missing.filter carries) else tagged)
      (if d.id = c.id then .processing else state) holder w) j := by
  refine .bind (goes_setState h) fun _ j₁ h₁ _ => ?_
  have hdrop : Goes c raises
      (if !extra.isEmpty then ask (.deleteHostTags d.envId d.tagName extra) else pure ())
      (fun _ w => Shows c hosts carries
        (if d.envId = c.envId ∧ d.tagName = c.tagName then tagged.eraseAll extra else tagged)
        (if d.id = c.id then .processing else state) holder w) j₁ := by
    split
    · exact goes_drop h₁
    · rename_i hnone
      obtain rfl : extra = [] := by simpa using hnone
      have hsame : tagged.eraseAll [] = tagged := by ext id; simp
      show Shows _ _ _ _ _ _ _
      rwa [hsame, ite_self]
  have hfetch : ∀ {j₂ : Journal World}, Shows c hosts carries
      (if d.envId = c.envId ∧ d.tagName = c.tagName then tagged.eraseAll extra else tagged)
      (if d.id = c.id then .processing else state) holder j₂.state →
      Goes c raises (fetch config d missing) (fun _ w => Shows c hosts carries
        (if d.envId = c.envId ∧ d.tagName = c.tagName
          then (tagged.eraseAll extra).insertAll (missing.filter carries) else tagged)
        (if d.id = c.id then .processing else state) holder w) j₂ := by
    intro j₂ h₂
    refine (goes_fetch h₂).imp fun _ j₃ h₃ => ?_
    split <;> rename_i hshares
    · simpa only [hshares, and_self, if_true] using h₃
    · simpa only [hshares, if_false] using h₃
  have hrest := Follows.bind hdrop fun _ j₂ h₂ _ => hfetch h₂
  rwa [bind_ite] at hrest

/-- What becomes of the state of a constraint that is aligned. -/
def verdict (hosts tagged : IdSet) : TagSyncState :=
  if tagged = hosts then .finished else .processing

/-- A constraint in sync is finished, if it is not so already. -/
theorem goes_finish (hd : d.id = c.id → d.state = state)
    (h : Shows c hosts carries tagged state holder j.state) :
    Goes c raises
      (if d.state == .finished then pure () else ask (.setConstraintState d.id .finished))
      (fun _ w => Shows c hosts carries tagged (if d.id = c.id then .finished else state) holder w)
      j := by
  split
  · rename_i hfinished
    show Shows _ _ _ _ _ _ _
    split
    · rename_i he
      rwa [← hd he, beq_iff_eq.mp hfinished] at h
    · exact h
  · exact goes_setState h

/-- Aligning any constraint that shares the environment and the tag covers the same hosts. Only
a constraint's own alignment decides on its state. -/
theorem goes_align {config : TagSettings}
    (hd : d.id = c.id → d.envId = c.envId ∧ d.tagName = c.tagName ∧ d.state = state)
    (h : Shows c hosts carries tagged state holder j.state) :
    Goes c raises (align config d) (fun _ w => Shows c hosts carries
      (if d.envId = c.envId ∧ d.tagName = c.tagName then hosts.covered tagged carries else tagged)
      (if d.id = c.id then verdict hosts tagged else state) holder w) j := by
  refine .bind (goes_look rfl h) fun env j₁ hlook _ => ?_
  obtain ⟨h₁, _, henv⟩ := hlook
  cases env with
  | none =>
      have hapart : d.envId ≠ c.envId := fun he => by
        have hfound := h₁.environment
        rw [← he, Table.contains, Except.ok.inj henv] at hfound
        cases hfound
      have hother : d.id ≠ c.id := fun he => hapart (hd he).1
      show Shows _ _ _ _ _ _ _
      simpa only [hapart, hother, false_and, if_false] using h₁
  | some env =>
      refine .bind (goes_look rfl h₁) fun desired j₂ hwanted _ => ?_
      obtain ⟨h₂, _, hdesired⟩ := hwanted
      refine .bind (goes_look rfl h₂) fun observed j₃ hfound _ => ?_
      obtain ⟨h₃, _, hobserved⟩ := hfound
      have hread : d.envId = c.envId ∧ d.tagName = c.tagName → desired = hosts ∧ observed = tagged := by
        rintro ⟨he, ht⟩
        rw [← h₂.hosts, ← h₃.tagged, ← he, ← ht]
        exact ⟨(Except.ok.inj hdesired).symm, (Except.ok.inj hobserved).symm⟩
      by_cases hsync : observed = desired
      · have hempty := IdSet.differences_isEmpty.mpr hsync
        dsimp only
        rw [if_pos hempty]
        refine Follows.imp (goes_finish (fun he => (hd he).2.2) h₃) fun _ j₄ h₄ => ?_
        by_cases hshares : d.envId = c.envId ∧ d.tagName = c.tagName
        · obtain ⟨rfl, rfl⟩ := hread hshares
          cases hsync
          simpa only [hshares, and_self, if_true, IdSet.covered_self, verdict] using h₄
        · have hother : d.id ≠ c.id := fun he => hshares ⟨(hd he).1, (hd he).2.1⟩
          simpa only [hshares, hother, if_false] using h₄
      · have hempty := mt IdSet.differences_isEmpty.mp hsync
        dsimp only
        rw [if_neg hempty]
        have hmend : Goes c raises (mend config d (desired.difference observed).toList
            (observed.difference desired).toList) _ j₃ := goes_mend h₃
        refine Follows.imp hmend fun _ j₄ h₄ => ?_
        by_cases hshares : d.envId = c.envId ∧ d.tagName = c.tagName
        · obtain ⟨rfl, rfl⟩ := hread hshares
          simpa only [hshares, and_self, if_true, IdSet.eraseAll_insertAll, verdict,
            if_neg hsync] using h₄
        · have hother : d.id ≠ c.id := fun he => hshares ⟨(hd he).1, (hd he).2.1⟩
          simpa only [hshares, hother, if_false] using h₄

end

end TagCoverage

end FleetControl
