import FleetControl.Proofs.Covering
import FleetControl.Proofs.Smooth
import Mathlib.Data.List.Nodup

/-!
# What a pass makes of the kept tags

A pass without failures is a function of the tables and of the provider: it drops the records of
hosts that have left and adds one for each host that has none and carries the tag. No record that
is added shares its key with one that is kept, so each goes to the end and replaces nothing. In
which batches the provider is asked does not matter.
-/
namespace FleetControl

/-- What a record is kept under. -/
def HostTag.key (t : HostTag) : HostId × EnvId × String := (t.hostId, t.envId, t.tagName)

namespace Store

variable {old new : List HostTag} {t : HostTag}

/-- A record with a key of its own goes to the end. -/
theorem putHostTag_of_notMem (h : t.key ∉ old.map HostTag.key) : putHostTag old t = old ++ [t] := by
  have hkept : ∀ u ∈ old, (!(u.hostId == t.hostId && u.envId == t.envId &&
      u.tagName == t.tagName)) = true := by
    intro u hu
    have hne : u.key ≠ t.key := fun he => h (he ▸ List.mem_map_of_mem hu)
    simp only [HostTag.key, ne_eq, Prod.mk.injEq] at hne
    simp only [Bool.not_eq_true', Bool.and_eq_false_iff, beq_eq_false_iff_ne]
    tauto
  rw [putHostTag, List.filter_eq_self.mpr hkept]

theorem foldl_putHostTag (h : ((old ++ new).map HostTag.key).Nodup) :
    new.foldl putHostTag old = old ++ new := by
  induction new generalizing old with
  | nil => simp
  | cons t new ih =>
      have hnext : ((old ++ [t] ++ new).map HostTag.key).Nodup := by simpa using h
      have hfree : t.key ∉ old.map HostTag.key := by
        rw [List.map_append, List.map_append, List.append_assoc] at hnext
        exact fun hm => (List.nodup_append.mp hnext).2.2 _ hm _ (by simp) rfl
      rw [List.foldl_cons, putHostTag_of_notMem hfree, ih hnext, List.append_assoc]
      rfl

end Store

namespace TagCoverage

open Program

variable {c : DeployConstraint} {p : Provider} {s : Store} {now : Instant} {t : HostTag}
  {ids : List HostId} {raises : Fault → Prop} {j : Journal World}

/-- Whether a record is of the environment and the tag of a constraint. -/
def concerns (c : DeployConstraint) (t : HostTag) : Bool :=
  t.envId == c.envId && t.tagName == c.tagName

theorem concerns_iff : concerns c t = true ↔ t.envId = c.envId ∧ t.tagName = c.tagName := by
  simp [concerns]

/-- What the provider knows of hosts, as records of a constraint. -/
def found (c : DeployConstraint) (p : Provider) (ids : List HostId) : List HostTag :=
  ids.filterMap fun id =>
    (p.tagOf id c.tagName).map fun value => ⟨id, c.envId, c.tagName, some value⟩

/-- The records that are left when those of departed hosts have been dropped. -/
def kept (c : DeployConstraint) (s : Store) : List HostTag :=
  let departed := (s.taggedHostIds c.envId c.tagName).difference (s.envHostIds c.envId)
  (s.deleteHostTags c.envId c.tagName departed.toList).hostTags

/-- The records that are added. -/
def added (c : DeployConstraint) (p : Provider) (s : Store) : List HostTag :=
  found c p ((s.envHostIds c.envId).difference (s.taggedHostIds c.envId c.tagName)).toList

/-- The tables after a pass. -/
def mirrored (c : DeployConstraint) (p : Provider) (now : Instant) (s : Store) : Store :=
  let decided := verdict (s.envHostIds c.envId) (s.taggedHostIds c.envId c.tagName)
  { s with
    hostTags := kept c s ++ added c p s
    constraints := s.constraints.modify c.id fun c =>
      { c with state := decided, lastUpdate := now } }

/-! ## The records -/

theorem mem_found : t ∈ found c p ids ↔ concerns c t = true ∧ t.hostId ∈ ids ∧
    t.tagValue.isSome = true ∧ t.tagValue = p.tagOf t.hostId c.tagName := by
  rw [concerns_iff]
  simp only [found, List.mem_filterMap, Option.map_eq_some_iff]
  constructor
  · rintro ⟨id, hid, value, hvalue, rfl⟩
    exact ⟨⟨rfl, rfl⟩, hid, rfl, hvalue.symm⟩
  · rintro ⟨⟨henv, htag⟩, hid, hsome, hvalue⟩
    obtain ⟨value, hv⟩ := Option.isSome_iff_exists.mp hsome
    refine ⟨t.hostId, hid, value, hvalue.symm.trans hv, ?_⟩
    rw [← henv, ← htag, ← hv]

/-- A record is known by its host among those that are found. -/
theorem nodup_found (h : ids.Nodup) : ((found c p ids).map HostTag.key).Nodup := by
  apply List.Nodup.of_map Prod.fst
  have hhosts : ((found c p ids).map HostTag.key).map Prod.fst =
      ids.filter fun id => (p.tagOf id c.tagName).isSome := by
    rw [List.map_map, found, List.map_filterMap, ← List.filterMap_eq_filter]
    refine List.filterMap_congr fun id _ => ?_
    cases hv : p.tagOf id c.tagName <;> simp [Option.guard, HostTag.key, hv]
  rw [hhosts]
  exact h.filter _

/-- A record is dropped if it is of the constraint and its host has left. -/
theorem mem_kept : t ∈ kept c s ↔
    t ∈ s.hostTags ∧ (concerns c t = true → t.hostId ∈ s.envHostIds c.envId) := by
  simp only [kept, Store.deleteHostTags, List.mem_filter]
  refine and_congr_right fun hm => ?_
  have htagged : concerns c t = true → t.hostId ∈ s.taggedHostIds c.envId c.tagName := fun ht =>
    Store.mem_taggedHostIds.mpr ⟨t, hm, (concerns_iff.mp ht).1, (concerns_iff.mp ht).2, rfl⟩
  rw [show (t.envId == c.envId && t.tagName == c.tagName) = concerns c t from rfl]
  cases hc : concerns c t with
  | false => simp
  | true => simp [htagged hc]

theorem mem_added : t ∈ added c p s ↔ concerns c t = true ∧ t.hostId ∈ s.envHostIds c.envId ∧
    t.hostId ∉ s.taggedHostIds c.envId c.tagName ∧ t.tagValue.isSome = true ∧
      t.tagValue = p.tagOf t.hostId c.tagName := by
  rw [added, mem_found, IdSet.mem_toList, IdSet.mem_difference, and_assoc]

/-- No key occurs twice, if none did before. -/
theorem nodup_records (h : (s.hostTags.map HostTag.key).Nodup) :
    ((kept c s ++ added c p s).map HostTag.key).Nodup := by
  rw [List.map_append, List.nodup_append]
  refine ⟨?_, nodup_found (IdSet.nodup _), ?_⟩
  · exact h.sublist (List.filter_sublist.map _)
  · rintro _ hkept _ hadded rfl
    obtain ⟨u, hu, hkey⟩ := List.mem_map.mp hadded
    obtain ⟨t, ht, rfl⟩ := List.mem_map.mp hkept
    obtain ⟨hown, -, hnew, -⟩ := mem_added.mp hu
    simp only [HostTag.key, Prod.mk.injEq] at hkey
    obtain ⟨hhost, henv, htag⟩ := hkey
    rw [concerns_iff, henv, htag] at hown
    exact hnew (Store.mem_taggedHostIds.mpr ⟨t, (mem_kept.mp ht).1, hown.1, hown.2, hhost.symm⟩)

/-- The records of other environments and tags stand as they stood. -/
theorem filter_records : (kept c s ++ added c p s).filter (fun t => !concerns c t) =
    s.hostTags.filter fun t => !concerns c t := by
  have hnone : (added c p s).filter (fun t => !concerns c t) = [] :=
    List.filter_eq_nil_iff.mpr fun t ht => by simp [(mem_added.mp ht).1]
  rw [List.filter_append, hnone, List.append_nil, kept, Store.deleteHostTags, List.filter_filter]
  refine List.filter_congr fun t _ => ?_
  rw [show (t.envId == c.envId && t.tagName == c.tagName) = concerns c t from rfl]
  cases concerns c t <;> rfl

/-! ## The pass -/

/-- Without failures, looking hosts up finds the same in whatever batches it is done. -/
theorem smooth_lookUp {batches : List (List HostId)} {w : World} (hj : j.state = w) :
    (lookUp c batches).Smooth raises
      (fun tags j' => tags = found c w.provider batches.flatten ∧ j'.state = w) j := by
  induction batches generalizing j with
  | nil => exact ⟨rfl, hj⟩
  | cons ids rest ih =>
      have hbatch : tagsOf c ids (w.provider.tagValues ids c.tagName) = found c w.provider ids := by
        refine List.filterMap_congr fun id hid => ?_
        rw [Provider.get?_tagValues, if_pos hid]
      have hknown : World.answer (.provider (.hostTags ids c.tagName)) j.state =
          (.ok (w.provider.tagValues ids c.tagName), w) := by rw [hj]; rfl
      refine .next hknown (.bind (ih rfl) ?_)
      rintro _ j' ⟨rfl, hj'⟩ -
      refine ⟨?_, hj'⟩
      rw [hbatch, found, found, found, List.flatten_cons, List.filterMap_append]

/-- What the last part of a pass adds. -/
theorem smooth_fetch {config : TagSettings} {w : World} (hs : j.state = w.withStore s)
    (hkeys : ((s.hostTags ++ found c w.provider ids).map HostTag.key).Nodup) :
    (fetch config c ids).Smooth raises (fun _ j' => j'.state =
      w.withStore { s with hostTags := s.hostTags ++ found c w.provider ids }) j := by
  rw [fetch]
  split
  · refine .bind (smooth_lookUp hs) ?_
    rintro _ j₁ ⟨rfl, h₁⟩ -
    have hstored : World.answer (.store (.insertHostTags (found c w.provider ids))) j₁.state =
        (.ok (), w.withStore { s with hostTags := s.hostTags ++ found c w.provider ids }) := by
      rw [h₁, ← Store.foldl_putHostTag hkeys]
      rfl
    rw [flatten_batches]
    exact smooth_known hstored rfl
  · rename_i hnone
    obtain rfl : ids = [] := by simpa using hnone
    show j.state = _
    rw [hs, found, List.filterMap_nil, List.append_nil]

/-- Setting the state of a constraint dates its record by the clock. -/
theorem smooth_setState {w : World} {state : TagSyncState} {id : String}
    (hs : j.state = w.withStore s) :
    (ask (.setConstraintState id state)).Smooth raises (fun _ j' => j'.state =
      w.withStore { s with constraints := s.constraints.modify id fun c =>
        { c with state := state, lastUpdate := w.clock } }) j := by
  refine smooth_perform fun u v ha => ?_
  rw [hs] at ha
  obtain ⟨s', hanswer, rfl⟩ := World.eq_of_ask rfl ha
  obtain ⟨now, hclock, rfl⟩ := setConstraintState_eq hanswer
  rw [Journal.enter, ← Clock.eq_of_read hclock]

/-- Where the hosts with a record are those of the environment, no record is dropped or added. -/
theorem records_of_covered (h : s.taggedHostIds c.envId c.tagName = s.envHostIds c.envId) :
    kept c s ++ added c p s = s.hostTags := by
  have hnone : (s.envHostIds c.envId).difference (s.envHostIds c.envId) = .empty := by
    ext id
    simp
  simp [kept, added, found, Store.deleteHostTags, h, hnone]

/-- A pass makes of the tables what it should. -/
theorem smooth_align {config : TagSettings} {w : World} (hs : j.state = w.withStore s)
    (henv : s.environments.contains c.envId = true) (hopen : c.state ∈ openStates)
    (hkeys : (s.hostTags.map HostTag.key).Nodup) :
    (align config c).Smooth raises
      (fun _ j' => j'.state = w.withStore (mirrored c w.provider w.clock s)) j := by
  have hstore : j.state.store = some s := by rw [hs]
  obtain ⟨env, henv⟩ := Option.isSome_iff_exists.mp henv
  have hfound : World.answer (.store (.getEnvironment c.envId)) j.state =
      (.ok (some env), j.state) := by
    refine World.answer_ask hstore ?_
    rw [Store.answer, henv]
  refine .next hfound (.next (World.answer_ask hstore rfl) (.next (World.answer_ask hstore rfl) ?_))
  dsimp only
  by_cases hsync : s.taggedHostIds c.envId c.tagName = s.envHostIds c.envId
  · have hunfinished : c.state ≠ .finished := by
      rintro hfinished
      simp [hfinished, openStates] at hopen
    rw [if_pos (IdSet.differences_isEmpty.mpr hsync), if_neg (by simpa using hunfinished)]
    refine Follows.imp (smooth_setState (w := w) hs) fun _ j' hj' => ?_
    rw [hj', mirrored, records_of_covered hsync, verdict, if_pos hsync]
  · rw [if_neg (mt IdSet.differences_isEmpty.mp hsync)]
    refine .bind (smooth_setState hs) fun _ j₁ h₁ _ => ?_
    have hfetch : ∀ j₂ : Journal World,
        j₂.state = w.withStore { mirrored c w.provider w.clock s with hostTags := kept c s } →
        (fetch config c ((s.envHostIds c.envId).difference
          (s.taggedHostIds c.envId c.tagName)).toList).Smooth raises
          (fun _ j' => j'.state = w.withStore (mirrored c w.provider w.clock s)) j₂ := by
      intro j₂ h₂
      exact smooth_fetch h₂ (nodup_records hkeys)
    split
    · have hdropped : World.answer (.store (.deleteHostTags c.envId c.tagName
          ((s.taggedHostIds c.envId c.tagName).difference (s.envHostIds c.envId)).toList)) j₁.state =
          (.ok (), w.withStore { mirrored c w.provider w.clock s with hostTags := kept c s }) := by
        rw [h₁, mirrored, verdict, if_neg hsync]
        rfl
      exact Smooth.next hdropped (hfetch _ rfl)
    · rename_i hnone
      refine hfetch _ ?_
      have hall : kept c s = s.hostTags := by
        simp only [Bool.not_eq_true', Bool.not_eq_false, List.isEmpty_iff] at hnone
        simp [kept, Store.deleteHostTags, hnone]
      rw [h₁, hall, mirrored, verdict, if_neg hsync]

/-- What a pass at an instant makes of the records of a constraint. Nothing else changes. -/
structure Reconciled (c : DeployConstraint) (p : Provider) (now : Instant) (s s' : Store) :
    Prop where
  /-- The hosts that end up with a record are those of the environment that had one or carry the
  tag. -/
  hosts (id : HostId) : id ∈ s'.taggedHostIds c.envId c.tagName ↔ id ∈ s.envHostIds c.envId ∧
    (id ∈ s.taggedHostIds c.envId c.tagName ∨ (p.tagOf id c.tagName).isSome = true)
  /-- A record stood before, or it is of a host that had none and has the value at the provider. -/
  records (t : HostTag) (ht : concerns c t = true) : t ∈ s'.hostTags ↔
    t.hostId ∈ s.envHostIds c.envId ∧ (t ∈ s.hostTags ∨
      t.hostId ∉ s.taggedHostIds c.envId c.tagName ∧ t.tagValue.isSome = true ∧
        t.tagValue = p.tagOf t.hostId c.tagName)
  /-- The records of other environments and tags stand as they stood, in the same order. -/
  others : s'.hostTags.filter (fun t => !concerns c t) = s.hostTags.filter fun t => !concerns c t
  nodup : (s'.hostTags.map HostTag.key).Nodup
  state : s'.constraints.get? c.id = some { c with
    state := if s.taggedHostIds c.envId c.tagName = s.envHostIds c.envId
      then .finished else .processing
    lastUpdate := now }
  constraints (id : String) (hid : id ≠ c.id) : s'.constraints.get? id = s.constraints.get? id
  rest : s' = { s with hostTags := s'.hostTags, constraints := s'.constraints }

/-- Which records of the constraint there are after a pass. -/
theorem mem_mirrored (ht : concerns c t = true) : t ∈ (mirrored c p now s).hostTags ↔
    t.hostId ∈ s.envHostIds c.envId ∧ (t ∈ s.hostTags ∨
      t.hostId ∉ s.taggedHostIds c.envId c.tagName ∧ t.tagValue.isSome = true ∧
        t.tagValue = p.tagOf t.hostId c.tagName) := by
  simp only [mirrored, List.mem_append, mem_kept, mem_added, ht, true_and, true_imp_iff]
  rw [and_or_left, and_comm]

theorem mem_taggedHostIds_mirrored {id : HostId} :
    id ∈ (mirrored c p now s).taggedHostIds c.envId c.tagName ↔ id ∈ s.envHostIds c.envId ∧
      (id ∈ s.taggedHostIds c.envId c.tagName ∨ (p.tagOf id c.tagName).isSome = true) := by
  constructor
  · intro h
    obtain ⟨t, hm, henv, htag, rfl⟩ := Store.mem_taggedHostIds.mp h
    obtain ⟨hhost, hold | ⟨-, hsome, hvalue⟩⟩ :=
      (mem_mirrored (concerns_iff.mpr ⟨henv, htag⟩)).mp hm
    · exact ⟨hhost, .inl (Store.mem_taggedHostIds.mpr ⟨t, hold, henv, htag, rfl⟩)⟩
    · exact ⟨hhost, .inr (hvalue ▸ hsome)⟩
  · rintro ⟨hhost, hcarried⟩
    by_cases htagged : id ∈ s.taggedHostIds c.envId c.tagName
    · obtain ⟨t, hm, henv, htag, rfl⟩ := Store.mem_taggedHostIds.mp htagged
      have hstays : t ∈ (mirrored c p now s).hostTags :=
        (mem_mirrored (concerns_iff.mpr ⟨henv, htag⟩)).mpr ⟨hhost, .inl hm⟩
      exact Store.mem_taggedHostIds.mpr ⟨t, hstays, henv, htag, rfl⟩
    · obtain ⟨value, hvalue⟩ := Option.isSome_iff_exists.mp (hcarried.resolve_left htagged)
      have hcomes : (⟨id, c.envId, c.tagName, some value⟩ : HostTag) ∈
          (mirrored c p now s).hostTags :=
        (mem_mirrored (concerns_iff.mpr ⟨rfl, rfl⟩)).mpr
          ⟨hhost, .inr ⟨htagged, rfl, hvalue.symm⟩⟩
      exact Store.mem_taggedHostIds.mpr ⟨_, hcomes, rfl, rfl, rfl⟩

theorem reconciled_mirrored (hrecord : s.constraints.get? c.id = some c)
    (hkeys : (s.hostTags.map HostTag.key).Nodup) : Reconciled c p now s (mirrored c p now s) where
  hosts _ := mem_taggedHostIds_mirrored
  records _ := mem_mirrored
  others := filter_records
  nodup := nodup_records hkeys
  state := by
    rw [mirrored, Table.get?_modify, if_pos rfl, hrecord]
    rfl
  constraints id hid := by
    rw [mirrored, Table.get?_modify, if_neg hid]
  rest := rfl

/-- Without failures, processing an open constraint reconciles its records with the hosts of its
environment. What it makes of the tables does not depend on the batches. -/
theorem process_reconciles {w : World} (hs : w.store = some s)
    (hrecord : s.constraints.get? c.id = some c) (hopen : c.state ∈ openStates)
    (henv : s.environments.contains c.envId = true)
    (hkeys : (s.hostTags.map HostTag.key).Nodup) :
    ∃ s', Reconciled c w.provider w.clock s s' ∧ ∀ (config : TagSettings) r j',
      (process config c.id).Ends (World.Possible Eq raises).flawless.recorded (.start w) r j' →
        r = .ok () ∧ j'.state = w.withStore s' := by
  refine ⟨_, reconciled_mirrored hrecord hkeys, fun config r j' he => ?_⟩
  have hlisted : World.answer (.store (.getConstraint c.id)) w = (.ok (some c), w) := by
    refine World.answer_ask hs ?_
    rw [Store.answer, hrecord]
  have hw : w.withStore s = w := by
    show ({ w with store := some s } : World) = w
    rw [← hs]
  have hprocess : (process config c.id).Smooth raises
      (fun _ j' => j'.state = w.withStore (mirrored c w.provider w.clock s)) (.start w) := by
    refine Smooth.next hlisted (.bind (Follows.attempt (smooth_align hw.symm henv hopen hkeys)) ?_)
    intro attempted j₁ h₁ _
    cases attempted with
    | ok u => exact h₁
    | error e => exact h₁.elim
  obtain ⟨u, rfl, hstate⟩ := hprocess.ends he
  exact ⟨rfl, hstate⟩

/-- The host that has left loses its record, and of the two hosts of the environment the one that
carries the tag gets one. The constraint is worked on, also if hosts are looked up one by one. -/
theorem process_reconciles_zoned : ∃ j', (process { batchSize := 0 } zone.id).Ends
    (World.Possible Eq fun _ => False).flawless.recorded (.start (zoned ["north"])) (.ok ()) j' ∧
    Reconciled zone (zoned ["north"]).provider (zoned ["north"]).clock (zoned ["north"]).tables
      j'.state.tables ∧
    j'.state.tables.hostTags = [⟨"north", "prod", "zone", some "east"⟩] := by
  have hs : (zoned ["north"]).store = some (zoned ["north"]).tables := rfl
  obtain ⟨s', hreconciled, hends⟩ := process_reconciles hs (c := zone) (by decide +kernel)
    (by decide) (by decide +kernel) (by decide +kernel)
  have he := ends_smooth (fun _ => False) (p := process { batchSize := 0 } zone.id)
    (w := zoned ["north"]) (by decide +kernel)
  obtain ⟨hr, hstate⟩ := hends _ _ _ he
  rw [hr] at he
  refine ⟨_, he, ?_, by decide +kernel⟩
  rw [hstate]
  exact hreconciled

end TagCoverage

end FleetControl
