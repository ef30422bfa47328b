import FleetControl.Proofs.Disposal
import FleetControl.Proofs.Leaving
import FleetControl.Proofs.Session

/-!
# Hosts that events hold

An event that is not over holds the hosts that it tracks. A world is orderly if no host is held
by two events and hosts that are yet to be launched are unknown. Others may do as they like, as
long as they give no event a host to hold and put no host on its way out that is held; then the
world stays orderly. Calls that neither store an item, nor launch or admit a host, nor name a
host that is to stay, are of this kind.
-/
namespace FleetControl

/-- No two numbers give one id. -/
theorem Provider.launchedId_inj {m n : Nat} (h : launchedId m = launchedId n) : m = n := by
  have hzeros : ∀ k, Nat.ofDigitChars 10 (List.replicate k '0') 0 = 0 := by
    intro k
    induction k with
    | zero => rfl
    | succ k ih => exact ih
  have hread : ∀ n, Nat.ofDigitChars 10 (Decimal.padded 4 n).toList 0 = n := by
    intro n
    have hpadded : (Decimal.padded 4 n).toList =
        List.replicate (4 - (toString n).length) '0' ++ Nat.toDigits 10 n := by
      simp [Decimal.padded]
    rw [hpadded, Nat.ofDigitChars_append, hzeros, Nat.ofDigitChars_ten_toDigits]
  have hsuffix : Decimal.padded 4 (m + 1) = Decimal.padded 4 (n + 1) := by
    have hlist := congrArg String.toList h
    simp only [launchedId, String.toList_append] at hlist
    exact String.toList_injective (List.append_cancel_left hlist)
  have hsame := congrArg (fun s => Nat.ofDigitChars 10 s.toList 0) hsuffix
  simp only [hread] at hsame
  omega

/-- The hosts that were drained. -/
def Entry.drained : Entry World → List HostId
  | ⟨_, .store (.drainHosts _ ids), .ok _, _⟩ => ids
  | _ => []

theorem Entry.isDrain_of_drained {e : Entry World} {host : HostId} (h : host ∈ e.drained) :
    e.call.isDrain = true := by
  unfold drained at h
  split at h
  · rfl
  · cases h

/-! ## What an answered call changes -/

namespace Call

/-- Whether a call stores an item. -/
def writesItem : Call → Bool
  | .store (.insertItem _ _) | .store (.updateItem _ _) => true
  | _ => false

theorem not_writesItem_of_isRead {c : Call} (h : c.isRead = true) : c.writesItem = false := by
  unfold writesItem
  split
  · cases h
  · cases h
  · rfl

theorem not_admits_of_isRead {c : Call} (h : c.isRead = true) : c.admits = false := by
  unfold admits
  split
  · cases h
  · cases h
  · rfl

theorem not_launches_of_isRead {c : Call} (h : c.isRead = true) : c.launches = false := by
  unfold launches
  split
  · cases h
  · rfl

theorem recasts_of_isRead {c : Call} (h : c.isRead = true) : c.recasts = [] := by
  unfold recasts
  split
  · cases h
  · cases h
  · cases h
  · rfl

end Call

namespace Store

variable {s s' : Store} {clock : Outcome Instant} {c : StoreCall} {id : HostId}

/-- Only calls that store an item change the items. -/
theorem Effect.items (h : Effect s clock c s') (hc : (Call.store c).writesItem = false)
    (k : ItemKind) : s'.items k = s.items k := by
  cases h with
  | insertItem => cases hc
  | updateItem => cases hc
  | @drainHosts env ids now =>
      obtain ⟨hosts, agents, hd⟩ := s.drainHosts_eq now env ids
      rw [hd]
      cases k <;> rfl
  | _ => cases k <;> rfl

/-- A host on its way out has a record. -/
theorem contains_of_isLeaving (h : s.isLeaving id = true) : s.hosts.contains id = true := by
  rw [Store.isLeaving] at h
  rw [Table.contains]
  cases hg : s.hosts.get? id with
  | none =>
      rw [hg] at h
      cases h
  | some _ => rfl

theorem contains_setHostState (s : Store) (now : Instant) (ids : List HostId)
    (state : HostState) (id : HostId) :
    (s.setHostState now ids state).hosts.contains id = s.hosts.contains id := by
  rw [Table.contains, get?_setHostState, Table.contains]
  split
  · exact Option.isSome_map
  · rfl

/-- A call that admits no host makes none known. -/
theorem Effect.known (h : Effect s clock c s') (hc : (Call.store c).admits = false)
    (hs : s'.hosts.contains id = true) : s.hosts.contains id = true := by
  have hsame : s'.hosts = s.hosts → s.hosts.contains id = true := fun he => he ▸ hs
  cases h with
  | @insertItem k => cases k <;> exact hsame rfl
  | @updateItem k => cases k <;> exact hsame rfl
  | insertHost => cases hc
  | setHostState => rwa [contains_setHostState] at hs
  | deleteHost =>
      rw [Store.deleteHost, Table.contains, Table.get?_erase] at hs
      split at hs
      · cases hs
      · exact hs
  | drainHosts =>
      rw [hosts_drainHosts, contains_setHostState] at hs
      exact hs
  | _ => exact hsame rfl

end Store

namespace Provider

/-- Only launches issue ids. -/
theorem issued_answer (p : Provider) {c : ProviderCall}
    (hc : (Call.provider c).launches = false) : (p.answer c).2.issued = p.issued := by
  cases c with
  | launchHosts => cases hc
  | terminateHosts cluster ids drain =>
      exact (congrArg issued (p.terminateHosts_eq cluster ids drain) :)
  | _ => rfl

/-- The hosts of a launch are the next to be issued. -/
theorem launched_of_answer {p p' : Provider} {cluster : String} {count : Nat}
    {image : Option String} {ids : List HostId}
    (h : p.answer (.launchHosts cluster count image) = (.ok ids, p')) :
    p.issued ≤ p'.issued ∧
      ∀ id ∈ ids, ∃ n, p.issued ≤ n ∧ n < p'.issued ∧ id = launchedId n := by
  obtain ⟨rfl, hissued⟩ := launched_of_launchHosts h
  constructor
  · omega
  · intro id hid
    obtain ⟨n, hn, rfl⟩ := List.mem_map.mp hid
    have hlt := List.mem_range.mp hn
    exact ⟨p.issued + n, by omega, by omega, rfl⟩

end Provider

namespace World

variable {w w' v : World} {c : Call} {a : c.Reply} {host : HostId}

theorem holds_iff {id : ItemId} {y : UpgradeEvent} :
    Holds id w y ↔ w.tables.getItem .upgrade id = some y := by
  constructor
  · rintro ⟨s, hs, hy⟩
    rwa [tables_eq hs]
  · intro hy
    cases hs : w.store with
    | none => simp [tables, hs, Store.getItem, Store.items, Store.empty] at hy
    | some s => exact ⟨s, hs, by rwa [tables_eq hs] at hy⟩

theorem holds_inj {id : ItemId} {x y : UpgradeEvent} (hx : Holds id w x) (hy : Holds id w y) :
    x = y := by
  rw [holds_iff] at hx hy
  exact Option.some.inj (hx.symm.trans hy)

/-- An answered call leaves the tables as they are, or has its effect on them. -/
theorem tables_of_answered (h : answer c w = (.ok a, w')) : w'.tables = w.tables ∨
    ∃ q, c = .store q ∧ Store.Effect w.tables w.now q w'.tables := by
  by_cases hc : ∃ q, c = .store q
  · right
    obtain ⟨q, rfl⟩ := hc
    have heffect := w.tables.effect_of_answer w.now q
    rw [(ask_cases h).1] at heffect
    exact ⟨q, rfl, heffect⟩
  · left
    have hw : w' = (answer c w).2 := by rw [h]
    rw [hw, tables, tables, store_answer (not_exists.mp hc)]

/-- A call that writes nothing in the store leaves the tables as they are. -/
theorem tables_of_unwritten (h : answer c w = (.ok a, w'))
    (hc : ∀ q, c = .store q → q.isRead = true) : w'.tables = w.tables := by
  rcases tables_of_answered h with he | ⟨q, rfl, he⟩
  · exact he
  · have hq := hc q rfl
    generalize w'.tables = t at he
    cases he with
    | nothing => rfl
    | _ => cases hq

/-- An event that is stored stands in the table from then on. -/
theorem tables_of_stored {y : UpgradeEvent} {u : Unit}
    (h : answer (.store (.updateItem .upgrade y)) w = (.ok u, w')) :
    w'.tables = w.tables.putItem .upgrade y := by
  have hb : Possible Eq (fun _ => False) (.store (.updateItem .upgrade y)) w (.ok u) w' :=
    ⟨w, rfl, .inl h⟩
  obtain ⟨_, s, s', _, rfl, hs, ha, hs'⟩ := hb.store_of_ok
  rw [tables_eq hs, tables_eq hs']
  simp only [Store.answer] at ha
  cases hu : s.updateItem .upgrade y with
  | error e =>
      rw [hu] at ha
      cases ha
  | ok t =>
      rw [hu] at ha
      cases ha
      exact (Store.updateItem_eq_ok_iff.mp hu).2

theorem items_of_answered (h : answer c w = (.ok a, w')) (hc : c.writesItem = false)
    (k : ItemKind) : w'.tables.items k = w.tables.items k := by
  rcases tables_of_answered h with he | ⟨q, rfl, he⟩
  · rw [he]
  · exact he.items hc k

theorem holds_of_answered (h : answer c w = (.ok a, w')) (hc : c.writesItem = false)
    {id : ItemId} {y : UpgradeEvent} : Holds id w' y ↔ Holds id w y := by
  rw [holds_iff, holds_iff, Store.getItem, items_of_answered h hc]
  rfl

theorem leaving_of_answered (h : answer c w = (.ok a, w')) (hn : host ∉ c.recasts)
    (hl : w'.tables.isLeaving host = true) : w.tables.isLeaving host = true := by
  rcases tables_of_answered h with he | ⟨q, rfl, he⟩
  · rwa [he] at hl
  · exact he.isLeaving hn hl

theorem known_of_answered (h : answer c w = (.ok a, w')) (hc : c.admits = false)
    (hk : w'.tables.hosts.contains host = true) : w.tables.hosts.contains host = true := by
  rcases tables_of_answered h with he | ⟨q, rfl, he⟩
  · rwa [he] at hk
  · exact he.known hc hk

theorem issued_of_answered (h : answer c w = (.ok a, w')) (hc : c.launches = false) :
    w'.provider.issued = w.provider.issued := by
  have hw : w' = (answer c w).2 := by rw [h]
  subst hw
  by_cases hq : ∃ q, c = .provider q
  · obtain ⟨q, rfl⟩ := hq
    exact w.provider.issued_answer hc
  · rw [provider_answer (not_exists.mp hq)]

/-! ## Orderly worlds -/

/-- The event with an id is not over and tracks a host. -/
def Tracks (w : World) (id : ItemId) (host : HostId) : Prop :=
  ∃ y, Holds id w y ∧ y.state ≠ UpgradeState.completed ∧ host ∈ y.hostIds

/-- An event that is not over tracks a host. -/
def IsTracked (w : World) (host : HostId) : Prop := ∃ id, w.Tracks id host

/-- No host is tracked by two events, and hosts that are yet to be launched have no record and
are not tracked. -/
structure Orderly (w : World) : Prop where
  keyed : w.tables.Keyed
  apart : ∀ {id id' host}, w.Tracks id host → w.Tracks id' host → id = id'
  unrecorded : ∀ n, w.provider.issued ≤ n →
    w.tables.hosts.contains (Provider.launchedId n) = false
  untracked : ∀ n, w.provider.issued ≤ n → ¬w.IsTracked (Provider.launchedId n)

/-- What the others may do: anything, as long as they let no event track another host, put no
tracked host on its way out, and record no host that is yet to be launched. -/
structure Elsewhere (w v : World) : Prop where
  keyed : w.tables.Keyed → v.tables.Keyed
  tracked : ∀ id host, v.Tracks id host → w.Tracks id host
  leaving : ∀ host, v.IsTracked host → v.tables.isLeaving host = true →
    w.tables.isLeaving host = true
  issued : w.provider.issued ≤ v.provider.issued
  recorded : ∀ n, v.provider.issued ≤ n →
    v.tables.hosts.contains (Provider.launchedId n) = true →
      w.tables.hosts.contains (Provider.launchedId n) = true

theorem Elsewhere.isTracked (h : w.Elsewhere v) (hv : v.IsTracked host) : w.IsTracked host := by
  obtain ⟨id, hid⟩ := hv
  exact ⟨id, h.tracked id host hid⟩

theorem Orderly.elsewhere (hw : w.Orderly) (h : w.Elsewhere v) : v.Orderly where
  keyed := h.keyed hw.keyed
  apart hid hid' := hw.apart (h.tracked _ _ hid) (h.tracked _ _ hid')
  unrecorded n hn := by
    have hold := hw.unrecorded n (Nat.le_trans h.issued hn)
    exact Bool.eq_false_iff.mpr fun hk => Bool.eq_false_iff.mp hold (h.recorded n hn hk)
  untracked n hn hv := hw.untracked n (Nat.le_trans h.issued hn) (h.isTracked hv)

theorem tracks_of_answered (h : answer c w = (.ok a, w')) (hc : c.writesItem = false)
    {id : ItemId} : w'.Tracks id host ↔ w.Tracks id host :=
  exists_congr fun _ => and_congr_left fun _ => holds_of_answered h hc

/-- A call that stores no item, launches and admits no host, and puts none on its way out that
is not there already. -/
theorem elsewhere_of_answered (h : answer c w = (.ok a, w')) (hi : c.writesItem = false)
    (hl : c.launches = false) (ha : c.admits = false)
    (hr : ∀ host ∈ c.recasts, w.tables.isLeaving host = true) : w.Elsewhere w' where
  keyed hk := by
    have hw : w' = (answer c w).2 := by rw [h]
    rw [hw]
    exact keyed_answer hk c
  tracked id host ht := (tracks_of_answered h hi).mp ht
  leaving host _ hleaving := by
    by_cases hmem : host ∈ c.recasts
    · exact hr host hmem
    · exact leaving_of_answered h hmem hleaving
  issued := Nat.le_of_eq (issued_of_answered h hl).symm
  recorded n _ hk := known_of_answered h ha hk

end World

end FleetControl
