import FleetControl.Proofs.Exclusion
import FleetControl.Proofs.Keyed
import FleetControl.Proofs.Promoting
import FleetControl.Proofs.Succession
import Mathlib.Logic.Relation

/-!
# Attempts to promote side by side

Any number of attempts to promote into one environment share a world, and at every moment any
of them may go on by one call. Each keeps to the script of an attempt. The lock of the
environment orders what they write: what an attempt reads under the lock stays as it is until
the attempt itself writes, so each deploy is replaced once and promotion is switched once.
-/
namespace FleetControl

/-- In a world with well keyed tables calls are answered properly. -/
theorem World.Possible.isProper {raises : Fault → Prop} {w w' : World} {c : Call}
    {r : Outcome c.Reply} (h : World.Possible Eq raises c w r w') (hw : w.tables.Keyed) :
    c.IsProper raises r := by
  unfold Call.IsProper
  split
  · obtain ⟨s, clock, hs, -, ha⟩ := h.store_of_isRead (fun _ hv => hv ▸ rfl) rfl
    rw [World.tables_eq hs] at hw
    exact hw.environments _ _ (Except.ok.inj ha)
  · obtain ⟨s, clock, hs, -, ha⟩ := h.store_of_isRead (fun _ hv => hv ▸ rfl) rfl
    rw [World.tables_eq hs] at hw
    exact hw.deploys _ _ (Except.ok.inj ha)
  · obtain ⟨v, -, hb | ⟨f, hf, hr, -⟩⟩ := h
    · simp only [World.answer, World.release] at hb
      split at hb <;> cases hb
    · cases hr
      exact hf
  · trivial

namespace Entry

/-- The environment had deploy `o` and has another one. -/
def Replaces (id : EnvId) (o : Option String) (e : Entry World) : Prop :=
  ∃ env env', e.before.tables.environments.get? id = some env ∧ env.deployId = o ∧
    e.after.tables.environments.get? id = some env' ∧ env'.deployId ≠ o

/-- The promotion settings are switched: the call succeeds or makes some difference. -/
def Switches (id : EnvId) (e : Entry World) : Prop :=
  ∃ kind, e.call = .store (.setPromoteKind id kind) ∧
    ((∃ a, e.reply = .ok a) ∨ e.after ≠ e.before)

/-- A notification is handed over. -/
def Tells (e : Entry World) : Prop := ∃ n, e.call = .post n

end Entry

open Program Promotion

/-- Attempts to promote in one world. One worker's attempts are several of them, each going on
only when those before it have ended. -/
structure Race (ι : Type) where
  world : World
  /-- What is left of each attempt. -/
  rest : ι → Program Promotion.Result
  /-- The calls so far with the attempts that made them, the last one first. -/
  log : List (ι × Entry World)

namespace Race

variable {ι : Type} [DecidableEq ι]

/-- What one attempt knows of a log: its own calls and their answers. -/
def known (i : ι) : List (ι × Entry World) → List (Entry Unit)
  | [] => []
  | d :: log => if d.1 = i then d.2.seen :: known i log else known i log

/-- What an attempt knows. -/
def view (s : Race ι) (i : ι) : List (Entry Unit) := known i s.log

@[simp] theorem known_cons_self (i : ι) (e : Entry World) (log : List (ι × Entry World)) :
    known i ((i, e) :: log) = e.seen :: known i log := if_pos rfl

theorem known_cons_of_ne {i j : ι} (h : j ≠ i) (e : Entry World) (log : List (ι × Entry World)) :
    known i ((j, e) :: log) = known i log := if_neg h

/-- No attempt has begun. -/
def start (id : EnvId) (config : ι → PromotionSettings) (now : ι → Instant) (w : World) :
    Race ι := ⟨w, fun i => promote (config i) id (now i), []⟩

/-- The race after a call of an attempt, of which `p` is left. -/
abbrev after (s : Race ι) (i : ι) (c : Call) (r : Outcome c.Reply) (w : World)
    (p : Program Promotion.Result) : Race ι :=
  ⟨w, Function.update s.rest i p, (i, ⟨s.world, c, r, w⟩) :: s.log⟩

/-- One thing happens. -/
inductive Step (outside : World → World → Prop) (raises : Fault → Prop) :
    Race ι → Race ι → Prop where
  /-- The others change the world. -/
  | change {s : Race ι} {v : World} (h : outside s.world v) :
      Step outside raises s { s with world := v }
  /-- An attempt makes its next call. -/
  | call {s : Race ι} (i : ι) {c : Call} {next : Outcome c.Reply → Program Promotion.Result}
      {r : Outcome c.Reply} {w : World} (hi : s.rest i = .call c next)
      (hb : World.Possible Eq raises c s.world r w) :
      Step outside raises s (s.after i c r w (next r))

/-- Any number of steps. -/
abbrev Run (outside : World → World → Prop) (raises : Fault → Prop) : Race ι → Race ι → Prop :=
  Relation.ReflTransGen (Step outside raises)

variable {outside : World → World → Prop} {raises : Fault → Prop} {id : EnvId} {s s' : Race ι}

/-! ## Every attempt keeps to the script -/

/-- What is true whatever the others do, as long as records stay under their own keys, as every
call leaves them. -/
structure Sound (raises : Fault → Prop) (id : EnvId) (s : Race ι) : Prop where
  keyed : s.world.tables.Keyed
  obeys : ∀ i, Obeys raises id (s.rest i) (Finishes id) ⟨(), s.view i⟩
  admits : ∀ i, (script id).Admits (s.view i)

theorem sound_start {config : ι → PromotionSettings} {now : ι → Instant} {w : World}
    (h : w.tables.Keyed) : (start id config now w).Sound raises id where
  keyed := h
  obeys i := obeys_promote (config i) id (now i)
  admits _ := trivial

theorem Sound.change {v : World} (h : s.Sound raises id) (hv : v.tables.Keyed) :
    ({ s with world := v } : Race ι).Sound raises id := ⟨hv, h.obeys, h.admits⟩

/-- The next call of an attempt is one of the script, and so is what is left after it. -/
theorem Sound.next (h : s.Sound raises id) {i : ι} {c : Call}
    {next : Outcome c.Reply → Program Promotion.Result} {r : Outcome c.Reply} {w : World}
    (hi : s.rest i = .call c next) (hb : World.Possible Eq raises c s.world r w) :
    script id (s.view i) (.bare c r) ∧
      Obeys raises id (next r) (Finishes id) ⟨(), .bare c r :: s.view i⟩ := by
  have hobeys := h.obeys i
  rw [hi] at hobeys
  exact follows_call.mp hobeys r () (hb.isProper h.keyed)

theorem Sound.call (h : s.Sound raises id) {i : ι} {c : Call}
    {next : Outcome c.Reply → Program Promotion.Result} {r : Outcome c.Reply} {w : World}
    (hi : s.rest i = .call c next) (hb : World.Possible Eq raises c s.world r w) :
    (s.after i c r w (next r)).Sound raises id where
  keyed := hb.preserves (I := fun w => w.tables.Keyed) (fun _ hv hw => hv ▸ hw)
    (fun _ hv => World.keyed_answer hv c) h.keyed
  obeys j := by
    by_cases hj : i = j
    · subst hj
      simpa [view] using (h.next hi hb).2
    · simpa [view, known_cons_of_ne hj, Ne.symm hj] using h.obeys j
  admits j := by
    by_cases hj : i = j
    · subst hj
      simpa [view] using ⟨(h.next hi hb).1, h.admits i⟩
    · simpa [view, known_cons_of_ne hj] using h.admits j

theorem Sound.run (h : s.Sound raises id) (hs : Run outside raises s s')
    (ho : ∀ w v, outside w v → w.tables.Keyed → v.tables.Keyed) : s'.Sound raises id := by
  induction hs with
  | refl => exact h
  | tail _ hstep ih =>
      cases hstep with
      | change hv => exact ih.change (ho _ _ hv ih.keyed)
      | call i hi hb => exact ih.call hi hb

/-- After a mismatch an attempt has recorded no deploy and ends as abandoned. -/
theorem Sound.mismatched (h : s.Sound raises id) {i : ι} (hm : Mismatched id (s.view i)) :
    (∀ e ∈ s.view i, e.call.creates = false) ∧
      (Closes (s.rest i) ∨ Collapsed raises (s.view i)) := by
  refine ⟨?_, closes_of_mismatched (h.obeys i) hm⟩
  have hadmits := h.admits i
  cases hlog : s.view i with
  | nil => exact fun _ he => by cases he
  | cons e past =>
      rw [hlog] at hm hadmits
      exact hadmits.1.2.2 hm

/-! ## The lock orders what is written -/

/-- The holder of the lock is the one that the table names, and it is one attempt at most. -/
structure Locked (id : EnvId) (s : Race ι) : Prop where
  holds : ∀ {i token}, held (s.view i) = some token →
    s.world.locks.holder? (lockOf lockPrefix id) = some token
  unique : ∀ {i j}, (held (s.view i)).isSome = true → (held (s.view j)).isSome = true → i = j

section

variable {i : ι} {c : Call} {r : Outcome c.Reply} {w : World} {p : Program Promotion.Result}

@[simp] theorem view_after_self : (s.after i c r w p).view i = .bare c r :: s.view i :=
  known_cons_self i _ _

theorem view_after_of_ne {j : ι} (h : i ≠ j) : (s.after i c r w p).view j = s.view j :=
  known_cons_of_ne h _ _

/-- What changes nothing about the lock keeps it in order. -/
theorem Locked.same (h : s.Locked id)
    (hheld : ∀ j, held ((s.after i c r w p).view j) = held (s.view j))
    (hlocks : w.locks = s.world.locks) : (s.after i c r w p).Locked id := by
  refine ⟨fun {j token} hj => ?_, fun {j k} hj hk => ?_⟩
  · rw [hheld] at hj
    exact hlocks ▸ h.holds hj
  · rw [hheld] at hj hk
    exact h.unique hj hk

/-- Whoever takes the lock is the only one to hold it. -/
theorem Locked.take {r : Outcome (Option Token)} (h : s.Locked id) (hfree : held (s.view i) = none)
    (ha : s.world.locks.Answers (.acquire (lockOf lockPrefix id)) r w.locks) :
    (s.after i (.acquire (lockOf lockPrefix id)) r w p).Locked id := by
  cases hn : s.world.locks.holder? (lockOf lockPrefix id) with
  | some holder =>
      simp only [LockTable.Answers, LockTable.acquire_of_held hn] at ha
      have hrefused : w.locks = s.world.locks ∧ ∀ token, r ≠ .ok (some token) := by
        rcases ha with ⟨rfl, hl⟩ | ⟨⟨f, rfl⟩, hl | hl⟩ <;> exact ⟨hl, by simp⟩
      refine h.same (fun j => ?_) hrefused.1
      by_cases hj : i = j
      · subst hj
        rw [view_after_self, held, hfree]
        rcases r with f | _ | token
        · rfl
        · rfl
        · exact absurd rfl (hrefused.2 token)
      · rw [view_after_of_ne hj]
  | none =>
      have hafter : ∀ {j token},
          held ((s.after i (.acquire (lockOf lockPrefix id)) r w p).view j) = some token →
            j = i ∧ r = .ok (some token) := by
        intro j token hj
        by_cases hij : i = j
        · subst hij
          rw [view_after_self, held, hfree] at hj
          rcases r with f | _ | t
          · cases hj
          · cases hj
          · cases hj
            exact ⟨rfl, rfl⟩
        · rw [view_after_of_ne hij] at hj
          cases (h.holds hj).symm.trans hn
      refine ⟨fun {j token} hj => ?_, fun {j k} hj hk => ?_⟩
      · obtain ⟨-, rfl⟩ := hafter hj
        simp only [LockTable.Answers, LockTable.acquire_of_free hn] at ha
        rcases ha with ⟨he, hl⟩ | ⟨⟨f, hf⟩, -⟩
        · cases he
          exact hl ▸ Table.get?_insert_self _ _ _
        · cases hf
      · obtain ⟨_, hj⟩ := Option.isSome_iff_exists.mp hj
        obtain ⟨_, hk⟩ := Option.isSome_iff_exists.mp hk
        exact (hafter hj).1.trans (hafter hk).1.symm

/-- Once the only holder gives the lock back nobody holds it. -/
theorem Locked.give {token : Token} {r : Outcome Unit} {name : String} (h : s.Locked id)
    (hheld : held (s.view i) = some token) :
    (s.after i (.release name token) r w p).Locked id := by
  have hnone : ∀ j, held ((s.after i (.release name token) r w p).view j) = none := by
    intro j
    by_cases hj : i = j
    · subst hj
      rw [view_after_self]
      rfl
    · rw [view_after_of_ne hj]
      cases hn : held (s.view j) with
      | none => rfl
      | some t => exact absurd (h.unique (by rw [hheld]; rfl) (by rw [hn]; rfl)) hj
  refine ⟨fun {j token} hj => ?_, fun {j k} hj hk => ?_⟩
  · cases (hnone j).symm.trans hj
  · rw [hnone] at hj
    cases hj

theorem Locked.call (h : s.Locked id) (hs : Script id (s.view i) c)
    (ha : s.world.locks.Answers c r w.locks) : (s.after i c r w p).Locked id := by
  by_cases hc : c.isLockless = true
  · refine h.same (fun j => ?_) ((LockTable.answers_iff_eq hc).mp ha)
    by_cases hj : i = j
    · subst hj
      rw [view_after_self, held, Entry.tokenAfter_of_isLockless _ hc]
    · rw [view_after_of_ne hj]
  · cases hs with
    | looks hq => exact absurd (Call.isLockless_of_isQuery hq) hc
    | creates | switches | tells => exact absurd rfl hc
    | takes hfree => exact h.take hfree ha
    | gives hheld => exact h.give hheld

/-- What an attempt has just read under the lock is still so. -/
structure Agrees (id : EnvId) (w : World) (log : List (Entry Unit)) : Prop where
  deploy : ∀ {env older}, log = .bare (.store (.getEnvironment id)) (.ok (some env)) :: older →
    (held older).isSome = true → w.Runs id env.deployId
  kind : ∀ {rule older}, log = .bare (.store (.promoteConfig id)) (.ok (some rule)) :: older →
    (held older).isSome = true → w.Promotes id rule.kind

theorem Agrees.mono {v : World} {log : List (Entry Unit)} (h : Agrees id w log)
    (hv : (held log).isSome = true → w.SparesDeploy id v ∧ w.SparesKind id v) :
    Agrees id v log where
  deploy he hheld := by
    subst he
    exact (hv hheld).1.runs (h.deploy rfl hheld)
  kind he hheld := by
    subst he
    exact (hv hheld).2.promotes (h.kind rfl hheld)

/-- What is read is so. -/
theorem agrees_read {v : World} {past : List (Entry Unit)}
    (hb : World.Possible Eq raises c v r w) : Agrees id w (.bare c r :: past) where
  deploy he _ := by
    cases he
    obtain ⟨t, clock, -, ht, ha⟩ := hb.store_of_isRead (fun _ hv => hv ▸ rfl) rfl
    intro env henv
    rw [World.tables_eq ht] at henv
    cases henv.symm.trans (Except.ok.inj ha)
    rfl
  kind he _ := by
    cases he
    obtain ⟨t, clock, -, ht, ha⟩ := hb.store_of_isRead (fun _ hv => hv ▸ rfl) rfl
    intro rule hrule
    rw [World.tables_eq ht] at hrule
    cases hrule.symm.trans (Except.ok.inj ha)
    rfl

end

/-- An attempt that has switched promotion and has still to tell so. -/
def Owes (id : EnvId) (log : List (Entry Unit)) : Prop :=
  ∃ older, log = .bare (.store (.setPromoteKind id .manual)) (.ok ()) :: older ∧
    (held older).isSome = true

/-- What is true as long as only attempts write the deploy and the kind of promotion. -/
structure Orderly (id : EnvId) (s : Race ι) : Prop extends Locked id s where
  agrees : ∀ i, Agrees id s.world (s.view i)
  fresh : s.world.Fresh id
  spent : ∀ d ∈ s.log, ∀ o, d.2.Replaces id o → s.world.Spent id o
  manual : ∀ d ∈ s.log, d.2.Switches id → s.world.Promotes id .manual
  told : ∀ d ∈ s.log, d.2.Tells → ∃ d' ∈ s.log, d'.2.Switches id
  owed : ∀ i, Owes id (s.view i) →
    (∃ d ∈ s.log, d.2.Switches id) ∧ ∀ d ∈ s.log, ¬d.2.Tells

section

variable {i : ι} {c : Call} {r : Outcome c.Reply} {w : World} {p : Program Promotion.Result}

/-- What a call of an attempt writes. -/
inductive Writes (id : EnvId) (s : Race ι) (i : ι) (c : Call) (r : Outcome c.Reply) (w : World) :
    Prop where
  | nothing (hd : s.world.SparesDeploy id w) (hk : s.world.SparesKind id w)
      (hs : ¬(⟨s.world, c, r, w⟩ : Entry World).Switches id)
  | deploy (hheld : (held (s.view i)).isSome = true) (hd : s.world.Renewed id w)
      (hk : s.world.SparesKind id w) (hs : ¬(⟨s.world, c, r, w⟩ : Entry World).Switches id)
  | kind (hheld : (held (s.view i)).isSome = true) (hd : s.world.SparesDeploy id w)
      (hk : w.Promotes id .manual) (hs : ∀ d ∈ s.log, ¬d.2.Switches id)

theorem Orderly.writes (h : s.Orderly id) (hs : Script id (s.view i) c)
    (hb : World.Possible Eq raises c s.world r w) : Writes id s i c r w := by
  have hquiet : (∀ q, c = .store q → q.isRead = true) → Writes id s i c r w := by
    intro hc
    obtain ⟨hd, hk⟩ : s.world.SparesDeploy id w ∧ s.world.SparesKind id w := hb.spares hc
    refine .nothing hd hk ?_
    rintro ⟨kind, rfl, -⟩
    cases hc _ rfl
  cases hs with
  | looks hq =>
      refine hquiet ?_
      rintro q rfl
      exact hq
  | takes | gives | tells => exact hquiet fun _ hq => nomatch hq
  | @creates d _ _ hpast hheld _ hd =>
      have hs : ¬(⟨s.world, .store (.createDeploy d), r, w⟩ : Entry World).Switches id := by
        rintro ⟨kind, hkind, -⟩
        cases hkind
      obtain ⟨hk, hd | hd⟩ := hb.create_cases hd
      · exact .nothing hd hk hs
      · exact .deploy (by rw [hpast]; exact hheld) hd hk hs
  | switches hpast hheld hauto =>
      rcases hb.switch_cases with ⟨⟨f, rfl⟩, rfl⟩ | ⟨⟨rule, hrule⟩, hk, hd⟩
      · obtain ⟨hd, hk⟩ := s.world.spares_self id
        refine .nothing hd hk ?_
        rintro ⟨kind, -, ⟨a, ha⟩ | hne⟩
        · cases ha
        · exact hne rfl
      · refine .kind (by rw [hpast]; exact hheld) hd hk fun d hmem hd => ?_
        -- the settings were automatic, so nobody has switched them before
        have hmanual := h.manual d hmem hd rule hrule
        have hread := (h.agrees i).kind hpast hheld rule hrule
        rw [hauto, hmanual] at hread
        cases hread

namespace Writes

variable {o : Option String}

theorem fresh (h : Writes id s i c r w) (hf : s.world.Fresh id) : w.Fresh id := by
  cases h with
  | nothing hd | kind _ hd => exact hd.fresh hf
  | deploy _ hd => exact hd.fresh

theorem spent (h : Writes id s i c r w) (hs : s.world.Spent id o) : w.Spent id o := by
  cases h with
  | nothing hd | kind _ hd => exact hd.spent hs
  | deploy _ hd => exact hd.spent_of_spent hs

/-- A deploy that is replaced is spent. -/
theorem spent_of_replaces (h : Writes id s i c r w) (hf : s.world.Fresh id)
    (hr : (⟨s.world, c, r, w⟩ : Entry World).Replaces id o) : w.Spent id o := by
  obtain ⟨env, env', henv, rfl, henv', hne⟩ := hr
  cases h with
  | nothing hd | kind _ hd =>
      obtain ⟨old, hold, hsame⟩ := hd.deploy env' henv'
      cases hold.symm.trans henv
      exact absurd hsame.symm hne
  | deploy _ hd => exact hd.spent (hf env henv)

theorem manual (h : Writes id s i c r w) (hm : s.world.Promotes id .manual) :
    w.Promotes id .manual := by
  cases h with
  | nothing _ hk | deploy _ _ hk => exact hk.promotes hm
  | kind _ _ hk => exact hk

/-- Promotion is switched to manual, and nobody did so before. -/
theorem of_switches (h : Writes id s i c r w)
    (hs : (⟨s.world, c, r, w⟩ : Entry World).Switches id) :
    w.Promotes id .manual ∧ ∀ d ∈ s.log, ¬d.2.Switches id := by
  cases h with
  | nothing _ _ hno | deploy _ _ _ hno => exact absurd hs hno
  | kind _ _ hk hnone => exact ⟨hk, hnone⟩

/-- Who holds the lock sees no other attempt write. -/
theorem others (h : Writes id s i c r w) (hl : s.Locked id) {j : ι} (hj : i ≠ j)
    (hheld : (held (s.view j)).isSome = true) :
    s.world.SparesDeploy id w ∧ s.world.SparesKind id w := by
  cases h with
  | nothing hd hk => exact ⟨hd, hk⟩
  | deploy hi | kind hi => exact absurd (hl.unique hi hheld) hj

end Writes

/-- Who owes a notification holds the lock. -/
theorem Owes.isSome_held {log : List (Entry Unit)} (h : Owes id log) :
    (held log).isSome = true := by
  obtain ⟨older, rfl, hheld⟩ := h
  exact hheld

/-- Who tells that promotion was switched owed it. -/
theorem owes_of_script {past : List (Entry Unit)} (hs : Script id past c)
    (hc : ∃ n, c = .post n) : Owes id past := by
  obtain ⟨n, rfl⟩ := hc
  cases hs with
  | looks hq => cases hq
  | tells hpast hheld => exact ⟨_, hpast, hheld⟩

/-- A call of an attempt keeps the order. -/
theorem Orderly.call (h : s.Orderly id) (hs : Script id (s.view i) c)
    (hb : World.Possible Eq raises c s.world r w) : (s.after i c r w p).Orderly id where
  toLocked := h.toLocked.call hs (hb.answers fun _ _ hv => hv ▸ rfl)
  agrees j := by
    by_cases hj : i = j
    · subst hj
      rw [view_after_self]
      exact agrees_read hb
    · rw [view_after_of_ne hj]
      exact (h.agrees j).mono ((h.writes hs hb).others h.toLocked hj)
  fresh := (h.writes hs hb).fresh h.fresh
  spent d hd o hr := by
    rcases List.mem_cons.mp hd with rfl | hd
    · exact (h.writes hs hb).spent_of_replaces h.fresh hr
    · exact (h.writes hs hb).spent (h.spent d hd o hr)
  manual d hd hm := by
    rcases List.mem_cons.mp hd with rfl | hd
    · exact ((h.writes hs hb).of_switches hm).1
    · exact (h.writes hs hb).manual (h.manual d hd hm)
  told d hd ht := by
    obtain ⟨d', hd', hm⟩ : ∃ d' ∈ s.log, d'.2.Switches id := by
      rcases List.mem_cons.mp hd with rfl | hd
      · exact (h.owed i (owes_of_script hs ht)).1
      · exact h.told d hd ht
    exact ⟨d', List.mem_cons_of_mem _ hd', hm⟩
  owed j hj := by
    by_cases hij : i = j
    · subst hij
      rw [view_after_self] at hj
      obtain ⟨older, he, -⟩ := hj
      cases he
      have hm : (⟨s.world, .store (.setPromoteKind id .manual), .ok (), w⟩ :
          Entry World).Switches id := ⟨_, rfl, .inl ⟨(), rfl⟩⟩
      refine ⟨⟨_, List.mem_cons_self, hm⟩, List.forall_mem_cons.mpr ⟨?_, fun d hd ht => ?_⟩⟩
      · rintro ⟨n, hn⟩
        cases hn
      · -- it was told before, so it was switched before
        obtain ⟨d', hd', hm'⟩ := h.told d hd ht
        exact ((h.writes hs hb).of_switches hm).2 d' hd' hm'
    · rw [view_after_of_ne hij] at hj
      obtain ⟨⟨d, hd, hm⟩, hquiet⟩ := h.owed j hj
      refine ⟨⟨d, List.mem_cons_of_mem _ hd, hm⟩, List.forall_mem_cons.mpr ⟨fun ht => ?_, hquiet⟩⟩
      exact hij (h.unique (owes_of_script hs ht).isSome_held hj.isSome_held)

theorem Orderly.change {v : World} (h : s.Orderly id) (hv : s.world.Spares id v) :
    ({ s with world := v } : Race ι).Orderly id where
  holds hj := hv.lock.trans (h.holds hj)
  unique := h.unique
  agrees j := (h.agrees j).mono fun _ => ⟨hv.toSparesDeploy, hv.kind⟩
  fresh := hv.fresh h.fresh
  spent d hd o hr := hv.spent (h.spent d hd o hr)
  manual d hd hm := hv.kind.promotes (h.manual d hd hm)
  told := h.told
  owed := h.owed

end

/-! ## What attempts write -/

/-- What attempts have written. -/
structure Ordered (id : EnvId) (log : List (ι × Entry World)) : Prop where
  /-- A deploy is recorded for the environment, in place of the one that the attempt had
  observed. -/
  replaces : ∀ {later i e earlier d}, log = later ++ (i, e) :: earlier →
    e.call = .store (.createDeploy d) →
      d.envId = id ∧ ∃ o, observed id (known i earlier) = some o ∧ e.before.Runs id o
  /-- No deploy is replaced twice. -/
  apart : log.Pairwise fun d d' => ∀ o, d.2.Replaces id o → ¬d'.2.Replaces id o
  /-- Promotion is switched at most once. -/
  switched : log.Pairwise fun d d' => d.2.Switches id → ¬d'.2.Switches id
  /-- At most one notification is handed over. -/
  told : log.Pairwise fun d d' => d.2.Tells → ¬d'.2.Tells

theorem Ordered.call {i : ι} {c : Call} {r : Outcome c.Reply} {w : World}
    {p : Program Promotion.Result} (h : Ordered id s.log) (ho : s.Orderly id)
    (hs : Script id (s.view i) c) (hb : World.Possible Eq raises c s.world r w) :
    Ordered id (s.after i c r w p).log where
  replaces := by
    intro later j e earlier d hlog he
    cases later with
    | nil =>
        cases hlog
        obtain rfl : c = _ := he
        cases hs with
        | looks hq => cases hq
        | creates hpast hheld hsaw hd =>
            exact ⟨hd, _, hsaw, (ho.agrees i).deploy hpast hheld⟩
    | cons _ later => exact h.replaces (List.cons.inj hlog).2 he
  apart := by
    refine List.pairwise_cons.mpr ⟨fun d hd o hr hr' => ?_, h.apart⟩
    obtain ⟨env, -, henv, hdeploy, -⟩ := hr
    exact (ho.spent d hd o hr' env henv).1 hdeploy
  switched := List.pairwise_cons.mpr
    ⟨fun d hd hm => ((ho.writes hs hb).of_switches hm).2 d hd, h.switched⟩
  told := List.pairwise_cons.mpr
    ⟨fun d hd ht => (ho.owed i (owes_of_script hs ht)).2 d hd, h.told⟩

theorem orderly_start {config : ι → PromotionSettings} {now : ι → Instant} {w : World}
    (h : w.Fresh id) : (start id config now w).Orderly id where
  holds hj := by cases hj
  unique hj := by cases hj
  agrees _ := ⟨(by cases ·), (by cases ·)⟩
  fresh := h
  spent _ hd := by cases hd
  manual _ hd := by cases hd
  told _ hd := by cases hd
  owed _ hj := by
    obtain ⟨_, he, -⟩ := hj
    cases he

/-- Whatever others do beside the attempts, everything stays in order. -/
theorem Sound.ordered (h : s.Sound raises id) (ho : s.Orderly id) (hlog : Ordered id s.log)
    (hs : Run outside raises s s') (hkeyed : ∀ w v, outside w v → w.tables.Keyed → v.tables.Keyed)
    (hspares : ∀ w v, outside w v → w.Spares id v) :
    s'.Orderly id ∧ Ordered id s'.log := by
  induction hs with
  | refl => exact ⟨ho, hlog⟩
  | tail hrun hstep ih =>
      cases hstep with
      | change hv => exact ⟨ih.1.change (hspares _ _ hv), ih.2⟩
      | call i hi hb =>
          have hscript := ((h.run hrun hkeyed).next hi hb).1.1
          exact ⟨ih.1.call hscript hb, ih.2.call ih.1 hscript hb⟩

/-! ## A race that can be watched -/

/-- An attempt makes its next call, if it has any, and is answered. -/
def turn (s : Race ι) (i : ι) : Race ι :=
  match s.rest i with
  | .done _ => s
  | .call c next =>
      let (r, w) := World.answer c s.world
      s.after i c r w (next r)

theorem run_turns (turns : List ι) (s : Race ι) : Run outside raises s (turns.foldl turn s) := by
  induction turns generalizing s with
  | nil => exact .refl
  | cons i turns ih =>
      refine Relation.ReflTransGen.trans ?_ (ih (s.turn i))
      unfold turn
      split
      · exact .refl
      · rename_i c next hi
        exact .single (.call i hi ⟨s.world, rfl, .inl rfl⟩)

/-- An environment that takes fresh builds, and one build. -/
def contested : World :=
  let env : Environment := ⟨"prod", "web", "prod", .normal, none, "web", 0, ⟨[], [], none⟩⟩
  let rule : PromotionRule := ⟨"prod", .auto, some PromotionRule.buildStage, 1, 0, .goOn⟩
  let build : Build := ⟨"build", "web", ⟨1000⟩, false⟩
  { World.initial ⟨2000⟩ (.seeded 0) with
    store := some { Store.empty with
      environments := Table.empty.insert env.id env
      promoteConfigs := Table.empty.insert rule.envId rule
      builds := Table.empty.insert build.id build } }

theorem keyed_contested : contested.tables.Keyed :=
  { Store.keyed_empty with
    environments := Table.KeyedBy.empty.insert _
    promoteConfigs := Table.KeyedBy.empty.insert _
    builds := Table.KeyedBy.empty.insert _ }

/-- Two attempts find the build. Then one promotes it, and the other comes too late. -/
def contest : Race Bool :=
  [true, false, false, true, true, false, true, true, true, true, false, false, false].foldl turn
    (start "prod" (fun _ => {}) (fun _ => ⟨2000⟩) contested)

/-- Whatever others do, an attempt that finds another deploy under the lock than it had observed
has recorded none, and has only to give the lock back before it ends as abandoned. If the others
leave the deploy, the kind of promotion and the lock of the environment alone, every deploy that
an attempt records takes the place of the one that it had observed, no deploy is replaced twice,
and at most one attempt switches promotion to manual and tells so. -/
theorem no_double_promotion {config : ι → PromotionSettings} {now : ι → Instant} {w : World}
    (hw : w.tables.Keyed) (hkeyed : ∀ w v, outside w v → w.tables.Keyed → v.tables.Keyed)
    (hrun : Run outside raises (start id config now w) s) :
    (∀ i, Mismatched id (s.view i) → (∀ e ∈ s.view i, e.call.creates = false) ∧
      (Closes (s.rest i) ∨ Collapsed raises (s.view i))) ∧
    ((∀ w v, outside w v → w.Spares id v) → w.Fresh id → Ordered id s.log) := by
  have hsound : (start id config now w).Sound raises id := sound_start hw
  refine ⟨fun i => (hsound.run hrun hkeyed).mismatched, fun hspares hfresh => ?_⟩
  have hlog : Ordered id (start id config now w).log :=
    ⟨fun hl => by simp [start] at hl, .nil, .nil, .nil⟩
  exact (hsound.ordered (orderly_start hfresh) hlog hrun hkeyed hspares).2

/-- The law of attempts to promote for two, one of which comes too late. -/
theorem no_double_promotion_two :
    contest.log.countP (·.2.call.creates) = 1 ∧ Mismatched "prod" (contest.view false) ∧
      Closes (contest.rest false) ∧ Ordered "prod" contest.log := by
  have hrun : Run Eq (fun _ => False)
      (start "prod" (fun _ => {}) (fun _ => ⟨2000⟩) contested) contest := run_turns _ _
  have hlaw := no_double_promotion keyed_contested (by rintro _ _ rfl hk; exact hk) hrun
  have hmismatched : Mismatched "prod" (contest.view false) := by decide +kernel
  have hspares : ∀ w v : World, w = v → w.Spares "prod" v := by
    rintro w _ rfl
    exact ⟨(w.spares_self "prod").1, (w.spares_self "prod").2, rfl⟩
  have hfresh : contested.Fresh "prod" := by
    intro env he n _
    cases he
    exact nofun
  refine ⟨by decide +kernel, hmismatched, ?_, hlaw.2 hspares hfresh⟩
  exact (hlaw.1 false hmismatched).2.resolve_right fun ⟨_, _, _, _, hf, _⟩ => hf

end Race

end FleetControl
