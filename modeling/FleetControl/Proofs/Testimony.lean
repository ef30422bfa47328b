import Mathlib
import FleetControl.Proofs.Exclusion
import FleetControl.Proofs.Selection
import FleetControl.Proofs.Succession

/-!
# What the result of an attempt to promote says

An attempt writes only under the lock of its environment. Until it has the lock others may do
what they like to the records, afterwards they wait. So the result of the attempt tells what it
has made of the store that it found when it took the lock: nothing, one more deploy, manual
promotion, or both.
-/
namespace FleetControl

open Program

/-! ## What is written -/

/-- What was asked for when a deploy was recorded. -/
def Deploy.request (d : Deploy) : NewDeploy := ⟨d.envId, d.buildId, d.fromDeploy⟩

namespace Store

/-- No deploy has an id that is still to be given to one. -/
def Unissued (s : Store) : Prop := ∀ n, s.created ≤ n → s.deploys.get? (createdId n) = none

/-- A store with one more deploy, which is now the one of its environment. -/
def withDeploy (s : Store) (d : Deploy) : Store :=
  { s with
    environments := s.environments.modify d.envId fun e => { e with deployId := some d.id }
    deploys := s.deploys.insert d.id d
    created := s.created + 1 }

/-- A store in which an environment is on manual promotion. -/
def withManual (s : Store) (id : EnvId) : Store :=
  { s with promoteConfigs := s.promoteConfigs.modify id fun rule => { rule with kind := .manual } }

/-- The kind of promotion of an environment, if there are settings for it. -/
def promoteKind? (s : Store) (id : EnvId) : Option PromoteKind :=
  (s.promoteConfigs.get? id).map PromotionRule.kind

/-- The next deploy to be recorded: it has just begun, its environment is known, and its id was
never used. -/
structure Opens (s : Store) (clock : Outcome Instant) (d : Deploy) : Prop where
  environment : s.environments.contains d.envId = true
  number : d.id = createdId s.created
  unused : s.deploys.get? d.id = none
  running : d.state = .running
  pending : d.acceptance = .pendingDeploy
  started : clock = .ok d.startDate

/-- Whether a deploy of an environment has started before a failed one, or with it. -/
def isBefore (id : EnvId) (failed d : Deploy) : Bool :=
  d.envId == id && decide (.epoch < d.startDate) && decide (d.startDate ≤ failed.startDate)

/-- The newest good deploy of an environment before the failed one, among so many newest. -/
structure IsLastSound (s : Store) (limit : Nat) (id : EnvId) (failed target : Deploy) : Prop where
  recorded : s.deploys.get? target.id = some target
  before : isBefore id failed target = true
  sound : Promotion.isSound target = true
  other : target.id ≠ failed.id
  newest : ∀ d, s.deploys.get? d.id = some d → isBefore id failed d = true →
    Promotion.isSound d = true → d.id ≠ failed.id → d.startDate ≤ target.startDate
  near : (s.deploys.values.filter fun d =>
    isBefore id failed d && decide (target.startDate < d.startDate)).length < limit

variable {s s' : Store} {id : EnvId}

/-- A deploy that is recorded is the next one. -/
theorem opens_of_createDeploy {clock : Outcome Instant} {new : NewDeploy} {d : Deploy}
    (hu : s.Unissued) (h : s.createDeploy clock new = .ok (d, s')) :
    s.Opens clock d ∧ s' = s.withDeploy d ∧ new = d.request := by
  obtain ⟨henv, now, hclock, rfl, rfl⟩ := eq_of_createDeploy h
  exact ⟨⟨henv, rfl, hu _ (Nat.le_refl _), rfl, rfl, hclock⟩, rfl, rfl⟩

/-- The ids to come stay unused. -/
theorem Effect.unissued {clock : Outcome Instant} {c : StoreCall} (h : s.Effect clock c s')
    (hu : s.Unissued) : s'.Unissued := by
  cases h with
  | @insertItem k | @updateItem k => cases k <;> exact hu
  | @drainHosts env ids now =>
      obtain ⟨hosts, agents, he⟩ := s.drainHosts_eq now env ids
      rw [he]
      exact hu
  | createDeploy =>
      intro n hn
      refine (Table.get?_insert_of_ne _ _ fun he => ?_).trans (hu n (Nat.le_of_succ_le hn))
      rw [createdId_inj he] at hn
      exact Nat.not_succ_le_self _ hn
  | _ => exact hu

/-- Nobody removes promotion settings. -/
theorem Effect.keeps_settings {clock : Outcome Instant} {c : StoreCall} (h : s.Effect clock c s')
    (hs : s.promoteKind? id ≠ none) : s'.promoteKind? id ≠ none := by
  cases h with
  | @insertItem k | @updateItem k => cases k <;> exact hs
  | @drainHosts env ids now =>
      obtain ⟨hosts, agents, he⟩ := s.drainHosts_eq now env ids
      rw [he]
      exact hs
  | setPromoteKind =>
      simp only [promoteKind?, ne_eq, Option.map_eq_none_iff, Table.get?_modify] at hs ⊢
      split
      · rwa [Option.map_eq_none_iff]
      · exact hs
  | _ => exact hs

/-- On manual promotion an environment with settings is on manual promotion. -/
theorem promoteKind?_withManual (h : s.promoteKind? id ≠ none) :
    (s.withManual id).promoteKind? id = some .manual := by
  cases hget : s.promoteConfigs.get? id with
  | none => simp [promoteKind?, hget] at h
  | some rule => simp [promoteKind?, withManual, Table.get?_modify, hget]

/-- The first of the newest that has a property is the newest that has it. -/
theorem find?_take_of_pairwise {α : Type} {date : α → Instant} {p : α → Bool} {xs : List α}
    {limit : Nat} {a : α} (hs : xs.Pairwise fun a b => date b ≤ date a)
    (h : (xs.take limit).find? p = some a) :
    a ∈ xs ∧ p a = true ∧ (∀ b ∈ xs, p b = true → date b ≤ date a) ∧
      (xs.filter fun b => decide (date a < date b)).length < limit := by
  have hnot : ∀ {b}, date b ≤ date a → decide (date a < date b) = false := by
    intro b hb
    simp only [decide_eq_false_iff_not, Instant.le_iff, Instant.lt_iff] at hb ⊢
    omega
  induction xs generalizing limit with
  | nil => simp at h
  | cons x xs ih =>
      obtain ⟨hx, hxs⟩ := List.pairwise_cons.mp hs
      cases limit with
      | zero => simp at h
      | succ limit =>
          rw [List.take_succ_cons, List.find?_cons] at h
          cases hp : p x with
          | true =>
              simp only [hp, Option.some.injEq] at h
              subst h
              have hlate : ∀ b ∈ x :: xs, date b ≤ date x := by
                refine List.forall_mem_cons.mpr ⟨?_, hx⟩
                rw [Instant.le_iff]
              refine ⟨List.mem_cons_self, hp, fun b hb _ => hlate b hb, ?_⟩
              rw [List.filter_eq_nil_iff.mpr fun b hb => by rw [hnot (hlate b hb)]; decide]
              exact Nat.succ_pos limit
          | false =>
              simp only [hp] at h
              obtain ⟨hmem, hpa, hnewest, hnear⟩ := ih hxs h
              refine ⟨List.mem_cons_of_mem _ hmem, hpa, ?_, ?_⟩
              · refine List.forall_mem_cons.mpr ⟨fun hpx => ?_, hnewest⟩
                cases hp.symm.trans hpx
              · rw [List.filter_cons]
                split
                · exact Nat.succ_lt_succ hnear
                · exact Nat.lt_succ_of_lt hnear

/-- What an attempt finds in the history of an environment is the newest good deploy. -/
theorem isLastSound_of_find? {limit : Nat} {failed target : Deploy} (hk : s.Keyed)
    (h : (s.deploysStartedBetween id .epoch failed.startDate limit).find? (fun d =>
      d.id != failed.id && Promotion.isSound d) = some target) :
    s.IsLastSound limit id failed target := by
  obtain ⟨hmem, hgood, hnewest, hnear⟩ := find?_take_of_pairwise (pairwise_newestFirst _ _) h
  have hlisted : ∀ d, d ∈ s.deploys.values.filter (isBefore id failed) ↔
      s.deploys.get? d.id = some d ∧ isBefore id failed d = true := by
    intro d
    rw [List.mem_filter, Table.mem_values_iff]
    refine and_congr_left fun _ => ⟨?_, fun hget => ⟨_, hget⟩⟩
    rintro ⟨k, hget⟩
    rw [hk.deploys k d hget]
    exact hget
  rw [mem_newestFirst] at hmem
  simp only [Bool.and_eq_true, bne_iff_ne] at hgood hnewest
  obtain ⟨hrecorded, hbefore⟩ := (hlisted target).mp hmem
  refine ⟨hrecorded, hbefore, hgood.2, hgood.1, fun d hget hd hsound hother => ?_, ?_⟩
  · exact hnewest d (mem_newestFirst.mpr ((hlisted d).mpr ⟨hget, hd⟩)) ⟨hother, hsound⟩
  · rw [((newestFirst_perm _ _).filter _).length_eq, List.filter_filter] at hnear
    refine lt_of_eq_of_lt (congrArg List.length (List.filter_congr fun d _ => ?_)) hnear
    exact Bool.and_comm _ _

end Store

namespace World

variable {w v w' : World} {c : Call} {r : Outcome c.Reply}

/-- A call that writes nothing leaves the store as it is. -/
theorem store_of_look (hc : ∀ q, c = .store q → q.isRead = true) (ha : answer c w = (r, w')) :
    w'.store = w.store := by
  have hw' : (answer c w).2 = w' := congrArg Prod.snd ha
  by_cases hq : ∃ q, c = .store q
  · obtain ⟨q, rfl⟩ := hq
    cases hs : w.store with
    | none =>
        rw [← hw']
        simp only [answer, useStore, hs]
    | some s =>
        obtain ⟨a, hread⟩ : ∃ a, s.answer w.now q = (.ok a, s) := Store.answer_of_isRead (hc q rfl)
        rw [← hw', answer_ask hs hread, hs]
  · exact store_of_answer (fun q he => hq ⟨q, he⟩) ha

/-- The holder gives its lock back. -/
theorem release_of_held {name : String} {token : Token}
    (h : w.locks.holder? name = some token) : ∃ locks : LockTable, locks.isHeld name = false ∧
      answer (.release name token) w = (.ok (), { w with locks := locks }) := by
  cases hr : w.locks.release? name token with
  | none =>
      obtain ⟨holder, hh, hne⟩ := LockTable.release?_eq_none_iff.mp hr
      exact absurd (Option.some.inj (hh.symm.trans h)) hne
  | some locks =>
      refine ⟨locks, ?_, by simp only [answer, release, hr]⟩
      rw [← Bool.not_eq_true, LockTable.isHeld_iff]
      rintro ⟨holder, hh⟩
      rw [LockTable.holder?_release? hr, if_pos rfl] at hh
      cases hh

/-- A lock that was taken is held with its token. -/
theorem held_of_acquire {name : String} {token : Token}
    (ha : answer (.acquire name) w = (.ok (some token), w')) :
    w'.locks.holder? name = some token := by
  simp only [answer, acquire, Prod.mk.injEq, Except.ok.injEq] at ha
  obtain ⟨htoken, rfl⟩ := ha
  obtain ⟨-, -, hlocks⟩ := LockTable.eq_of_taken (Prod.ext htoken rfl)
  exact (congrArg (·.holder? name) hlocks).trans (Table.get?_insert_self _ _ _)

end World

namespace Promotion

/-! ## What others may do -/

/-- What an attempt relies on: records stand under their own keys, the ids of the deploys to come
are unused, and the environment has promotion settings. -/
structure Ready (id : EnvId) (w : World) : Prop where
  keyed : w.tables.Keyed
  unissued : w.tables.Unissued
  ruled : ∀ s, w.store = some s → s.promoteKind? id ≠ none

/-- What others may do beside an attempt. As long as it does not hold the lock, anything that
leaves records under their own keys, uses no id of a deploy to come, brings no lost store back and
removes no promotion settings; afterwards nothing. -/
structure Defers (id : EnvId) (log : List (Entry World)) (w v : World) : Prop where
  keyed : w.tables.Keyed → v.tables.Keyed
  unissued : w.tables.Unissued → v.tables.Unissued
  ruled : ∀ s', v.store = some s' → ∃ s, w.store = some s ∧
    (s.promoteKind? id ≠ none → s'.promoteKind? id ≠ none)
  waits : (held (heard log)).isSome = true → v = w

/-- Any call of somebody else defers to an attempt that does not hold the lock, whether it gets its
reply or fails. -/
theorem defers_call {raises : Fault → Prop} {id : EnvId} {log : List (Entry World)} {w v : World}
    {c : Call} {r : Outcome c.Reply} (hfree : held (heard log) = none)
    (hb : World.Possible Eq raises c w r v) : Defers id log w v := by
  have hstore : ∀ s', v.store = some s' → ∃ s, w.store = some s ∧
      (s' = s ∨ ∃ clock q, s.Effect clock q s') := by
    intro s' hs'
    obtain hsame | ⟨q, rfl, heffect⟩ := hb.store_cases fun _ hv => hv ▸ rfl
    · exact ⟨s', hsame.symm.trans hs', .inl rfl⟩
    · obtain ⟨s, clock, hs, he⟩ := heffect s' hs'
      exact ⟨s, hs, .inr ⟨clock, q, he⟩⟩
  refine ⟨hb.preserves (I := fun u => u.tables.Keyed) (fun _ hv hk => hv ▸ hk)
    fun _ hk => World.keyed_answer hk c, fun hu => ?_, fun s' hs' => ?_, fun hheld => ?_⟩
  · cases hs' : v.store with
    | none =>
        have hlost : v.tables = .empty := by rw [World.tables, hs']; rfl
        rw [hlost]
        exact fun _ _ => rfl
    | some s' =>
        obtain ⟨s, hs, rfl | ⟨clock, q, he⟩⟩ := hstore s' hs'
        · rwa [World.tables_eq hs', ← World.tables_eq hs]
        · rw [World.tables_eq hs']
          exact he.unissued (World.tables_eq hs ▸ hu)
  · obtain ⟨s, hs, rfl | ⟨clock, q, he⟩⟩ := hstore s' hs'
    · exact ⟨s', hs, fun hruled => hruled⟩
    · exact ⟨s, hs, he.keeps_settings⟩
  · rw [hfree] at hheld
    cases hheld

/-- What may happen at a call of an attempt beside others that defer to it. -/
def deferring (raises : Fault → Prop) (id : EnvId) : Behaviour (Journal World) := fun c j r j' =>
  ∃ w, World.Possible (Defers id j.log) raises c j.state r w ∧ j' = j.enter c r w

/-! ## What is said -/

/-- Whether a call writes something or tells somebody something. Locks are not counted. -/
def isDeed (c : Call) : Bool := !c.isQuery && c.isLockless

/-- What was written and told, in order. -/
def deeds : List (Entry World) → List Call
  | [] => []
  | e :: past => if isDeed e.call then deeds past ++ [e.call] else deeds past

/-- The results of an attempt that has done nothing. -/
def Result.isIdle : Result → Bool
  | .ineligible | .notRetirable | .noCandidate | .abandoned | .contended => true
  | .promoted _ | .rolledBack _ | .disabled => false

/-- The lock of the environment was taken with this token, and this was the world then. -/
def Took (id : EnvId) (log : List (Entry World)) (token : Token) (w : World) : Prop :=
  ∃ u, ⟨u, .acquire (lockOf lockPrefix id), .ok (some token), w⟩ ∈ log

/-- The history of the environment was read, and this was the newest good deploy in it before the
failed one. -/
def Recalled (config : PromotionSettings) (id : EnvId) (log : List (Entry World))
    (failed target : Deploy) : Prop :=
  ∃ u history v s, ⟨u, .store (.deploysStartedBetween id .epoch failed.startDate
      config.candidateLimit), .ok history, v⟩ ∈ log ∧ v.store = some s ∧
    history.find? (fun d => d.id != failed.id && isSound d) = some target ∧
    s.IsLastSound config.candidateLimit id failed target

/-- What ending automatic promotion does, and what it answers. If promotion is automatic it is
switched, and this is told. -/
inductive Switched (env : Environment) (failed : String) (w : World) :
    Bool → List Call → World → Prop where
  | now {s : Store} (hstore : w.store = some s) (hauto : s.promoteKind? env.id = some .auto) :
      Switched env failed w true
        [.store (.setPromoteKind env.id .manual), .post (disabledNotice env failed)]
        ((w.withStore (s.withManual env.id)).post (disabledNotice env failed))
  | before {s : Store} (hstore : w.store = some s)
      (hmanual : s.promoteKind? env.id = some .manual) : Switched env failed w false [] w

/-- What an attempt does once it has taken the lock of the environment in a world: its result,
what it writes and tells, and the world to which that leads. -/
inductive Does (config : PromotionSettings) (id : EnvId) (log : List (Entry World)) (w : World) :
    Result → List Call → World → Prop where
  | nothing {a : Result} (hidle : a.isIdle = true) : Does config id log w a [] w
  | promoted {s : Store} {d : Deploy} (hstore : w.store = some s) (hopens : s.Opens w.now d)
      (henv : d.envId = id) : Does config id log w (.promoted d.id)
        [.store (.createDeploy d.request)] (w.withStore (s.withDeploy d))
  | rolledBack {s : Store} {d failed target : Deploy} {env : Environment} {switched : Bool}
      {rest : List Call} {v : World} (hstore : w.store = some s) (hopens : s.Opens w.now d)
      (henv : d.envId = id) (hfailed : failed.isFailed = true)
      (hruns : (s.environments.get? id).bind Environment.deployId = some failed.id)
      (hrecalled : Recalled config id log failed target) (hbuild : d.buildId = target.buildId)
      (hfrom : d.fromDeploy = none) (hid : env.id = id)
      (hswitched : Switched env failed.id (w.withStore (s.withDeploy d)) switched rest v) :
      Does config id log w (.rolledBack d.id)
        (.store (.createDeploy d.request) :: rest) v
  | disabled {env : Environment} {failed : Deploy} {calls : List Call} {v : World}
      (hfailed : failed.isFailed = true) (hid : env.id = id)
      (hswitched : Switched env failed.id w true calls v) : Does config id log w .disabled calls v

/-- Nothing was done, and the lock was never taken. -/
structure Aside (id : EnvId) (log : List (Entry World)) : Prop where
  untaken : ∀ token w, ¬Took id log token w
  idle : deeds log = []

/-- Giving the lock back has failed. -/
def Stuck (raises : Fault → Prop) (id : EnvId) (log : List (Entry World)) : Prop :=
  ∃ f u token v, raises f ∧ ⟨u, .release (lockOf lockPrefix id) token, .error f, v⟩ ∈ log

/-- Work under the lock has taken the world from the one in which the lock was taken to another
one, and the lock is free again unless giving it back has failed. -/
structure Left (raises : Fault → Prop) (id : EnvId) (w : World) (calls : List Call) (v : World)
    (j : Journal World) : Prop where
  took : ∃ token, Took id j.log token w
  deeds : deeds j.log = calls
  state : j.state = { v with locks := j.state.locks }
  free : j.state.locks.isHeld (lockOf lockPrefix id) = false ∨ Stuck raises id j.log

/-- What an attempt has done that ends with a result. -/
inductive Account (raises : Fault → Prop) (config : PromotionSettings) (id : EnvId) (a : Result)
    (j : Journal World) : Prop where
  | outside (haside : Aside id j.log) (hidle : a.isIdle = true)
  | inside {w v : World} {calls : List Call} (hleft : Left raises id w calls v j)
      (hdoes : Does config id j.log w a calls v)

/-! ## Runs beside others -/

section

variable {α β : Type} {raises : Fault → Prop} {id : EnvId} {j j' : Journal World}
  {p : Program α} {Q : α → Journal World → Prop} {w v w' : World} {log : List (Entry World)}
  {c : Call} {r : Outcome c.Reply}

/-- Whatever others do and whatever fails, an outcome is as `Q` wants it. -/
abbrev Tells (raises : Fault → Prop) (id : EnvId) (Q : α → Journal World → Prop) (p : Program α)
    (j : Journal World) : Prop :=
  p.Keeps (deferring raises id) (fun _ _ => True) (Wants (fun _ => True) Q) j

theorem Tells.later (h : Tells raises id Q p j) :
    Tells raises id (fun a j' => Q a j' ∧ j.log <:+ j'.log) p j := by
  have hlonger : p.Keeps (deferring raises id) (fun _ j' => j.log <:+ j'.log)
      (fun _ j' => j.log <:+ j'.log) j := by
    refine keeps_of_preserved ?_ p (List.suffix_refl _)
    rintro c j₁ r _ hj₁ ⟨w, -, rfl⟩
    exact hj₁.trans (List.suffix_cons _ _)
  refine (Keeps.and h hlonger).mono (fun _ _ _ => trivial) ?_
  rintro (f | a) j₁ hq
  · trivial
  · exact hq

theorem Tells.imp {Q' : α → Journal World → Prop} (h : Tells raises id Q p j)
    (hQ : ∀ a j', Q a j' → Q' a j') : Tells raises id Q' p j := by
  refine Keeps.imp h ?_
  rintro (f | a) j₁ hq
  · trivial
  · exact hQ a j₁ hq

theorem Tells.bind {f : α → Program β} {Q' : β → Journal World → Prop} (h : Tells raises id Q p j)
    (hf : ∀ a j', Q a j' → j.log <:+ j'.log → Tells raises id Q' (f a) j') :
    Tells raises id Q' (p.bind f) j := by
  refine keeps_bind.mpr (Keeps.imp h.later ?_)
  rintro (e | a) j₁ hq
  · trivial
  · exact hf a j₁ hq.1 hq.2

theorem tells_perform {Q : c.Reply → Journal World → Prop}
    (h : ∀ a v w, Defers id j.log j.state v → World.answer c v = (.ok a, w) →
      Q a (j.enter c (.ok a) w)) : Tells raises id Q (perform c) j := by
  refine keeps_perform.mpr ?_
  rintro r _ ⟨w, ⟨v, hv, ha | ⟨f, -, rfl, -⟩⟩, rfl⟩
  · cases r with
    | error f => exact ⟨trivial, trivial⟩
    | ok a => exact ⟨trivial, h a v w hv ha⟩
  · exact ⟨trivial, trivial⟩

/-- What is read is what the store has after the others. -/
theorem tells_ask {q : StoreCall} (hq : q.isRead = true) {Q : q.Reply → Journal World → Prop}
    (h : ∀ a v s, Defers id j.log j.state v → v.store = some s → (s.answer v.now q).1 = .ok a →
      Q a (j.enter (.store q) (.ok a) v)) : Tells raises id Q (ask q) j := by
  refine tells_perform fun a v w hv ha => ?_
  obtain ⟨s, hs, rfl, hfound⟩ := World.found_of_ask hq ha
  exact h a w s hv hs hfound

/-! ## Looking around -/

theorem Ready.of_store (h : Ready id v) (hs : w.store = v.store) : Ready id w := by
  have ht : w.tables = v.tables := congrArg (·.getD .empty) hs
  exact ⟨ht ▸ h.keyed, ht ▸ h.unissued, hs ▸ h.ruled⟩

theorem Ready.others (h : Ready id w) (hv : Defers id log w v) : Ready id v := by
  refine ⟨hv.keyed h.keyed, hv.unissued h.unissued, fun s' hs' => ?_⟩
  obtain ⟨s, hs, hruled⟩ := hv.ruled s' hs'
  exact hruled (h.ruled s hs)

/-- A call that writes nothing leaves what an attempt relies on. -/
theorem Ready.call (h : Ready id w) (hc : ∀ q, c = .store q → q.isRead = true)
    (hb : World.Possible (Defers id log) raises c w r w') : Ready id w' := by
  obtain ⟨v, hv, ha | ⟨f, -, -, rfl | rfl⟩⟩ := hb
  · exact (h.others hv).of_store (World.store_of_look hc ha)
  · exact h.others hv
  · exact (h.others hv).of_store (World.store_of_look hc rfl)

/-- All calls so far were to look something up. -/
def Looked (log : List (Entry World)) : Prop := ∀ e ∈ log, e.call.isQuery = true

theorem Looked.cons {e : Entry World} (h : Looked log) (he : e.call.isQuery = true) :
    Looked (e :: log) := List.forall_mem_cons.mpr ⟨he, h⟩

theorem Looked.deeds_eq (h : Looked log) : deeds log = [] := by
  induction log with
  | nil => rfl
  | cons e log ih =>
      obtain ⟨hquery, hlog⟩ := List.forall_mem_cons.mp h
      rw [deeds, if_neg (by simp [isDeed, hquery]), ih hlog]

theorem Looked.not_took (h : Looked log) (token : Token) (w : World) : ¬Took id log token w := by
  rintro ⟨u, hmem⟩
  cases h _ hmem

theorem Looked.aside (h : Looked log) : Aside id log := ⟨h.not_took, h.deeds_eq⟩

/-- Who has only looked around has done nothing. -/
theorem Looked.account {config : PromotionSettings} {a : Result} (h : Looked j.log)
    (hidle : a.isIdle = true) : Account raises config id a j := .outside h.aside hidle

/-- An attempt that has only looked around, and knows that there are promotion settings. -/
structure Looking (id : EnvId) (j : Journal World) : Prop where
  looked : Looked j.log
  ready : Ready id j.state

theorem Looking.read (h : Looking id j) {q : StoreCall} {a : q.Reply} (hq : q.isRead = true)
    (hv : Defers id j.log j.state v) : Looking id (j.enter (.store q) (.ok a) v) :=
  ⟨h.looked.cons hq, h.ready.others hv⟩

/-- Looking for something. -/
theorem Looking.search {Q : α → Prop} (h : Looking id j)
    (hp : p.Meets (·.isQuery = true) (fun _ => True) Q) :
    Tells raises id (fun a j' => Q a ∧ Looking id j') p j := by
  refine (Meets.keeps (J := Looking id) hp ?_ h).imp ?_
  · rintro c j₁ r _ hc hj₁ ⟨w, hb, rfl⟩
    refine ⟨trivial, ⟨hj₁.looked.cons hc, hj₁.ready.call ?_ hb⟩, ?_⟩
    · rintro q rfl
      exact hc
    · cases r <;> trivial
  · rintro (f | a) j₁ hq
    · trivial
    · exact ⟨hq.2.1 a rfl, hq.1⟩

end

/-! ## Under the lock -/

section

variable {α : Type} {raises : Fault → Prop} {id : EnvId} {j : Journal World} {token : Token}
  {w v : World} {calls : List Call}

/-- An attempt that holds the lock. It took it in `w`, and its deeds since have led to `v`. -/
structure Holding (id : EnvId) (token : Token) (w : World) (calls : List Call) (v : World)
    (j : Journal World) : Prop where
  took : Took id j.log token w
  holds : held (heard j.log) = some token
  deeds : deeds j.log = calls
  state : j.state = v
  holder : v.locks.holder? (lockOf lockPrefix id) = some token

/-- Nobody else does anything while the lock is held. -/
theorem Holding.step (h : Holding id token w calls v j) {c : Call} (hc : c.isLockless = true) :
    Tells raises id (fun a j' => ∃ v', World.answer c v = (.ok a, v') ∧
      Holding id token w (if isDeed c then calls ++ [c] else calls) v' j') (perform c) j := by
  refine tells_perform fun a u v' hu ha => ?_
  obtain rfl : u = v := (hu.waits (by rw [h.holds]; rfl)).trans h.state
  refine ⟨v', ha, ?_, ?_, ?_, rfl, ?_⟩
  · obtain ⟨before, hmem⟩ := h.took
    exact ⟨before, List.mem_cons_of_mem _ hmem⟩
  · exact (Entry.tokenAfter_of_isLockless _ hc).trans h.holds
  · rw [← h.deeds]
    rfl
  · have hlocks : (World.answer c u).2.locks = u.locks := World.locks_answer hc
    rw [ha] at hlocks
    rw [hlocks]
    exact h.holder

/-- What is done under the lock is counted. -/
theorem Holding.act (h : Holding id token w calls v j) {c : Call} (hc : isDeed c = true) :
    Tells raises id (fun a j' => ∃ v', World.answer c v = (.ok a, v') ∧
      Holding id token w (calls ++ [c]) v' j') (perform c) j := by
  refine (h.step (Bool.and_eq_true_iff.mp hc).2).imp ?_
  rintro a j₁ ⟨v', ha, h₁⟩
  rw [if_pos hc] at h₁
  exact ⟨v', ha, h₁⟩

theorem Holding.read (h : Holding id token w calls v j) {q : StoreCall} (hq : q.isRead = true) :
    Tells raises id (fun a j' => ∃ s, v.store = some s ∧ (s.answer v.now q).1 = .ok a ∧
      Holding id token w calls v j') (ask q) j := by
  refine (h.step rfl).imp ?_
  rintro a j₁ ⟨v', ha, h₁⟩
  obtain ⟨s, hs, rfl, hfound⟩ := World.found_of_ask hq ha
  rw [if_neg (by simp [isDeed, Call.isQuery, Call.isRead, hq])] at h₁
  exact ⟨s, hs, hfound, h₁⟩

/-- Whoever gets the lock after looking around holds it, and has done nothing yet. -/
theorem Looking.take (h : Looking id j) (hb : World.Possible (Defers id j.log) raises
    (.acquire (lockOf lockPrefix id)) j.state (.ok (some token)) w) :
    Ready id w ∧ Holding id token w [] w
      (j.enter (.acquire (lockOf lockPrefix id)) (.ok (some token)) w) := by
  have hdeeds : deeds j.log = [] := h.looked.deeds_eq
  refine ⟨h.ready.call (fun _ h => by cases h) hb, ⟨_, List.mem_cons_self⟩, rfl, hdeeds, rfl, ?_⟩
  obtain ⟨v, -, ha | ⟨f, -, hr, -⟩⟩ := hb
  · exact World.held_of_acquire ha
  · cases hr

/-- Giving the lock back ends the work, also if it fails. -/
theorem Holding.left (h : Holding id token w calls v j) {r : Outcome Unit} {j' : Journal World}
    (hb : deferring raises id (.release (lockOf lockPrefix id) token) j r j') :
    Left raises id w calls v j' := by
  obtain ⟨u, ⟨v', hv', ha⟩, rfl⟩ := hb
  obtain rfl : v' = v := (hv'.waits (by rw [h.holds]; rfl)).trans h.state
  obtain ⟨locks, hfree, hrelease⟩ := World.release_of_held h.holder
  obtain ⟨before, htook⟩ := h.took
  refine ⟨⟨token, before, List.mem_cons_of_mem _ htook⟩, h.deeds, ?_, ?_⟩
  · obtain ha | ⟨f, -, -, rfl | rfl⟩ := ha
    · cases hrelease.symm.trans ha
      rfl
    · rfl
    · rw [hrelease]
      rfl
  · obtain ha | ⟨f, hf, rfl, -⟩ := ha
    · cases hrelease.symm.trans ha
      exact .inl hfree
    · exact .inr ⟨f, _, token, u, hf, List.mem_cons_self⟩

/-- Work under the lock is refused, or it is done and the lock is given back. -/
theorem tells_exclusively {body : Program α} {R : World → α → List Call → World → Prop}
    (hj : Looking id j)
    (hbody : ∀ token w j₁, Ready id w → Holding id token w [] w j₁ →
      Tells raises id (fun b j₂ => ∃ calls v, Holding id token w calls v j₂ ∧ R w b calls v)
        body j₁) :
    Tells raises id (fun o j' => (o = none ∧ Aside id j'.log) ∨
        ∃ b w calls v, o = some b ∧ Left raises id w calls v j' ∧ R w b calls v)
      (exclusively (lockOf lockPrefix id) body) j := by
  refine keeps_exclusively (fun _ _ _ _ _ => trivial) (fun _ _ => trivial)
    (fun _ _ _ => trivial) ?_ ?_
  · rintro _ ⟨w, -, rfl⟩
    refine .inl ⟨rfl, ?_, hj.looked.deeds_eq⟩
    rintro token v ⟨u, hmem⟩
    obtain he | hmem := List.mem_cons.mp hmem
    · cases he
    · exact hj.looked.not_took token v ⟨u, hmem⟩
  · rintro token _ ⟨w, hb, rfl⟩
    obtain ⟨hready, hholding⟩ := hj.take hb
    refine Keeps.imp (hbody token w _ hready hholding) ?_
    rintro (f | b) j₂ h₂ r j₃ hreleased
    · trivial
    · obtain ⟨calls, v, h₂, hR⟩ := h₂
      exact .inr ⟨b, w, calls, v, rfl, h₂.left hreleased, hR⟩

/-- Ending automatic promotion. -/
theorem tells_endAutomation {env : Environment} {failed : String}
    (h : Holding id token w calls v j)
    (hruled : ∀ s, v.store = some s → s.promoteKind? env.id ≠ none) :
    Tells raises id (fun b j' => ∃ more v', Holding id token w (calls ++ more) v' j' ∧
      Switched env failed v b more v') (endAutomation env failed) j := by
  refine .bind (h.read rfl) ?_
  rintro rule j₁ ⟨s, hs, hrule, h₁⟩ -
  obtain rfl : s.promoteConfigs.get? env.id = rule := Except.ok.inj hrule
  by_cases hauto : s.promoteKind? env.id = some .auto
  · have hany : (s.promoteConfigs.get? env.id).any (fun c => c.kind == .auto) = true := by
      obtain ⟨rule, hget, hkind⟩ := Option.map_eq_some_iff.mp hauto
      simp [hget, hkind]
    simp only [hany, if_true]
    refine .bind (h₁.act rfl) ?_
    rintro u j₂ ⟨v₂, ha₂, h₂⟩ -
    refine .bind (h₂.act rfl) ?_
    rintro _ j₃ ⟨v₃, ha₃, h₃⟩ -
    obtain ⟨f, hfails⟩ | ⟨s', hs', -, hset⟩ := World.answer_setPromoteKind v env.id .manual
    · cases hfails.symm.trans ha₂
    cases hs.symm.trans hs'
    cases hset.symm.trans ha₂
    cases ha₃
    refine ⟨_, _, ?_, .now hs hauto⟩
    rwa [List.append_assoc] at h₃
  · have hnone : (s.promoteConfigs.get? env.id).any (fun c => c.kind == .auto) = false := by
      rw [← Bool.not_eq_true, Option.any_eq_true]
      rintro ⟨rule, hget, hkind⟩
      exact hauto (Option.map_eq_some_iff.mpr ⟨rule, hget, by simpa using hkind⟩)
    simp only [hnone, Bool.false_eq_true, if_false]
    refine ⟨[], v, by rwa [List.append_nil], .before hs ?_⟩
    cases hkind : s.promoteKind? env.id with
    | none => exact absurd hkind (hruled s hs)
    | some kind =>
        cases kind with
        | manual => rfl
        | auto => exact absurd hkind hauto

/-- What may follow the record of a deploy. -/
def Follow (env : Environment) : Option String → World → List Call → World → Prop
  | none, w, calls, v => calls = [] ∧ v = w
  | some failed, w, calls, v => ∃ switched, Switched env failed w switched calls v

/-- What a promotion to a candidate does under the lock. -/
inductive Recorded (env : Environment) (observed : Option String) (candidate : NewDeploy)
    (thenDisable : Option String) (w : World) : Result → List Call → World → Prop where
  | abandoned : Recorded env observed candidate thenDisable w .abandoned [] w
  | promoted {s : Store} {fresh : Environment} {d : Deploy} {calls : List Call} {v : World}
      (hstore : w.store = some s) (hfresh : s.environments.get? env.id = some fresh)
      (hruns : fresh.deployId = observed) (hopens : s.Opens w.now d)
      (hcandidate : candidate = d.request)
      (hfollow : Follow env thenDisable (w.withStore (s.withDeploy d)) calls v) :
      Recorded env observed candidate thenDisable w (.promoted d.id)
        (.store (.createDeploy d.request) :: calls) v

/-- A promotion to a candidate is contended, or it is done under the lock. -/
theorem tells_promoteCandidate {env : Environment} (hid : env.id = id) (observed : Option String)
    (candidate : NewDeploy) (thenDisable : Option String) (hj : Looking id j) :
    Tells raises id (fun a j' =>
      (a = .contended ∧ Aside id j'.log) ∨
        ∃ w calls v, Left raises id w calls v j' ∧
          Recorded env observed candidate thenDisable w a calls v)
      (promoteCandidate env observed candidate thenDisable) j := by
  subst hid
  refine .bind (tells_exclusively (R := Recorded env observed candidate thenDisable) hj
    fun token w j₁ hready h₁ => ?_) ?_
  · refine .bind (Q := fun fresh j₂ => ∃ s, w.store = some s ∧
      s.environments.get? env.id = some fresh ∧ Holding env.id token w [] w j₂)
      (.bind (h₁.read rfl) ?_) ?_
    · rintro (- | fresh) j₂ ⟨s, hs, hfresh, h₂⟩ -
      · trivial
      · exact ⟨s, hs, Except.ok.inj hfresh, h₂⟩
    rintro fresh j₂ ⟨s, hs, hfresh, h₂⟩ -
    simp only [bne_iff_ne, ite_not]
    split
    · rename_i hruns
      refine .bind (h₂.act rfl) ?_
      rintro d j₃ ⟨v₃, ha, h₃⟩ -
      obtain ⟨s', hcreated, rfl⟩ := World.eq_of_createDeploy hs ha
      have hunissued : s.Unissued := World.tables_eq hs ▸ hready.unissued
      obtain ⟨hopens, rfl, hcandidate⟩ := Store.opens_of_createDeploy hunissued hcreated
      rw [hcandidate] at h₃
      cases thenDisable with
      | none => exact ⟨_, _, h₃, .promoted hs hfresh hruns hopens hcandidate ⟨rfl, rfl⟩⟩
      | some failed =>
          refine .bind (tells_endAutomation h₃ ?_) ?_
          · rintro _ ⟨⟩
            exact hready.ruled s hs
          rintro switched j₄ ⟨more, v₄, h₄, hswitched⟩ -
          exact ⟨_, _, h₄, .promoted hs hfresh hruns hopens hcandidate ⟨switched, hswitched⟩⟩
    · exact ⟨_, _, h₂, .abandoned⟩
  · rintro _ j₁ (⟨rfl, haside⟩ | ⟨a, w, calls, v, rfl, hleft, hdone⟩) -
    · exact .inl ⟨rfl, haside⟩
    · exact .inr ⟨w, calls, v, hleft, hdone⟩

/-- Only switching to manual promotion is contended, or it is done under the lock. -/
theorem tells_stopPromoting {config : PromotionSettings} {env : Environment} (hid : env.id = id)
    {failed : Deploy} (hfailed : failed.isFailed = true) (hj : Looking id j) :
    Tells raises id (Account raises config id) (stopPromoting env failed.id) j := by
  subst hid
  refine .bind (tells_exclusively (R := fun w => Switched env failed.id w) hj
    fun token w j₁ hready h₁ => tells_endAutomation h₁ hready.ruled) ?_
  rintro _ j₁ (⟨rfl, haside⟩ | ⟨switched, w, calls, v, rfl, hleft, hdone⟩) -
  · exact .outside haside rfl
  · cases hdone with
    | now hs hauto => exact .inside hleft (.disabled hfailed rfl (.now hs hauto))
    | before hs hmanual => exact .inside hleft (.nothing rfl)

end

/-! ## The attempt -/

section

variable {raises : Fault → Prop} {config : PromotionSettings} {id : EnvId} {j : Journal World}

/-- Going back to an earlier build. -/
theorem tells_revert {env : Environment} {failed : Deploy} (hid : env.id = id)
    (hfailed : failed.isFailed = true) (hj : Looking id j) :
    Tells raises id (Account raises config id) (revert config env failed) j := by
  subst hid
  refine .bind (Q := fun history j₁ => Looking env.id j₁ ∧ ∀ target,
    history.find? (fun d => d.id != failed.id && isSound d) = some target →
      Recalled config env.id j₁.log failed target) (tells_ask rfl ?_) ?_
  · intro history v s hv hs hhistory
    have hlooking := hj.read rfl (a := history) hv
    refine ⟨hlooking, fun target htarget => ?_⟩
    refine ⟨_, history, v, s, List.mem_cons_self, hs, htarget, ?_⟩
    have hkeyed : s.Keyed := World.tables_eq hs ▸ hlooking.ready.keyed
    rw [← Except.ok.inj hhistory] at htarget
    exact Store.isLastSound_of_find? hkeyed htarget
  rintro history j₁ ⟨hlooking, hrecalled⟩ -
  cases htarget : history.find? (fun d => d.id != failed.id && isSound d) with
  | none => exact tells_stopPromoting rfl hfailed hlooking
  | some target =>
      refine .bind (tells_promoteCandidate rfl (some failed.id) ⟨env.id, target.buildId, none⟩
        (some failed.id) hlooking) ?_
      rintro a j₂ (⟨rfl, haside⟩ | ⟨w, calls, v, hleft, hdone⟩) hlog
      · exact .outside haside rfl
      cases hdone with
      | abandoned => exact .inside hleft (.nothing rfl)
      | promoted hs hfresh hruns hopens hcandidate hfollow =>
          obtain ⟨switched, hswitched⟩ := hfollow
          obtain ⟨henv, hbuild, hfrom⟩ := NewDeploy.mk.inj hcandidate
          obtain ⟨u, history, v', s', hmem, hread⟩ := hrecalled target htarget
          refine .inside hleft (.rolledBack hs hopens henv.symm hfailed ?_
            ⟨u, history, v', s', hlog.subset hmem, hread⟩ hbuild.symm hfrom.symm rfl hswitched)
          rw [hfresh, Option.bind_some, hruns]

/-- Promoting the next candidate. -/
theorem tells_promoteNext {env : Environment} (hid : env.id = id) (current : Option Deploy)
    (settings : PromotionRule) (predStage : String) (now : Instant) (hj : Looking id j) :
    Tells raises id (Account raises config id)
      (promoteNext config env current settings predStage now) j := by
  subst hid
  rw [promoteNext_eq]
  refine .bind (hj.search (meets_findCandidate config env current settings predStage
    (now.minutesBefore settings.delayMinutes))) ?_
  rintro (- | candidate) j₁ ⟨hfor, hlooking⟩ -
  · exact hlooking.looked.account rfl
  refine (tells_promoteCandidate rfl env.deployId candidate none hlooking).imp ?_
  rintro a j₂ (⟨rfl, haside⟩ | ⟨w, calls, v, hleft, hdone⟩)
  · exact .outside haside rfl
  cases hdone with
  | abandoned => exact .inside hleft (.nothing rfl)
  | promoted hs hfresh hruns hopens hcandidate hfollow =>
      obtain ⟨rfl, rfl⟩ := hfollow
      have henv : candidate.envId = env.id := hfor candidate rfl
      rw [hcandidate] at henv
      exact .inside hleft (.promoted hs hopens henv)

theorem tells_promoteFrom {env : Environment} (hid : env.id = id) (settings : PromotionRule)
    (predStage : String) (now : Instant) (hj : Looking id j) :
    Tells raises id (Account raises config id)
      (promoteFrom config env settings predStage now) j := by
  rw [promoteFrom_eq]
  have hcurrent : Tells raises id (fun _ j' => Looking id j') (currentDeploy env) j := by
    rw [currentDeploy]
    split
    · exact tells_ask rfl fun _ _ _ hv _ _ => hj.read rfl hv
    · exact hj
  refine .bind hcurrent fun current j₁ hlooking _ => ?_
  rw [actOn]
  split
  · exact hlooking.looked.account rfl
  · split
    · rename_i failed hfailed _
      exact tells_stopPromoting hid (Option.filter_eq_some_iff.mp hfailed).2 hlooking
    · rename_i failed hfailed _
      exact tells_revert hid (Option.filter_eq_some_iff.mp hfailed).2 hlooking
    · exact tells_promoteNext hid current settings predStage now hlooking

/-- An attempt accounts for what it has done. -/
theorem tells_promote (config : PromotionSettings) (now : Instant) {w : World}
    (hk : w.tables.Keyed) (hu : w.tables.Unissued) :
    Tells raises id (Account raises config id) (promote config id now) (.start w) := by
  refine .bind (Q := fun found j₁ => Looked j₁.log ∧
    j₁.state.tables.Keyed ∧ j₁.state.tables.Unissued ∧ ∀ env, found = some env → env.id = id)
    (tells_ask rfl fun found v s hv hs hfound => ?_) ?_
  · refine ⟨List.forall_mem_singleton.mpr rfl, hv.keyed hk, hv.unissued hu, ?_⟩
    rintro env rfl
    have hkeyed : s.Keyed := World.tables_eq hs ▸ hv.keyed hk
    exact hkeyed.environments id env (Except.ok.inj hfound)
  rintro (- | env) j₁ ⟨hlooked, hk₁, hu₁, henv⟩ -
  · exact hlooked.account rfl
  have hid : env.id = id := henv env rfl
  dsimp only
  split
  · exact hlooked.account rfl
  refine .bind (Q := fun rule j₂ => Looked j₂.log ∧
    (rule ≠ none → Looking id j₂)) (tells_ask rfl fun rule v s hv hs hrule => ?_) ?_
  · have hlooked' : Looked (j₁.enter (.store (.promoteConfig id)) (.ok rule) v).log :=
      hlooked.cons rfl
    refine ⟨hlooked', fun hsome => ⟨hlooked', hv.keyed hk₁, hv.unissued hu₁, ?_⟩⟩
    intro s' hs'
    cases hs.symm.trans hs'
    obtain rfl : s.promoteConfigs.get? id = rule := Except.ok.inj hrule
    simpa [Store.promoteKind?] using hsome
  rintro (- | settings) j₂ ⟨hlooked, hlooking⟩ -
  · exact hlooked.account rfl
  dsimp only
  split
  · exact hlooked.account rfl
  · split
    · exact hlooked.account rfl
    · exact tells_promoteFrom hid settings _ now (hlooking (by simp))

end

/-! ## The law -/

section

variable {raises : Fault → Prop} {config : PromotionSettings} {id : EnvId} {a : Result}
  {w v : World} {calls : List Call} {log : List (Entry World)}

/-- Whether it has to be switched or not, promotion is manual then. -/
theorem Switched.manual {env : Environment} {failed : String} {switched : Bool}
    (h : Switched env failed w switched calls v) :
    v.tables.promoteKind? env.id = some .manual := by
  cases h with
  | @now s hs hauto =>
      have hstore : ((w.withStore (s.withManual env.id)).post (disabledNotice env failed)).store =
          some (s.withManual env.id) :=
        World.store_of_answer (c := .post (disabledNotice env failed)) (fun _ h => by cases h) rfl
      rw [World.tables_eq hstore]
      exact Store.promoteKind?_withManual (by simp [hauto])
  | before hs hmanual =>
      rw [World.tables_eq hs]
      exact hmanual

/-- A notification comes last, right after the switch that it tells of. -/
def Told (id : EnvId) (calls : List Call) : Prop :=
  (∀ n, .post n ∉ calls) ∨ ∃ earlier env failed, env.id = id ∧ (∀ n, .post n ∉ earlier) ∧
    calls = earlier ++
      [.store (.setPromoteKind id .manual), .post (disabledNotice env failed)]

theorem Told.cons {q : StoreCall} (h : Told id calls) : Told id (.store q :: calls) := by
  obtain hnone | ⟨earlier, env, failed, hid, hnone, rfl⟩ := h
  · exact .inl fun n => by simp [hnone n]
  · exact .inr ⟨.store q :: earlier, env, failed, hid, fun n => by simp [hnone n], rfl⟩

theorem Switched.told {env : Environment} {failed : String} {switched : Bool}
    (h : Switched env failed w switched calls v) : Told env.id calls := by
  cases h with
  | now => exact .inr ⟨[], env, failed, rfl, fun n => List.not_mem_nil, rfl⟩
  | before => exact .inl fun n => List.not_mem_nil

theorem Does.told (h : Does config id log w a calls v) : Told id calls := by
  cases h with
  | nothing => exact .inl fun n => List.not_mem_nil
  | promoted => exact .inl fun n => by simp
  | rolledBack hs hopens henv hfailed hruns hrecalled hbuild hfrom hid hswitched =>
      exact hid ▸ hswitched.told.cons
  | disabled hfailed hid hswitched => exact hid ▸ hswitched.told

theorem Does.idle (h : Does config id log w a calls v) (ha : a.isIdle = true) : calls = [] := by
  cases h with
  | nothing => rfl
  | promoted => cases ha
  | rolledBack => cases ha
  | disabled => cases ha

/-- After going back or giving up, promotion is manual. -/
theorem Does.manual (h : Does config id log w a calls v)
    (ha : a = .disabled ∨ ∃ n, a = .rolledBack n) : v.tables.promoteKind? id = some .manual := by
  cases h with
  | nothing hidle => obtain rfl | ⟨n, rfl⟩ := ha <;> cases hidle
  | promoted => obtain ha | ⟨n, ha⟩ := ha <;> cases ha
  | rolledBack hs hopens henv hfailed hruns hrecalled hbuild hfrom hid hswitched =>
      exact hid ▸ hswitched.manual
  | disabled hfailed hid hswitched => exact hid ▸ hswitched.manual

/-- What the result of an attempt says. -/
structure Testimony (raises : Fault → Prop) (config : PromotionSettings) (id : EnvId) (a : Result)
    (j : Journal World) : Prop where
  account : Account raises config id a j
  idle : a.isIdle = true → deeds j.log = []
  manual : (a = .disabled ∨ ∃ n, a = .rolledBack n) →
    j.state.tables.promoteKind? id = some .manual
  told : Told id (deeds j.log)
  free : ∀ token w, Took id j.log token w →
    j.state.locks.isHeld (lockOf lockPrefix id) = false ∨ Stuck raises id j.log

/-- Whatever fails, and whatever others do to the records before an attempt takes the lock: the
result of the attempt says what it has written and told. It has done nothing, recorded one deploy
of the environment, gone back to the build of the newest good deploy and to manual promotion, or
switched to manual promotion only; nothing else has changed since it took the lock. It tells only
of its own switch, and then has given the lock back unless that has failed. -/
theorem result_tells_deeds {now : Instant} {j : Journal World} (hk : w.tables.Keyed)
    (hu : w.tables.Unissued)
    (he : (promote config id now).Ends (deferring raises id) (.start w) (.ok a) j) :
    Testimony raises config id a j := by
  have haccount : Account raises config id a j := (tells_promote config now hk hu).ends he
  cases haccount with
  | outside haside hidle =>
      refine ⟨.outside haside hidle, fun _ => haside.idle, ?_, .inl fun n => ?_,
        fun token w ht => absurd ht (haside.untaken token w)⟩
      · rintro (rfl | ⟨n, rfl⟩) <;> cases hidle
      · rw [haside.idle]
        exact List.not_mem_nil
  | @inside w₀ v calls hleft hdoes =>
      have htables : j.state.tables = v.tables := (congrArg World.tables hleft.state).trans rfl
      refine ⟨.inside hleft hdoes, fun hidle => ?_, fun ha => ?_, ?_, fun _ _ _ => hleft.free⟩
      · rw [hleft.deeds]
        exact hdoes.idle hidle
      · rw [htables]
        exact hdoes.manual ha
      · rw [hleft.deeds]
        exact hdoes.told

theorem keyed_faltering : faltering.tables.Keyed where
  __ := Store.keyed_empty
  environments := Table.KeyedBy.empty.insert _
  promoteConfigs := Table.KeyedBy.empty.insert _
  deploys := by
    have hnone : (Table.empty : Table Deploy).KeyedBy Deploy.id := .empty
    exact (hnone.insert ⟨"first", "prod", "old", .succeeded, .accepted, ⟨1000⟩, none⟩).insert
      ⟨"second", "prod", "new", .failing, .pendingDeploy, ⟨1500⟩, none⟩
  builds := by
    have hnone : (Table.empty : Table Build).KeyedBy Build.id := .empty
    exact (hnone.insert ⟨"old", "web", ⟨800⟩, false⟩).insert ⟨"new", "web", ⟨900⟩, false⟩

theorem unissued_faltering : faltering.tables.Unissued := by
  intro n _
  have hother : ∀ text : String, text.toList.head? ≠ some 'g' → Store.createdId n ≠ text := by
    rintro _ hfirst rfl
    exact hfirst (by simp [Store.createdId])
  refine (Table.get?_insert_of_ne _ _ (hother "second" (by decide))).trans ?_
  exact Table.get?_insert_of_ne _ _ (hother "first" (by decide))

/-- Just before an attempt takes the lock somebody else makes a call. -/
def alongside (c : Call) (log : List (Entry World)) : Call → World → World
  | .acquire _, w => if (held (heard log)).isSome then w else (World.answer c w).2
  | _, w => w

/-- An attempt beside somebody else. -/
def accompanied (c : Call) (w : World) : Outcome Result × Journal World :=
  (promote {} "prod" ⟨2000⟩).run (meddling (alongside c)) (.start w)

theorem ends_accompanied (c : Call) (w : World) :
    (promote {} "prod" ⟨2000⟩).Ends (deferring (fun _ => False) "prod") (.start w)
      (accompanied c w).1 (accompanied c w).2 := by
  refine ends_handler (fun c' j => ⟨_, ⟨alongside c j.log c' j.state, ?_, .inl rfl⟩, rfl⟩) _ _
  have hself : Defers "prod" j.log j.state j.state :=
    ⟨fun h => h, fun h => h, fun s hs => ⟨s, hs, fun h => h⟩, fun _ => rfl⟩
  unfold alongside
  split
  · split
    · exact hself
    · rename_i hfree
      have hb : World.Possible Eq (fun _ => False) c j.state (World.answer c j.state).1
          (World.answer c j.state).2 := ⟨j.state, rfl, .inl rfl⟩
      exact defers_call (by simpa using hfree) hb
  · exact hself

/-- An operator that switches to manual promotion. -/
def switching : Call := .store (.setPromoteKind "prod" .manual)

/-- What is said of going back after an operator has switched to manual promotion. -/
theorem result_tells_deeds_accompanied :
    (accompanied switching faltering).1 = .ok (.rolledBack "gen-1") ∧
      Testimony (fun _ => False) {} "prod" (.rolledBack "gen-1")
        (accompanied switching faltering).2 := by
  have hr : (accompanied switching faltering).1 = .ok (.rolledBack "gen-1") := by cbv
  have he := ends_accompanied switching faltering
  rw [hr] at he
  exact ⟨hr, result_tells_deeds keyed_faltering unissued_faltering he⟩

end

end Promotion

end FleetControl
