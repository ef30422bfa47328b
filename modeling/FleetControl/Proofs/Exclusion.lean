import FleetControl.Proofs.Honesty
import FleetControl.Proofs.Stage
import Mathlib.Logic.Function.Basic
import Mathlib.Logic.Relation

/-!
# Mutual exclusion of workers

Any number of workers make passes over one table of locks, and at every moment any of them
may go on by one call. Calls other than those of locks may be answered in any way, and each
call may fail. Whoever was given the token of a lock holds it until giving it back; at most
one worker holds a lock at a time, so at most one processes an item.
-/
namespace FleetControl

/-! ## Names of locks -/

theorem eq_of_append_cons_eq {α : Type} {a : α} {xs ys us vs : List α} (hx : a ∉ xs)
    (hy : a ∉ ys) (h : xs ++ a :: us = ys ++ a :: vs) : xs = ys ∧ us = vs := by
  induction xs generalizing ys with
  | nil =>
      cases ys with
      | nil => exact ⟨rfl, (List.cons.inj h).2⟩
      | cons y ys => exact absurd (List.cons.inj h).1 (List.ne_of_not_mem_cons hy)
  | cons x xs ih =>
      cases ys with
      | nil => exact absurd (List.cons.inj h).1.symm (List.ne_of_not_mem_cons hx)
      | cons y ys =>
          obtain ⟨rfl, ht⟩ := List.cons.inj h
          obtain ⟨rfl, hr⟩ := ih (List.not_mem_of_not_mem_cons hx)
            (List.not_mem_of_not_mem_cons hy) ht
          exact ⟨rfl, hr⟩

/-- A start without a dash can be read off a lock's name, whatever the id. -/
theorem eq_of_lockOf_eq {pre pre' id id' : String} (h : '-' ∉ pre.toList)
    (h' : '-' ∉ pre'.toList) (he : lockOf pre id = lockOf pre' id') : pre = pre' ∧ id = id' := by
  have hl : pre.toList ++ '-' :: id.toList = pre'.toList ++ '-' :: id'.toList := by
    simpa [lockOf] using congrArg String.toList he
  obtain ⟨hp, hi⟩ := eq_of_append_cons_eq h h' hl
  exact ⟨String.toList_injective hp, String.toList_injective hi⟩

/-- The starts of the names of all locks. -/
def lockPrefixes : List String :=
  [Replacement.lockPrefix, ImageCheck.lockPrefix, Promotion.lockPrefix,
    Decommission.lockPrefix, TagCoverage.lockPrefix, ImageCheck.imageLockPrefix]

theorem dash_not_mem {pre : String} (h : pre ∈ lockPrefixes) : '-' ∉ pre.toList := by
  revert pre
  decide +kernel

/-! ## Who holds which lock -/

/-- How a call may be answered and what becomes of the locks. A call that fails may have
had its effect. -/
def LockTable.Answers : (c : Call) → LockTable → Outcome c.Reply → LockTable → Prop
  | .acquire name, t, r, t' =>
      (r = .ok (t.acquire name).1 ∧ t' = (t.acquire name).2) ∨
        ((∃ f, r = .error f) ∧ (t' = t ∨ t' = (t.acquire name).2))
  | .release name token, t, r, t' =>
      t.release? name token = some t' ∨ ((∃ f, r = .error f) ∧ t' = t)
  | _, t, _, t' => t' = t

theorem LockTable.answers_iff_eq {c : Call} {t t' : LockTable} {r : Outcome c.Reply}
    (h : c.isLockless = true) : t.Answers c r t' ↔ t' = t := by
  cases c <;> first | rfl | cases h

/-- The calls of a world are answered so, if the others leave the locks alone. -/
theorem World.Possible.answers {outside : World → World → Prop} {raises : Fault → Prop}
    {c : Call} {w w' : World} {r : Outcome c.Reply} (h : World.Possible outside raises c w r w')
    (ho : ∀ u v, outside u v → v.locks = u.locks) : w.locks.Answers c r w'.locks := by
  obtain ⟨v, hv, hb⟩ := h
  rw [← ho w v hv]
  by_cases hc : c.isLockless = true
  · rw [LockTable.answers_iff_eq hc]
    rcases hb with hb | ⟨f, -, -, rfl | rfl⟩
    · have hl := World.locks_answer (w := v) hc
      rwa [hb] at hl
    · rfl
    · exact World.locks_answer hc
  · cases c with
    | acquire name =>
        rcases hb with hb | ⟨f, -, rfl, rfl | rfl⟩
        · cases hb
          exact .inl ⟨rfl, rfl⟩
        · exact .inr ⟨⟨f, rfl⟩, .inl rfl⟩
        · exact .inr ⟨⟨f, rfl⟩, .inr rfl⟩
    | release name token =>
        simp only [World.answer, World.release] at hb
        cases hr : v.locks.release? name token with
        | some t =>
            rw [hr] at hb
            rcases hb with hb | ⟨f, -, rfl, rfl | rfl⟩
            · cases hb
              exact .inl hr
            · exact .inr ⟨⟨f, rfl⟩, rfl⟩
            · exact .inl hr
        | none =>
            rw [hr] at hb
            rcases hb with hb | ⟨f, -, rfl, rfl | rfl⟩
            · cases hb
              exact .inr ⟨⟨_, rfl⟩, rfl⟩
            · exact .inr ⟨⟨f, rfl⟩, rfl⟩
            · exact .inr ⟨⟨f, rfl⟩, rfl⟩
    | now | shuffle | post | note | store | provider => exact absurd rfl hc

/-- Only the token of its holder frees a name. -/
theorem LockTable.eq_of_release? {t t' : LockTable} {name : String} {token holder : Token}
    (hr : t.release? name token = some t') (hn : t.holder? name = some holder) :
    holder = token := by
  by_contra hne
  rw [LockTable.release?_eq_none_iff.mpr ⟨holder, hn, hne⟩] at hr
  cases hr

/-- What is true of the holders of locks and of the tokens that were given away: a holder's
token is that of the table, no two holders share one, and no program was given the token of
a lock that somebody else holds. -/
structure Holdings {ι : Type} (holds : ι → String → Token → Prop) (given : ι → Token → Prop)
    (t : LockTable) : Prop where
  inTable : ∀ {i name token}, holds i name token → t.holder? name = some token
  issued : ∀ {i name token}, holds i name token → ∃ n < t.issued, token = .issued n
  givenIssued : ∀ {i n}, given i (.issued n) → n < t.issued
  unique : ∀ {i j name name' token}, holds i name token → holds j name' token → i = j
  own : ∀ {i j name token}, given i token → holds j name token → i = j

namespace Holdings

variable {ι : Type} {holds holds' : ι → String → Token → Prop} {given given' : ι → Token → Prop}
  {t t' : LockTable}

theorem mono (h : Holdings holds given t) (hh : ∀ i name token, holds' i name token →
    holds i name token) (hg : ∀ i token, given' i token → given i token) :
    Holdings holds' given' t where
  inTable h' := h.inTable (hh _ _ _ h')
  issued h' := h.issued (hh _ _ _ h')
  givenIssued h' := h.givenIssued (hg _ _ h')
  unique h' h'' := h.unique (hh _ _ _ h') (hh _ _ _ h'')
  own h' h'' := h.own (hg _ _ h') (hh _ _ _ h'')

/-- The holder of a name is one. -/
theorem eq_of_holds (h : Holdings holds given t) {i j : ι} {name : String} {a b : Token}
    (ha : holds i name a) (hb : holds j name b) : i = j := by
  obtain rfl : a = b := Option.some.inj ((h.inTable ha).symm.trans (h.inTable hb))
  exact h.unique ha hb

/-- Taking a lock, whether or not the taker hears of it. -/
theorem acquire (h : Holdings holds given t) {i : ι} {name : String} {token : Token}
    (ha : t.acquire name = (some token, t'))
    (hh : ∀ j n u, holds' j n u → holds j n u ∨ (j = i ∧ n = name ∧ u = token))
    (hg : ∀ j u, given' j u → given j u ∨ (j = i ∧ u = token)) : Holdings holds' given' t' := by
  have hfree : t.holder? name = none := by
    cases hn : t.holder? name with
    | none => rfl
    | some holder =>
        rw [LockTable.acquire_of_held hn] at ha
        cases ha
  rw [LockTable.acquire_of_free hfree] at ha
  cases ha
  have hnew : ∀ {j n}, ¬holds j n (.issued t.issued) := by
    intro j n hj
    obtain ⟨k, hk, he⟩ := h.issued hj
    cases he
    exact Nat.lt_irrefl _ hk
  refine ⟨fun hj => ?_, fun hj => ?_, fun hj => ?_, fun hj hk => ?_, fun hj hk => ?_⟩
  · rcases hh _ _ _ hj with hj | ⟨-, rfl, rfl⟩
    · have hn := h.inTable hj
      refine (Table.get?_insert_of_ne t.held _ ?_).trans hn
      rintro rfl
      rw [hfree] at hn
      cases hn
    · exact Table.get?_insert_self t.held _ _
  · rcases hh _ _ _ hj with hj | ⟨-, -, rfl⟩
    · obtain ⟨n, hn, rfl⟩ := h.issued hj
      exact ⟨n, Nat.lt_succ_of_lt hn, rfl⟩
    · exact ⟨t.issued, Nat.lt_succ_self _, rfl⟩
  · rcases hg _ _ hj with hj | ⟨-, he⟩
    · exact Nat.lt_succ_of_lt (h.givenIssued hj)
    · cases he
      exact Nat.lt_succ_self _
  · rcases hh _ _ _ hj with hj | ⟨rfl, -, rfl⟩ <;> rcases hh _ _ _ hk with hk | ⟨rfl, -, he⟩
    · exact h.unique hj hk
    · exact absurd (he ▸ hj) hnew
    · exact absurd hk hnew
    · rfl
  · rcases hg _ _ hj with hj | ⟨rfl, rfl⟩ <;> rcases hh _ _ _ hk with hk | ⟨rfl, -, he⟩
    · exact h.own hj hk
    · exact absurd (h.givenIssued (he ▸ hj)) (Nat.lt_irrefl _)
    · exact absurd hk hnew
    · rfl

/-- Giving a lock back that nobody else holds. -/
theorem release (h : Holdings holds given t) {i : ι} {name : String} {token : Token}
    (hr : t.release? name token = some t') (hi : ∀ j, holds j name token → j = i)
    (hh : ∀ j n u, holds' j n u → holds j n u ∧ ¬(j = i ∧ n = name ∧ u = token)) :
    Holdings holds' given t' := by
  have hissued : t'.issued = t.issued := by
    simp only [LockTable.release?] at hr
    split at hr
    · cases hr
      rfl
    · split at hr <;> cases hr
      rfl
  refine ⟨fun {j _ _} hj => ?_, fun hj => ?_, fun hj => ?_, fun hj hk => ?_, fun hj hk => ?_⟩
  · obtain ⟨hj, hne⟩ := hh _ _ _ hj
    have hn := h.inTable hj
    rw [LockTable.holder?_release? hr, if_neg ?_]
    · exact hn
    · rintro rfl
      obtain rfl := LockTable.eq_of_release? hr hn
      exact hne ⟨hi j hj, rfl, rfl⟩
  · obtain ⟨n, hn, rfl⟩ := h.issued (hh _ _ _ hj).1
    exact ⟨n, hissued ▸ hn, rfl⟩
  · exact hissued ▸ h.givenIssued hj
  · exact h.unique (hh _ _ _ hj).1 (hh _ _ _ hk).1
  · exact h.own hj (hh _ _ _ hk).1

end Holdings

/-! ## Workers over one table of locks -/

/-- A worker in the middle of a pass of a controller. -/
structure Worker where
  controller : Controller
  stage : Stage
  /-- The tokens that the listing and the processing of candidates were given. -/
  given : List Token
  /-- The locks taken and not given back, with their tokens. -/
  held : List (String × Token)

namespace Worker

/-- Whether the calls of the stage are those of the controller's own programs. -/
def runsOwn : Stage → Bool
  | .listing (.call _ _) | .processing _ _ (.call _ _) _ _ => true
  | _ => false

/-- The locks held after a call was answered. -/
def heldAfter (held : List (String × Token)) : (c : Call) → Outcome c.Reply → List (String × Token)
  | .acquire name, .ok (some token) => (name, token) :: held
  | .release name token, _ => held.filter (· ≠ (name, token))
  | _, _ => held

/-- Only giving a lock back ends its being held. -/
theorem mem_heldAfter {held : List (String × Token)} {c : Call} {r : Outcome c.Reply}
    {name : String} {token : Token} (h : (name, token) ∈ held)
    (hc : c ≠ .release name token) : (name, token) ∈ heldAfter held c r := by
  unfold heldAfter
  split
  · exact List.mem_cons_of_mem _ h
  · rename_i name' token'
    refine List.mem_filter.mpr ⟨h, ?_⟩
    simp only [ne_eq, Prod.mk.injEq, not_and, decide_eq_true_eq]
    rintro rfl rfl
    exact hc rfl
  · exact h

/-- The worker after a call was answered. -/
def after (w : Worker) (c : Call) (r : Outcome c.Reply) (next : Stage) : Worker :=
  { w with
    stage := next
    given := if runsOwn w.stage then c.gives r ++ w.given else w.given
    held := heldAfter w.held c r }

/-- What a stage says about the worker that is in it. -/
def Sound (w : Worker) : Stage → Prop
  | .listing rest => rest.Honest w.given
  | .processing _ none rest _ _ => rest.Honest w.given ∧ w.controller.lockPrefix = none
  | .processing id (some (name, token)) rest _ _ =>
      rest.Honest w.given ∧ (name, token) ∈ w.held ∧ token ∉ w.given ∧
        ∃ pre, w.controller.lockPrefix = some pre ∧ name = lockOf pre id
  | .between _ _ | .ended _ => True

variable {w : Worker} {s next : Stage} {c : Call} {r : Outcome c.Reply}
  {step : Outcome c.Reply → Stage}

/-- A worker that goes on by itself comes to a stage that says the truth. -/
theorem sound_of_go (hm : s.move w.controller = .go next) (hc : w.controller.Honest)
    (hs : w.Sound s) : ({ w with stage := next } : Worker).Sound next := by
  cases s with
  | listing rest =>
      rcases rest with ((_ | _) | _) | _ <;> cases hm <;> trivial
  | between todo report =>
      cases todo with
      | nil =>
          cases hm
          trivial
      | cons id todo =>
          simp only [Stage.move] at hm
          split at hm
          · rename_i hl
            cases hm
            exact ⟨(hc.process id).mono (List.nil_subset _), hl⟩
          · cases hm
  | processing id lock rest todo report =>
      rcases lock with _ | lock <;> cases rest <;> cases hm
      trivial
  | ended result => cases hm

/-- A worker that makes a call comes to a stage that says the truth, if a token that it is
given is new to it. -/
theorem sound_of_call (hm : w.stage.move w.controller = .call c step) (hc : w.controller.Honest)
    (hs : w.Sound w.stage) (hnew : ∀ token ∈ c.gives r, token ∉ w.given ∧
      ∀ name, (name, token) ∉ w.held)
    (hissued : ∀ name token, (name, token) ∈ w.held → ∃ n, token = .issued n) :
    (w.after c r (step r)).Sound (step r) := by
  obtain ⟨controller, stage, given, held⟩ := w
  cases stage with
  | listing rest =>
      rcases rest with ((_ | _) | ids) | ⟨q, next⟩ <;> cases hm
      · cases r <;> trivial
      · exact hs.2 r
  | between todo report =>
      cases todo with
      | nil => cases hm
      | cons id todo =>
          simp only [Stage.move] at hm
          split at hm
          · cases hm
          · rename_i pre hl
            cases hm
            rcases r with (_ | _) | _ | token
            · trivial
            · trivial
            · trivial
            · exact ⟨(hc.process id).mono (List.nil_subset _), List.mem_cons_self,
                (hnew token List.mem_cons_self).1, pre, hl, rfl⟩
  | processing id lock rest todo report =>
      rcases lock with _ | ⟨name, token⟩ <;> rcases rest with out | ⟨q, next⟩ <;> cases hm
      · exact ⟨hs.1.2 r, hs.2⟩
      · rcases r with (_ | _) | _ <;> trivial
      · obtain ⟨hrest, hheld, hgiven, hname⟩ := hs
        refine ⟨hrest.2 r, mem_heldAfter hheld ?_, fun hmem => ?_, hname⟩
        · obtain ⟨n, rfl⟩ := hissued name token hheld
          rintro rfl
          exact hgiven hrest.1
        · rcases List.mem_append.mp hmem with hmem | hmem
          · exact (hnew token hmem).2 name hheld
          · exact hgiven hmem
  | ended result => cases hm

end Worker

/-- Workers and the locks that they share. -/
structure Crew (ι : Type) where
  worker : ι → Worker
  locks : LockTable

namespace Crew

variable {ι : Type}

/-- The invariant that carries mutual exclusion. -/
structure Safe (s : Crew ι) : Prop where
  holdings : Holdings (fun i name token => (name, token) ∈ (s.worker i).held)
    (fun i token => token ∈ (s.worker i).given) s.locks
  honest : ∀ i, (∃ r, (s.worker i).stage = .ended r) ∨ (s.worker i).controller.Honest
  sound : ∀ i, (s.worker i).Sound (s.worker i).stage

/-- A crew none of whose workers has begun. -/
def IsFresh (s : Crew ι) : Prop :=
  ∀ i, (s.worker i).given = [] ∧ (s.worker i).held = [] ∧ ∃ r, (s.worker i).stage = .ended r

theorem safe_of_isFresh {s : Crew ι} (h : IsFresh s) : Safe s where
  holdings := by
    refine ⟨fun {i _ _} hi => ?_, fun {i _ _} hi => ?_, fun {i _} hi => ?_,
      fun {i _ _ _ _} hi => ?_, fun {i _ _ _} hi => ?_⟩
    · simp [(h i).2.1] at hi
    · simp [(h i).2.1] at hi
    · simp [(h i).1] at hi
    · simp [(h i).2.1] at hi
    · simp [(h i).1] at hi
  honest i := .inl (h i).2.2
  sound i := by
    obtain ⟨-, -, r, hr⟩ := h i
    rw [hr]
    trivial

/-- Who gives a lock back holds it, or nobody does under that token. -/
theorem Safe.eq_of_release {s : Crew ι} (h : Safe s) {i j : ι} {name : String} {token : Token}
    {next : Outcome Unit → Stage}
    (hm : (s.worker i).stage.move (s.worker i).controller = .call (.release name token) next)
    (hj : (name, token) ∈ (s.worker j).held) : j = i := by
  have hown : (Call.release name token).isHonest (s.worker i).given → j = i := by
    intro hc
    obtain ⟨n, -, rfl⟩ := h.holdings.issued hj
    exact (h.holdings.own hc hj).symm
  have hs := h.sound i
  cases hst : (s.worker i).stage with
  | listing rest =>
      rw [hst] at hm hs
      rcases rest with ((_ | _) | _) | _ <;> cases hm
      exact hown hs.1
  | between todo report =>
      rw [hst] at hm
      cases todo with
      | nil => cases hm
      | cons id todo =>
          simp only [Stage.move] at hm
          split at hm <;> cases hm
  | processing id lock rest todo report =>
      rw [hst] at hm hs
      rcases lock with _ | ⟨name', token'⟩ <;> rcases rest with out | ⟨q, step⟩ <;> cases hm
      · exact hown hs.1.1
      · exact h.holdings.unique hj hs.2.1
      · exact hown hs.1.1
  | ended result =>
      rw [hst] at hm
      cases hm

/-- A token that an answer gives was never seen before. -/
theorem Safe.new_of_gives {s : Crew ι} (h : Safe s) {c : Call} {r : Outcome c.Reply}
    {t : LockTable} (ha : s.locks.Answers c r t) {token : Token} (hg : token ∈ c.gives r)
    (i : ι) : token ∉ (s.worker i).given ∧ ∀ name, (name, token) ∉ (s.worker i).held := by
  cases c with
  | acquire name =>
      rcases ha with ⟨rfl, -⟩ | ⟨⟨f, rfl⟩, -⟩
      · cases hn : s.locks.holder? name with
        | some holder =>
            rw [LockTable.acquire_of_held hn] at hg
            cases hg
        | none =>
            rw [LockTable.acquire_of_free hn] at hg
            obtain rfl := List.mem_singleton.mp hg
            refine ⟨fun hi => Nat.lt_irrefl _ (h.holdings.givenIssued hi), fun name hi => ?_⟩
            obtain ⟨n, hn, he⟩ := h.holdings.issued hi
            cases he
            exact Nat.lt_irrefl _ hn
      · cases hg
  | _ => cases hg

variable [DecidableEq ι]

/-- One worker does one thing. -/
inductive Step : Crew ι → Crew ι → Prop where
  /-- A worker whose pass is over begins a pass of an honest controller. -/
  | start {s : Crew ι} (i : ι) {c : Controller} (h : c.Honest) {r : Outcome PassReport}
      (hi : (s.worker i).stage = .ended r) :
      Step s ⟨Function.update s.worker i
        { s.worker i with controller := c, stage := .listing c.candidates }, s.locks⟩
  /-- A worker goes on without a call. -/
  | go {s : Crew ι} (i : ι) {next : Stage}
      (hm : (s.worker i).stage.move (s.worker i).controller = .go next) :
      Step s ⟨Function.update s.worker i { s.worker i with stage := next }, s.locks⟩
  /-- A worker makes its next call. -/
  | call {s : Crew ι} (i : ι) {c : Call} {next : Outcome c.Reply → Stage}
      (hm : (s.worker i).stage.move (s.worker i).controller = .call c next)
      {r : Outcome c.Reply} {t : LockTable} (ha : s.locks.Answers c r t) :
      Step s ⟨Function.update s.worker i ((s.worker i).after c r (next r)), t⟩

/-- A worker that has come to be `w` makes its next call. -/
theorem Step.again {s : Crew ι} {i : ι} {w : Worker} {c : Call} {next : Outcome c.Reply → Stage}
    (hm : w.stage.move w.controller = .call c next) {r : Outcome c.Reply} {t : LockTable}
    (ha : s.locks.Answers c r t) : Step ⟨Function.update s.worker i w, s.locks⟩
      ⟨Function.update s.worker i (w.after c r (next r)), t⟩ := by
  let u : Crew ι := ⟨Function.update s.worker i w, s.locks⟩
  have hw : u.worker i = w := Function.update_self i w s.worker
  have hcall := Step.call (s := u) i (hw.symm ▸ hm) ha
  rwa [hw, Function.update_idem] at hcall

/-- A state that a fresh crew can come to. -/
def Reachable (s : Crew ι) : Prop := ∃ s₀, IsFresh s₀ ∧ Relation.ReflTransGen Step s₀ s

/-- A step of one worker that keeps its own part of the invariant keeps the others'. -/
theorem Safe.update {s : Crew ι} (h : Safe s) {i : ι} {w : Worker} {t : LockTable}
    (hholdings : Holdings
      (fun j name token => (name, token) ∈ (Function.update s.worker i w j).held)
      (fun j token => token ∈ (Function.update s.worker i w j).given) t)
    (hhonest : w.controller.Honest) (hsound : w.Sound w.stage) :
    Safe ⟨Function.update s.worker i w, t⟩ where
  holdings := hholdings
  honest j := by
    by_cases hj : j = i
    · subst hj
      simp [hhonest]
    · simpa [hj] using h.honest j
  sound j := by
    by_cases hj : j = i
    · subst hj
      simpa using hsound
    · simpa [hj] using h.sound j

/-- A worker who neither takes nor gives back anything leaves the holdings as they are. -/
theorem Safe.holdings_update {s : Crew ι} (h : Safe s) {i : ι} {w : Worker}
    (hheld : w.held ⊆ (s.worker i).held) (hgiven : w.given ⊆ (s.worker i).given) :
    Holdings (fun j name token => (name, token) ∈ (Function.update s.worker i w j).held)
      (fun j token => token ∈ (Function.update s.worker i w j).given) s.locks := by
  refine h.holdings.mono (fun j name token hj => ?_) fun j token hj => ?_
  · by_cases hji : j = i
    · subst hji
      exact hheld (by simpa using hj)
    · simpa [hji] using hj
  · by_cases hji : j = i
    · subst hji
      exact hgiven (by simpa using hj)
    · simpa [hji] using hj

/-- A worker who takes a lock is the only one whose holdings grow. -/
theorem Safe.holdings_taken {s : Crew ι} (h : Safe s) {i : ι} {w : Worker} {name : String}
    {token : Token} {t : LockTable} (hq : s.locks.acquire name = (some token, t))
    (hheld : ∀ n u, (n, u) ∈ w.held → (n, u) ∈ (s.worker i).held ∨ (n = name ∧ u = token))
    (hgiven : ∀ u ∈ w.given, u ∈ (s.worker i).given ∨ u = token) :
    Holdings (fun j n u => (n, u) ∈ (Function.update s.worker i w j).held)
      (fun j u => u ∈ (Function.update s.worker i w j).given) t := by
  refine h.holdings.acquire (i := i) hq (fun j n u hj => ?_) fun j u hj => ?_
  · by_cases hji : j = i
    · subst hji
      simpa using hheld n u (by simpa using hj)
    · exact .inl (by simpa [hji] using hj)
  · by_cases hji : j = i
    · subst hji
      simpa using hgiven u (by simpa using hj)
    · exact .inl (by simpa [hji] using hj)

/-- A call keeps the invariant of the holdings. -/
theorem Safe.holdings_after {s : Crew ι} (h : Safe s) {i : ι} {c : Call}
    {next : Outcome c.Reply → Stage} {r : Outcome c.Reply} {t : LockTable}
    (hm : (s.worker i).stage.move (s.worker i).controller = .call c next)
    (ha : s.locks.Answers c r t) :
    Holdings (fun j name token =>
        (name, token) ∈ (Function.update s.worker i ((s.worker i).after c r (next r)) j).held)
      (fun j token =>
        token ∈ (Function.update s.worker i ((s.worker i).after c r (next r)) j).given) t := by
  cases c with
  | acquire name =>
      cases hn : s.locks.holder? name with
      | some holder =>
          have hq := LockTable.acquire_of_held hn
          rcases ha with ⟨rfl, rfl⟩ | ⟨⟨f, rfl⟩, rfl | rfl⟩
          · rw [hq]
            exact h.holdings_update (List.Subset.refl _) (by simp [Worker.after, Call.gives])
          · exact h.holdings_update (List.Subset.refl _) (by simp [Worker.after, Call.gives])
          · rw [hq]
            exact h.holdings_update (List.Subset.refl _) (by simp [Worker.after, Call.gives])
      | none =>
          have hq := LockTable.acquire_of_free hn
          simp only [LockTable.Answers, hq] at ha
          rcases ha with ⟨rfl, rfl⟩ | ⟨⟨f, rfl⟩, rfl | rfl⟩
          · refine h.holdings_taken hq (fun n u hu => ?_) fun u hu => ?_
            · simpa [Worker.after, Worker.heldAfter, or_comm] using hu
            · simp only [Worker.after, Call.gives] at hu
              split at hu
              · simpa [or_comm] using hu
              · exact .inl hu
          · exact h.holdings_update (List.Subset.refl _) (by simp [Worker.after, Call.gives])
          · refine h.holdings_taken hq (fun n u hu => .inl hu) fun u hu => .inl ?_
            simpa [Worker.after, Call.gives] using hu
  | release name token =>
      rcases ha with hr | ⟨-, rfl⟩
      · refine (h.holdings.release (i := i) hr (fun j hj => h.eq_of_release hm hj)
          fun j n u hj => ?_).mono (fun _ _ _ => id) fun j u hj => ?_
        · by_cases hji : j = i
          · subst hji
            simpa [Worker.after, Worker.heldAfter, ← not_and_or] using hj
          · simpa [hji] using hj
        · by_cases hji : j = i
          · subst hji
            simpa [Worker.after, Call.gives] using hj
          · simpa [hji] using hj
      · exact h.holdings_update List.filter_sublist.subset (by simp [Worker.after, Call.gives])
  | _ =>
      cases ha
      exact h.holdings_update (List.Subset.refl _) (by simp [Worker.after, Call.gives])

/-- Every step keeps the invariant. -/
theorem Safe.step {s s' : Crew ι} (h : Safe s) (hs : Step s s') : Safe s' := by
  have hhonest : ∀ i, (∀ r, (s.worker i).stage ≠ .ended r) → (s.worker i).controller.Honest :=
    fun i hi => (h.honest i).resolve_left fun ⟨r, hr⟩ => hi r hr
  cases hs with
  | start i hc hi =>
      refine h.update (h.holdings_update (List.Subset.refl _) (List.Subset.refl _)) hc ?_
      exact hc.candidates.mono (List.nil_subset _)
  | go i hm =>
      have hc := hhonest i fun r hr => by rw [hr] at hm; cases hm
      refine h.update (h.holdings_update (List.Subset.refl _) (List.Subset.refl _)) hc ?_
      exact Worker.sound_of_go hm hc (h.sound i)
  | call i hm ha =>
      have hc := hhonest i fun r hr => by rw [hr] at hm; cases hm
      refine h.update (h.holdings_after hm ha) hc ?_
      refine Worker.sound_of_call hm hc (h.sound i) (fun token hg => h.new_of_gives ha hg i) ?_
      intro name token hi
      obtain ⟨n, -, he⟩ := h.holdings.issued hi
      exact ⟨n, he⟩

omit [DecidableEq ι] in
/-- A lock is held once, and as the table has it. -/
theorem Safe.held_once {s : Crew ι} (h : Safe s) {i j : ι} {name : String} {a b : Token}
    (ha : (name, a) ∈ (s.worker i).held) (hb : (name, b) ∈ (s.worker j).held) :
    i = j ∧ a = b ∧ s.locks.holder? name = some a := by
  have hta := h.holdings.inTable ha
  have htb := h.holdings.inTable hb
  exact ⟨h.holdings.eq_of_holds ha hb, Option.some.inj (hta.symm.trans htb), hta⟩

theorem safe_of_reachable {s : Crew ι} (h : Reachable s) : Safe s := by
  obtain ⟨s₀, h₀, hs⟩ := h
  induction hs with
  | refl => exact safe_of_isFresh h₀
  | tail _ hstep ih => exact ih.step hstep

/-- Whether a worker processes an item of a controller with a lock prefix. -/
def Works (s : Crew ι) (i : ι) (pre id : String) : Prop :=
  (s.worker i).controller.lockPrefix = some pre ∧
    ∃ lock rest todo report, (s.worker i).stage = .processing id lock rest todo report

omit [DecidableEq ι] in
/-- Whoever processes an item holds its lock. -/
theorem Safe.holds_of_works {s : Crew ι} (h : Safe s) {i : ι} {pre id : String}
    (hw : Works s i pre id) : ∃ token, (lockOf pre id, token) ∈ (s.worker i).held := by
  obtain ⟨hp, lock, rest, todo, report, hst⟩ := hw
  have hs := h.sound i
  rw [hst] at hs
  rcases lock with _ | ⟨name, token⟩
  · rw [hs.2] at hp
    cases hp
  · obtain ⟨-, hheld, -, pre', hp', rfl⟩ := hs
    cases hp.symm.trans hp'
    exact ⟨token, hheld⟩

omit [DecidableEq ι] in
/-- A worker asks the store or the provider for something only in listing candidates and in
processing one. -/
theorem works_of_call {s : Crew ι} {i : ι} {pre : String} {c : Call}
    {next : Outcome c.Reply → Stage} (hp : (s.worker i).controller.lockPrefix = some pre)
    (hm : (s.worker i).stage.move (s.worker i).controller = .call c next)
    (hc : (∃ q, c = .store q) ∨ ∃ q, c = .provider q) :
    (∃ rest, (s.worker i).stage = .listing rest) ∨ ∃ id, Works s i pre id := by
  cases hst : (s.worker i).stage with
  | listing rest => exact .inl ⟨rest, rfl⟩
  | between todo report =>
      rw [hst] at hm
      cases todo with
      | nil => cases hm
      | cons id todo =>
          simp only [Stage.move, hp] at hm
          cases hm
          rcases hc with ⟨q, hq⟩ | ⟨q, hq⟩ <;> cases hq
  | processing id lock rest todo report => exact .inr ⟨id, hp, lock, rest, todo, report, hst⟩
  | ended result =>
      rw [hst] at hm
      cases hm

/-- Over all interleavings of any number of workers: a lock is held by at most one of them,
and it is the table's; an item is processed by at most one, who holds its lock; different
items of different controllers have different locks; and a worker that is refused an item's
lock goes on to the next one, while the store and the provider are only asked in listing and
in processing. The stages are those of a pass: the first one has all of `Controller.pass` to do
(`Stage.program_listing`), and each move goes on with what is left of it
(`Stage.program_eq`). `Passing.excludes` reads it off the passes themselves. -/
theorem exclusive {s : Crew ι} (h : Reachable s) :
    (∀ i j name a b, (name, a) ∈ (s.worker i).held → (name, b) ∈ (s.worker j).held →
      i = j ∧ a = b ∧ s.locks.holder? name = some a) ∧
    (∀ i j pre id, Works s i pre id → Works s j pre id → i = j) ∧
    (∀ i pre id, Works s i pre id → ∃ token, (lockOf pre id, token) ∈ (s.worker i).held) ∧
    (∀ pre ∈ lockPrefixes, ∀ pre' ∈ lockPrefixes, ∀ id id',
      lockOf pre id = lockOf pre' id' → pre = pre' ∧ id = id') ∧
    (∀ i pre id todo report, (s.worker i).controller.lockPrefix = some pre →
      (s.worker i).stage = .between (id :: todo) report →
      ∃ next, (s.worker i).stage.move (s.worker i).controller =
          .call (.acquire (lockOf pre id)) next ∧
        next (.ok none) = .between todo (report.count .contended)) ∧
    (∀ i pre c next, (s.worker i).controller.lockPrefix = some pre →
      (s.worker i).stage.move (s.worker i).controller = .call c next →
      ((∃ q, c = .store q) ∨ ∃ q, c = .provider q) →
      (∃ rest, (s.worker i).stage = .listing rest) ∨ ∃ id, Works s i pre id) := by
  have hsafe := safe_of_reachable h
  refine ⟨fun i j name a b => hsafe.held_once, fun i j pre id hi hj => ?_,
    fun i pre id hi => hsafe.holds_of_works hi, fun pre hp pre' hp' id id' he => ?_,
    fun i pre id todo report hp hst => ?_, fun i pre c next hp hm hc => works_of_call hp hm hc⟩
  · obtain ⟨a, ha⟩ := hsafe.holds_of_works hi
    obtain ⟨b, hb⟩ := hsafe.holds_of_works hj
    exact hsafe.holdings.eq_of_holds ha hb
  · exact eq_of_lockOf_eq (dash_not_mem hp) (dash_not_mem hp') he
  · rw [hst]
    simp only [Stage.move, hp]
    exact ⟨_, rfl, rfl⟩

/-! ## Two workers at one host -/

/-- A worker that terminates hosts, without any lock. -/
def terminator (stage : Stage) : Worker := ⟨Decommission.controller, stage, [], []⟩

def hostLock : String := lockOf Decommission.lockPrefix "a"

/-- Two such workers before their first passes. -/
def idlePair : Crew Bool := ⟨fun _ => terminator (.ended (.ok (.start 0))), .empty⟩

/-- Both were told of the same host. -/
def toldPair : Crew Bool := ⟨fun _ => terminator (.between ["a"] (.start 1)), .empty⟩

/-- The first of them is at work on the host. -/
def workingPair : Crew Bool :=
  ⟨Function.update toldPair.worker true ⟨Decommission.controller,
    .processing "a" (some (hostLock, .issued 0)) (Decommission.process "a") [] (.start 1), [],
    [(hostLock, .issued 0)]⟩, (LockTable.empty.acquire hostLock).2⟩

/-- The second one was refused the lock, and is through with its candidates. -/
def refusedPair : Crew Bool :=
  ⟨Function.update workingPair.worker false
    (terminator (.between [] ((PassReport.start 1).count .contended))), workingPair.locks⟩

/-- A worker begins a pass and is told of the host, whatever the others do. -/
theorem told_of_host {s : Crew ι} {i : ι}
    (hi : s.worker i = terminator (.ended (.ok (.start 0)))) :
    Relation.ReflTransGen Step s
      ⟨Function.update s.worker i (terminator (.between ["a"] (.start 1))), s.locks⟩ := by
  let host : Host := ⟨"a", "web", .pendingTerminate, true, .epoch, .epoch⟩
  have hstart : Step s ⟨Function.update s.worker i
      (terminator (.listing Decommission.controller.candidates)), s.locks⟩ := by
    have h := Step.start i Decommission.bracketed_controller.honest (congrArg Worker.stage hi)
    rwa [hi] at h
  have hlist := Step.again (s := s) (i := i)
    (w := terminator (.listing Decommission.controller.candidates))
    (c := .store (.hostsInStates [.pendingTerminate, .terminating])) rfl (r := .ok [host]) rfl
  have hshuffle := Step.again (s := s) (i := i) (w := terminator (.listing (.done (.ok ["a"]))))
    (c := .shuffle ["a"]) rfl (r := .ok ["a"]) rfl
  exact ((Relation.ReflTransGen.single hstart).tail hlist).tail hshuffle

theorem reachable_refusedPair : Reachable refusedPair := by
  have htold : Relation.ReflTransGen Step idlePair toldPair := by
    have hboth := (told_of_host (s := idlePair) (i := true) rfl).trans
      (told_of_host (i := false) rfl)
    have hpair : toldPair.worker = Function.update (Function.update idlePair.worker true
        (terminator (.between ["a"] (.start 1)))) false
          (terminator (.between ["a"] (.start 1))) := by
      ext i
      cases i <;> rfl
    rwa [← hpair] at hboth
  have htake : Step toldPair workingPair :=
    Step.call (s := toldPair) true (c := .acquire hostLock) rfl (.inl ⟨rfl, rfl⟩)
  have hrefuse : Step workingPair refusedPair :=
    Step.call (s := workingPair) false (c := .acquire hostLock) rfl (.inl ⟨rfl, rfl⟩)
  exact ⟨idlePair, fun _ => ⟨rfl, rfl, _, rfl⟩, (htold.tail htake).tail hrefuse⟩

/-- One worker is at work on a host of which another was told as well, and nobody else is. -/
theorem exclusive_terminating : Reachable refusedPair ∧
    Works refusedPair true Decommission.lockPrefix "a" ∧
    (refusedPair.worker false).stage = .between [] ((PassReport.start 1).count .contended) ∧
    ∀ j, Works refusedPair j Decommission.lockPrefix "a" → j = true := by
  have hworks : Works refusedPair true Decommission.lockPrefix "a" := ⟨rfl, _, _, _, _, rfl⟩
  refine ⟨reachable_refusedPair, hworks, rfl, fun j hj => ?_⟩
  exact (exclusive reachable_refusedPair).2.1 j true _ _ hj hworks

end Crew

end FleetControl
