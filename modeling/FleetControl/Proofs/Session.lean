import FleetControl.Proofs.Advance
import FleetControl.Proofs.Stage
import Mathlib.Logic.Relation

/-!
# Sessions of one worker

A worker advances items of one kind, singly or in passes, as often as it likes. Between any
two of its calls the others may change the world. A view reduces a session to what concerns
one item; if each call keeps the view and advancing keeps it at rest, so does every run.
-/
namespace FleetControl

open Program

/-- Whether a call asks for new hosts. -/
def Call.launches : Call → Bool
  | .provider (.launchHosts _ _ _) => true
  | _ => false

/-- Whether all calls of a run in a world get their replies, and for how many launches it
asks. -/
def Program.survey {α : Type} : Program α → World → Bool × Nat
  | done _, _ => (true, 0)
  | call c next, w =>
      let rest := (next (World.answer c w).1).survey (World.answer c w).2
      ((World.answer c w).1.isOk && rest.1, rest.2 + if c.launches then 1 else 0)

/-- The item that a stage processes. -/
def Stage.item : Stage → Option ItemId
  | processing id _ _ _ _ => some id
  | listing _ | between _ _ | ended _ => none

/-- What a worker is doing about the items of a kind. -/
inductive Activity (k : ItemKind) where
  | idle
  | advancing (id : ItemId) (rest : Program (Progress k.State))
  | passing (stage : Stage)

namespace Activity

variable {k : ItemKind}

/-- The item that is being advanced. -/
def item : Activity k → Option ItemId
  | idle => none
  | advancing id _ => some id
  | passing stage => stage.item

def move (l : Lifecycle k) : Activity k → Move (Activity k)
  | idle => .stop
  | advancing id (.call c next) => .call c fun r => advancing id (next r)
  | advancing _ (.done _) => .go idle
  | passing stage =>
      match stage.move l.controller with
      | .call c next => .call c fun r => passing (next r)
      | .go next => .go (passing next)
      | .stop => .go idle

end Activity

/-- A worker in its world, with the number of launches it asked for on behalf of the item
that is followed. -/
structure Session (k : ItemKind) where
  world : World
  activity : Activity k
  launches : Nat

namespace Session

variable {k : ItemKind}

/-- What can happen next, while one item is followed. -/
inductive Step (l : Lifecycle k) (id : ItemId) (outside : World → World → Prop)
    (B : Behaviour World) : Session k → Session k → Prop where
  /-- The others change the world. -/
  | change {s : Session k} {v : World} (h : outside s.world v) :
      Step l id outside B s { s with world := v }
  | advance {s : Session k} (j : ItemId) (now : Instant) (h : s.activity = .idle) :
      Step l id outside B s { s with activity := .advancing j (l.advance j now) }
  | pass {s : Session k} (h : s.activity = .idle) :
      Step l id outside B s
        { s with activity := .passing (.listing l.controller.candidates) }
  | call {s : Session k} {c : Call} {next : Outcome c.Reply → Activity k}
      {r : Outcome c.Reply} {w : World} (hm : s.activity.move l = .call c next)
      (hb : B c s.world r w) :
      Step l id outside B s ⟨w, next r,
        s.launches + if s.activity.item = some id ∧ c.launches = true then 1 else 0⟩
  | go {s : Session k} {next : Activity k} (hm : s.activity.move l = .go next) :
      Step l id outside B s { s with activity := next }

/-- Any number of steps. -/
abbrev Run (l : Lifecycle k) (id : ItemId) (outside : World → World → Prop)
    (B : Behaviour World) : Session k → Session k → Prop :=
  Relation.ReflTransGen (Step l id outside B)

/-- A session that has done nothing yet in a world with an item. -/
structure Begins (s : Session k) (i : Item k) : Prop where
  idle : s.activity = .idle
  launches : s.launches = 0
  stored : ∃ store, s.world.store = some store ∧ store.Has i.id i

/-- The stored version of an item, if the store is not lost and has one. -/
def stored (s : Session k) (id : ItemId) : Option (Item k) := s.world.tables.getItem k id

/-- The outcome of advancing an item, when it has just ended. -/
def Ended (s : Session k) (id : ItemId) (r : Outcome Unit) : Prop :=
  (∃ a, s.activity = .advancing id (.done a) ∧ r = a.map fun _ => ()) ∨
    ∃ lock todo report, s.activity = .passing (.processing id lock (.done r) todo report)

/-- A worker that has done nothing yet, in a world with one cluster and one item. -/
def start (cluster : Cluster) (i : Item k) : Session k :=
  let clusters := (Table.empty : Table Cluster).insert cluster.name cluster
  ⟨{ World.initial i.header.createdAt (.seeded 0) with
    store := some ({ Store.empty with clusters := clusters }.putItem k i) }, .idle, 0⟩

theorem begins_start (cluster : Cluster) (i : Item k) : (start cluster i).Begins i where
  idle := rfl
  launches := rfl
  stored := by
    refine ⟨_, rfl, ?_, ?_⟩
    · rw [Store.putItem, Store.items_withItems]
      refine Table.KeyedBy.insert ?_ i
      cases k <;> exact .empty
    · rw [Store.getItem_putItem, if_pos rfl]

variable {l : Lifecycle k} {id : ItemId} {outside : World → World → Prop}
  {B : Behaviour World}

/-- Advancing an item as the world answers is part of a run, if all calls get their replies. -/
theorem run_advancing (hB : ∀ c w a, (World.answer c w).1 = .ok a →
      B c w (World.answer c w).1 (World.answer c w).2) (j : ItemId)
    (p : Program (Progress k.State)) (w : World) (n : Nat) (h : (p.survey w).1 = true) :
    Run l id outside B ⟨w, .advancing j p, n⟩
      ⟨(p.run World.answer w).2, .idle, n + if j = id then (p.survey w).2 else 0⟩ := by
  induction p generalizing w n with
  | done r =>
      have hstep : Step l id outside B ⟨w, .advancing j (done r), n⟩ ⟨w, .idle, n⟩ := .go rfl
      simpa [survey] using Relation.ReflTransGen.single hstep
  | call c next ih =>
      simp only [survey, Bool.and_eq_true] at h
      obtain ⟨hok, hnext⟩ := h
      have hb : B c w (World.answer c w).1 (World.answer c w).2 := by
        cases hr : (World.answer c w).1 with
        | ok a => exact hr ▸ hB c w a hr
        | error f => simp [hr, Except.isOk, Except.toBool] at hok
      have hstep : Step l id outside B ⟨w, .advancing j (call c next), n⟩ _ :=
        .call (c := c) (r := (World.answer c w).1) rfl hb
      refine (Relation.ReflTransGen.single hstep).trans ?_
      have hrest := ih (World.answer c w).1 (World.answer c w).2
        (n + if j = id ∧ c.launches = true then 1 else 0) hnext
      have hcount : (n + if j = id ∧ c.launches = true then 1 else 0) +
          (if j = id then ((next (World.answer c w).1).survey (World.answer c w).2).2 else 0) =
            n + if j = id then ((call c next).survey w).2 else 0 := by
        by_cases hj : j = id
        · simp only [hj, survey, true_and, if_true]
          omega
        · simp only [hj, false_and, if_false]
      rw [hcount] at hrest
      simp only [Activity.item, Option.some.injEq]
      exact hrest

/-- An idle worker can advance an item as the world answers. -/
theorem exists_run_advance (hB : ∀ c w a, (World.answer c w).1 = .ok a →
      B c w (World.answer c w).1 (World.answer c w).2) {s : Session k} (hs : s.activity = .idle)
    (j : ItemId) (now : Instant) (h : ((l.advance j now).survey s.world).1 = true) :
    ∃ t, Run l id outside B s t ∧ t.activity = .idle ∧
      t.world = ((l.advance j now).run World.answer s.world).2 ∧
      t.launches = s.launches + if j = id then ((l.advance j now).survey s.world).2 else 0 :=
  ⟨_, .head (.advance j now hs) (run_advancing hB j _ _ _ h), rfl, rfl, rfl⟩

end Session

/-- What a session shows about one item. Calls behave depending on the item on whose behalf
they are made; each is one of the allowed `changes`, and `rest` holds between two
advancements. -/
structure View {k : ItemKind} (l : Lifecycle k) (id : ItemId) (outside : World → World → Prop)
    (B : Behaviour World) (τ : Type) where
  shows : World → Nat → τ → Prop
  behaves : Option ItemId → Behaviour τ
  changes : τ → τ → Prop
  rest : τ → Prop
  /-- The faults with which advancing the item may end. -/
  faults : Fault → Prop
  shows_outside : ∀ {w v n t}, shows w n t → outside w v → shows v n t
  shows_call : ∀ {w w' n t} {c : Call} {r : Outcome c.Reply} (o : Option ItemId),
    shows w n t → B c w r w' → ∃ t',
      shows w' (n + if o = some id ∧ c.launches = true then 1 else 0) t' ∧ behaves o c t r t'
  quiet : ∀ {t t'} {c : Call} {r : Outcome c.Reply} {o : Option ItemId}, rest t →
    c.spares k = true → c.launches = false → behaves o c t r t' →
      changes t t' ∧ rest t' ∧ (o = some id → FailsOnly faults r)
  advance : ∀ {t} (j : ItemId) (now : Instant), rest t →
    (l.advance j now).Keeps (behaves (some j)) changes
      (fun r t => rest t ∧ (j = id → FailsOnly faults r)) t

namespace View

variable {k : ItemKind} {l : Lifecycle k} {id : ItemId} {outside : World → World → Prop}
  {B : Behaviour World} {τ : Type} (V : View l id outside B τ)

/-- What is left of advancing an item keeps the view and ends at rest. -/
def Advances {α : Type} (j : ItemId) (p : Program α) (t : τ) : Prop :=
  p.Keeps (V.behaves (some j)) V.changes
    (fun r t => V.rest t ∧ (j = id → FailsOnly V.faults r)) t

/-- What is left of a stage keeps the view. -/
def SafeStage : Stage → τ → Prop
  | .listing p, t => p.Keeps (V.behaves none) V.changes (fun _ => V.rest) t
  | .processing j _ p _ _, t => V.Advances j p t
  | .between _ _, t | .ended _, t => V.rest t

def SafeActivity : Activity k → τ → Prop
  | .idle, t => V.rest t
  | .advancing j p, t => V.Advances j p t
  | .passing stage, t => V.SafeStage stage t

/-- The session shows a view that what is left to do keeps. -/
def Safe (s : Session k) (t : τ) : Prop :=
  V.shows s.world s.launches t ∧ V.SafeActivity s.activity t

variable {V} {t t' : τ}

theorem advances_process (j : ItemId) (h : V.rest t) :
    V.Advances j (l.controller.process j) t := by
  refine keeps_bind.mpr (keeps_perform.mpr fun r t' hb => ?_)
  obtain ⟨hc, hr, hf⟩ := V.quiet h rfl rfl hb
  refine ⟨hc, ?_⟩
  cases r with
  | error f => exact ⟨hr, fun hj => hf (congrArg some hj)⟩
  | ok now =>
      refine keeps_bind.mpr ((V.advance j now hr).imp ?_)
      rintro (f | progress) u ⟨hu, hf⟩
      · exact ⟨hu, hf⟩
      · exact ⟨hu, fun _ => trivial⟩

/-- The calls of a stage keep the view. -/
theorem safeStage_call {stage : Stage} {c : Call} {next : Outcome c.Reply → Stage}
    {r : Outcome c.Reply} (h : V.SafeStage stage t)
    (hm : stage.move l.controller = .call c next) (hb : V.behaves stage.item c t r t') :
    V.changes t t' ∧ V.SafeStage (next r) t' := by
  cases stage with
  | listing p =>
      rcases p with ((_ | _) | ids) | ⟨q, next⟩ <;> cases hm
      · obtain ⟨hc, hr, -⟩ := V.quiet h rfl rfl hb
        refine ⟨hc, ?_⟩
        cases r <;> exact hr
      · exact h r t' hb
  | between todo report =>
      cases todo with
      | nil => cases hm
      | cons j todo =>
          cases hm
          obtain ⟨hc, hr, -⟩ := V.quiet h rfl rfl hb
          refine ⟨hc, ?_⟩
          rcases r with (_ | _) | _ | token
          · exact hr
          · exact hr
          · exact hr
          · exact advances_process j hr
  | processing j lock p todo report =>
      rcases p with out | ⟨q, next⟩
      · rcases lock with _ | ⟨name, token⟩ <;> cases hm
        obtain ⟨hc, hr, -⟩ := V.quiet h.1 rfl rfl hb
        refine ⟨hc, ?_⟩
        rcases r with (_ | _) | _ <;> exact hr
      · rcases lock with _ | ⟨name, token⟩ <;> cases hm <;> exact h r t' hb
  | ended result => cases hm

/-- Steps of a stage without a call leave the view as it is. -/
theorem safeStage_go {stage next : Stage} (h : V.SafeStage stage t)
    (hm : stage.move l.controller = .go next) : V.SafeStage next t := by
  cases stage with
  | listing p =>
      rcases p with ((_ | _) | ids) | ⟨q, next⟩ <;> cases hm
      · exact h
      · exact h
  | between todo report =>
      cases todo with
      | nil =>
          cases hm
          exact h
      | cons j todo => cases hm
  | processing j lock p todo report =>
      rcases p with out | ⟨q, next⟩
      · rcases lock with _ | ⟨name, token⟩ <;> cases hm
        exact h.1
      · rcases lock with _ | ⟨name, token⟩ <;> cases hm
  | ended result => cases hm

theorem safeActivity_call {a : Activity k} {c : Call} {next : Outcome c.Reply → Activity k}
    {r : Outcome c.Reply} (h : V.SafeActivity a t) (hm : a.move l = .call c next)
    (hb : V.behaves a.item c t r t') : V.changes t t' ∧ V.SafeActivity (next r) t' := by
  cases a with
  | idle => cases hm
  | advancing j p =>
      rcases p with out | ⟨q, next⟩ <;> cases hm
      exact h r t' hb
  | passing stage =>
      simp only [Activity.move] at hm
      split at hm <;> cases hm
      rename_i hs
      exact safeStage_call h hs hb

theorem safeActivity_go {a next : Activity k} (h : V.SafeActivity a t)
    (hm : a.move l = .go next) : V.SafeActivity next t := by
  cases a with
  | idle => cases hm
  | advancing j p =>
      rcases p with out | ⟨q, next⟩ <;> cases hm
      exact h.1
  | passing stage =>
      simp only [Activity.move] at hm
      split at hm <;> cases hm
      · rename_i hs
        exact safeStage_go h hs
      · rename_i hs
        cases stage with
        | ended result => exact h
        | listing p => rcases p with ((_ | _) | ids) | ⟨q, next⟩ <;> cases hs
        | between todo report =>
            cases todo with
            | nil => cases hs
            | cons j todo => cases hs
        | processing j lock p todo report =>
            rcases p with out | ⟨q, next⟩ <;> rcases lock with _ | ⟨name, token⟩ <;> cases hs

variable {s s' : Session k}

/-- The rest at which a session begins is safe. -/
theorem safe_of_begins {i : Item k} (hb : s.Begins i) (hs : V.shows s.world 0 t)
    (hr : V.rest t) : V.Safe s t := by
  refine ⟨hb.launches ▸ hs, ?_⟩
  rw [hb.idle]
  exact hr

theorem Safe.activity (h : V.Safe s t) {a : Activity k} (ha : s.activity = a) :
    V.SafeActivity a t := ha ▸ h.2

/-- A step keeps the view, and changes it only as allowed. -/
theorem Safe.step (h : V.Safe s t) (hs : s.Step l id outside B s') :
    ∃ t', V.Safe s' t' ∧ (t' = t ∨ V.changes t t') := by
  cases hs with
  | change hv => exact ⟨t, ⟨V.shows_outside h.1 hv, h.2⟩, .inl rfl⟩
  | advance j now ha =>
      have hr : V.rest t := h.activity ha
      exact ⟨t, ⟨h.1, V.advance j now hr⟩, .inl rfl⟩
  | pass ha =>
      have hr : V.rest t := h.activity ha
      refine ⟨t, ⟨h.1, keeps_perform.mpr fun r t' hb => ?_⟩, .inl rfl⟩
      obtain ⟨hc, hr', -⟩ := V.quiet hr rfl rfl hb
      exact ⟨hc, hr'⟩
  | call hm hb =>
      obtain ⟨t', hshows, hb'⟩ := V.shows_call s.activity.item h.1 hb
      obtain ⟨hc, ha⟩ := safeActivity_call h.2 hm hb'
      exact ⟨t', ⟨hshows, ha⟩, .inr hc⟩
  | go hm => exact ⟨t, ⟨h.1, safeActivity_go h.2 hm⟩, .inl rfl⟩

/-- Any run keeps the view, through allowed changes. -/
theorem Safe.run (h : V.Safe s t)
    (hs : Session.Run l id outside B s s') :
    ∃ t', V.Safe s' t' ∧ Relation.ReflTransGen V.changes t t' := by
  induction hs with
  | refl => exact ⟨t, h, .refl⟩
  | tail _ hstep ih =>
      obtain ⟨u, hu, hr⟩ := ih
      obtain ⟨t', ht, rfl | hc⟩ := hu.step hstep
      · exact ⟨_, ht, hr⟩
      · exact ⟨t', ht, hr.tail hc⟩

/-- Advancing the item ends with no other faults than those of the view. -/
theorem Safe.failsOnly (h : V.Safe s t) {r : Outcome Unit} (hr : s.Ended id r) :
    FailsOnly V.faults r := by
  rcases hr with ⟨a, ha, rfl⟩ | ⟨lock, todo, report, ha⟩
  · have hs : V.Advances id (done a) t := h.activity ha
    have hf := hs.2 rfl
    cases a <;> exact hf
  · have hs : V.Advances id (done r) t := h.activity ha
    exact hs.2 rfl

end View

/-! ## The view of an item in a course -/

namespace Lifecycle.Course

variable {k : ItemKind} {l : Lifecycle k} {Sound : Item k → Prop}
  {Drafts Follows : Item k → Item k → Prop}

/-- The item itself, while nobody else writes it. -/
def view (h : l.Course Sound Drafts Follows) (id : ItemId) (raises : Fault → Prop) :
    View l id (World.Untouched k id) (World.Possible Eq raises) (Item k) where
  shows w _ i := w.Shows id i
  behaves _ := Item.Possible k id fun f => f.isBreach = true → raises f
  changes y z := Sound z ∧ Follows y z
  rest := Sound
  faults f := f.isBreach = true → raises f
  shows_outside hs hv := hs.outside hv
  shows_call _ hs hb := hs.possible hb
  quiet {t t'} c r o ht hc _ hb := by
    rcases hb.eq_or_stored with rfl | ⟨-, rfl⟩
    · exact ⟨⟨ht, h.refl _⟩, ht, fun _ => hb.failsOnly⟩
    · simp [Call.spares] at hc
  advance j now hs := h.keeps_advance (fun f hf hb => by simp [hf] at hb) hs j now

variable {h : l.Course Sound Drafts Follows} {id : ItemId} {raises : Fault → Prop}
  {s : Session k} {i j : Item k}

theorem safe_of_begins (hb : s.Begins i) (hid : i.id = id) (hs : Sound i) :
    (h.view id raises).Safe s i := by
  subst hid
  refine View.safe_of_begins hb (fun store hstore => ?_) hs
  obtain ⟨store', hs', hhas⟩ := hb.stored
  cases hstore.symm.trans hs'
  exact hhas

/-- What is stored is what the view shows. -/
theorem eq_of_stored (hs : (h.view id raises).Safe s i) (hj : s.stored id = some j) :
    j = i := by
  have hshows : s.world.Shows id i := hs.1
  simp only [Session.stored, World.tables] at hj
  cases hstore : s.world.store with
  | none =>
      rw [hstore] at hj
      cases k <;> cases hj
  | some store =>
      rw [hstore] at hj
      exact Option.some.inj (hj.symm.trans (hshows store hstore).2)

/-- What is stored follows what was stored before, through sound versions. -/
theorem stored_run (hs : (h.view id raises).Safe s i) {t : Session k}
    (hrun : Session.Run l id (World.Untouched k id) (World.Possible Eq raises) s t)
    (hj : t.stored id = some j) :
    Relation.ReflTransGen (fun y z => Sound z ∧ Follows y z) i j := by
  obtain ⟨i', ht, hr⟩ := hs.run hrun
  exact (eq_of_stored ht hj) ▸ hr

end Lifecycle.Course

end FleetControl
