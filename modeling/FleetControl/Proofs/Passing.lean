import FleetControl.Proofs.Exclusion

/-!
# Passes made at once

Any number of passes are made over one table of locks, and at every moment any of them may go on
by its next call. Of a pass only its calls are looked at, and the program that is left of it. A
crew makes these passes: whatever they come to, its workers come to as well, in stages that still
have to do what is left of the passes. So passes exclude each other as workers do.
-/
namespace FleetControl

namespace Crew

variable {ι : Type} [DecidableEq ι]

/-- A worker takes any number of steps without a call. -/
theorem goes_on {s : Crew ι} {i : ι} {stage : Stage}
    (h : Relation.ReflTransGen (fun a b => a.move (s.worker i).controller = .go b)
      (s.worker i).stage stage) : Relation.ReflTransGen Step s
        ⟨Function.update s.worker i { s.worker i with stage := stage }, s.locks⟩ := by
  induction h with
  | refl =>
      rw [Function.update_eq_self]
  | @tail a b _ hgo ih =>
      let u : Crew ι := ⟨Function.update s.worker i { s.worker i with stage := a }, s.locks⟩
      have hw : u.worker i = { s.worker i with stage := a } := Function.update_self ..
      have hmove : (u.worker i).stage.move (u.worker i).controller = .go b := by
        rw [hw]
        exact hgo
      have hstep := Step.go i hmove
      rw [hw, Function.update_idem] at hstep
      exact ih.tail hstep

end Crew

/-- A pass under way. -/
structure Running where
  controller : Controller
  /-- What is left of the pass. -/
  rest : Program PassReport
  /-- The locks taken and not given back, with their tokens. -/
  held : List (String × Token)

/-- Passes that are made at once over one table of locks. -/
structure Passing (ι : Type) where
  running : ι → Running
  locks : LockTable

namespace Passing

variable {ι : Type} {s s' : Passing ι} {u : Crew ι}

/-- No pass has begun. -/
def IsFresh (s : Passing ι) : Prop :=
  ∀ i, (s.running i).held = [] ∧ ∃ r, (s.running i).rest = .done r

/-- A crew that makes these passes: what its stages still have to do is what is left of them. -/
structure MadeBy (s : Passing ι) (u : Crew ι) : Prop where
  controller : ∀ i, (s.running i).controller = (u.worker i).controller
  rest : ∀ i, (s.running i).rest = (u.worker i).stage.program (u.worker i).controller
  held : ∀ i, (s.running i).held = (u.worker i).held
  locks : s.locks = u.locks

theorem madeBy_of_isFresh (h : s.IsFresh) : ∃ u : Crew ι, u.IsFresh ∧ s.MadeBy u := by
  let ended (i : ι) : Stage := .ended (h i).2.choose
  refine ⟨⟨fun i => ⟨(s.running i).controller, ended i, [], []⟩, s.locks⟩, ?_, ?_⟩
  · exact fun i => ⟨rfl, rfl, _, rfl⟩
  · exact ⟨fun _ => rfl, fun i => (h i).2.choose_spec, fun i => (h i).1, rfl⟩

variable [DecidableEq ι]

/-- A pass goes on. -/
inductive Step : Passing ι → Passing ι → Prop where
  /-- A pass of an honest controller begins where the last one is over. -/
  | start {s : Passing ι} (i : ι) {c : Controller} (h : c.Honest) {r : Outcome PassReport}
      (hi : (s.running i).rest = .done r) :
      Step s ⟨Function.update s.running i ⟨c, c.pass, (s.running i).held⟩, s.locks⟩
  /-- The next call of a pass is answered. -/
  | call {s : Passing ι} (i : ι) {c : Call} {next : Outcome c.Reply → Program PassReport}
      (hi : (s.running i).rest = .call c next) {r : Outcome c.Reply} {t : LockTable}
      (ha : s.locks.Answers c r t) :
      Step s ⟨Function.update s.running i
        ⟨(s.running i).controller, next r, Worker.heldAfter (s.running i).held c r⟩, t⟩

/-- What passes can come to that nobody has begun. -/
def Reachable (s : Passing ι) : Prop := ∃ s₀, IsFresh s₀ ∧ Relation.ReflTransGen Step s₀ s

/-- One pass and its worker change. -/
theorem MadeBy.update (h : s.MadeBy u) (i : ι) {x : Running} {w : Worker} {t t' : LockTable}
    (hc : x.controller = w.controller) (hr : x.rest = w.stage.program w.controller)
    (hh : x.held = w.held) (ht : t = t') :
    MadeBy ⟨Function.update s.running i x, t⟩ ⟨Function.update u.worker i w, t'⟩ := by
  constructor
  case locks => exact ht
  all_goals
    intro j
    by_cases hj : j = i
    · subst hj
      simpa only [Function.update_self]
    · simp only [Function.update_of_ne hj, h.controller, h.rest, h.held]

/-- A worker comes without a call to where its next call is due, or its pass is over. The crew
still makes the same passes. -/
theorem MadeBy.settle (h : s.MadeBy u) (i : ι) : ∃ v : Crew ι,
    Relation.ReflTransGen Crew.Step u v ∧ s.MadeBy v ∧
      ∀ next, (v.worker i).stage.move (v.worker i).controller ≠ .go next := by
  obtain ⟨stage, hrun, hsettled, hrest⟩ :=
    Stage.exists_settled (u.worker i).controller (u.worker i).stage
  let w : Worker := { u.worker i with stage := stage }
  have hmade : MadeBy s ⟨Function.update u.worker i w, u.locks⟩ := by
    have hupdate := h.update i (w := w) (h.controller i) ((h.rest i).trans hrest.symm)
      (h.held i) h.locks
    rwa [Function.update_eq_self] at hupdate
  refine ⟨_, Crew.goes_on hrun, hmade, ?_⟩
  simpa only [Function.update_self] using hsettled

/-- Whatever a pass does, a worker of the crew does as well. -/
theorem MadeBy.step (h : s.MadeBy u) (hs : Step s s') :
    ∃ v : Crew ι, Relation.ReflTransGen Crew.Step u v ∧ s'.MadeBy v := by
  cases hs with
  | @start i c hc r hi =>
      obtain ⟨v, hrun, hv, hsettled⟩ := h.settle i
      have hrest := hi.symm.trans (hv.rest i)
      rw [Stage.program_eq] at hrest
      cases hm : (v.worker i).stage.move (v.worker i).controller with
      | call q next =>
          rw [hm] at hrest
          cases hrest
      | go next => exact absurd hm (hsettled next)
      | stop =>
          obtain ⟨r', hstage⟩ := Stage.ended_of_stop hm
          refine ⟨_, hrun.tail (.start i hc hstage), ?_⟩
          exact hv.update i rfl (Stage.program_listing c).symm (hv.held i) hv.locks
  | @call i c next hi r t ha =>
      obtain ⟨v, hrun, hv, hsettled⟩ := h.settle i
      have hrest := hi.symm.trans (hv.rest i)
      cases hm : (v.worker i).stage.move (v.worker i).controller with
      | call q step =>
          rw [Stage.program_eq, hm] at hrest
          cases hrest
          rw [hv.locks] at ha
          refine ⟨_, hrun.tail (.call i hm ha), ?_⟩
          refine hv.update i (hv.controller i) rfl ?_ rfl
          rw [hv.held i]
          rfl
      | go next => exact absurd hm (hsettled next)
      | stop =>
          obtain ⟨r', hstage⟩ := Stage.ended_of_stop hm
          rw [hstage] at hrest
          cases hrest

theorem reachable_crew (h : Reachable s) : ∃ u : Crew ι, u.Reachable ∧ s.MadeBy u := by
  obtain ⟨s₀, h₀, hrun⟩ := h
  induction hrun with
  | refl =>
      obtain ⟨u, hfresh, hu⟩ := madeBy_of_isFresh h₀
      exact ⟨u, ⟨u, hfresh, .refl⟩, hu⟩
  | tail _ hstep ih =>
      obtain ⟨u, ⟨u₀, hfresh, hrun⟩, hu⟩ := ih
      obtain ⟨v, hgo, hv⟩ := hu.step hstep
      exact ⟨v, ⟨u₀, hfresh, hrun.trans hgo⟩, hv⟩

/-- Of all passes that are made at once at most one holds a lock, and it is the table's. A pass
asks the store and the provider only while it lists its candidates and while it holds the lock of
one; and a candidate whose lock it is refused it leaves for the next one. -/
theorem excludes (h : Reachable s) :
    (∀ i j name a b, (name, a) ∈ (s.running i).held → (name, b) ∈ (s.running j).held →
      i = j ∧ a = b ∧ s.locks.holder? name = some a) ∧
    (∀ i pre c next, (s.running i).controller.lockPrefix = some pre →
      (s.running i).rest = .call c next → ((∃ q, c = .store q) ∨ ∃ q, c = .provider q) →
      (∃ rest, (s.running i).rest = (Stage.listing rest).program (s.running i).controller) ∨
        ∃ id token, (lockOf pre id, token) ∈ (s.running i).held) ∧
    (∀ (c : Controller) pre id todo report, c.lockPrefix = some pre →
      ∃ next, c.attemptAll (id :: todo) report = .call (.acquire (lockOf pre id)) next ∧
        next (.ok none) = c.attemptAll todo (report.count .contended)) := by
  obtain ⟨u, ⟨u₀, hfresh, hrun⟩, hu⟩ := reachable_crew h
  refine ⟨fun i j name a b ha hb => ?_, fun i pre c next hp hrest hc => ?_,
    fun c pre id todo report hp => ?_⟩
  · have hsafe := Crew.safe_of_reachable ⟨u₀, hfresh, hrun⟩
    rw [hu.held] at ha hb
    rw [hu.locks]
    exact hsafe.held_once ha hb
  · obtain ⟨v, hgo, hv, hsettled⟩ := hu.settle i
    have hsafe := Crew.safe_of_reachable ⟨u₀, hfresh, hrun.trans hgo⟩
    rw [hv.rest i, Stage.program_eq] at hrest
    rw [hv.controller i] at hp
    cases hm : (v.worker i).stage.move (v.worker i).controller with
    | call q step =>
        rw [hm] at hrest
        cases hrest
        obtain ⟨rest, hstage⟩ | ⟨id, hworks⟩ := Crew.works_of_call hp hm hc
        · left
          refine ⟨rest, ?_⟩
          rw [hv.rest i, hv.controller i, hstage]
        · right
          obtain ⟨token, hheld⟩ := hsafe.holds_of_works hworks
          rw [hv.held i]
          exact ⟨id, token, hheld⟩
    | go next => exact absurd hm (hsettled next)
    | stop =>
        obtain ⟨r, hstage⟩ := Stage.ended_of_stop hm
        rw [hm, hstage] at hrest
        cases hrest
  · have hbetween := Stage.program_between c id todo report
    simp only [Stage.move, hp] at hbetween
    exact ⟨_, hbetween, rfl⟩

end Passing

end FleetControl
