import FleetControl.Pass
import Mathlib.Logic.Relation

/-!
# A pass step by step

A pass is cut at its calls into stages: it lists candidates, stands between two of them,
processes one, or is over. What a stage still has to do is a program, and the moves of the
stages unfold exactly the program of the pass.
-/
namespace FleetControl

/-- Where a pass stands. -/
inductive Stage where
  | listing (rest : Program (List String))
  /-- Nothing is begun with the candidates that are left. -/
  | between (todo : List String) (report : PassReport)
  /-- A candidate is being processed, under a lock with its token if there is one. -/
  | processing (id : String) (lock : Option (String × Token)) (rest : Program Unit)
      (todo : List String) (report : PassReport)
  | ended (result : Outcome PassReport)

/-- What is done next: a call, after whose answer it goes on, or a step without a call. -/
inductive Move (σ : Type) where
  | call (c : Call) (next : Outcome c.Reply → σ)
  | go (next : σ)
  | stop

/-- What became of a candidate that was processed to an outcome. -/
def attemptOf : Outcome Unit → Attempt
  | .ok () => .processed
  | .error _ => .failed

namespace Stage

/-- The stage after the answer to taking the lock of a candidate. -/
def claimed (c : Controller) (name id : String) (todo : List String) (report : PassReport) :
    Outcome (Option Token) → Stage
  | .ok (some token) => processing id (some (name, token)) (c.process id) todo report
  | .ok none => between todo (report.count .contended)
  | .error (.error _) => between todo (report.count .failed)
  | .error (.crash payload) => ended (.error (.crash payload))

/-- The stage after the answer to giving the lock of a candidate back. -/
def released (a : Attempt) (todo : List String) (report : PassReport) : Outcome Unit → Stage
  | .error (.crash payload) => ended (.error (.crash payload))
  | .ok () | .error (.error _) => between todo (report.count a)

/-- The stage after the answer to shuffling the candidates. -/
def ordered : Outcome (List String) → Stage
  | .ok order => between order (.start order.length)
  | .error f => ended (.error f)

def move (c : Controller) : Stage → Move Stage
  | listing (.call q next) => .call q fun r => listing (next r)
  | listing (.done (.ok ids)) => .call (.shuffle ids) ordered
  | listing (.done (.error (.error _))) => .go (ended (.ok (.start 0)))
  | listing (.done (.error (.crash payload))) => .go (ended (.error (.crash payload)))
  | between [] report => .go (ended (.ok report))
  | between (id :: todo) report =>
      match c.lockPrefix with
      | none => .go (processing id none (c.process id) todo report)
      | some pre =>
          .call (.acquire (lockOf pre id)) (claimed c (lockOf pre id) id todo report)
  | processing id lock (.call q next) todo report =>
      .call q fun r => processing id lock (next r) todo report
  | processing _ none (.done r) todo report => .go (between todo (report.count (attemptOf r)))
  | processing _ (some (name, token)) (.done r) todo report =>
      .call (.release name token) (released (attemptOf r) todo report)
  | ended _ => .stop

/-- Processing what is left of a candidate without a lock. -/
def unlocked (rest : Program Unit) : Program Attempt :=
  rest.contain.bind fun
    | .ok () => .done (.ok .processed)
    | .error _ => .done (.ok .failed)

/-- Processing what is left of a candidate, and giving its lock back. -/
def locked (name : String) (token : Token) (rest : Program Unit) : Program (Option Unit) :=
  rest.contain.bind fun outcome =>
    ((Program.perform (.release name token)).attempt).bind fun _ =>
      (Program.ofExcept outcome).bind fun value => .done (.ok (some value))

/-- What a candidate was attempted to, from what came of it under its lock. -/
def attempted (body : Program (Option Unit)) : Program Attempt :=
  body.attempt.bind fun
    | .ok (some ()) => .done (.ok .processed)
    | .ok none => .done (.ok .contended)
    | .error _ => .done (.ok .failed)

/-- What a stage still has to do. -/
def program (c : Controller) : Stage → Program PassReport
  | listing rest => rest.attempt.bind fun
      | .error _ => .done (.ok (.start 0))
      | .ok ids => (Program.perform (.shuffle ids)).bind fun order =>
          c.attemptAll order (.start order.length)
  | between todo report => c.attemptAll todo report
  | processing _ none rest todo report =>
      (unlocked rest).bind fun a => c.attemptAll todo (report.count a)
  | processing _ (some (name, token)) rest todo report =>
      (attempted (locked name token rest)).bind fun a => c.attemptAll todo (report.count a)
  | ended result => .done result

/-- A pass begins with the listing of its candidates. -/
theorem program_listing (c : Controller) : (listing c.candidates).program c = c.pass := rfl

theorem program_between (c : Controller) (id : String) (todo : List String)
    (report : PassReport) : (between (id :: todo) report).program c =
      match (between (id :: todo) report).move c with
      | .call q next => .call q fun r => (next r).program c
      | .go next => next.program c
      | .stop => (between (id :: todo) report).program c := by
  simp only [program, Controller.attemptAll, Controller.attempt, move]
  cases c.lockPrefix with
  | none => rfl
  | some pre =>
      refine congrArg (Program.call (.acquire (lockOf pre id))) (funext fun r => ?_)
      rcases r with (_ | _) | _ | token <;> rfl

/-- What is left to do is the next call and what its answer leaves to do. -/
theorem program_eq (c : Controller) (s : Stage) :
    s.program c = match s.move c with
      | .call q next => .call q fun r => (next r).program c
      | .go next => next.program c
      | .stop => s.program c := by
  cases s with
  | listing rest =>
      rcases rest with ((_ | _) | ids) | ⟨q, next⟩
      · rfl
      · rfl
      · refine congrArg (Program.call (.shuffle ids)) (funext fun r => ?_)
        cases r <;> rfl
      · rfl
  | between todo report =>
      cases todo with
      | nil => rfl
      | cons id todo => exact program_between c id todo report
  | processing id lock rest todo report =>
      rcases rest with r | ⟨q, next⟩
      · rcases lock with _ | ⟨name, token⟩
        · cases r <;> rfl
        · rcases r with f | u
          all_goals
            refine congrArg (Program.call (.release name token)) (funext fun a => ?_)
            rcases a with (_ | _) | _ <;> rfl
      · rcases lock with _ | ⟨name, token⟩ <;> rfl
  | ended result => rfl

/-- Only a pass that is over has nothing to do next. -/
theorem ended_of_stop {s : Stage} {c : Controller} (h : s.move c = .stop) :
    ∃ r, s = .ended r := by
  cases s with
  | listing rest => rcases rest with ((_ | _) | _) | _ <;> cases h
  | between todo report =>
      cases todo with
      | nil => cases h
      | cons id todo =>
          simp only [move] at h
          split at h <;> cases h
  | processing id lock rest todo report => rcases lock with _ | _ <;> cases rest <;> cases h
  | ended r => exact ⟨r, rfl⟩

/-! ## Steps without a call -/

/-- The most steps without a call that may come next: two for each candidate that is left, and
one to the end. -/
def idleSteps : Stage → Nat
  | listing _ => 1
  | between todo _ => 2 * todo.length + 1
  | processing _ _ _ todo _ => 2 * todo.length + 2
  | ended _ => 0

theorem idleSteps_lt_of_go {c : Controller} {s next : Stage} (h : s.move c = .go next) :
    next.idleSteps < s.idleSteps := by
  cases s with
  | listing rest => rcases rest with ((_ | _) | _) | _ <;> cases h <;> exact Nat.zero_lt_one
  | between todo report =>
      cases todo with
      | nil =>
          cases h
          exact Nat.zero_lt_one
      | cons id todo =>
          simp only [move] at h
          split at h <;> cases h
          simp only [idleSteps, List.length_cons]
          omega
  | processing id lock rest todo report =>
      rcases lock with _ | lock <;> cases rest <;> cases h
      exact Nat.lt_succ_self _
  | ended result => cases h

/-- After some steps without a call a call comes next, or the pass is over. What is left to do
is the same. -/
theorem exists_settled (c : Controller) (s : Stage) :
    ∃ t, Relation.ReflTransGen (fun s t => s.move c = .go t) s t ∧
      (∀ next, t.move c ≠ .go next) ∧ t.program c = s.program c := by
  induction hn : s.idleSteps using Nat.strongRecOn generalizing s with
  | ind n ih =>
      by_cases hgo : ∃ next, s.move c = .go next
      · obtain ⟨next, hm⟩ := hgo
        have hlt := idleSteps_lt_of_go hm
        rw [hn] at hlt
        obtain ⟨t, hrun, hsettled, hrest⟩ := ih _ hlt next rfl
        refine ⟨t, .head hm hrun, hsettled, hrest.trans ?_⟩
        rw [s.program_eq c, hm]
      · exact ⟨s, .refl, not_exists.mp hgo, rfl⟩

end Stage

end FleetControl
