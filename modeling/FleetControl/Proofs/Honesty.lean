import FleetControl.Proofs.Bracketing

/-!
# Honest use of locks

Tokens cannot be guessed, so a program that gives a lock back presents a token that it was
given itself, or a text that no table issued. A program that uses locks in brackets is honest in
this sense, and so are all controllers.
-/
namespace FleetControl

/-- Whether a call may be made by one who has been given some tokens. -/
def Call.isHonest (given : List Token) : Call → Prop
  | .release _ (.issued n) => .issued n ∈ given
  | _ => True

/-- The tokens that an answer gives to the caller. -/
def Call.gives : (c : Call) → Outcome c.Reply → List Token
  | .acquire _, .ok (some token) => [token]
  | _, _ => []

theorem Call.isHonest.mono {c : Call} {given more : List Token} (h : c.isHonest given)
    (hs : given ⊆ more) : c.isHonest more := by
  unfold isHonest at h ⊢
  split
  · exact hs h
  · trivial

namespace Program

variable {α β : Type} {given more : List Token}

/-- A program presents only tokens that were given to it. -/
def Honest : Program α → List Token → Prop
  | done _, _ => True
  | call c next, given => c.isHonest given ∧ ∀ r, (next r).Honest (c.gives r ++ given)

theorem Honest.mono {p : Program α} (h : p.Honest given) (hs : given ⊆ more) :
    p.Honest more := by
  induction p generalizing given more with
  | done r => trivial
  | call c next ih =>
      refine ⟨h.1.mono hs, fun r => ih r (h.2 r) ?_⟩
      exact List.append_subset.mpr
        ⟨List.subset_append_left _ _, List.subset_append_of_subset_right _ hs⟩

theorem Honest.bind {p : Program α} {f : α → Program β} (hp : p.Honest given)
    (hf : ∀ a, (f a).Honest given) : (p.bind f).Honest given := by
  induction p generalizing given with
  | done r =>
      cases r with
      | ok a => exact hf a
      | error e => trivial
  | call c next ih =>
      refine ⟨hp.1, fun r => ih r (hp.2 r) fun a => ?_⟩
      exact (hf a).mono (List.subset_append_right _ _)

theorem Honest.attempt {p : Program α} (h : p.Honest given) : p.attempt.Honest given := by
  induction p generalizing given with
  | done r => rcases r with (_ | _) | _ <;> trivial
  | call c next ih => exact ⟨h.1, fun r => ih r (h.2 r)⟩

theorem Honest.contain {p : Program α} (h : p.Honest given) : p.contain.Honest given := by
  induction p generalizing given with
  | done r => cases r <;> trivial
  | call c next ih => exact ⟨h.1, fun r => ih r (h.2 r)⟩

end Program

open Program

/-- Work under a lock gives back the token that it took. -/
theorem honest_exclusively {α : Type} {body : Program α} {given : List Token} {name : String}
    (h : body.Honest given) : (exclusively name body).Honest given := by
  refine ⟨trivial, fun r => ?_⟩
  rcases r with f | _ | token
  · trivial
  · trivial
  · have hrelease : ∀ outcome : Except ControlError α,
        ((((perform (.release name token)).attempt).bind fun _ =>
          (ofExcept outcome).bind fun value => done (.ok (some value))) :
            Program (Option α)).Honest ([token] ++ given) := by
      intro outcome
      refine Honest.bind (Honest.attempt ⟨?_, fun _ => trivial⟩) fun _ => ?_
      · cases token with
        | issued n => exact List.mem_cons_self
        | foreign text => trivial
      · cases outcome <;> trivial
    exact (h.mono (List.subset_append_right _ _)).contain.bind hrelease

/-- Brackets give back the tokens that they took, and nothing else gives one back. -/
theorem Program.Bracketed.honest {α : Type} {p : Program α} (h : p.Bracketed)
    (given : List Token) : p.Honest given := by
  induction h generalizing given with
  | done r => trivial
  | @call α c next hc rest ih =>
      refine ⟨?_, fun r => ih r _⟩
      cases c with
      | release name token => cases hc
      | _ => trivial
  | exclusively name h ih => exact honest_exclusively (ih given)
  | bind h rest ih ihrest => exact (ih given).bind fun a => ihrest a given
  | attempt h ih => exact (ih given).attempt
  | contain h ih => exact (ih given).contain

namespace Controller

/-- The listing and the processing are honest on their own. -/
structure Honest (c : Controller) : Prop where
  candidates : c.candidates.Honest []
  process : ∀ id, (c.process id).Honest []

theorem Bracketed.honest {c : Controller} (h : c.Bracketed) : c.Honest :=
  ⟨h.candidates.honest [], fun id => (h.process id).honest []⟩

end Controller

/-- Every controller that a configuration switches on is honest. -/
theorem honest_workers (config : Config) {worker : Scheduled} (h : worker ∈ config.workers) :
    worker.controller.Honest :=
  (bracketed_workers config h).honest

end FleetControl
