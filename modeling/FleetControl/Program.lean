import FleetControl.Call

/-!
# Programs

A program is a tree: it has an outcome, or it makes a call and goes on with the
answer. Each call is atomic and may be answered with a fault instead of a
reply, so a handler decides about failures and a scheduler can switch between
programs at every call. `run` follows one program through a handler.
-/
namespace FleetControl

inductive Program (α : Type) where
  | done (outcome : Outcome α)
  | call (c : Call) (next : Outcome c.Reply → Program α)

namespace Program

variable {α β γ σ : Type}

def bind : Program α → (α → Program β) → Program β
  | done (.ok a), f => f a
  | done (.error e), _ => done (.error e)
  | call c next, f => call c fun r => (next r).bind f

instance : Monad Program where
  pure a := done (.ok a)
  bind := bind

@[simp] theorem pure_eq (a : α) : (pure a : Program α) = done (.ok a) := rfl

@[simp] theorem bind_eq (p : Program α) (f : α → Program β) : (p >>= f) = p.bind f := rfl

theorem bind_pure (p : Program α) : p.bind (fun a => done (.ok a)) = p := by
  induction p with
  | done r => cases r <;> rfl
  | call c next ih => simp only [bind, ih]

theorem bind_assoc (p : Program α) (f : α → Program β) (g : β → Program γ) :
    (p.bind f).bind g = p.bind fun a => (f a).bind g := by
  induction p with
  | done r => cases r <;> rfl
  | call c next ih => simp only [bind, ih]

instance : LawfulMonad Program :=
  LawfulMonad.mk' Program bind_pure (fun _ _ => rfl) bind_assoc

/-- Make a call and give its reply; a fault ends the program. -/
def perform (c : Call) : Program c.Reply := call c done

/-- End with an error. -/
def fail (e : ControlError) : Program α := done (.error (.error e))

/-- End with a crash. -/
def crash (payload : Option String) : Program α := done (.error (.crash payload))

/-- Give the value of an optional answer, or end with an error. -/
def orFail (e : ControlError) : Option α → Program α
  | some a => done (.ok a)
  | none => fail e

/-- Go on after an error with the error in hand; a crash still ends the program. -/
def attempt : Program α → Program (Except ControlError α)
  | done (.ok a) => done (.ok (.ok a))
  | done (.error (.error e)) => done (.ok (.error e))
  | done (.error (.crash payload)) => done (.error (.crash payload))
  | call c next => call c fun r => (next r).attempt

/-- Go on after any fault with the error that stands for it. -/
def contain : Program α → Program (Except ControlError α)
  | done (.ok a) => done (.ok (.ok a))
  | done (.error fault) => done (.ok (.error fault.contained))
  | call c next => call c fun r => (next r).contain

/-- End with a given outcome. -/
def ofOutcome : Outcome α → Program α := done

/-- Give a value or end with an error. -/
def ofExcept : Except ControlError α → Program α
  | .ok a => done (.ok a)
  | .error e => fail e

/-- A handler answers a call and changes its state. -/
abbrev Handler (σ : Type) := (c : Call) → σ → Outcome c.Reply × σ

/-- Follow a program to its outcome. -/
def run (h : Handler σ) : Program α → σ → Outcome α × σ
  | done r, s => (r, s)
  | call c next, s => run h (next (h c s).1) (h c s).2

@[simp] theorem run_done (h : Handler σ) (r : Outcome α) (s : σ) : run h (done r) s = (r, s) := rfl

theorem run_call (h : Handler σ) (c : Call) (next : Outcome c.Reply → Program α) (s : σ) :
    run h (call c next) s = run h (next (h c s).1) (h c s).2 := rfl

@[simp] theorem run_perform (h : Handler σ) (c : Call) (s : σ) : run h (perform c) s = h c s := rfl

/-- A sequence runs its second part where the first ended with a value. -/
theorem run_bind (h : Handler σ) (p : Program α) (f : α → Program β) (s : σ) :
    run h (p.bind f) s =
      match run h p s with
      | (.ok a, s') => run h (f a) s'
      | (.error e, s') => (.error e, s') := by
  induction p generalizing s with
  | done r => cases r <;> rfl
  | call c next ih => exact ih _ _

/-- Attempting a program runs it and keeps its error. -/
theorem run_attempt (h : Handler σ) (p : Program α) (s : σ) :
    run h p.attempt s =
      match run h p s with
      | (.ok a, s') => (.ok (.ok a), s')
      | (.error (.error e), s') => (.ok (.error e), s')
      | (.error (.crash payload), s') => (.error (.crash payload), s') := by
  induction p generalizing s with
  | done r => rcases r with (_ | _) | _ <;> rfl
  | call c next ih => exact ih _ _

/-- Containing a program runs it and keeps what its fault stands for. -/
theorem run_contain (h : Handler σ) (p : Program α) (s : σ) :
    run h p.contain s =
      match run h p s with
      | (.ok a, s') => (.ok (.ok a), s')
      | (.error fault, s') => (.ok (.error fault.contained), s') := by
  induction p generalizing s with
  | done r => cases r <;> rfl
  | call c next ih => exact ih _ _

end Program

/-! ## Calls by name -/

def readClock : Program Instant := .perform .now

def ask (c : StoreCall) : Program c.Reply := .perform (.store c)

def request (c : ProviderCall) : Program c.Reply := .perform (.provider c)

/-- Hand a notification over; nobody waits for its delivery. -/
def notify (n : Notification) : Program Unit := .perform (.post n)

end FleetControl
