import FleetControl.Exclusive

/-!
# One pass of a controller

A controller lists candidates without locks, shuffles them and processes each
one under its lock, or on its own if the controller takes locks itself. What
goes wrong with one candidate never stops the others.
-/
namespace FleetControl

structure Controller where
  name : String
  /-- The start of the lock names of its items; `none` if it takes its own locks. -/
  lockPrefix : Option String
  /-- Items that may need work. The list may be out of date. -/
  candidates : Program (List String)
  /-- Advance one item. -/
  process : String → Program Unit

/-- What became of one candidate. -/
inductive Attempt where
  | processed
  /-- Another worker held the lock. -/
  | contended
  | failed
  deriving DecidableEq, Repr

structure PassReport where
  candidates : Nat
  processed : Nat
  contended : Nat
  failed : Nat
  deriving DecidableEq, Repr

namespace PassReport

/-- The report before any attempt. -/
def start (candidates : Nat) : PassReport := ⟨candidates, 0, 0, 0⟩

def count (r : PassReport) : Attempt → PassReport
  | .processed => { r with processed := r.processed + 1 }
  | .contended => { r with contended := r.contended + 1 }
  | .failed => { r with failed := r.failed + 1 }

/-- A report accounts for one attempt more after each attempt. -/
theorem total_count (r : PassReport) (a : Attempt) :
    (r.count a).processed + (r.count a).contended + (r.count a).failed
      = r.processed + r.contended + r.failed + 1 := by
  cases a <;> simp only [count] <;> omega

end PassReport

namespace Controller

/-- Process one candidate. A fault in taking the lock that is a crash goes on. -/
def attempt (c : Controller) (id : String) : Program Attempt := do
  match c.lockPrefix with
  | some pre =>
      match ← (exclusively (lockOf pre id) (c.process id)).attempt with
      | .ok (some ()) => pure .processed
      | .ok none => pure .contended
      | .error _ => pure .failed
  | none =>
      match ← (c.process id).contain with
      | .ok () => pure .processed
      | .error _ => pure .failed

def attemptAll (c : Controller) : List String → PassReport → Program PassReport
  | [], report => pure report
  | id :: ids, report => do
      let a ← c.attempt id
      c.attemptAll ids (report.count a)

/-- Process every candidate once, in a random order. -/
def pass (c : Controller) : Program PassReport := do
  match ← c.candidates.attempt with
  | .error _ => pure (PassReport.start 0)
  | .ok ids => do
      let order ← Program.perform (.shuffle ids)
      c.attemptAll order (PassReport.start order.length)

end Controller

end FleetControl
