import FleetControl.Reconcile.Replacement
import FleetControl.Reconcile.ImageCheck
import FleetControl.Reconcile.Promotion
import FleetControl.Reconcile.Decommission
import FleetControl.Reconcile.TagCoverage

/-!
# Workers

The controllers that a configuration switches on, each with its own interval.
All of them can run once, in order, or each on its own time.
-/
namespace FleetControl

/-- A controller and the seconds between its passes. -/
structure Scheduled where
  name : String
  every : Nat
  controller : Controller

namespace Config

/-- The enabled controllers in their fixed order. -/
def workers (c : Config) : List Scheduled :=
  let all : List (Bool × Scheduled) :=
    [ (c.replacement.enabled, ⟨"replacement", passInterval c.replacement.intervalSecs,
        Replacement.controller c.replacement⟩),
      (c.healthCheck.enabled, ⟨"health_check", passInterval c.healthCheck.intervalSecs,
        ImageCheck.controller c.healthCheck⟩),
      (c.promotion.enabled, ⟨"promotion", passInterval c.promotion.intervalSecs,
        Promotion.controller c.promotion⟩),
      (c.termination.enabled, ⟨"termination", passInterval c.termination.intervalSecs,
        Decommission.controller⟩),
      (c.tagSync.enabled, ⟨"tag_sync", passInterval c.tagSync.intervalSecs,
        TagCoverage.controller c.tagSync⟩)]
  (all.filter Prod.fst).map Prod.snd

end Config

namespace Scheduled

/-- Make one pass of every controller, in order. -/
def runOnce : List Scheduled → Program (List (String × PassReport))
  | [] => pure []
  | w :: ws => do
      let report ← w.controller.pass
      let rest ← runOnce ws
      pure ((w.name, report) :: rest)

/-- The milliseconds, below a limit, at which a controller starts a pass. -/
def passTimes (w : Scheduled) (limit : Nat) : List Nat :=
  let period := w.every * 1000
  (List.range ((limit + period - 1) / period)).map (· * period)

/-- Whether one pass comes before another: the earlier first; of passes at one
time after the start the one that has waited longer first. -/
def comesBefore (a b : Nat × Scheduled) : Bool :=
  decide (a.1 < b.1) || (a.1 == b.1 && (a.1 == 0 || decide (b.2.every ≤ a.2.every)))

/-- The pass that takes place first, and the others. -/
def next? (due : List (Nat × Scheduled)) : Option ((Nat × Scheduled) × List (Nat × Scheduled)) :=
  match due.mergeSort comesBefore with
  | [] => none
  | first :: others => some (first, others)

/-- All passes below a limit in the order in which they take place. -/
def agenda (ws : List Scheduled) (limit : Nat) : List (Nat × Scheduled) :=
  (ws.flatMap fun w => (w.passTimes limit).map fun t => (t, w)).mergeSort comesBefore

/-- The controllers that make a pass at one time, in their order, for every such time
below a limit. -/
def dueTogether (ws : List Scheduled) (limit : Nat) : List (List Scheduled) :=
  ((agenda ws limit).splitBy fun a b => a.1 == b.1).map fun group => group.map Prod.snd

end Scheduled

end FleetControl
