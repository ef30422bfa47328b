import FleetControl.Error
import FleetControl.Time.Instant

/-!
# Spans from settings

Timeouts and grace periods are set in whole seconds. A setting that no span can
hold is a crash at the place where the span is needed.
-/
namespace FleetControl

def Span.ofSetting (seconds : Int) : Outcome Span :=
  match Span.ofSeconds? seconds with
  | some span => .ok span
  | none => .error (.crash (some "TimeDelta::seconds out of bounds"))

theorem Span.ofSetting_of_le {seconds : Nat} (h : (seconds : Int) ≤ Span.maxSeconds) :
    Span.ofSetting seconds = .ok ⟨seconds * nanosPerSecond⟩ := by
  have h0 : -Span.maxSeconds ≤ (seconds : Int) := by
    have : (0 : Int) ≤ Span.maxSeconds := by decide
    omega
  simp [Span.ofSetting, Span.ofSeconds?, h, h0]

end FleetControl
