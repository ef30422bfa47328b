import FleetControl.Error
import FleetControl.Time.Timestamp

/-!
# Reading a clock

A clock shows milliseconds on either side of 1970-01-01T00:00:00Z. It can only
be read from then on and as long as there are years; at any other time reading
it is a crash.
-/
namespace FleetControl.Clock

/-- Milliseconds as a text: whole seconds with the digits of the fraction that
count, or milliseconds alone below one second. -/
def millisText (ms : Nat) : String :=
  if ms < 1000 then toString ms ++ "ms"
  else
    let digits := ((Decimal.fixed 3 (ms % 1000)).reverse.dropWhile (· == '0')).reverse
    let fraction := if digits.isEmpty then "" else "." ++ String.ofList digits
    toString (ms / 1000) ++ fraction ++ "s"

/-- The instant read off a clock that shows it. -/
def read (shown : Instant) : Outcome Instant :=
  if shown.millis < 0 then
    let early := millisText shown.millis.natAbs
    .error (.crash (some ("system time before Unix epoch: SystemTimeError(" ++ early ++ ")")))
  else if Timestamp.secondInRange shown.seconds then .ok shown
  else .error (.crash (some "called `Option::unwrap()` on a `None` value"))

/-- A reading is what the clock shows. -/
theorem eq_of_read {shown now : Instant} (h : read shown = .ok now) : now = shown := by
  simp only [read] at h
  split at h
  · cases h
  · split at h <;> cases h
    rfl

end FleetControl.Clock
