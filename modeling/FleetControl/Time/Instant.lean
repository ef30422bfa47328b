/-!
# Instants and spans

An instant is a position on a line on which every second has room for two
thousand million places: the first half are its nanoseconds, the second half
are the nanoseconds of a leap second that follows it. Comparing positions is
therefore comparing instants, leap seconds included.
-/
namespace FleetControl

/-- Nanoseconds in a second. -/
def nanosPerSecond : Int := 1000000000

/-- A point in time, counted from 1970-01-01T00:00:00Z. -/
structure Instant where
  position : Int
  deriving DecidableEq, Repr

namespace Instant

/-- Whole seconds since 1970-01-01T00:00:00Z. -/
def seconds (t : Instant) : Int := t.position / 2000000000

/-- Nanoseconds into the second; from a thousand million on, into a leap second. -/
def fraction (t : Instant) : Int := t.position % 2000000000

def ofParts (seconds fraction : Int) : Instant := ⟨seconds * 2000000000 + fraction⟩

def ofMillis (ms : Int) : Instant := ofParts (ms / 1000) (ms % 1000 * 1000000)

/-- Whole milliseconds since 1970-01-01T00:00:00Z. -/
def millis (t : Instant) : Int := t.seconds * 1000 + t.fraction / 1000000

def epoch : Instant := ⟨0⟩

instance : Inhabited Instant := ⟨epoch⟩

instance : LT Instant := ⟨fun a b => a.position < b.position⟩
instance : LE Instant := ⟨fun a b => a.position ≤ b.position⟩
instance (a b : Instant) : Decidable (a < b) := inferInstanceAs (Decidable (a.position < b.position))
instance (a b : Instant) : Decidable (a ≤ b) := inferInstanceAs (Decidable (a.position ≤ b.position))

theorem lt_iff {a b : Instant} : a < b ↔ a.position < b.position := Iff.rfl

theorem le_iff {a b : Instant} : a ≤ b ↔ a.position ≤ b.position := Iff.rfl

end Instant

/-- A span of time in nanoseconds, possibly negative. -/
structure Span where
  nanos : Int
  deriving DecidableEq, Repr

namespace Span

instance : LT Span := ⟨fun a b => a.nanos < b.nanos⟩
instance : LE Span := ⟨fun a b => a.nanos ≤ b.nanos⟩
instance (a b : Span) : Decidable (a < b) := inferInstanceAs (Decidable (a.nanos < b.nanos))
instance (a b : Span) : Decidable (a ≤ b) := inferInstanceAs (Decidable (a.nanos ≤ b.nanos))

theorem lt_iff {a b : Span} : a < b ↔ a.nanos < b.nanos := Iff.rfl

theorem le_iff {a b : Span} : a ≤ b ↔ a.nanos ≤ b.nanos := Iff.rfl

/-- The most whole seconds that a span can hold, in either direction. -/
def maxSeconds : Int := 9223372036854775

/-- A span of whole seconds; `none` if no span is that long. -/
def ofSeconds? (n : Int) : Option Span :=
  if -maxSeconds ≤ n ∧ n ≤ maxSeconds then some ⟨n * nanosPerSecond⟩ else none

end Span

namespace Instant

/-- The second of the day, from 0. -/
def secondOfDay (t : Instant) : Int := t.seconds % 86400

/-- The span from an earlier instant to this one: whole days, then the time of
day. A leap second counts where one time of day goes past it on the way to the
other, or as far as it has run. -/
def since (a b : Instant) : Span :=
  let leap : Int :=
    if b.secondOfDay < a.secondOfDay ∧ nanosPerSecond ≤ b.fraction then 1
    else if a.secondOfDay < b.secondOfDay ∧ nanosPerSecond ≤ a.fraction then -1
    else 0
  ⟨(a.seconds - b.seconds + leap) * nanosPerSecond + (a.fraction - b.fraction)⟩

/-- The instant a number of minutes before this one. Going back out of a leap
second starts from its end. -/
def minutesBefore (t : Instant) (minutes : Nat) : Instant :=
  if 0 < minutes ∧ nanosPerSecond ≤ t.fraction then
    ofParts (t.seconds + 1 - minutes * 60) (t.fraction - nanosPerSecond)
  else ⟨t.position - minutes * 60 * 2000000000⟩

end Instant

end FleetControl
