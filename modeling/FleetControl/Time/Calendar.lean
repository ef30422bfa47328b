/-!
# Calendar dates

The proleptic Gregorian calendar over all years, with year 0 before year 1.
A date is turned into the number of days since 1970-01-01 and back.
-/
namespace FleetControl

/-- A year, a month from 1 and a day from 1. -/
structure Date where
  year : Int
  month : Nat
  day : Nat
  deriving DecidableEq, Repr

namespace Date

def isLeap (year : Int) : Bool := year % 4 = 0 ∧ (year % 100 ≠ 0 ∨ year % 400 = 0)

/-- Days from the first of January of year 0 to that of the given year. -/
def daysBeforeYear (year : Int) : Int :=
  365 * year + (year + 3) / 4 - (year + 99) / 100 + (year + 399) / 400

/-- The lengths of the months of a year. -/
def monthLengths (leap : Bool) : List Nat :=
  [31, if leap then 29 else 28, 31, 30, 31, 30, 31, 31, 30, 31, 30, 31]

def monthLength (year : Int) (month : Nat) : Nat :=
  if month = 0 then 0 else (monthLengths (isLeap year)).getD (month - 1) 0

/-- Whether the calendar has the date. -/
def isValid (d : Date) : Bool :=
  1 ≤ d.month ∧ d.month ≤ 12 ∧ 1 ≤ d.day ∧ d.day ≤ monthLength d.year d.month

/-- Days from 0000-01-01 to 1970-01-01. -/
def epochDays : Int := 719528

/-- Days of a year before a month. -/
def daysBeforeMonth (leap : Bool) (month : Nat) : Nat :=
  ((monthLengths leap).take (month - 1)).foldl (· + ·) 0

/-- Days since 1970-01-01. -/
def toDays (d : Date) : Int :=
  daysBeforeYear d.year + daysBeforeMonth (isLeap d.year) d.month + d.day - 1 - epochDays

/-- The month and day at a day of the year counted from 0. -/
def monthAndDay (month : Nat) : List Nat → Nat → Nat × Nat
  | [], n => (month, n + 1)
  | len :: lens, n => if n < len then (month, n + 1) else monthAndDay (month + 1) lens (n - len)

/-- The year that holds a day counted from 0000-01-01. The quotient is at most
one off. -/
def yearOf (n : Int) : Int :=
  let y := n * 400 / 146097
  if n < daysBeforeYear y then y - 1
  else if daysBeforeYear (y + 1) ≤ n then y + 1
  else y

/-- The date a number of days after 1970-01-01. -/
def ofDays (days : Int) : Date :=
  let n := days + epochDays
  let y := yearOf n
  let md := monthAndDay 1 (monthLengths (isLeap y)) (n - daysBeforeYear y).toNat
  ⟨y, md.1, md.2⟩

end Date

end FleetControl
