import FleetControl.Time.Instant
import FleetControl.Time.Calendar
import FleetControl.Text.Decimal
import FleetControl.Text.Blank

/-!
# Timestamps

The text of an instant is its RFC 3339 form in UTC with `Z`. The fraction has
no digits if it is zero and otherwise the fewest of 3, 6 or 9 that are exact.
Reading takes any offset, `T`, `t` or a blank between date and time, numbers
without leading zeros, any number of fraction digits, and second 60 as a leap
second. Both the date as written and the instant it means lie in range.
-/
namespace FleetControl.Timestamp

/-- The fraction of a second with its point. -/
def fractionText (nanos : Nat) : List Char :=
  if nanos = 0 then []
  else if nanos % 1000000 = 0 then '.' :: Decimal.fixed 3 (nanos / 1000000)
  else if nanos % 1000 = 0 then '.' :: Decimal.fixed 6 (nanos / 1000)
  else '.' :: Decimal.fixed 9 nanos

/-- Years of four digits stand alone, all others have a sign. -/
def yearText (year : Int) : List Char :=
  if 0 ≤ year ∧ year ≤ 9999 then Decimal.fixed 4 year.toNat
  else (if year < 0 then '-' else '+') :: (Decimal.padded 4 year.natAbs).toList

def chars (t : Instant) : List Char :=
  let date := Date.ofDays (t.seconds / 86400)
  let second := (t.seconds % 86400).toNat
  let leap := if nanosPerSecond ≤ t.fraction then 1 else 0
  let nanos := (t.fraction % nanosPerSecond).toNat
  yearText date.year ++ '-' :: (Decimal.fixed 2 date.month ++ '-' :: (Decimal.fixed 2 date.day ++
    'T' :: (Decimal.fixed 2 (second / 3600) ++ ':' :: (Decimal.fixed 2 (second / 60 % 60) ++
    ':' :: (Decimal.fixed 2 (second % 60 + leap) ++ (fractionText nanos ++ ['Z']))))))

def render (t : Instant) : String := String.ofList (chars t)

/-- Take one given character, blanks before it skipped. -/
def literal (c : Char) (cs : List Char) : Option (List Char) :=
  match skipBlanks cs with
  | [] => none
  | c' :: rest => if c = c' then some rest else none

/-- Take a number of one to `most` digits, blanks before it skipped. -/
def number (most : Nat) (cs : List Char) : Option (Nat × List Char) :=
  Decimal.read? most (skipBlanks cs)

/-- A year has up to four digits, or a sign and any number of them. -/
def year (cs : List Char) : Option (Int × List Char) :=
  match skipBlanks cs with
  | '-' :: rest => (Decimal.read? rest.length rest).map fun (n, r) => (-(n : Int), r)
  | '+' :: rest => (Decimal.read? rest.length rest).map fun (n, r) => ((n : Int), r)
  | rest => (Decimal.read? 4 rest).map fun (n, r) => ((n : Int), r)

/-- Nanoseconds from a point and digits; digits after the ninth do not count. -/
def fraction : List Char → Option (Nat × List Char)
  | '.' :: cs =>
      match Decimal.takeDigits 9 0 0 cs with
      | (_, 0, _) => none
      | (value, count + 1, rest) =>
          some (value * Nat.pow 10 (8 - count), rest.dropWhile fun c => (Decimal.digitValue? c).isSome)
  | cs => some (0, cs)

/-- Two digits at the front of a text. -/
def twoDigits : List Char → Option (Nat × List Char)
  | a :: b :: rest => do
      let x ← Decimal.digitValue? a
      let y ← Decimal.digitValue? b
      some (x * 10 + y, rest)
  | _ => none

/-- Seconds east of UTC: `Z`, the letters UTC, or a sign with hours and minutes. -/
def offset (cs : List Char) : Option (Int × List Char) :=
  let signed (sign : Int) (rest : List Char) : Option (Int × List Char) := do
    let (hours, rest) ← twoDigits rest
    let (minutes, rest) ← twoDigits (rest.dropWhile fun c => c == ':' || isBlank c)
    if minutes < 60 then some (sign * (hours * 3600 + minutes * 60), rest) else none
  match cs with
  | 'Z' :: rest | 'z' :: rest => some (0, rest)
  | '+' :: rest => signed 1 rest
  | '-' :: rest | '−' :: rest => signed (-1) rest
  | u :: t :: c :: rest =>
      if (u == 'U' || u == 'u') && (t == 'T' || t == 't') && (c == 'C' || c == 'c') then
        some (0, rest)
      else none
  | _ => none

/-- The years in which instants can lie. -/
def yearInRange (year : Int) : Bool := -262143 ≤ year && year ≤ 262142

/-- Whether a number of seconds since 1970 lies within those years. -/
def secondInRange (seconds : Int) : Bool := yearInRange (Date.ofDays (seconds / 86400)).year

def ofChars? (cs : List Char) : Option Instant := do
  let (y, cs) ← year cs
  let (month, cs) ← number 2 (← literal '-' cs)
  let (day, cs) ← number 2 (← literal '-' cs)
  let cs ← match cs with
    | 'T' :: rest | 't' :: rest | ' ' :: rest => some rest
    | _ => none
  let (hour, cs) ← number 2 cs
  let (minute, cs) ← number 2 (← literal ':' cs)
  let (second, cs) ← number 2 (← literal ':' cs)
  let (nanos, cs) ← fraction cs
  let (east, cs) ← offset (skipBlanks cs)
  let date : Date := ⟨y, month, day⟩
  if yearInRange y && date.isValid && hour ≤ 23 && minute ≤ 59 && second ≤ 60
      && -86400 < east && east < 86400 && (skipBlanks cs).isEmpty then
    let leap : Int := if second = 60 then 1 else 0
    let seconds := date.toDays * 86400 + hour * 3600 + minute * 60 + (second - leap) - east
    if secondInRange seconds then some (Instant.ofParts seconds (nanos + leap * nanosPerSecond))
    else none
  else none

def parse? (s : String) : Option Instant := ofChars? s.toList

end FleetControl.Timestamp
