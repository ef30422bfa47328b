import FleetControl.Config.Setting
import FleetControl.Time.Calendar
import FleetControl.Toml.Text

/-!
# Words of a settings file

A word is a value without marks: a truth value, a number, a date or a time. It
runs as far as its characters do, and one that is none of these is refused.
-/
namespace FleetControl.Toml

/-- Whether a character may stand in a word. -/
def isWordChar (c : Char) : Bool := c.isAlphanum || ['_', '+', '-', '.', ':'].contains c

/-! ## Numbers -/

/-- The digits of a number without the single underscores between them. -/
def ungroup (isDigit : Char → Bool) : List Char → Option (List Char)
  | [] => none
  | [c] => if isDigit c then some [c] else none
  | c :: '_' :: rest => if isDigit c then (ungroup isDigit rest).map (c :: ·) else none
  | c :: rest => if isDigit c then (ungroup isDigit rest).map (c :: ·) else none

/-- The digits of a number without needless zeros in front. -/
def wholeDigits (word : List Char) : Option (List Char) :=
  match ungroup Json.isDigit word with
  | some ('0' :: _ :: _) => none
  | digits => digits

/-- A sign, if there is one, and whether it is a minus. -/
def signed : List Char → Bool × List Char
  | '-' :: rest => (true, rest)
  | '+' :: rest => (false, rest)
  | rest => (false, rest)

/-- A whole number of 64 bits with a sign. -/
def decimal? (word : List Char) : Option Setting := do
  let (negative, word) := signed word
  let n := Json.natOfDigits (← wholeDigits word)
  if n < 0x8000000000000000 + (if negative then 1 else 0) then
    some (.integer (if negative then -(n : Int) else n))
  else none

/-- The value of digits in a base. -/
def inBase? (base : Nat) (word : List Char) : Option Setting := do
  let isDigit (c : Char) : Bool := (Json.hexValue? c).any (· < base)
  let digits ← ungroup isDigit word
  let n := (digits.filterMap Json.hexValue?).foldl (fun n d => n * base + d) 0
  if n < 0x8000000000000000 then some (.integer n) else none

/-- Half a step above the largest number of double precision. -/
def tooLarge : Nat := 0x3fffffffffffff * Nat.pow 2 970

/-- Whether digits before a power of ten are beyond double precision. -/
def isTooLarge (digits : Nat) (power : Int) : Bool :=
  let length := (toString digits).length
  if digits = 0 || length + power < 300 then false
  else if 320 < length + power then true
  else tooLarge * Nat.pow 10 (-power).toNat ≤ digits * Nat.pow 10 power.toNat

/-- The power of ten after a mark for it; no mark stands for none. -/
def power? : List Char → Option Int
  | [] => some 0
  | c :: rest => do
      if c != 'e' && c != 'E' then none
      let (negative, rest) := signed rest
      let n := Json.natOfDigits (← ungroup Json.isDigit rest)
      some (if negative then -(n : Int) else n)

/-- A number with a point or an exponent, unless it is positive and too large. -/
def real? (word : List Char) : Option Setting := do
  let (negative, word) := signed word
  let isWhole (c : Char) : Bool := Json.isDigit c || c == '_'
  let whole ← wholeDigits (word.takeWhile isWhole)
  let (fraction, rest) ← match word.dropWhile isWhole with
    | [] => none
    | '.' :: rest => (ungroup Json.isDigit (rest.takeWhile isWhole)).map fun digits =>
        (digits, rest.dropWhile isWhole)
    | rest => some ([], rest)
  let power ← power? rest
  let digits := Json.natOfDigits (whole ++ fraction)
  if !negative && isTooLarge digits (power - fraction.length) then none else some .real

/-- A number that has a name. -/
def namedReal? (word : List Char) : Option Setting :=
  let (_, name) := signed word
  if name = "inf".toList || name = "nan".toList then some .real else none

def number? (word : List Char) : Option Setting :=
  match word with
  | '0' :: 'x' :: digits => inBase? 16 digits
  | '0' :: 'o' :: digits => inBase? 8 digits
  | '0' :: 'b' :: digits => inBase? 2 digits
  | word => (decimal? word).or ((real? word).or (namedReal? word))

/-! ## Dates and times -/

/-- A number of exactly so many digits, up to a limit. -/
def fixedNumber (width limit : Nat) (cs : List Char) : Option (Nat × List Char) :=
  match Decimal.takeDigits width 0 0 cs with
  | (n, count, rest) => if count = width ∧ n ≤ limit then some (n, rest) else none

def after (c : Char) : List Char → Option (List Char)
  | [] => none
  | d :: rest => if c = d then some rest else none

/-- A date that the calendar has, at the front of a word. -/
def dateAt (cs : List Char) : Option (List Char) := do
  let (year, cs) ← fixedNumber 4 9999 cs
  let (month, cs) ← fixedNumber 2 12 (← after '-' cs)
  let (day, cs) ← fixedNumber 2 31 (← after '-' cs)
  if Date.isValid ⟨year, month, day⟩ then some cs else none

/-- A time of day with an optional fraction, at the front of a word. -/
def timeAt (cs : List Char) : Option (List Char) := do
  let (_, cs) ← fixedNumber 2 23 cs
  let (_, cs) ← fixedNumber 2 59 (← after ':' cs)
  let (_, cs) ← fixedNumber 2 60 (← after ':' cs)
  match cs with
  | '.' :: rest =>
      let digits := rest.takeWhile Json.isDigit
      if digits.isEmpty then none else some (rest.drop digits.length)
  | cs => some cs

/-- Whether the rest of a word is an offset from UTC, or nothing. -/
def isOffset : List Char → Bool
  | [] | ['Z'] | ['z'] => true
  | c :: rest =>
      (c == '+' || c == '-') && ((do
        let (_, rest) ← fixedNumber 2 23 rest
        let (_, rest) ← fixedNumber 2 59 (← after ':' rest)
        some rest.isEmpty).getD false)

/-- Whether a word is a date, a time, or both. -/
def isDated (word : List Char) : Bool :=
  match dateAt word with
  | some [] => true
  | some (c :: rest) => ['T', 't', ' '].contains c && (timeAt rest).any isOffset
  | none => (timeAt word).any List.isEmpty

/-- A date stands as a group with one member, which is the name of no setting. -/
def ofDate (word : List Char) : Setting := .group [("$date", .text (String.ofList word))]

/-! ## Words -/

/-- The value of a word. -/
def word? (word : List Char) : Option Setting :=
  if word = "true".toList then some (.flag true)
  else if word = "false".toList then some (.flag false)
  else if isDated word then some (ofDate word)
  else number? word

/-- A word at the front of a text. A time may follow its date after a space. -/
def wordAt (cs : List Char) : Option (Setting × List Char) :=
  let word := cs.takeWhile isWordChar
  let rest := cs.dropWhile isWordChar
  match (dateAt word).any List.isEmpty, rest with
  | true, ' ' :: d :: more =>
      if Json.isDigit d then
        let time := (d :: more).takeWhile isWordChar
        (word? (word ++ ' ' :: time)).map fun v => (v, (d :: more).dropWhile isWordChar)
      else (word? word).map fun v => (v, rest)
  | _, _ => (word? word).map fun v => (v, rest)

end FleetControl.Toml
