import FleetControl.Json
import FleetControl.Text.Decimal

/-!
# Reading JSON text

A text is one value with blanks around it. In an object the last of several
members with one name counts. The recursion is bounded by the length of the
text, which no nesting exceeds.
-/
namespace FleetControl.Json

/-- Space, tab, line feed and carriage return. -/
def isGap (c : Char) : Bool := c == ' ' || c == '\t' || c == '\n' || c == '\r'

def skipGaps (cs : List Char) : List Char := cs.dropWhile isGap

def hexValue? (c : Char) : Option Nat :=
  if '0' ≤ c ∧ c ≤ '9' then some (c.toNat - 48)
  else if 'a' ≤ c ∧ c ≤ 'f' then some (c.toNat - 87)
  else if 'A' ≤ c ∧ c ≤ 'F' then some (c.toNat - 55)
  else none

/-- Four hexadecimal digits. -/
def hexUnit : List Char → Option (Nat × List Char)
  | a :: b :: c :: d :: rest => do
      let w ← hexValue? a
      let x ← hexValue? b
      let y ← hexValue? c
      let z ← hexValue? d
      some (((w * 16 + x) * 16 + y) * 16 + z, rest)
  | _ => none

/-- The character of a `\u` escape. One beyond the basic plane takes a pair of
units, and half a pair stands for nothing. -/
def unicodeEscape (cs : List Char) : Option (Char × List Char) := do
  let (unit, rest) ← hexUnit cs
  if unit < 0xD800 || 0xE000 ≤ unit then some (Char.ofNat unit, rest)
  else if 0xDC00 ≤ unit then none
  else match rest with
    | '\\' :: 'u' :: rest =>
        let (low, rest) ← hexUnit rest
        if 0xDC00 ≤ low && low < 0xE000 then
          some (Char.ofNat (0x10000 + (unit - 0xD800) * 0x400 + (low - 0xDC00)), rest)
        else none
    | _ => none

/-- The character that a letter stands for after a backslash. -/
def shortEscape? : Char → Option Char
  | '"' => some '"'
  | '\\' => some '\\'
  | '/' => some '/'
  | 'b' => some '\x08'
  | 'f' => some '\x0c'
  | 'n' => some '\n'
  | 'r' => some '\r'
  | 't' => some '\t'
  | _ => none

/-- The rest of a string after its opening quote, in reverse onto `acc`. -/
def stringBody : (fuel : Nat) → (acc : List Char) → List Char → Option (String × List Char)
  | 0, _, _ => none
  | _ + 1, _, [] => none
  | _ + 1, acc, '"' :: rest => some (String.ofList acc.reverse, rest)
  | n + 1, acc, '\\' :: 'u' :: rest => do
      let (c, rest) ← unicodeEscape rest
      stringBody n (c :: acc) rest
  | n + 1, acc, '\\' :: c :: rest => do
      let c ← shortEscape? c
      stringBody n (c :: acc) rest
  | n + 1, acc, c :: rest => if c.toNat < 0x20 then none else stringBody n (c :: acc) rest

def isDigit (c : Char) : Bool := (Decimal.digitValue? c).isSome

def natOfDigits (digits : List Char) : Nat :=
  digits.foldl (fun n c => n * 10 + (c.toNat - 48)) 0

/-- The digits before any point: one digit, or several without a leading zero. -/
def wholeDigits (cs : List Char) : Option (List Char × List Char) :=
  let digits := cs.takeWhile isDigit
  match digits with
  | [] => none
  | '0' :: _ :: _ => none
  | _ => some (digits, cs.dropWhile isDigit)

/-- A point and its digits, if there is one. -/
def fractionDigits (cs : List Char) : Option (List Char × List Char) :=
  match cs with
  | '.' :: rest =>
      let digits := rest.takeWhile isDigit
      if digits.isEmpty then none else some ('.' :: digits, rest.dropWhile isDigit)
  | _ => some ([], cs)

/-- An exponent with its mark and sign, if there is one. -/
def exponentDigits (cs : List Char) : Option (List Char × List Char) :=
  let exponent (mark : List Char) (rest : List Char) : Option (List Char × List Char) :=
    let digits := rest.takeWhile isDigit
    if digits.isEmpty then none else some (mark ++ digits, rest.dropWhile isDigit)
  match cs with
  | 'e' :: '+' :: rest | 'E' :: '+' :: rest => exponent ['e', '+'] rest
  | 'e' :: '-' :: rest | 'E' :: '-' :: rest => exponent ['e', '-'] rest
  | 'e' :: rest | 'E' :: rest => exponent ['e'] rest
  | _ => some ([], cs)

/-- A number. Only plain digits other than a negative zero make an `int`. -/
def numberAt (negative : Bool) (cs : List Char) : Option (Json × List Char) := do
  let (whole, rest) ← wholeDigits cs
  let (fraction, rest) ← fractionDigits rest
  let (exponent, rest) ← exponentDigits rest
  let n := natOfDigits whole
  if fraction.isEmpty && exponent.isEmpty && !(negative && n == 0) then
    some (.int (if negative then -(n : Int) else n), rest)
  else
    let sign := if negative then ['-'] else []
    some (.real (String.ofList (sign ++ whole ++ fraction ++ exponent)), rest)

/-- What follows a given word. -/
def afterWord : (word cs : List Char) → Option (List Char)
  | [], cs => some cs
  | _ :: _, [] => none
  | w :: word, c :: cs => if w = c then afterWord word cs else none

mutual

/-- One value at the front of a text. -/
def valueAt : (fuel : Nat) → List Char → Option (Json × List Char)
  | 0, _ => none
  | n + 1, cs =>
      match skipGaps cs with
      | '"' :: rest => (stringBody (rest.length + 1) [] rest).map fun (s, r) => (.string s, r)
      | '[' :: rest =>
          match skipGaps rest with
          | ']' :: rest => some (.array [], rest)
          | _ => itemsAt n [] rest
      | '\x7b' :: rest =>
          match skipGaps rest with
          | '\x7d' :: rest => some (.object [], rest)
          | _ => membersAt n [] rest
      | 't' :: rest => (afterWord ['r', 'u', 'e'] rest).map fun r => (.bool true, r)
      | 'f' :: rest => (afterWord ['a', 'l', 's', 'e'] rest).map fun r => (.bool false, r)
      | 'n' :: rest => (afterWord ['u', 'l', 'l'] rest).map fun r => (.null, r)
      | '-' :: rest => numberAt true rest
      | rest => numberAt false rest

/-- The items of an array up to its closing bracket, those before in reverse. -/
def itemsAt : (fuel : Nat) → (before : List Json) → List Char → Option (Json × List Char)
  | 0, _, _ => none
  | n + 1, before, cs => do
      let (item, rest) ← valueAt n cs
      match skipGaps rest with
      | ',' :: rest => itemsAt n (item :: before) rest
      | ']' :: rest => some (.array (item :: before).reverse, rest)
      | _ => none

/-- The members of an object up to its closing brace, those before in order. -/
def membersAt : (fuel : Nat) → (before : List (String × Json)) → List Char →
    Option (Json × List Char)
  | 0, _, _ => none
  | n + 1, before, cs =>
      match skipGaps cs with
      | '"' :: rest => do
          let (name, rest) ← stringBody (rest.length + 1) [] rest
          match skipGaps rest with
          | ':' :: rest =>
              let (value, rest) ← valueAt n rest
              let members := setMember name value before
              match skipGaps rest with
              | ',' :: rest => membersAt n members rest
              | '\x7d' :: rest => some (.object members, rest)
              | _ => none
          | _ => none
      | _ => none

end

/-- Read a text that holds exactly one value. -/
def parse? (s : String) : Option Json := do
  let cs := s.toList
  let (j, rest) ← valueAt (cs.length + 1) cs
  if (skipGaps rest).isEmpty then some j else none

end FleetControl.Json
