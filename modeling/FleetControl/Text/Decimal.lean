/-!
# Decimal digits

Digit strings of a given width, and the reading of digits from the front of a
text. Both work on lists of characters.
-/
namespace FleetControl.Decimal

def digitChar (n : Nat) : Char := Char.ofNat (48 + n % 10)

def digitValue? (c : Char) : Option Nat :=
  if '0' ≤ c ∧ c ≤ '9' then some (c.toNat - 48) else none

/-- The last `width` decimal digits of a number, most significant first. -/
def fixed : (width : Nat) → Nat → List Char
  | 0, _ => []
  | w + 1, n => fixed w (n / 10) ++ [digitChar n]

/-- All decimal digits of a number, at least `width` of them. -/
def padded (width n : Nat) : String :=
  let digits := toString n
  String.ofList (List.replicate (width - digits.length) '0') ++ digits

/-- Continue a number with at most `most` digits from the front of a text; also
returns how many were taken and what is left. -/
def takeDigits : (most : Nat) → (value count : Nat) → List Char → Nat × Nat × List Char
  | 0, value, count, cs => (value, count, cs)
  | _ + 1, value, count, [] => (value, count, [])
  | m + 1, value, count, c :: cs =>
      match digitValue? c with
      | some d => takeDigits m (value * 10 + d) (count + 1) cs
      | none => (value, count, c :: cs)

/-- Read one to `most` digits from the front of a text. -/
def read? (most : Nat) (cs : List Char) : Option (Nat × List Char) :=
  match takeDigits most 0 0 cs with
  | (_, 0, _) => none
  | (value, _ + 1, rest) => some (value, rest)

end FleetControl.Decimal
