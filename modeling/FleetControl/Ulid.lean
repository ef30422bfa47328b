/-!
# Sortable identifiers

An identifier of 26 base-32 characters: ten for the milliseconds since 1970,
sixteen for a random number. Identifiers of later milliseconds sort after
earlier ones.
-/
namespace FleetControl.Ulid

/-- The digits: no letters that look like others. -/
def alphabet : List Char := "0123456789abcdefghjkmnpqrstvwxyz".toList

def digit (n : Nat) : Char := alphabet.getD (n % 32) '0'

/-- The last `width` base-32 digits of a number, most significant first. -/
def digits : (width : Nat) → Nat → List Char
  | 0, _ => []
  | w + 1, n => digits w (n / 32) ++ [digit n]

/-- The characters of an instant. Instants before 1970 count as 1970, and only
48 bits of the milliseconds count. -/
def timeChars (millis : Int) : List Char := digits 10 (millis.toNat % 0x1000000000000)

def text (millis : Int) (random : Nat) : String :=
  String.ofList (timeChars millis ++ digits 16 random)

@[simp] theorem length_digits (width n : Nat) : (digits width n).length = width := by
  induction width generalizing n with
  | zero => rfl
  | succ w ih => simp [digits, ih]

theorem length_text (millis : Int) (random : Nat) : (text millis random).length = 26 := by
  simp [text, timeChars]

end FleetControl.Ulid
