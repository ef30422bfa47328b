import FleetControl.Text.Unprintable

/-!
# Quoted names

The form in which a name appears in diagnostic texts: in quotation marks, with
quotation marks, backslashes and everything that has no shape of its own
escaped.
-/
namespace FleetControl.Quoted

/-- The hexadecimal digits of a number, without leading zeros. -/
def hexChars (n : Nat) : List Char := Nat.toDigits 16 n

def escape (c : Char) : List Char :=
  match c with
  | '"' => ['\\', '"']
  | '\\' => ['\\', '\\']
  | '\t' => ['\\', 't']
  | '\n' => ['\\', 'n']
  | '\r' => ['\\', 'r']
  | '\x00' => ['\\', '0']
  | c =>
      if Unprintable.contains c.toNat then
        '\\' :: 'u' :: '\x7b' :: (hexChars c.toNat ++ ['\x7d'])
      else [c]

def quote (s : String) : String := String.ofList ('"' :: s.toList.flatMap escape ++ ['"'])

end FleetControl.Quoted
