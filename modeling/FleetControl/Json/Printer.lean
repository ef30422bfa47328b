import FleetControl.Json

/-!
# Writing JSON text

The text has no blanks outside strings. Quotes, backslashes and control
characters are escaped and every other character stands for itself. Each
function writes its characters in front of a given rest.
-/
namespace FleetControl.Json

def hexDigit (n : Nat) : Char := Char.ofNat (if n % 16 < 10 then 48 + n % 16 else 87 + n % 16)

def escapedChar (c : Char) (rest : List Char) : List Char :=
  match c with
  | '"' => '\\' :: '"' :: rest
  | '\\' => '\\' :: '\\' :: rest
  | '\n' => '\\' :: 'n' :: rest
  | '\r' => '\\' :: 'r' :: rest
  | '\t' => '\\' :: 't' :: rest
  | '\x08' => '\\' :: 'b' :: rest
  | '\x0c' => '\\' :: 'f' :: rest
  | c =>
      if c.toNat < 0x20 then
        '\\' :: 'u' :: '0' :: '0' :: hexDigit (c.toNat / 16) :: hexDigit c.toNat :: rest
      else c :: rest

def writeString (s : String) (rest : List Char) : List Char :=
  '"' :: s.toList.foldr escapedChar ('"' :: rest)

mutual

def write (j : Json) (rest : List Char) : List Char :=
  match j with
  | .null => 'n' :: 'u' :: 'l' :: 'l' :: rest
  | .bool true => 't' :: 'r' :: 'u' :: 'e' :: rest
  | .bool false => 'f' :: 'a' :: 'l' :: 's' :: 'e' :: rest
  | .int i => (toString i).toList ++ rest
  | .real text => text.toList ++ rest
  | .string s => writeString s rest
  | .array [] => '[' :: ']' :: rest
  | .array (x :: xs) => '[' :: write x (writeItems xs (']' :: rest))
  | .object [] => '\x7b' :: '\x7d' :: rest
  | .object ((name, v) :: ms) =>
      '\x7b' :: writeString name (':' :: write v (writeMembers ms ('\x7d' :: rest)))

/-- The items of an array after its first. -/
def writeItems (xs : List Json) (rest : List Char) : List Char :=
  match xs with
  | [] => rest
  | x :: xs => ',' :: write x (writeItems xs rest)

/-- The members of an object after its first. -/
def writeMembers (ms : List (String × Json)) (rest : List Char) : List Char :=
  match ms with
  | [] => rest
  | (name, v) :: ms => ',' :: writeString name (':' :: write v (writeMembers ms rest))

end

def render (j : Json) : String := String.ofList (write j [])

end FleetControl.Json
