import FleetControl.Config.Setting
import FleetControl.Error
import FleetControl.Text.Blank
import FleetControl.Text.Quoted
import FleetControl.Toml.Text

/-!
# Settings in variables

A variable gives a setting whose path is in its name. Its text is a truth value,
a number, a quoted text, a single character in apostrophes, a list, a group or
a plain word, whichever it reads as in full; any other text stands for itself.
What stands before the first escape of a quoted text is kept for as many bytes
as it has characters, and it is a crash if that divides a character. The
recursion is bounded by the length of the text.
-/
namespace FleetControl.Variable

/-- Space, tab, line feed, form feed and carriage return. -/
def isGap (c : Char) : Bool := [' ', '\t', '\n', '\x0c', '\x0d'].contains c

def skipGaps (cs : List Char) : List Char := cs.dropWhile isGap

/-- A character that is in no plain word. -/
def isSeparator (c : Char) : Bool := [',', '\x7b', '\x7d', '[', ']'].contains c

/-- Whether a character may stand in a bare name. -/
def isNameChar (c : Char) : Bool := c.isAlphanum || c == '_' || c == '-'

/-! ## Plain words -/

/-- The number of a text of digits, if it is one. -/
def digits? (cs : List Char) : Option Nat :=
  if !cs.isEmpty && cs.all Json.isDigit then some (Json.natOfDigits cs) else none

/-- Whether a text is empty or an exponent. -/
def isExponent : List Char → Bool
  | [] => true
  | c :: rest =>
      let digits := match rest with
        | '+' :: digits | '-' :: digits => digits
        | digits => digits
      (c == 'e' || c == 'E') && (digits? digits).isSome

/-- Whether a word is a number with a point. -/
def isReal (word : List Char) : Bool :=
  let body := match word with
    | '+' :: body | '-' :: body => body
    | body => body
  let whole := body.takeWhile Json.isDigit
  match body.drop whole.length with
  | '.' :: rest =>
      let fraction := rest.takeWhile Json.isDigit
      !(whole.isEmpty && fraction.isEmpty) && isExponent (rest.drop fraction.length)
  | _ => false

/-- A whole number of 64 bits: unsigned, or else negative. -/
def whole? : List Char → Option Setting
  | '-' :: cs => do
      let n ← digits? cs
      if n ≤ 0x8000000000000000 then some (.integer (-(n : Int))) else none
  | cs => do
      let n ← digits? (match cs with
        | '+' :: cs => cs
        | cs => cs)
      if n < 0x10000000000000000 then some (.natural n) else none

/-- What a plain word says. -/
def ofWord (word : List Char) : Setting :=
  if isReal word then .real else (whole? word).getD (.text (String.ofList word))

/-! ## Quoted texts -/

/-- Why the reading of a text ends without a value. -/
inductive Misfit where
  /-- The text is not of the form. -/
  | form
  | crash (message : String)
  deriving DecidableEq, Repr

/-- A value read from the front of a text. -/
abbrev Reading (α : Type) := Except Misfit α

/-- A reading that can only fail by its form. -/
def ofForm {α : Type} : Option α → Reading α
  | some a => .ok a
  | none => .error .form

/-- Whether a quoted text has an end, after its opening mark. -/
def isClosed : List Char → Bool
  | '\\' :: _ :: rest => isClosed rest
  | '"' :: _ => true
  | _ :: rest => isClosed rest
  | [] => false

/-- The first bytes of a text after some others, or the character that they would
divide with the place where it starts. -/
def firstBytes : (count start : Nat) → List Char → Except (Char × Nat) (List Char)
  | _, _, [] => .ok []
  | count, start, c :: cs =>
      if count = 0 then .ok []
      else if count < c.utf8Size then .error (c, start)
      else (firstBytes (count - c.utf8Size) (start + c.utf8Size) cs).map (c :: ·)

/-- In a text of characters of one byte each, bytes are characters. -/
theorem firstBytes_of_single {cs : List Char} (h : ∀ c ∈ cs, c.utf8Size = 1) (count start : Nat) :
    firstBytes count start cs = .ok (cs.take count) := by
  induction cs generalizing count start with
  | nil => simp [firstBytes]
  | cons c cs ih =>
      have hc : c.utf8Size = 1 := h c (List.mem_cons_self ..)
      cases count with
      | zero => simp [firstBytes]
      | succ n => simp [firstBytes, hc, ih fun d hd => h d (List.mem_cons_of_mem _ hd), Except.map]

/-- What is said of a text that would be divided within a character. -/
def divisionText (count : Nat) (c : Char) (start : Nat) : String :=
  let stop := start + c.utf8Size
  let shown := "\x27" ++ String.ofList (Quoted.escape c) ++ "\x27"
  s!"end byte index {count} is not a char boundary; "
    ++ s!"it is inside {shown} (bytes {start}..{stop} of string)"

/-- A text in quotation marks, after its opening mark. -/
def quotedText (cs : List Char) : Reading (String × List Char) :=
  let before := cs.takeWhile fun c => c != '"' && c != '\\'
  let rest := cs.drop before.length
  if !isClosed cs || !before.all Toml.isPlain then .error .form
  else if rest.head? != some '\\' then ofForm (Toml.quotedText before.reverse rest)
  else
    match firstBytes before.length 0 before with
    | .ok kept => ofForm (Toml.quotedText kept.reverse rest)
    | .error (c, start) => .error (.crash (divisionText before.length c start))

/-! ## Texts of variables -/

/-- A name in a group: bare or in quotation marks. -/
def nameAt : List Char → Reading (String × List Char)
  | '"' :: rest => quotedText rest
  | cs =>
      let name := cs.takeWhile isNameChar
      if name.isEmpty then .error .form
      else .ok (String.ofList name, cs.dropWhile isNameChar)

/-- A plain word at the front of a text, without the blanks around it. -/
def wordAt (cs : List Char) : Setting × List Char :=
  let word := cs.takeWhile (!isSeparator ·)
  (ofWord (trimBlanks (String.ofList word)).toList, cs.drop word.length)

mutual

/-- One value at the front of a text with the gaps around it. -/
def valueAt : (fuel : Nat) → List Char → Reading (Setting × List Char)
  | 0, _ => .error .form
  | n + 1, cs => do
      let cs := skipGaps cs
      let (v, rest) ← match cs with
        | 't' :: 'r' :: 'u' :: 'e' :: rest => .ok (.flag true, rest)
        | 'f' :: 'a' :: 'l' :: 's' :: 'e' :: rest => .ok (.flag false, rest)
        | '\x7b' :: rest => membersAt n [] rest
        | '[' :: rest => itemsAt n [] rest
        | '"' :: rest => (quotedText rest).map fun (s, rest) => (.text s, rest)
        | '\x27' :: c :: '\x27' :: rest => .ok (.letter c, rest)
        | '\x27' :: _ => .error .form
        | cs => .ok (wordAt cs)
      .ok (v, skipGaps rest)

/-- The items of a list up to its closing bracket, those before in reverse. -/
def itemsAt : (fuel : Nat) → (before : List Setting) → List Char → Reading (Setting × List Char)
  | 0, _, _ => .error .form
  | _ + 1, before, ']' :: rest => .ok (.list before.reverse, rest)
  | n + 1, before, cs => do
      let (item, rest) ← valueAt n cs
      match rest with
      | ',' :: rest => itemsAt n (item :: before) rest
      | ']' :: rest => .ok (.list (item :: before).reverse, rest)
      | _ => .error .form

/-- The members of a group up to its closing brace, after those before. The last
of several members with one name counts. -/
def membersAt : (fuel : Nat) → (before : List (String × Setting)) → List Char →
    Reading (Setting × List Char)
  | 0, _, _ => .error .form
  | _ + 1, before, '\x7d' :: rest => .ok (.group before, rest)
  | n + 1, before, cs => do
      let (name, rest) ← nameAt (skipGaps cs)
      match skipGaps rest with
      | '=' :: rest =>
          let (v, rest) ← valueAt n rest
          let members := Setting.putMember name v before
          match rest with
          | ',' :: rest => membersAt n members rest
          | '\x7d' :: rest => .ok (.group members, rest)
          | _ => .error .form
      | _ => .error .form

end

/-- The value of a variable's text. -/
def value (text : String) : Outcome Setting :=
  let cs := text.toList
  match valueAt (2 * cs.length + 2) cs with
  | .ok (v, []) => .ok v
  | .error (.crash message) => .error (.crash (some message))
  | _ => .ok (.text text)

/-! ## Names of variables -/

/-- The path in a variable's name, in small letters: its parts lie between points
or double underscores. A name with an empty part says nothing. -/
def path? (name : String) : Option (List String) :=
  let parts := ((trimBlanks name).splitOn "__").flatMap (·.splitOn ".")
  if parts.any String.isEmpty then none
  else some (parts.map fun part => String.ofList (part.toList.map Char.toLower))

/-- The settings of variables, one after the other. Names that say nothing are
passed over with their texts. -/
def settings (given : List (String × String)) : Outcome Setting :=
  given.foldlM (fun settings (name, text) =>
    match path? name with
    | some path => (value text).map fun v => settings.under (Setting.nested path v)
    | none => .ok settings) (.group [])

end FleetControl.Variable
