import FleetControl.Toml.Table
import FleetControl.Toml.Text
import FleetControl.Toml.Word

/-!
# Reading a settings file

A settings file has one statement on a line: a header that opens a table, or a
key with its value. Values are texts, words, lists and inline tables. Lists may
go on over several lines and contain remarks, inline tables may not. Nesting and
keys are limited in depth. The recursion is bounded by the length of the text.
-/
namespace FleetControl.Toml

/-- Nesting and keys stay below this depth. -/
def depthLimit : Nat := 80

/-! ## Keys -/

/-- Whether a character may stand in a bare name. -/
def isNameChar (c : Char) : Bool := c.isAlphanum || c == '_' || c == '-'

/-- A name at the front of a text: bare, in quotation marks or in apostrophes. -/
def nameAt : List Char → Option (String × List Char)
  | '"' :: rest => quotedText [] rest
  | '\x27' :: rest => literalText [] rest
  | cs =>
      let name := cs.takeWhile isNameChar
      if name.isEmpty then none else some (String.ofList name, cs.dropWhile isNameChar)

/-- Names with points between them and spaces around each. -/
def namesAt : (fuel : Nat) → List Char → Option (List String × List Char)
  | 0, _ => none
  | n + 1, cs => do
      let (name, rest) ← nameAt (skipSpaces cs)
      match skipSpaces rest with
      | '.' :: rest =>
          let (names, rest) ← namesAt n rest
          some (name :: names, rest)
      | rest => some ([name], rest)

/-- A key as its last name after the path to it. -/
structure Key where
  path : List String
  name : String

/-- A key at the front of a text. -/
def keyAt (cs : List Char) : Option (Key × List Char) := do
  let (names, rest) ← namesAt (cs.length + 1) cs
  let name ← names.getLast?
  if names.length < depthLimit then some (⟨names.dropLast, name⟩, rest) else none

/-! ## Values -/

/-- What follows spaces, line ends and remarks. -/
def skipGaps : (inRemark : Bool) → List Char → Option (List Char)
  | _, [] => some []
  | true, c :: rest =>
      if c == '\n' then skipGaps false rest else if isPlain c then skipGaps true rest else none
  | false, c :: rest =>
      if isSpace c || c == '\n' then skipGaps false rest
      else if c == '#' then skipGaps true rest
      else some (c :: rest)

/-- What an inline table with these members says. -/
def inlineTable? (members : List (Key × Setting)) : Option Setting := do
  let define (t : Table) (m : Key × Setting) : Option Table :=
    t.define m.1.path m.1.name m.2 .header
  ofMembers? (← membersToSettings? (← members.foldlM define []))

mutual

/-- One value at the front of a text, inside so many others. -/
def valueAt : (fuel depth : Nat) → List Char → Option (Setting × List Char)
  | 0, _, _ => none
  | n + 1, depth, cs =>
      match cs with
      | '"' :: _ | '\x27' :: _ => (textAt cs).map fun (s, rest) => (.text s, rest)
      | '[' :: rest => if depth + 1 < depthLimit then itemsAt n (depth + 1) [] rest else none
      | '\x7b' :: rest =>
          if depth + 1 < depthLimit then
            match skipSpaces rest with
            | '\x7d' :: rest => some (.group [], rest)
            | rest => membersAt n (depth + 1) [] rest
          else none
      | cs => wordAt cs

/-- The items of a list up to its closing bracket, those before in reverse. -/
def itemsAt : (fuel depth : Nat) → (before : List Setting) → List Char →
    Option (Setting × List Char)
  | 0, _, _, _ => none
  | n + 1, depth, before, cs => do
      match ← skipGaps false cs with
      | ']' :: rest => some (.list before.reverse, rest)
      | cs =>
          let (item, rest) ← valueAt n depth cs
          match ← skipGaps false rest with
          | ',' :: rest => itemsAt n depth (item :: before) rest
          | ']' :: rest => some (.list (item :: before).reverse, rest)
          | _ => none

/-- The members of an inline table up to its closing brace, those before in
reverse. -/
def membersAt : (fuel depth : Nat) → (before : List (Key × Setting)) → List Char →
    Option (Setting × List Char)
  | 0, _, _, _ => none
  | n + 1, depth, before, cs => do
      let (key, rest) ← keyAt cs
      let (v, rest) ← valueAt n depth (skipSpaces (← after '=' rest))
      match skipSpaces rest with
      | ',' :: rest => membersAt n depth ((key, v) :: before) rest
      | '\x7d' :: rest =>
          (inlineTable? ((key, v) :: before).reverse).map fun table => (table, rest)
      | _ => none

end

/-! ## Statements -/

/-- What follows the end of a line, after spaces and a remark. -/
def lineEnd (cs : List Char) : Option (List Char) :=
  let afterLine : List Char → Option (List Char)
    | [] => some []
    | c :: rest => if c == '\n' then some rest else none
  match skipSpaces cs with
  | '#' :: rest => afterLine (rest.dropWhile isPlain)
  | rest => afterLine rest

/-- A file that has been read so far: the table opened last and all of them. -/
structure Draft where
  opened : List String
  root : Table

namespace Draft

def empty : Draft := ⟨[], []⟩

/-- Open a table. -/
def openTable (d : Draft) (key : Key) : Option Draft :=
  (d.root.openTable key.path key.name).map (⟨key.path ++ [key.name], ·⟩)

/-- Add a row to a list of tables and open it. -/
def addRow (d : Draft) (key : Key) : Option Draft :=
  (d.root.addRow key.path key.name).map (⟨key.path ++ [key.name], ·⟩)

/-- Give a key its value in the open table. -/
def define (d : Draft) (key : Key) (v : Setting) : Option Draft :=
  (d.root.defineIn d.opened key.path key.name v).map (⟨d.opened, ·⟩)

end Draft

/-- A statement at the front of a text, as what it makes of a file. -/
def statementAt (d : Draft) (cs : List Char) : Option (Draft × List Char) := do
  match cs with
  | '[' :: '[' :: rest =>
      let (key, rest) ← keyAt rest
      let rest ← after ']' (← after ']' rest)
      some (← d.addRow key, rest)
  | '[' :: rest =>
      let (key, rest) ← keyAt rest
      let rest ← after ']' rest
      some (← d.openTable key, rest)
  | cs =>
      let (key, rest) ← keyAt cs
      let (v, rest) ← valueAt (2 * cs.length + 2) 0 (skipSpaces (← after '=' rest))
      some (← d.define key v, rest)

/-- The lines of a text. -/
def readLines : (fuel : Nat) → Draft → List Char → Option Draft
  | 0, _, _ => none
  | n + 1, d, cs =>
      match skipSpaces cs with
      | [] => some d
      | '\n' :: rest => readLines n d rest
      | '#' :: rest => do readLines n d (← lineEnd ('#' :: rest))
      | cs => do
          let (d, rest) ← statementAt d cs
          readLines n d (← lineEnd rest)

/-- A text with single line feeds for its line ends. -/
def unifyLineEnds : List Char → List Char
  | '\x0d' :: '\n' :: rest => '\n' :: unifyLineEnds rest
  | c :: rest => c :: unifyLineEnds rest
  | [] => []

/-- A text without the mark that may stand at its start. -/
def skipMark : List Char → List Char
  | '\ufeff' :: rest => rest
  | rest => rest

/-- Read a settings file; `none` if any part is not of its form. -/
def parse? (text : String) : Option (List (String × Setting)) := do
  let cs := unifyLineEnds (skipMark text.toList)
  let d ← readLines (cs.length + 1) Draft.empty cs
  membersToSettings? d.root

end FleetControl.Toml
