import FleetControl.Json.Parser

/-!
# Texts of a settings file

A text stands in quotation marks, with escapes, or in apostrophes, as it is. In
one mark on either side it ends on its line; in three it may go on over several
lines. A reader starts after the opening mark and gives the text with what
follows its closing mark. Line ends are single line feeds.
-/
namespace FleetControl.Toml

/-- A space or a tab. -/
def isSpace (c : Char) : Bool := c == ' ' || c == '\t'

def skipSpaces (cs : List Char) : List Char := cs.dropWhile isSpace

/-- Whether a character may stand in a text or a remark. Of the control
characters only the tab may. -/
def isPlain (c : Char) : Bool := c == '\t' || (0x20 ≤ c.toNat && c.toNat != 0x7F)

/-- The character with a hexadecimal number. -/
def numberedChar? (digits : List Char) : Option Char := do
  let values ← digits.mapM Json.hexValue?
  let n := values.foldl (fun n d => n * 16 + d) 0
  if n < 0xD800 || (0xE000 ≤ n && n < 0x110000) then some (Char.ofNat n) else none

/-- The character that a letter stands for after a backslash. -/
def escaped? : Char → Option Char
  | '"' => some '"'
  | '\\' => some '\\'
  | 'b' => some '\x08'
  | 'f' => some '\x0c'
  | 'n' => some '\n'
  | 'r' => some '\r'
  | 't' => some '\t'
  | _ => none

/-- A text in quotation marks on one line, the characters before in reverse. -/
def quotedText (before : List Char) : List Char → Option (String × List Char)
  | '"' :: rest => some (String.ofList before.reverse, rest)
  | '\\' :: 'u' :: a :: b :: c :: d :: rest => do
      let char ← numberedChar? [a, b, c, d]
      quotedText (char :: before) rest
  | '\\' :: 'U' :: a :: b :: c :: d :: e :: f :: g :: h :: rest => do
      let char ← numberedChar? [a, b, c, d, e, f, g, h]
      quotedText (char :: before) rest
  | '\\' :: c :: rest => do
      let char ← escaped? c
      quotedText (char :: before) rest
  | c :: rest => if isPlain c then quotedText (c :: before) rest else none
  | [] => none

/-- The end of a text at three marks. One or two more of them belong to the text. -/
def closing (mark : Char) (before rest : List Char) : String × List Char :=
  let more := min 2 (rest.takeWhile (· == mark)).length
  (String.ofList (before.reverse ++ rest.take more), rest.drop more)

/-- A text in quotation marks over several lines. A backslash at the end of a
line joins the text to the next character that is neither blank nor line end. -/
def quotedBlock : (joining : Bool) → (before : List Char) → List Char →
    Option (String × List Char)
  | true, before, ' ' :: rest => quotedBlock true before rest
  | true, before, '\t' :: rest => quotedBlock true before rest
  | true, before, '\n' :: rest => quotedBlock true before rest
  | _, before, '"' :: '"' :: '"' :: rest => some (closing '"' before rest)
  | _, before, '\\' :: 'u' :: a :: b :: c :: d :: rest => do
      let char ← numberedChar? [a, b, c, d]
      quotedBlock false (char :: before) rest
  | _, before, '\\' :: 'U' :: a :: b :: c :: d :: e :: f :: g :: h :: rest => do
      let char ← numberedChar? [a, b, c, d, e, f, g, h]
      quotedBlock false (char :: before) rest
  | _, before, '\\' :: c :: rest =>
      if (skipSpaces (c :: rest)).head? == some '\n' then quotedBlock true before rest
      else do
        let char ← escaped? c
        quotedBlock false (char :: before) rest
  | _, before, c :: rest =>
      if isPlain c || c == '\n' then quotedBlock false (c :: before) rest else none
  | _, _, [] => none

/-- A text in apostrophes on one line. -/
def literalText (before : List Char) : List Char → Option (String × List Char)
  | '\x27' :: rest => some (String.ofList before.reverse, rest)
  | c :: rest => if isPlain c then literalText (c :: before) rest else none
  | [] => none

/-- A text in apostrophes over several lines. -/
def literalBlock (before : List Char) : List Char → Option (String × List Char)
  | '\x27' :: '\x27' :: '\x27' :: rest => some (closing '\x27' before rest)
  | c :: rest => if isPlain c || c == '\n' then literalBlock (c :: before) rest else none
  | [] => none

/-- A line end right after the opening marks does not count. -/
def skipLineEnd : List Char → List Char
  | '\n' :: rest => rest
  | rest => rest

/-- A text of any form, from its opening mark; `none` if there is none. -/
def textAt : List Char → Option (String × List Char)
  | '"' :: '"' :: '"' :: rest => quotedBlock false [] (skipLineEnd rest)
  | '"' :: rest => quotedText [] rest
  | '\x27' :: '\x27' :: '\x27' :: rest => literalBlock [] (skipLineEnd rest)
  | '\x27' :: rest => literalText [] rest
  | _ => none

end FleetControl.Toml
