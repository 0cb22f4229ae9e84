import MiddleEnd.Toml.Text

/-!
Texts as they are written: in the plainest form that needs no escapes, or else in quotation
marks with escapes.
-/

namespace MiddleEnd.Toml

/-- There are `n` or more of a character in a row; `found` of them stand directly before. -/
def hasRun (c : Char) (n : Nat) (found : Nat) : List Char → Bool
  | [] => n ≤ found
  | d :: ds => n ≤ found || hasRun c n (if d = c then found + 1 else 0) ds

/-- A digit of a hexadecimal number, as a capital letter above nine. -/
def hexDigit (n : Nat) : Char :=
  if n < 10 then Char.ofNat ('0'.toNat + n) else Char.ofNat ('A'.toNat + n - 10)

def escape (c : Char) : List Char :=
  match c with
  | '\x08' => ['\x5c', 'b']
  | '\t' => ['\x5c', 't']
  | '\n' => ['\x5c', 'n']
  | '\x0c' => ['\x5c', 'f']
  | '\r' => ['\x5c', 'r']
  | '\x5c' => ['\x5c', '\x5c']
  | c =>
    if isPrintable c then [c]
    else ['\x5c', 'u', '0', '0', hexDigit (c.toNat / 16), hexDigit (c.toNat % 16)]

def escapeShort (cs : List Char) : List Char :=
  cs.flatMap fun c => if c = '\x22' then ['\x5c', c] else escape c

/-- The inside of a text in triple quotation marks: line ends stay, and every third mark of a row
is escaped. Of the row at hand, `marks` have been written since the last escape. -/
def escapeLong (marks : Nat) : List Char → List Char
  | [] => []
  | '\x22' :: cs =>
    if marks = 2 then '\x5c' :: '\x22' :: escapeLong 0 cs else '\x22' :: escapeLong (marks + 1) cs
  | '\n' :: cs => '\n' :: escapeLong 0 cs
  | c :: cs => escape c ++ escapeLong 0 cs

inductive Form where
  | basic | literal | longBasic | longLiteral
  deriving DecidableEq

/-- The first form that fits: without escapes if that is possible. -/
def Form.of (cs : List Char) : Form :=
  let oneLine := cs.all isPrintable
  let lines := cs.all fun c => isPrintable c || c = '\n'
  if oneLine && !cs.contains '\x5c' && !cs.contains '\x22' then .basic
  else if oneLine && !cs.contains '\x27' then .literal
  else if lines && !cs.contains '\x5c' && !hasRun '\x22' 3 0 cs then .longBasic
  else if lines && !hasRun '\x27' 3 0 cs then .longLiteral
  else if cs.contains '\n' then .longBasic
  else .basic

/-- Writes a text in its form. The long forms begin with a line end of their own if the text has
more than one line. -/
def quote (s : String) : String :=
  let cs := s.toList
  let start := if cs.contains '\n' then ['\n'] else []
  let marks := List.replicate 3 '\x22'
  let apostrophes := List.replicate 3 '\x27'
  String.ofList <|
    match Form.of cs with
    | .basic => ['\x22'] ++ escapeShort cs ++ ['\x22']
    | .literal => ['\x27'] ++ cs ++ ['\x27']
    | .longBasic => marks ++ start ++ escapeLong 0 cs ++ marks
    | .longLiteral => apostrophes ++ start ++ cs ++ apostrophes

end MiddleEnd.Toml
