import MiddleEnd.Toml.Scan

/-!
The texts of the format: quoted in one line or in several, with escapes or without. Also the
blanks, line ends and comments between them.
-/

namespace MiddleEnd.Toml

/-- Control characters other than the tab must not be written. -/
def isPrintable (c : Char) : Bool := c = '\t' || (' ' ≤ c && c ≠ '\x7f')

def isBlank (c : Char) : Bool := c = ' ' || c = '\t'

def blanks : Scan Unit := do
  let _ ← Scan.run isBlank

def newline : Scan Unit := Scan.text ['\n'] <|> Scan.text ['\r', '\n']

def comment : Scan Unit := do
  Scan.char '#'
  let _ ← Scan.run isPrintable

def lineEnd : Scan Unit := newline <|> Scan.eof

/-- What may follow a statement in its line. -/
def trailing : Scan Unit := do
  blanks
  let _ ← Scan.option comment
  lineEnd

/-- Blanks, line ends and comments between the elements of an array. -/
def filler : Scan Unit := do
  let _ ← Scan.many (do
    let _ ← Scan.one isBlank)
  let _ ← Scan.many (do
    let _ ← Scan.option comment
    newline
    blanks)

def hexValue? (c : Char) : Option Nat :=
  if '0' ≤ c && c ≤ '9' then some (c.toNat - '0'.toNat)
  else if 'a' ≤ c && c ≤ 'f' then some (c.toNat - 'a'.toNat + 10)
  else if 'A' ≤ c && c ≤ 'F' then some (c.toNat - 'A'.toNat + 10)
  else none

def hexChar? (digits : List Char) : Option Char := do
  let values ← digits.mapM hexValue?
  let code := values.foldl (fun n d => 16 * n + d) 0
  if code.isValidChar then some (Char.ofNat code) else none

/-- Puts a character before what a scanner has taken. -/
def consTo (c : Char) (r : Option (List Char × List Char)) : Option (List Char × List Char) :=
  r.map fun (cs, rest) => (c :: cs, rest)

def escaped? (c : Char) : Option Char :=
  match c with
  | 'b' => some '\x08'
  | 't' => some '\t'
  | 'n' => some '\n'
  | 'f' => some '\x0c'
  | 'r' => some '\r'
  | '\x22' => some '\x22'
  | '\x5c' => some '\x5c'
  | _ => none

def basicBody : Scan (List Char)
  | '\x22' :: cs => some ([], cs)
  | '\x5c' :: 'u' :: a :: b :: c :: d :: cs => do
    let e ← hexChar? [a, b, c, d]
    consTo e (basicBody cs)
  | '\x5c' :: 'U' :: a :: b :: c :: d :: e :: f :: g :: h :: cs => do
    let e ← hexChar? [a, b, c, d, e, f, g, h]
    consTo e (basicBody cs)
  | '\x5c' :: c :: cs => do
    let e ← escaped? c
    consTo e (basicBody cs)
  | c :: cs => if isPrintable c && c ≠ '\x5c' then consTo c (basicBody cs) else none
  | [] => none

def literalBody : Scan (List Char)
  | '\x27' :: cs => some ([], cs)
  | c :: cs => if isPrintable c then consTo c (literalBody cs) else none
  | [] => none

def endsLine (cs : List Char) : Bool :=
  match cs.dropWhile isBlank with
  | '\n' :: _ | '\r' :: '\n' :: _ => true
  | _ => false

/-- The rest of a text in triple quotation marks. Up to two marks may stand directly before the
closing ones. While `skipping`, after a backslash at the end of a line, blanks and line ends do
not count. -/
def longBasicBody (skipping : Bool) : Scan (List Char)
  | '\x22' :: '\x22' :: '\x22' :: '\x22' :: '\x22' :: cs => some (['\x22', '\x22'], cs)
  | '\x22' :: '\x22' :: '\x22' :: '\x22' :: cs => some (['\x22'], cs)
  | '\x22' :: '\x22' :: '\x22' :: cs => some ([], cs)
  | '\x22' :: cs => consTo '\x22' (longBasicBody false cs)
  | '\x5c' :: 'u' :: a :: b :: c :: d :: cs => do
    let e ← hexChar? [a, b, c, d]
    consTo e (longBasicBody false cs)
  | '\x5c' :: 'U' :: a :: b :: c :: d :: e :: f :: g :: h :: cs => do
    let e ← hexChar? [a, b, c, d, e, f, g, h]
    consTo e (longBasicBody false cs)
  | '\x5c' :: c :: cs =>
    if endsLine (c :: cs) then longBasicBody true (c :: cs)
    else do
      let e ← escaped? c
      consTo e (longBasicBody false cs)
  | '\r' :: '\n' :: cs =>
    if skipping then longBasicBody true cs else consTo '\n' (longBasicBody false cs)
  | c :: cs =>
    if skipping && (isBlank c || c = '\n') then longBasicBody true cs
    else if (isPrintable c && c ≠ '\x5c') || c = '\n' then consTo c (longBasicBody false cs)
    else none
  | [] => none

def longLiteralBody : Scan (List Char)
  | '\x27' :: '\x27' :: '\x27' :: '\x27' :: '\x27' :: cs => some (['\x27', '\x27'], cs)
  | '\x27' :: '\x27' :: '\x27' :: '\x27' :: cs => some (['\x27'], cs)
  | '\x27' :: '\x27' :: '\x27' :: cs => some ([], cs)
  | '\r' :: '\n' :: cs => consTo '\n' (longLiteralBody cs)
  | c :: cs => if isPrintable c || c = '\n' then consTo c (longLiteralBody cs) else none
  | [] => none

def shortText : Scan String
  | '\x22' :: cs => (basicBody cs).map fun (s, rest) => (String.ofList s, rest)
  | '\x27' :: cs => (literalBody cs).map fun (s, rest) => (String.ofList s, rest)
  | _ => none

/-- A text in any of the four forms. A line end directly after the opening marks of the long
forms does not count. -/
def anyText : Scan String
  | '\x22' :: '\x22' :: '\x22' :: cs => do
    let (_, cs) ← Scan.option newline cs
    let (s, rest) ← longBasicBody false cs
    return (String.ofList s, rest)
  | '\x27' :: '\x27' :: '\x27' :: cs => do
    let (_, cs) ← Scan.option newline cs
    let (s, rest) ← longLiteralBody cs
    return (String.ofList s, rest)
  | cs => shortText cs

end MiddleEnd.Toml
