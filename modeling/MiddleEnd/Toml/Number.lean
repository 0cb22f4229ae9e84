import MiddleEnd.Data
import MiddleEnd.Toml.Text

/-!
Numbers, dates and times. Of numbers that are not integers, dates and times only the form and
the range are checked.
-/

namespace MiddleEnd.Toml

def isDigit (c : Char) : Bool := '0' ≤ c && c ≤ '9'

def ofDigits (base : Nat) (digits : List Char) : Nat :=
  digits.foldl (fun n c => base * n + (hexValue? c).getD 0) 0

/-- A group of digits that goes on, possibly after an underscore. -/
def moreDigits (p : Char → Bool) : Scan (List Char) :=
  Scan.many (do
    let _ ← Scan.option (Scan.char '_')
    Scan.one p)

/-- One or more digits, with single underscores between them. -/
def digits (p : Char → Bool) : Scan (List Char) := do
  let c ← Scan.one p
  return c :: (← moreDigits p)

def sign : Scan Bool := do
  match ← Scan.option (Scan.one fun c => c = '+' || c = '-') with
  | some c => return c = '-'
  | none => return false

def decimalDigits : Scan (List Char) := do
  let c ← Scan.one isDigit
  if c = '0' then return [c] else return c :: (← moreDigits isDigit)

/-- An integer has to fit into 64 bits with a sign. -/
def inRange (n : Int) : Scan Data :=
  let limit : Int := (1 <<< 63 : Nat)
  if -limit ≤ n ∧ n < limit then return .integer n else failure

def based (letter : Char) (base : Nat) : Scan Data := do
  Scan.text ['0', letter]
  let ds ← digits fun c => (hexValue? c).any (· < base)
  inRange (ofDigits base ds)

def decimal : Scan Data := do
  let negative ← sign
  let n : Int := ofDigits 10 (← decimalDigits)
  inRange (if negative then -n else n)

/-- An integer. What begins like one in another base is none in base ten. -/
def integer : Scan Data := based 'x' 16 <|> based 'o' 8 <|> based 'b' 2 <|> decimal

def fraction : Scan (List Char) := do
  Scan.char '.'
  digits isDigit

def exponent : Scan Int := do
  let _ ← Scan.one fun c => c = 'e' || c = 'E'
  let negative ← sign
  let n : Int := ofDigits 10 (← digits isDigit)
  return if negative then -n else n

/-- The number `m · 10 ^ e`, where `m` has at most `size` digits, is too large for a double: it
lies halfway from the largest one to the next power of two, or above. -/
def isHuge (m size : Nat) (e : Int) : Bool :=
  let limit := ((1 <<< 54) - 1) <<< 970
  if m = 0 || size + e ≤ 308 then false
  else if 400 ≤ e then true
  else limit * Nat.pow 10 (-e).toNat ≤ m * Nat.pow 10 e.toNat

/-- A number with a fraction, an exponent or both. A positive one must not be too large. -/
def finite : Scan Data := do
  let negative ← sign
  let whole ← decimalDigits
  let (frac, e) ←
    (do return ([], ← exponent)) <|>
    (do
      let frac ← fraction
      return (frac, (← Scan.option exponent).getD 0))
  let ds := whole ++ frac
  if !negative && isHuge (ofDigits 10 ds) ds.length (e - frac.length) then failure
  else return .real (String.ofList ds)

def special : Scan Data := do
  let _ ← sign
  Scan.text ['i', 'n', 'f'] <|> Scan.text ['n', 'a', 'n']
  return .real "special"

def field (n low high : Nat) : Scan Nat := do
  let v := ofDigits 10 (← Scan.exactly isDigit n)
  if low ≤ v && v ≤ high then return v else failure

def daysIn (year month : Nat) : Nat :=
  let leap := year % 4 = 0 ∧ (year % 100 ≠ 0 ∨ year % 400 = 0)
  match month with
  | 2 => if leap then 29 else 28
  | 4 | 6 | 9 | 11 => 30
  | _ => 31

def date : Scan Unit := do
  let year ← field 4 0 9999
  Scan.char '-'
  let month ← field 2 1 12
  Scan.char '-'
  let _ ← field 2 1 (daysIn year month)

/-- The time of a day; a leap second is allowed. -/
def time : Scan Unit := do
  let _ ← field 2 0 23
  Scan.char ':'
  let _ ← field 2 0 59
  Scan.char ':'
  let _ ← field 2 0 60
  let _ ← Scan.option (do
    Scan.char '.'
    Scan.run1 isDigit)

def offset : Scan Unit :=
  (do
    let _ ← Scan.one fun c => c = 'Z' || c = 'z') <|>
  (do
    let _ ← Scan.one fun c => c = '+' || c = '-'
    let _ ← field 2 0 23
    Scan.char ':'
    let _ ← field 2 0 59)

/-- A date, a time, or both. It has no parts that a record could be read from. -/
def dateTime : Scan Data := do
  (do
    date
    let _ ← Scan.option (do
      let _ ← Scan.one fun c => c = 'T' || c = 't' || c = ' '
      time
      let _ ← Scan.option offset)) <|> time
  return .record []

def number : Scan Data := dateTime <|> finite <|> special <|> integer

end MiddleEnd.Toml
