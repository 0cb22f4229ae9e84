import MiddleEnd.Toml.Number
import MiddleEnd.Toml.Table

/-!
Documents: values, keys, statements, and the table that the statements of a document make up.
-/

namespace MiddleEnd.Toml

/-- Arrays and inline tables nest less deep than this, and keys have fewer parts. -/
def depthLimit : Nat := 80

def isBareKey (c : Char) : Bool := c.isAlphanum || c = '_' || c = '-'

def keyPart : Scan String := do
  blanks
  let s ← shortText <|> (String.ofList <$> Scan.run1 isBareKey)
  blanks
  return s

def key : Scan (List String) := do
  let parts ← Scan.sepBy1 keyPart (Scan.char '.')
  if parts.length < depthLimit then return parts else failure

def truth : Scan Data :=
  (do
    Scan.text ['t', 'r', 'u', 'e']
    return .boolean true) <|>
  (do
    Scan.text ['f', 'a', 'l', 's', 'e']
    return .boolean false)

/-- An array of values that are scanned by `v`. The last value may be followed by a comma. -/
def array (v : Scan Data) : Scan Data := do
  Scan.char '['
  let items ← Scan.sepBy (do
    filler
    let d ← v
    filler
    return d) (Scan.char ',')
  if !items.isEmpty then
    let _ ← Scan.option (Scan.char ',')
  filler
  Scan.char ']'
  return .list items

def inlineTable (v : Scan Data) : Scan Data := do
  Scan.char '\x7b'
  let pairs ← Scan.sepBy (do
    let path ← key
    Scan.char '='
    blanks
    let d ← v
    blanks
    return (path, d)) (Scan.char ',')
  blanks
  Scan.char '\x7d'
  match pairs.foldlM (fun t (path, d) => Entries.putPath path d t) ([] : Entries) with
  | some t => return (Item.table .header t).toData
  | none => failure

/-- A value in which arrays and inline tables nest at most `depth` deep. -/
def value (depth : Nat) : Scan Data := do
  let scalar := (Data.text <$> anyText) <|> truth <|> number
  match depth with
  | 0 => scalar
  | d + 1 => scalar <|> array (value d) <|> inlineTable (value d)

inductive Statement where
  | empty
  | table (path : List String)
  /-- A header that may be repeated. -/
  | next (path : List String)
  | entry (path : List String) (d : Data)

def header : Scan Statement :=
  (do
    Scan.text ['[', '[']
    let path ← key
    Scan.text [']', ']']
    trailing
    return .next path) <|>
  (do
    Scan.char '['
    let path ← key
    Scan.char ']'
    trailing
    return .table path)

def entry : Scan Statement := do
  let path ← key
  Scan.char '='
  blanks
  let d ← value (depthLimit - 1)
  trailing
  return .entry path d

/-- A statement with its line end and the blanks before the next one. -/
def statement : Scan Statement := do
  let s ← match ← Scan.peek? with
    | some '#' => do
      comment
      lineEnd
      pure .empty
    | some '\n' | some '\r' => do
      newline
      pure .empty
    | some '[' => header
    | _ => entry
  blanks
  return s

/-- All statements of a text, which may begin with a byte order mark. -/
def statements : Scan (List Statement) := do
  let _ ← Scan.option (Scan.char '\ufeff')
  blanks
  let ss ← Scan.many statement
  Scan.eof
  return ss

/-- A document while it is read: the whole table, and the path of the header that entries
belong to. -/
structure Reading where
  table : Entries := []
  path : List String := []

def Reading.add (r : Reading) : Statement → Option Reading
  | .empty => some r
  | .table path => do
    let key ← path.getLast?
    return { table := ← r.table.under (Entries.openTable key) path.dropLast, path }
  | .next path => do
    let key ← path.getLast?
    return { table := ← r.table.under (Entries.openNext key) path.dropLast, path }
  | .entry path d => do
    return { r with table := ← r.table.under (Entries.putPath path d) r.path }

def read? (text : String) : Option Data := do
  let (ss, _) ← statements text.toList
  let r ← ss.foldlM Reading.add {}
  return .record (Item.toFields r.table)

end MiddleEnd.Toml
