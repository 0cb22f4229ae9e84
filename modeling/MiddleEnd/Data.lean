import MiddleEnd.Span

/-!
Plain data as it comes from a text format, and the reading of records from it. A record
may be given by field names, or as a list of its fields in their declared order.
-/

namespace MiddleEnd

/-- Plain data. A number that is not written as an integer is kept as it was written. -/
inductive Data where
  | null
  | boolean (value : Bool)
  | integer (value : Int)
  | real (written : String)
  | text (value : String)
  | list (items : List Data)
  | record (fields : List (String × Data))

namespace Data

/-- The named fields of a value, in the order of `names`: by name from a record, by position
from a list. Fields that are not there are `none`, and a value of another form has no
fields at all. -/
def fields? (names : List String) : Data → Option (List (Option Data))
  | .record given => some (names.map fun name => List.lookup name given)
  | .list items => some ((List.range names.length).map fun i => items[i]?)
  | _ => none

/-- As `fields?`, where a list has to give every field and nothing more. -/
def exactFields? (names : List String) (d : Data) : Option (List (Option Data)) :=
  match d with
  | .list items => if items.length = names.length then d.fields? names else none
  | _ => d.fields? names

def natural? : Data → Option Nat
  | .integer n => if 0 ≤ n ∧ n.toNat < 1 <<< 64 then some n.toNat else none
  | _ => none

def text? : Data → Option String
  | .text s => some s
  | _ => none

def boolean? : Data → Option Bool
  | .boolean b => some b
  | _ => none

end Data

namespace Location

def fieldNames : List String := ["line", "column", "offset"]

def toData (l : Location) : Data :=
  .record (fieldNames.zip [.integer l.line, .integer l.column, .integer l.offset])

def ofData? (d : Data) : Option Location := do
  match ← d.exactFields? fieldNames with
  | [some line, some column, some offset] =>
    return { line := ← line.natural?, column := ← column.natural?, offset := ← offset.natural? }
  | _ => none

end Location

namespace Span

def fieldNames : List String := ["start", "end"]

def toData (s : Span) : Data := .record (fieldNames.zip [s.start.toData, s.stop.toData])

def ofData? (d : Data) : Option Span := do
  match ← d.exactFields? fieldNames with
  | [some start, some stop] =>
    return { start := ← Location.ofData? start, stop := ← Location.ofData? stop }
  | _ => none

end Span
end MiddleEnd
