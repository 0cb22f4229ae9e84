import MiddleEnd.Types.Table

/-!
Types unfolded into trees, the texts written from them, and the comparison of types.
-/

namespace MiddleEnd

/-- A type unfolded down to basic types and classes. -/
inductive Shape where
  | number
  | string
  | boolean
  | null
  | any
  | object (id : ClassId) (name : String)
  /-- A number that the table does not have. -/
  | unknown (id : TypeId)
  | array (element : Shape)
  | dictionary (key value : Shape)
  deriving DecidableEq

namespace Shape

def display : Shape → String
  | .number => "Number"
  | .string => "String"
  | .boolean => "Boolean"
  | .null => "Null"
  | .any => "Any"
  | .object _ name => name
  | .unknown id => s!"Unknown({id.index})"
  | .array e => "Array<" ++ e.display ++ ">"
  | .dictionary k v => "Dictionary<" ++ k.display ++ ", " ++ v.display ++ ">"

/-- The text by which structural types are compared; it tells classes of one name apart. -/
def signature : Shape → String
  | .number => "Number"
  | .string => "String"
  | .boolean => "Boolean"
  | .null => "Null"
  | .any => "Any"
  | .object id name => s!"{name}#{id.index}"
  | .unknown id => s!"?{id.index}"
  | .array e => "[" ++ e.signature ++ "]"
  | .dictionary k v => "\x7b" ++ k.signature ++ ":" ++ v.signature ++ "\x7d"

end Shape

namespace TypeTable

/-- Unfolds a type through at most `depth` levels. -/
def unfold (t : TypeTable) : Nat → TypeId → Shape
  | 0, id => .unknown id
  | depth + 1, id =>
    match t.form? id with
    | none => .unknown id
    | some .number => .number
    | some .string => .string
    | some .boolean => .boolean
    | some .null => .null
    | some .any => .any
    | some (.object c name) => .object c name
    | some (.array e) => .array (t.unfold depth e)
    | some (.dictionary k v) => .dictionary (t.unfold depth k) (t.unfold depth v)

/-- The whole unfolding: a chain of components that does not come back to itself has at most
one level for each constructed type, and one more for its end. -/
def shape (t : TypeTable) (id : TypeId) : Shape := t.unfold (t.forms.length + 1) id

def display (t : TypeTable) (id : TypeId) : String := (t.shape id).display

def signature (t : TypeTable) (id : TypeId) : String := (t.shape id).signature

def displayAll (t : TypeTable) (ids : List TypeId) : String := ", ".intercalate (ids.map t.display)

/-- Arrays and dictionaries are the same if their signatures are, all other types if they
have one number. -/
def sameType (t : TypeTable) (a b : TypeId) : Bool :=
  if t.isStructural a || t.isStructural b then t.signature a = t.signature b else a = b

/-- A value of type `source` may be put where `target` is asked for. -/
def assignable (t : TypeTable) (target source : TypeId) : Bool :=
  target.isAny || source.isAny || t.sameType target source

/-- Some value may belong to both types. -/
def overlap (t : TypeTable) (a b : TypeId) : Bool := a.isAny || b.isAny || t.sameType a b

end TypeTable

/-- The type shared by all, or `Any` where they differ or there are none. -/
def TypeId.common : List TypeId → TypeId
  | [] => any
  | t :: rest => if rest.all (· = t) then t else any

end MiddleEnd
