import MiddleEnd.Span
import MiddleEnd.Types.Binding

/-!
The table of types. The five basic types are always there; arrays, dictionaries and classes
are added one by one, and every addition takes the next number, even where a type of the
same shape is there already.
-/

namespace MiddleEnd

inductive TypeForm where
  | number
  | string
  | boolean
  | null
  | any
  | array (element : TypeId)
  | dictionary (key value : TypeId)
  | object (id : ClassId) (name : String)
  deriving DecidableEq

namespace TypeForm

def isBasic : TypeForm → Bool
  | .number | .string | .boolean | .null | .any => true
  | _ => false

/-- Arrays and dictionaries are compared by what they are built from. -/
def isStructural : TypeForm → Bool
  | .array _ | .dictionary .. => true
  | _ => false

/-- All other types are compared by their number. -/
def isNominal (f : TypeForm) : Bool := !f.isStructural

def name : TypeForm → String
  | .number => "Number"
  | .string => "String"
  | .boolean => "Boolean"
  | .null => "Null"
  | .any => "Any"
  | .array _ => "Array"
  | .dictionary .. => "Dictionary"
  | .object _ name => name

end TypeForm

def TypeId.basic : List (String × TypeId) :=
  [("Number", .number), ("String", .string), ("Boolean", .boolean), ("Null", .null),
    ("Any", .any)]

/-- A constructor of a class: the types of its parameters, and where it stands. -/
structure Constructor where
  params : List TypeId
  span : Span
  deriving DecidableEq

structure ClassEntry where
  id : ClassId
  name : String
  type : TypeId
  constructors : List Constructor := []
  members : Bindings := {}
  /-- The scope of the class body, once it has been opened. -/
  body : Option ScopeId := none
  /-- All of the body has been looked at. -/
  finalized : Bool := false
  deriving DecidableEq

/-- The parameter lists under which instances can be made; a class that declares no
constructor has one without parameters. -/
def ClassEntry.overloads (c : ClassEntry) : List (List TypeId) :=
  if c.constructors.isEmpty then [[]] else c.constructors.map (·.params)

/-- The constructed types and the classes, in the order of creation. -/
structure TypeTable where
  forms : List TypeForm := []
  classes : List ClassEntry := []
  deriving DecidableEq

namespace TypeTable

def form? (t : TypeTable) (id : TypeId) : Option TypeForm :=
  match id.index with
  | 0 => some .number
  | 1 => some .string
  | 2 => some .boolean
  | 3 => some .null
  | 4 => some .any
  | n => if TypeId.firstConstructed ≤ n then t.forms[n - TypeId.firstConstructed]? else none

def named? (name : String) : Option TypeId := TypeId.basic.lookup name

/-- The number that the next type gets. -/
def next (t : TypeTable) : TypeId := ⟨TypeId.firstConstructed + t.forms.length⟩

/-- Adds a type; it is found under `next`. -/
def add (t : TypeTable) (form : TypeForm) : TypeTable := { t with forms := t.forms ++ [form] }

def nextClass (t : TypeTable) : ClassId := ⟨t.classes.length⟩

/-- Adds a class and the type of its instances; they are found under `nextClass`
and `next`. -/
def addClass (t : TypeTable) (name : String) : TypeTable :=
  { t.add (.object t.nextClass name) with
    classes := t.classes ++ [{ id := t.nextClass, name, type := t.next }] }

def class? (t : TypeTable) (id : ClassId) : Option ClassEntry := t.classes[id.index]?

def classNamed? (t : TypeTable) (name : String) : Option ClassEntry :=
  t.classes.find? (·.name = name)

def updateClass (t : TypeTable) (id : ClassId) (f : ClassEntry → ClassEntry) : TypeTable :=
  { t with classes := t.classes.modify id.index f }

/-- Adds or replaces a member of a class. -/
def addMember (t : TypeTable) (id : ClassId) (b : Binding) : TypeTable :=
  t.updateClass id fun c => { c with members := c.members.insert b }

def addConstructor (t : TypeTable) (id : ClassId) (c : Constructor) : TypeTable :=
  t.updateClass id fun e => { e with constructors := e.constructors ++ [c] }

/-- The class of a type of instances. -/
def classOf? (t : TypeTable) (id : TypeId) : Option ClassId :=
  match t.form? id with
  | some (.object c _) => some c
  | _ => none

def element? (t : TypeTable) (id : TypeId) : Option TypeId :=
  match t.form? id with
  | some (.array e) => some e
  | _ => none

def entry? (t : TypeTable) (id : TypeId) : Option (TypeId × TypeId) :=
  match t.form? id with
  | some (.dictionary k v) => some (k, v)
  | _ => none

/-- Members that come with the language: strings, arrays and dictionaries have a `length`. -/
def builtinMember? (t : TypeTable) (id : TypeId) (name : String) : Option TypeId :=
  match t.form? id with
  | some .string | some (.array _) | some (.dictionary ..) =>
    if name = "length" then some .number else none
  | _ => none

def isStructural (t : TypeTable) (id : TypeId) : Bool :=
  (t.form? id).any TypeForm.isStructural

end TypeTable
end MiddleEnd
