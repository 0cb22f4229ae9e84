import MiddleEnd.Handle

/-!
What a name can stand for, and the tables that scopes and classes keep their names in.
-/

namespace MiddleEnd

structure Signature where
  params : List TypeId
  result : TypeId
  deriving DecidableEq

inductive BindingKind where
  | type
  | variable
  | parameter
  | function (signature : Signature)
  | cls (id : ClassId)
  deriving DecidableEq

/-- A name and what it stands for. The type of a function is its result, that of a class
or type name the type that it denotes. -/
structure Binding where
  name : String
  kind : BindingKind
  type : TypeId
  builtin : Bool := false
  deriving DecidableEq

namespace Binding

def ofVariable (name : String) (type : TypeId) : Binding := { name, kind := .variable, type }

def ofParameter (name : String) (type : TypeId) : Binding := { name, kind := .parameter, type }

def ofFunction (name : String) (signature : Signature) : Binding :=
  { name, kind := .function signature, type := signature.result }

def ofBuiltinFunction (name : String) (signature : Signature) : Binding :=
  { ofFunction name signature with builtin := true }

def ofClass (name : String) (id : ClassId) (type : TypeId) : Binding :=
  { name, kind := .cls id, type }

def ofTypeName (name : String) (type : TypeId) : Binding :=
  { name, kind := .type, type, builtin := true }

def isValue (b : Binding) : Bool :=
  match b.kind with
  | .variable | .parameter => true
  | _ => false

def denotesType (b : Binding) : Bool :=
  match b.kind with
  | .type | .cls _ => true
  | _ => false

/-- Functions and classes can be called; a value only where its type says nothing. -/
def isCallable (b : Binding) : Bool :=
  match b.kind with
  | .function _ | .cls _ => true
  | .variable | .parameter => b.type.isAny
  | .type => false

end Binding

/-- A table of names, the newest first. -/
structure Bindings where
  entries : List Binding := []
  deriving DecidableEq

namespace Bindings

def find? (t : Bindings) (name : String) : Option Binding :=
  t.entries.find? (·.name = name)

def contains (t : Bindings) (name : String) : Bool := (t.find? name).isSome

def insert (t : Bindings) (b : Binding) : Bindings :=
  ⟨b :: t.entries.filter (·.name ≠ b.name)⟩

def ofList (bs : List Binding) : Bindings := bs.foldl insert {}

def sorted (t : Bindings) : List Binding := t.entries.mergeSort fun a b => a.name ≤ b.name

@[simp] theorem find?_empty (name : String) : ({} : Bindings).find? name = none := rfl

/-- Looking up after an insertion finds the new entry under its own name and the old
entries under all others. -/
theorem find?_insert (t : Bindings) (b : Binding) (name : String) :
    (t.insert b).find? name = if b.name = name then some b else t.find? name := by
  unfold find? insert
  by_cases h : b.name = name
  · simp [h]
  · rw [if_neg h, List.find?_cons_of_neg (by simpa using h), List.find?_filter]
    congr 1
    funext a
    by_cases ha : a.name = name
    · simp [ha, Ne.symm h]
    · simp [ha]

end Bindings
end MiddleEnd
