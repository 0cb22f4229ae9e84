import MiddleEnd.Fault
import MiddleEnd.Types.Table

/-!
Scopes. Each one keeps the names declared in it, its parent, and what holds at its place:
whether it is in a loop, and in which function and class.
-/

namespace MiddleEnd

/-- The kinds of construct that `return` can belong to. -/
inductive FrameKind where
  | function | method | constructor | lambda
  deriving DecidableEq

/-- What a function, method, constructor or lambda promises, and whether a matching return has
been seen. -/
structure Frame where
  name : String
  kind : FrameKind
  result : TypeId
  settled : Bool
  deriving DecidableEq

structure Scope where
  parent : Option ScopeId := none
  bindings : Bindings := {}
  inLoop : Bool := false
  frame : Option FrameId := none
  cls : Option ClassId := none
  deriving DecidableEq

inductive ScopeKind where
  | function (frame : FrameId)
  | cls (id : ClassId)
  | loop
  | block
  deriving DecidableEq

/-- A new scope inside this one. The bodies of functions and classes leave the loop that they
stand in. -/
def Scope.inner (s : Scope) (id : ScopeId) (kind : ScopeKind) : Scope :=
  let base : Scope := { s with parent := some id, bindings := {} }
  match kind with
  | .function frame => { base with inLoop := false, frame := some frame }
  | .cls c => { base with inLoop := false, cls := some c }
  | .loop => { base with inLoop := true }
  | .block => base

/-- All scopes and frames, in the order of creation. -/
structure Scopes where
  scopes : List Scope := [{}]
  frames : List Frame := []
  deriving DecidableEq

def Binding.builtinFunctions : List Binding :=
  [.ofBuiltinFunction "print" ⟨[.any], .any⟩,
    .ofBuiltinFunction "abs" ⟨[.number], .number⟩,
    .ofBuiltinFunction "sqrt" ⟨[.number], .number⟩,
    .ofBuiltinFunction "floor" ⟨[.number], .number⟩,
    .ofBuiltinFunction "pow" ⟨[.number, .number], .number⟩]

def Bindings.builtins : Bindings :=
  .ofList (TypeId.basic.map (fun (name, t) => .ofTypeName name t) ++ Binding.builtinFunctions)

namespace Scopes

def empty : Scopes := {}

/-- A root scope with the names of the language. -/
def withBuiltins : Scopes := { scopes := [{ bindings := .builtins }] }

def size (t : Scopes) : Nat := t.scopes.length

def scope? (t : Scopes) (id : ScopeId) : Option Scope := t.scopes[id.index]?

def frame? (t : Scopes) (id : FrameId) : Option Frame := t.frames[id.index]?

def scope (t : Scopes) (id : ScopeId) : Except Fault Scope :=
  match t.scope? id with
  | some s => .ok s
  | none => .error (.unknownScope id)

def frame (t : Scopes) (id : FrameId) : Except Fault Frame :=
  match t.frame? id with
  | some f => .ok f
  | none => .error (.unknownFrame id)

def next (t : Scopes) : ScopeId := ⟨t.scopes.length⟩

/-- Opens a scope inside `parent`; it is found under `next`. -/
def openIn (t : Scopes) (parent : ScopeId) (kind : ScopeKind) : Except Fault Scopes := do
  let base ← t.scope parent
  return { t with scopes := t.scopes ++ [base.inner parent kind] }

def nextFrame (t : Scopes) : FrameId := ⟨t.frames.length⟩

def addFrame (t : Scopes) (f : Frame) : Scopes := { t with frames := t.frames ++ [f] }

def settle (t : Scopes) (id : FrameId) (settled : Bool) : Scopes :=
  { t with frames := t.frames.modify id.index fun f => { f with settled } }

def declare (t : Scopes) (id : ScopeId) (b : Binding) (span : Span) : Except Fault Scopes := do
  let s ← t.scope id
  ensure (!s.bindings.contains b.name) (.alreadyDeclared b.name) span
  return { t with
    scopes := t.scopes.set id.index { s with bindings := s.bindings.insert b } }

/-- A scope and the scopes around it, the innermost first. A parent is older than its
children, so the walk outward ends. -/
def chain (t : Scopes) (id : ScopeId) : List ScopeId :=
  match t.scope? id with
  | none => []
  | some s =>
    match s.parent with
    | none => [id]
    | some p => if p.index < id.index then id :: t.chain p else [id]
termination_by id.index

def bindingAt? (t : Scopes) (name : String) (id : ScopeId) : Option Binding :=
  (t.scope? id).bind (·.bindings.find? name)

/-- What a name stands for at a place: the innermost declaration around it. -/
def lookup (t : Scopes) (id : ScopeId) (name : String) : Option Binding :=
  (t.chain id).findSome? (t.bindingAt? name)

/-- The innermost scope around a place that declares the name. -/
def declaring? (t : Scopes) (id : ScopeId) (name : String) : Option ScopeId :=
  (t.chain id).find? fun s => (t.bindingAt? name s).isSome

def resolve (t : Scopes) (id : ScopeId) (name : String) (span : Span) :
    Except Fault Binding := do
  let _ ← t.scope id
  match t.lookup id name with
  | some b => return b
  | none => throw (.user (.undeclared name) span)

end Scopes
end MiddleEnd
