import MiddleEnd.Check.Session

/-!
What a call calls, once the types of its arguments are known.
-/

namespace MiddleEnd

namespace TypeTable

def classEntry (t : TypeTable) (id : ClassId) : Except Fault ClassEntry :=
  match t.class? id with
  | some c => .ok c
  | none => .error (.unknownClass id)

/-- The type of a member of a value; nothing is known of what is not a variable. -/
def memberType (t : TypeTable) (object : TypeId) (name : String) : TypeId :=
  match t.form? object with
  | some (.object c _) =>
    match (t.class? c).bind (·.members.find? name) with
    | some b => if b.isValue then b.type else .any
    | none => .any
  | _ => (t.builtinMember? object name).getD .any

end TypeTable

namespace Call

def instantiate (types : TypeTable) (cls : ClassId) (args : List Expr) (span : Span) :
    Except Fault (CallTarget × TypeId) := do
  let c ← types.classEntry cls
  Rule.overload types args c.overloads c.name span
  return (.instantiate cls, c.type)

def named (types : TypeTable) (b : Binding) (args : List Expr) (span : Span) :
    Except Fault (CallTarget × TypeId) := do
  match b.kind with
  | .function signature =>
    Rule.arguments types args signature.params span
    return (if b.builtin then .builtin b.name else .function b.name, signature.result)
  | .cls c => instantiate types c args span
  | _ => return (.dynamic, .any)

def method (types : TypeTable) (cls : ClassId) (name : String) (args : List Expr) (span : Span) :
    Except Fault (CallTarget × TypeId) := do
  let c ← types.classEntry cls
  match c.members.find? name with
  | none => throw (.user (.notAMember name c.name) span)
  | some b =>
    Rule.callable b span
    match b.kind with
    | .function signature =>
      Rule.arguments types args signature.params span
      return (.method cls name, signature.result)
    | .cls inner => instantiate types inner args span
    | _ => return (.dynamic, .any)

def member (types : TypeTable) (object : TypeId) (name : String) (args : List Expr)
    (span : Span) : Except Fault (CallTarget × TypeId) := do
  match types.form? object with
  | some (.object c _) => method types c name args span
  | some .any => return (.dynamic, .any)
  | _ =>
    Rule.callable (.ofVariable name ((types.builtinMember? object name).getD .any)) span
    return (.dynamic, .any)

/-- A call of the value of an expression, about which nothing may be known. -/
def computed (types : TypeTable) (callee : Expr) : Except Fault Unit :=
  ensure callee.type.isAny (.notCallableType (types.display callee.type)) callee.span

end Call
end MiddleEnd
