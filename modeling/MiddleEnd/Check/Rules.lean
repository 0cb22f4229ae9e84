import MiddleEnd.Types.Shape
import MiddleEnd.Scopes.Basic
import MiddleEnd.Tree.Basic

/-!
The single rules that a program has to keep. Each passes, or complains at the place that
breaks it.
-/

namespace MiddleEnd.Rule

def assignable (types : TypeTable) (e : Expr) (target : TypeId) (cause : Option Cause := none) :
    Except Fault Unit :=
  ensure (types.assignable target e.type)
    (cause.getD (.incompatible (types.display e.type) (types.display target))) e.span

def inLoop (scopes : Scopes) (id : ScopeId) (keyword : String) (span : Span) :
    Except Fault Unit := do
  let s ← scopes.scope id
  ensure s.inLoop (.outsideLoop keyword) span

def inFunction (scopes : Scopes) (id : ScopeId) (keyword : String) (span : Span) :
    Except Fault FrameId := do
  let s ← scopes.scope id
  match s.frame with
  | some f => return f
  | none => throw (.user (.outsideFunction keyword) span)

def inClass (scopes : Scopes) (id : ScopeId) (keyword : String) (span : Span) :
    Except Fault ClassId := do
  let s ← scopes.scope id
  match s.cls with
  | some c => return c
  | none => throw (.user (.outsideClass keyword) span)

/-- A constructor gives back the new instance and nothing else. -/
def constructorReturn (kind : FrameKind) (value : Option Expr) (span : Span) :
    Except Fault Unit :=
  ensure (kind ≠ .constructor || value.isNone) .constructorReturns span

def constructorName (name cls : String) (span : Span) : Except Fault Unit :=
  ensure (name = cls) (.constructorName name cls) span

/-- The arguments of a call match the parameters in number and types. -/
def arguments (types : TypeTable) (args : List Expr) (params : List TypeId) (span : Span) :
    Except Fault Unit := do
  ensure (args.length = params.length) (.argumentCount params.length args.length) span
  (args.zip params).forM fun (arg, param) => assignable types arg param

def fits (types : TypeTable) (args : List Expr) (params : List TypeId) : Bool :=
  (args.zip params).all fun (arg, param) => types.assignable param arg.type

def overload (types : TypeTable) (args : List Expr) (overloads : List (List TypeId))
    (cls : String) (span : Span) : Except Fault Unit := do
  let candidates := overloads.filter (·.length = args.length)
  ensure (!candidates.isEmpty) (.noConstructorOfArity cls args.length) span
  ensure (candidates.any (fits types args))
    (.noConstructorFor cls (types.displayAll (args.map Expr.type))) span

def member (types : TypeTable) (object : TypeId) (name : String) (span : Span) :
    Except Fault Unit :=
  match types.form? object with
  | some .any => .ok ()
  | some (.object c _) =>
    ensure ((types.class? c).any (·.members.contains name))
      (.notAMember name (types.display object)) span
  | _ =>
    ensure (types.builtinMember? object name).isSome
      (.memberOfNonObject name (types.display object)) span

/-- Some arguments are accepted by both constructors. -/
def clash (types : TypeTable) (a b : Constructor) : Bool :=
  a.params.length = b.params.length
    && (a.params.zip b.params).all fun (s, t) => types.overlap s t

/-- No two of the constructors clash; the later one of the first pair that does is blamed. -/
def clashFree (types : TypeTable) (cls : String) : List Constructor → Except Fault Unit
  | [] => .ok ()
  | first :: rest => do
    rest.forM fun second =>
      ensure (!clash types first second)
        (.ambiguousConstructors cls (types.displayAll first.params)
          (types.displayAll second.params)) second.span
    clashFree types cls rest

def constructorsDiffer (types : TypeTable) (c : ClassEntry) : Except Fault Unit :=
  clashFree types c.name c.constructors

def notClass (s : Stmt) : Except Fault Unit := ensure (!s.isClass) .nestedClass s.span

def notFunction (s : Stmt) : Except Fault Unit := ensure (!s.isFunction) .nestedFunction s.span

def blockStmt (s : Stmt) : Except Fault Unit := do
  notClass s
  notFunction s

def number (e : Expr) (cause : Cause := .notANumber) : Except Fault Unit :=
  ensure (e.type = .number || e.type.isAny) cause e.span

/-- The operand or condition that plays `role` is true or false. -/
def boolean (e : Expr) (role : String) : Except Fault Unit :=
  ensure (e.type = .boolean || e.type.isAny) (.notABoolean role) e.span

/-- Arrays, dictionaries and unknown values can be subscripted. -/
def collection (types : TypeTable) (e : Expr) : Except Fault Unit :=
  let ok := match types.form? e.type with
    | some (.array _) | some (.dictionary ..) | some .any => true
    | _ => false
  ensure ok .notACollection e.span

def callable (b : Binding) (span : Span) : Except Fault Unit :=
  ensure b.isCallable (.notCallable b.name) span

/-- A function that promises a result has a return that gives it. -/
def returns (types : TypeTable) (name : String) (result : TypeId) (settled : Bool) (span : Span) :
    Except Fault Unit :=
  ensure settled (.missingReturn name (types.display result)) span

end MiddleEnd.Rule
