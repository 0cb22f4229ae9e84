import MiddleEnd.Check.Session

/-!
Declarations come first: before any statement is looked at, the classes, functions and
constructors of a list of statements are made known, those inside class bodies included. So
they may refer to each other in any order.
-/

namespace MiddleEnd.Check

def registerClass (scope : ScopeId) (head : ClassHead) : Check ClassId := do
  let table ← types
  updateTypes (·.addClass head.name)
  declare scope (.ofClass head.name table.nextClass table.next) head.extent.span
  return table.nextClass

def registerClasses (scope : ScopeId) (stmts : List Stmt) : Check (List ClassId) :=
  (stmts.filterMap Stmt.classHead?).mapM (registerClass scope)

/-- Opens the body of a function: its result, its frame, its scope and its parameters. -/
def outlineFunction (scope : ScopeId) (kind : FrameKind) (head : FuncHead) : Check FuncHead := do
  let result := (← typeOf? scope head.result).getD .any
  let frame ← addFrame { name := head.name, kind, result, settled := result.isAny }
  let body ← openIn scope (.function frame)
  let ps ← params body head.params
  return { head with
    params := ps, type := some result, settled := result.isAny, scope := some body }

def outlineConstructor (scope : ScopeId) (head : CtorHead) : Check CtorHead := do
  let span := head.extent.span
  let cls ← rule (Rule.inClass (← scopes) scope ("Constructor " ++ head.name) span)
  let entry ← classEntry cls
  rule (Rule.constructorName head.name entry.name span)
  let frame ← addFrame
    { name := head.name, kind := .constructor, result := entry.type, settled := true }
  let body ← openIn scope (.function frame)
  let ps ← params body head.params
  changeClass cls (·.addConstructor · { params := Param.types ps, span })
  return { head with params := ps, scope := some body, cls := some cls }

/-- Opens the body of a function or constructor; other statements stay as they are. -/
def outline (scope : ScopeId) (kind : FrameKind) : Stmt → Check Stmt
  | .func head body => return .func (← outlineFunction scope kind head) body
  | .ctor head body => return .ctor (← outlineConstructor scope head) body
  | s => return s

def functionBinding? : Stmt → Option (Binding × Span)
  | .func head _ =>
    some (.ofFunction head.name ⟨Param.types head.params, head.type.getD .any⟩, head.extent.span)
  | _ => none

/-- Makes the functions and constructors of a list of statements known. The functions are
declared only when all their signatures have been read. -/
def bindFunctions (scope : ScopeId) (stmts : List Stmt) : Check (List Stmt) := do
  let kind := if (← owner? scope).isSome then FrameKind.method else .function
  let stmts ← stmts.mapM (outline scope kind)
  let bindings := stmts.filterMap functionBinding?
  bindings.forM fun (b, span) => declare scope b span
  note (.functionsBound bindings.length scope)
  return stmts

/-- Makes the annotated field of a class known before its initial value has been read. -/
def announceField (cls : ClassId) (body : ScopeId) : Stmt → Check Unit
  | .var head _ => do
    match ← typeOf? body head.annotation with
    | some t => changeClass cls (·.addMember · (.ofVariable head.name t))
    | none => return ()
  | _ => return ()

mutual
/-- Opens the body of a class, which is the first of the registered ones, and makes known what is
declared in it. Gives the registered classes that are left. -/
def openClass (scope : ScopeId) : Stmt → List ClassId → Check (Stmt × List ClassId)
  | .cls head members, cls :: others => do
    let body ← openIn scope (.cls cls)
    changeClass cls (·.updateClass · fun c => { c with body := some body })
    let inner ← registerClasses body members
    let members ← openClasses body members inner
    note (.classesRegistered inner.length body)
    let members ← bindFunctions body members
    members.forM (announceField cls body)
    return (.cls { head with cls := some cls, scope := some body } members, others)
  | s, others => return (s, others)

def openClasses (scope : ScopeId) : List Stmt → List ClassId → Check (List Stmt)
  | [], _ => return []
  | s :: rest, classes => do
    let (s, others) ← openClass scope s classes
    let rest ← openClasses scope rest others
    return s :: rest
end

def announce (scope : ScopeId) (stmts : List Stmt) : Check (List Stmt) := do
  let classes ← registerClasses scope stmts
  let stmts ← openClasses scope stmts classes
  note (.classesRegistered classes.length scope)
  bindFunctions scope stmts

end MiddleEnd.Check
