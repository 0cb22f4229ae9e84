import MiddleEnd.Log
import MiddleEnd.Check.Rules
import MiddleEnd.Scopes.TypeNames

/-!
A session of analysis: what has been found out so far. A step that fails keeps what it had
added to the session before.
-/

namespace MiddleEnd

structure Session where
  types : TypeTable := {}
  scopes : Scopes := .withBuiltins
  /-- The names declared in the root scope that are used as functions. -/
  callSites : List String := []
  log : List LogEvent := []

abbrev Check := ExceptT Fault (StateM Session)

namespace Check

def on {α : Type} (step : Check α) (s : Session) : Except Fault α × Session := step.run.run s

def rule {α : Type} (r : Except Fault α) : Check α := ExceptT.mk (pure r)

def types : Check TypeTable := return (← get).types

def scopes : Check Scopes := return (← get).scopes

def note (e : LogEvent) : Check Unit := modify fun s => { s with log := s.log ++ [e] }

def updateTypes (f : TypeTable → TypeTable) : Check Unit :=
  modify fun s => { s with types := f s.types }

def updateScopes (f : Scopes → Scopes) : Check Unit :=
  modify fun s => { s with scopes := f s.scopes }

def classEntry (id : ClassId) : Check ClassEntry := do
  match (← types).class? id with
  | some c => return c
  | none => throw (.unknownClass id)

/-- Changes the table at a class, which has to be there. -/
def changeClass (id : ClassId) (f : TypeTable → ClassId → TypeTable) : Check Unit := do
  let _ ← classEntry id
  updateTypes (f · id)

def addType (form : TypeForm) : Check TypeId := do
  let table ← types
  updateTypes (·.add form)
  return table.next

def addFrame (f : Frame) : Check FrameId := do
  let table ← scopes
  updateScopes (·.addFrame f)
  return table.nextFrame

def openIn (parent : ScopeId) (kind : ScopeKind) : Check ScopeId := do
  let table ← scopes
  let larger ← rule (table.openIn parent kind)
  updateScopes fun _ => larger
  return table.next

def typeOf (scope : ScopeId) (t : TypeExpr) : Check TypeId := do
  let (r, table) := ((← scopes).typeOf scope t).run.run (← types)
  updateTypes fun _ => table
  rule r

def typeOf? (scope : ScopeId) : Option TypeExpr → Check (Option TypeId)
  | none => return none
  | some t => some <$> typeOf scope t

def owner? (scope : ScopeId) : Check (Option ClassId) := do
  let s ← rule ((← scopes).scope scope)
  let table ← types
  return s.cls.filter fun c => (table.class? c).any (·.body = some scope)

/-- Declares a name. A name declared in a class body becomes a member of the class. -/
def declare (scope : ScopeId) (b : Binding) (span : Span) : Check Unit := do
  let owner ← owner? scope
  let larger ← rule ((← scopes).declare scope b span)
  updateScopes fun _ => larger
  match owner with
  | some c => changeClass c (·.addMember · b)
  | none => return ()

/-- Remembers that a name of the root scope is used as a function. -/
def recordCall (scope : ScopeId) (name : String) : Check Unit := do
  if (← scopes).declaring? scope name = some .root then
    modify fun s => { s with callSites := s.callSites.insert name }

def params (body : ScopeId) : List Param → Check (List Param)
  | [] => return []
  | p :: rest => do
    let t := (← typeOf? body p.annotation).getD .any
    declare body (.ofParameter p.name t) p.span
    let rest ← params body rest
    return { p with type := some t } :: rest

end Check

/-- The types of parameters; one that has not been looked at may be anything. -/
def Param.types (ps : List Param) : List TypeId := ps.map (·.type.getD .any)

end MiddleEnd
