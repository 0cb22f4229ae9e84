import MiddleEnd.Check.Walk

/-!
The analysis of whole programs: first the declarations, then the fields of the classes, then
the walk through all statements.
-/

namespace MiddleEnd

namespace Check

mutual
def classFields : Stmt → Check Stmt
  | .cls head ms => do
    let body ← registered head.scope head.name head.extent.span
    let ms ← memberFields body ms
    note (.fieldsDeclared head.name (ms.countP Stmt.isVar))
    return .cls head ms
  | s => return s

def memberFields (body : ScopeId) : List Stmt → Check (List Stmt)
  | [] => return []
  | .var head init :: rest => do
    let (head, init) ← var body head init
    let rest ← memberFields body rest
    return .var head init :: rest
  | s :: rest => do
    let s ← classFields s
    let rest ← memberFields body rest
    return s :: rest
end

def program (p : Program) : Check Program := do
  let ss ← announce .root p.stmts
  let ss ← ss.mapM classFields
  let ss ← stmts .root ss
  note (.walkCompleted ss.length)
  return { p with stmts := ss }

end Check

structure Analysis where
  types : TypeTable
  scopes : Scopes
  callSites : List String

def Session.analysis (s : Session) : Analysis :=
  { types := s.types, scopes := s.scopes, callSites := s.callSites }

/-- Analyzes a program in a new session, and tells what was logged on the way. -/
def analyzeLogged (p : Program) : Except Fault (Program × Analysis) × List LogEvent :=
  let start : Session := { log := [.analyzing p.stmts.length] }
  match (Check.program p).on start with
  | (.ok p, s) => (.ok (p, s.analysis), s.log)
  | (.error f, s) =>
    let report := (f.diagnostic?.map (·.text)).getD ""
    (.error f, s.log ++ [.analysisFailed report])

/-- Analyzes a program: gives back the program with everything that was found out about it, or
the first fault. -/
def analyze (p : Program) : Except Fault (Program × Analysis) := (analyzeLogged p).1

end MiddleEnd
