import MiddleEnd.Handle

/-!
The log: what the analysis and the optimizer tell about their work, and the records that are
written for it.
-/

namespace MiddleEnd

inductive LogEvent where
  | analyzing (statements : Nat)
  | classesRegistered (classes : Nat) (scope : ScopeId)
  | functionsBound (functions : Nat) (scope : ScopeId)
  | fieldsDeclared (cls : String) (fields : Nat)
  | classBodyEntered (cls : String) (members : Nat)
  | walkCompleted (statements : Nat)
  | analysisFailed (error : String)
  | optimizing (passes : Nat)
  | passChanged (pass : String) (iteration : Nat)
  | functionRemoved (name : String)
  | roundsUsedUp (rounds : Nat)
  deriving DecidableEq

inductive LogValue where
  | nat (n : Nat)
  | text (s : String)
  deriving DecidableEq

/-- A record: the start of a named piece of work, or a message at a level, with fields. -/
inductive LogRecord where
  | work (name : String) (fields : List (String × LogValue))
  | debug (message : String) (fields : List (String × LogValue))
  | warn (message : String) (fields : List (String × LogValue))
  deriving DecidableEq

def LogEvent.record : LogEvent → LogRecord
  | .analyzing n => .work "analyze" [("statements", .nat n)]
  | .classesRegistered n s =>
    .debug "Registered class names" [("classes", .nat n), ("scope", .text s.text)]
  | .functionsBound n s =>
    .debug "Bound function signatures" [("functions", .nat n), ("scope", .text s.text)]
  | .fieldsDeclared c n =>
    .debug "Declared class fields" [("class", .text c), ("fields", .nat n)]
  | .classBodyEntered c n =>
    .debug "Analyzing class body" [("class", .text c), ("members", .nat n)]
  | .walkCompleted n => .debug "Completed full walk" [("statements", .nat n)]
  | .analysisFailed e => .debug "Semantic analysis failed" [("error", .text e)]
  | .optimizing n => .work "optimize" [("passes", .nat n)]
  | .passChanged p i =>
    .debug "Pass changed the program" [("pass", .text p), ("iteration", .nat i)]
  | .functionRemoved f => .debug "Removing uncalled function" [("function", .text f)]
  | .roundsUsedUp n =>
    .warn "Optimizer reached maximum iterations" [("max_iterations", .nat n)]

end MiddleEnd
