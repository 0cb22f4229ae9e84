import MiddleEnd.Span

/-!
What is reported to the user of the library when something fails.
-/

namespace MiddleEnd

/-- A report, by the part of the work that failed. -/
inductive Diagnostic where
  | io (message : String)
  | config (message : String)
  | semantic (message : String)
  /-- A semantic error that points into the source text. -/
  | located (message : String) (span : Span)
  deriving DecidableEq

namespace Diagnostic

def message : Diagnostic → String
  | .io m | .config m | .semantic m | .located m _ => m

/-- The message as it is printed: one without a place names the part that failed. -/
def text : Diagnostic → String
  | .io m => "IO error: " ++ m
  | .config m => "Configuration error: " ++ m
  | .semantic m => "Semantic error: " ++ m
  | .located m _ => m

def span? : Diagnostic → Option Span
  | .located _ s => some s
  | _ => none

/-- The stable code under which a located report can be looked up. -/
def code? : Diagnostic → Option String
  | .located .. => some "respecc::semantic"
  | _ => none

/-- The underlined places of a report: label, byte offset and length. -/
def labels? : Diagnostic → Option (List (String × Nat × Nat))
  | .located _ s => some [("here", s.byteRange)]
  | _ => none

end Diagnostic
end MiddleEnd
