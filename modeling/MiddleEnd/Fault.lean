import MiddleEnd.Diagnostic
import MiddleEnd.Handle

/-!
Why an analysis stops. A cause names what is wrong; the texts are all in `Cause.message`.
-/

namespace MiddleEnd

/-- What can be wrong with a program. Types are given by the names shown to users. -/
inductive Cause where
  | alreadyDeclared (name : String)
  | undeclared (name : String)
  | notAType (name : String)
  | typeAsValue (name : String)
  | incompatible (found expected : String)
  | returnMismatch (expected found : String)
  | arrayIndex
  | dictionaryKey
  | notANumber
  | notABoolean (role : String)
  | notACollection
  | invalidTarget
  | notCallable (name : String)
  | notCallableType (type : String)
  | argumentCount (expected found : Nat)
  | noConstructorOfArity (cls : String) (found : Nat)
  | noConstructorFor (cls : String) (types : String)
  | ambiguousConstructors (cls first second : String)
  | notAMember (name owner : String)
  | memberOfNonObject (name type : String)
  | outsideLoop (keyword : String)
  | outsideFunction (keyword : String)
  | outsideClass (keyword : String)
  | constructorReturns
  | constructorName (found cls : String)
  | nestedClass
  | nestedFunction
  | missingReturn (name type : String)
  | notRegistered (name : String)
  /-- A message chosen by the caller of a check. -/
  | stated (message : String)
  deriving DecidableEq

def Cause.message : Cause → String
  | .alreadyDeclared name => s!"{name} already declared in this scope"
  | .undeclared name => s!"Identifier {name} has not been declared"
  | .notAType name => s!"{name} is not a type"
  | .typeAsValue name => s!"{name} is a type, not a value"
  | .incompatible found expected =>
    s!"Expression of type {found} not compatible with type {expected}"
  | .returnMismatch expected found =>
    s!"Type mismatch in function return: expected {expected}, found {found}"
  | .arrayIndex => "Array subscript must be of type Number"
  | .dictionaryKey => "Dictionary subscript must match key type"
  | .notANumber => "Not a Number"
  | .notABoolean role => s!"{role} must be a Boolean"
  | .notACollection => "Not an array or a dictionary"
  | .invalidTarget => "Invalid assignment target"
  | .notCallable name => s!"Attempt to call a non-function: {name}"
  | .notCallableType type => s!"Attempt to call a non-function of type {type}"
  | .argumentCount expected found => s!"Expected {expected} args in call, got {found}"
  | .noConstructorOfArity cls found => s!"No constructor of {cls} takes {found} args"
  | .noConstructorFor cls types => s!"No constructor of {cls} accepts arguments ({types})"
  | .ambiguousConstructors cls first second =>
    s!"Ambiguous constructors for class {cls}: ({first}) conflicts with ({second})"
  | .notAMember name owner => s!"{name} is not a member of {owner}"
  | .memberOfNonObject name type => s!"Cannot access member {name} of non-object type {type}"
  | .outsideLoop keyword => s!"{keyword} can only be used in a loop"
  | .outsideFunction keyword => s!"{keyword} can only be used in a function"
  | .outsideClass keyword => s!"{keyword} can only be used in a class"
  | .constructorReturns => "Constructors cannot return a value"
  | .constructorName found cls => s!"Constructor {found} does not match class {cls}"
  | .nestedClass => "Classes must be declared in root scope."
  | .nestedFunction => "Functions must be declared as class member or in root scope."
  | .missingReturn name type => s!"Function {name} needs to return value of type {type}"
  | .notRegistered name => s!"{name} was analyzed before its declaration was registered"
  | .stated message => message

/-- Why a step failed: something is wrong with the program, or a handle leads nowhere. -/
inductive Fault where
  | user (cause : Cause) (span : Span)
  | unknownClass (id : ClassId)
  | unknownScope (id : ScopeId)
  | unknownFrame (id : FrameId)
  deriving DecidableEq

/-- The report of a fault; a scope or frame that is not there is a slip of the caller and has
no report. -/
def Fault.diagnostic? : Fault → Option Diagnostic
  | .user cause span => some (.located cause.message span)
  | .unknownClass id => some (.semantic s!"Unknown class #{id.index}")
  | .unknownScope _ | .unknownFrame _ => none

def ensure (ok : Bool) (cause : Cause) (span : Span) : Except Fault Unit :=
  if ok then .ok () else .error (.user cause span)

@[simp] theorem ensure_true (cause : Cause) (span : Span) : ensure true cause span = .ok () := rfl

theorem ensure_eq_ok {ok : Bool} {cause : Cause} {span : Span} :
    ensure ok cause span = .ok () ↔ ok = true := by
  cases ok <;> simp [ensure]

end MiddleEnd
