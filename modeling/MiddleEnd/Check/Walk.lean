import MiddleEnd.Check.Calls
import MiddleEnd.Check.Declarations

/-!
The walk through expressions and statements. It gives every node its type, opens the scopes
of blocks, and applies the rules.
-/

namespace MiddleEnd.Check

def nameType (scope : ScopeId) (name : String) (span : Span) : Check TypeId := do
  let b ← rule ((← scopes).resolve scope name span)
  match b.kind with
  | .variable | .parameter => return b.type
  | .function _ => do
    recordCall scope name
    return .any
  | .cls _ => return .any
  | .type => throw (.user (.typeAsValue name) span)

def selfType (scope : ScopeId) (span : Span) : Check TypeId := do
  let c ← rule (Rule.inClass (← scopes) scope "this" span)
  return (← classEntry c).type

/-- The type of a subscript, whose index has to match the collection. -/
def subscriptType (types : TypeTable) (object index : Expr) : Except Fault TypeId := do
  match types.form? object.type with
  | some (.array element) => do
    Rule.assignable types index .number (some .arrayIndex)
    return element
  | some (.dictionary key value) => do
    Rule.assignable types index key (some .dictionaryKey)
    return value
  | _ => return .any

/-- Declares a variable, whose initial value has been looked at. -/
def declareVar (scope : ScopeId) (head : VarHead) (declared : Option TypeId)
    (init : Option Expr) : Check VarHead := do
  match declared, init with
  | some t, some e => rule (Rule.assignable (← types) e t)
  | _, _ => pure ()
  let t := (declared.or (init.map Expr.type)).getD .any
  declare scope (.ofVariable head.name t) head.span
  return { head with type := some t }

/-- The rules on where a return stands; gives the frame that it returns from. -/
def returnFrame (scope : ScopeId) (value : Option Expr) (span : Span) :
    Check (FrameId × Frame) := do
  let table ← scopes
  let id ← rule (Rule.inFunction table scope "return" span)
  let frame ← rule (table.frame id)
  rule (Rule.constructorReturn frame.kind value span)
  return (id, frame)

/-- A value that is given back matches what its function promises. -/
def giveBack (id : FrameId) (frame : Frame) (value : Expr) : Check Unit := do
  if frame.result.isAny then return ()
  let table ← types
  rule (Rule.assignable table value frame.result
    (some (.returnMismatch (table.display frame.result) (table.display value.type))))
  let _ ← rule ((← scopes).frame id)
  updateScopes (·.settle id true)

/-- A handle that the declarations should have left on a node. -/
def registered {α : Type} (handle : Option α) (name : String) (span : Span) : Check α :=
  match handle with
  | some a => return a
  | none => throw (.user (.notRegistered name) span)

/-- Ends the walk through a function: it has to have given back what it promises. -/
def closeFunction (head : FuncHead) (body : ScopeId) : Check FuncHead := do
  let table ← scopes
  let s ← rule (table.scope body)
  let id ← registered s.frame head.name head.extent.span
  let frame ← rule (table.frame id)
  rule (Rule.returns (← types) head.name frame.result frame.settled head.extent.span)
  return { head with settled := frame.settled }

/-- Ends the walk through a class: its members are what its body declares. -/
def closeClass (head : ClassHead) (cls : ClassId) (body : ScopeId) : Check ClassHead := do
  let s ← rule ((← scopes).scope body)
  changeClass cls (·.updateClass · fun c => { c with members := s.bindings, finalized := true })
  rule (Rule.constructorsDiffer (← types) (← classEntry cls))
  return { head with validated := true }

def openLambda (scope : ScopeId) (head : LambdaHead) : Check (ScopeId × LambdaHead) := do
  let frame ← addFrame { name := "lambda", kind := .lambda, result := .any, settled := true }
  let body ← openIn scope (.function frame)
  let ps ← params body head.params
  return (body, { params := ps, scope := some body })

/-- A block holds no declarations of classes and functions. -/
def blockRules (stmts : List Stmt) : Check Unit := rule (stmts.forM Rule.blockStmt)

mutual
/-- Looks at an expression in a scope and gives every node of it its type. -/
def expr (scope : ScopeId) : Expr → Check Expr
  | .number m v => return .number (m.typed .number) v
  | .string m v => return .string (m.typed .string) v
  | .boolean m v => return .boolean (m.typed .boolean) v
  | .null m => return .null (m.typed .null)
  | .name m n => do
    let t ← nameType scope n m.span
    return .name (m.typed t) n
  | .self m => do
    let t ← selfType scope m.span
    return .self (m.typed t)
  | .binary m op l r => do
    let l ← expr scope l
    let r ← expr scope r
    return .binary (m.typed (if op.isArithmetic then l.type else .boolean)) op l r
  | .unary m op e => do
    let e ← expr scope e
    rule (if op = .not then Rule.boolean e "Operand of !" else Rule.number e)
    return .unary (m.typed e.type) op e
  | .step m op e => do
    let e ← expr scope e
    rule (Rule.number e)
    return .step (m.typed e.type) op e
  | .ternary m c y n => do
    let c ← expr scope c
    rule (Rule.boolean c "Ternary condition")
    let y ← expr scope y
    let n ← expr scope n
    let t := if (← types).sameType y.type n.type then y.type else .any
    return .ternary (m.typed t) c y n
  | .call m (.name f n) args _ => do
    let b ← rule ((← scopes).resolve scope n f.span)
    rule (Rule.callable b f.span)
    recordCall scope n
    let args ← exprs scope args
    let (target, t) ← rule (Call.named (← types) b args m.span)
    return .call (m.typed t) (.name (f.typed .any) n) args (some target)
  | .call m (.member f o n) args _ => do
    let o ← expr scope o
    rule (Rule.member (← types) o.type n f.span)
    let args ← exprs scope args
    let (target, t) ← rule (Call.member (← types) o.type n args m.span)
    return .call (m.typed t) (.member (f.typed .any) o n) args (some target)
  | .call m f args _ => do
    let f ← expr scope f
    rule (Call.computed (← types) f)
    let args ← exprs scope args
    return .call (m.typed .any) (f.typed .any) args (some .dynamic)
  | .member m o n => do
    let o ← expr scope o
    rule (Rule.member (← types) o.type n m.span)
    return .member (m.typed ((← types).memberType o.type n)) o n
  | .subscript m o i => do
    let o ← expr scope o
    rule (Rule.collection (← types) o)
    let i ← expr scope i
    let t ← rule (subscriptType (← types) o i)
    return .subscript (m.typed t) o i
  | .array m es => do
    let es ← exprs scope es
    let t ← addType (.array (.common (es.map Expr.type)))
    return .array (m.typed t) es
  | .dictionary m es => do
    let es ← entries scope es
    let t ← addType (.dictionary (.common (es.map (·.1.type))) (.common (es.map (·.2.type))))
    return .dictionary (m.typed t) es
  | .blockLambda m head block body => do
    let (inner, head) ← openLambda scope head
    blockRules body
    let body ← stmts inner body
    return .blockLambda (m.typed .any) head block body
  | .exprLambda m head body => do
    let (inner, head) ← openLambda scope head
    let body ← expr inner body
    return .exprLambda (m.typed .any) head body

def exprs (scope : ScopeId) : List Expr → Check (List Expr)
  | [] => return []
  | e :: rest => do
    let e ← expr scope e
    let rest ← exprs scope rest
    return e :: rest

/-- Keys and values in turn. -/
def entries (scope : ScopeId) : List (Expr × Expr) → Check (List (Expr × Expr))
  | [] => return []
  | (k, v) :: rest => do
    let k ← expr scope k
    let v ← expr scope v
    let rest ← entries scope rest
    return (k, v) :: rest

def var (scope : ScopeId) (head : VarHead) : Option Expr → Check (VarHead × Option Expr)
  | none => do
    let declared ← typeOf? scope head.annotation
    let head ← declareVar scope head declared none
    return (head, none)
  | some e => do
    let declared ← typeOf? scope head.annotation
    let e ← expr scope e
    let head ← declareVar scope head declared (some e)
    return (head, some e)

def loopInit (scope : ScopeId) :
    Option (VarHead × Option Expr) → Check (Option (VarHead × Option Expr))
  | none => return none
  | some (head, e) => some <$> var scope head e

def loopCondition (scope : ScopeId) : Option Expr → Check (Option Expr)
  | none => return none
  | some c => do
    let c ← expr scope c
    rule (Rule.boolean c "For condition")
    return some c

/-- The statement after each round of a loop. -/
def loopUpdate (scope : ScopeId) : Option Stmt → Check (Option Stmt)
  | none => return none
  | some s => do
    rule (Rule.blockStmt s)
    some <$> stmt scope s

def stmt (scope : ScopeId) : Stmt → Check Stmt
  | .var head init => do
    let (head, init) ← var scope head init
    return .var head init
  | .assign span target value => do
    let value ← expr scope value
    rule (ensure target.isTarget .invalidTarget target.span)
    let target ← expr scope target
    rule (Rule.assignable (← types) value target.type)
    return .assign span target value
  | .func head body => do
    let inner ← registered head.scope head.name head.extent.span
    blockRules body
    let body ← stmts inner body
    return .func (← closeFunction head inner) body
  | .cls head ms => do
    let cls ← registered head.cls head.name head.extent.span
    let inner ← registered head.scope head.name head.extent.span
    note (.classBodyEntered head.name ms.length)
    let ms ← members inner ms
    return .cls (← closeClass head cls inner) ms
  | .ctor head body => do
    match head.scope with
    | none =>
      throw (.user (.outsideClass ("Constructor " ++ head.name)) head.extent.span)
    | some inner => do
      blockRules body
      let body ← stmts inner body
      return .ctor head body
  | .ifElse extent c body rest => do
    let c ← expr scope c
    rule (Rule.boolean c "If condition")
    let inner ← openIn scope .block
    blockRules body
    let body ← stmts inner body
    let rest ← chain scope rest
    return .ifElse extent c body rest
  | .whileLoop extent c body => do
    let c ← expr scope c
    rule (Rule.boolean c "While condition")
    let inner ← openIn scope .loop
    blockRules body
    let body ← stmts inner body
    return .whileLoop extent c body
  | .forLoop extent init c update body => do
    let inner ← openIn scope .loop
    let init ← loopInit inner init
    let c ← loopCondition inner c
    let update ← loopUpdate inner update
    blockRules body
    let body ← stmts inner body
    return .forLoop extent init c update body
  | .ret span none => do
    let _ ← returnFrame scope none span
    return .ret span none
  | .ret span (some e) => do
    let (id, frame) ← returnFrame scope (some e) span
    let e ← expr scope e
    giveBack id frame e
    return .ret span (some e)
  | .brk span => do
    rule (Rule.inLoop (← scopes) scope "break" span)
    return .brk span
  | .expr e => return .expr (← expr scope e)

def stmts (scope : ScopeId) : List Stmt → Check (List Stmt)
  | [] => return []
  | s :: rest => do
    let s ← stmt scope s
    let rest ← stmts scope rest
    return s :: rest

/-- The members of a class other than its fields, which have been looked at before. -/
def members (scope : ScopeId) : List Stmt → Check (List Stmt)
  | [] => return []
  | .var head init :: rest => do
    let rest ← members scope rest
    return .var head init :: rest
  | s :: rest => do
    let s ← stmt scope s
    let rest ← members scope rest
    return s :: rest

def chain (scope : ScopeId) : Chain → Check Chain
  | .done => return .done
  | .elseIf extent c body rest => do
    let c ← expr scope c
    rule (Rule.boolean c "Else if condition")
    let inner ← openIn scope .block
    blockRules body
    let body ← stmts inner body
    let rest ← chain scope rest
    return .elseIf extent c body rest
  | .otherwise block body => do
    let inner ← openIn scope .block
    blockRules body
    let body ← stmts inner body
    return .otherwise block body
end

end MiddleEnd.Check
