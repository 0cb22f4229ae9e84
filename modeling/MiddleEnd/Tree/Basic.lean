import MiddleEnd.Span
import MiddleEnd.Handle
import MiddleEnd.Tree.Operator

/-!
Programs as trees. Every node says where it stands in the source, and has room for what the
analysis finds out about it: types, scopes, classes and the targets of calls.
-/

namespace MiddleEnd

inductive TypeExpr where
  | named (name : String) (span : Span)
  | array (element : TypeExpr)
  | dictionary (key value : TypeExpr)
  deriving DecidableEq

/-- Where an expression stands, and its type once it is known. -/
structure Mark where
  span : Span := {}
  type : Option TypeId := none
  deriving DecidableEq

def Mark.typed (m : Mark) (t : TypeId) : Mark := { m with type := some t }

@[simp] theorem Mark.typed_span (m : Mark) (t : TypeId) : (m.typed t).span = m.span := rfl
@[simp] theorem Mark.typed_type (m : Mark) (t : TypeId) : (m.typed t).type = some t := rfl

/-- Where a construct with a block stands: the whole of it, and the block. -/
structure Extent where
  span : Span := {}
  block : Span := {}
  deriving DecidableEq

structure Param where
  name : String
  annotation : Option TypeExpr := none
  span : Span := {}
  type : Option TypeId := none
  deriving DecidableEq

structure VarHead where
  name : String
  annotation : Option TypeExpr := none
  span : Span := {}
  type : Option TypeId := none
  deriving DecidableEq

structure FuncHead where
  name : String
  params : List Param := []
  result : Option TypeExpr := none
  extent : Extent := {}
  type : Option TypeId := none
  /-- The function has been seen to give back what it promises. -/
  settled : Bool := false
  scope : Option ScopeId := none
  deriving DecidableEq

structure CtorHead where
  name : String
  params : List Param := []
  extent : Extent := {}
  scope : Option ScopeId := none
  cls : Option ClassId := none
  deriving DecidableEq

structure ClassHead where
  name : String
  extent : Extent := {}
  cls : Option ClassId := none
  scope : Option ScopeId := none
  /-- No two of the constructors accept the same arguments. -/
  validated : Bool := false
  deriving DecidableEq

structure LambdaHead where
  params : List Param := []
  scope : Option ScopeId := none
  deriving DecidableEq

/-- What a call was found to call. -/
inductive CallTarget where
  | builtin (name : String)
  | function (name : String)
  | method (cls : ClassId) (name : String)
  | instantiate (cls : ClassId)
  /-- A value about which nothing is known before the program runs. -/
  | dynamic
  deriving DecidableEq

mutual
inductive Expr where
  | number (mark : Mark) (value : Float)
  | string (mark : Mark) (value : String)
  | boolean (mark : Mark) (value : Bool)
  | null (mark : Mark)
  | name (mark : Mark) (name : String)
  | self (mark : Mark)
  | binary (mark : Mark) (op : BinaryOp) (left right : Expr)
  | unary (mark : Mark) (op : UnaryOp) (operand : Expr)
  | step (mark : Mark) (op : StepOp) (operand : Expr)
  | ternary (mark : Mark) (cond yes no : Expr)
  | call (mark : Mark) (callee : Expr) (args : List Expr) (target : Option CallTarget)
  | member (mark : Mark) (object : Expr) (field : String)
  | subscript (mark : Mark) (object index : Expr)
  | array (mark : Mark) (elements : List Expr)
  | dictionary (mark : Mark) (entries : List (Expr × Expr))
  | blockLambda (mark : Mark) (head : LambdaHead) (block : Span) (body : List Stmt)
  | exprLambda (mark : Mark) (head : LambdaHead) (body : Expr)

/-- A statement. Blocks are lists of statements; the span of a block is kept in the extent of
the construct that it belongs to. -/
inductive Stmt where
  | var (head : VarHead) (init : Option Expr)
  | assign (span : Span) (target value : Expr)
  | func (head : FuncHead) (body : List Stmt)
  | cls (head : ClassHead) (members : List Stmt)
  | ctor (head : CtorHead) (body : List Stmt)
  | ifElse (extent : Extent) (cond : Expr) (body : List Stmt) (rest : Chain)
  | whileLoop (extent : Extent) (cond : Expr) (body : List Stmt)
  | forLoop (extent : Extent) (init : Option (VarHead × Option Expr)) (cond : Option Expr)
      (update : Option Stmt) (body : List Stmt)
  | ret (span : Span) (value : Option Expr)
  | brk (span : Span)
  | expr (e : Expr)

/-- What follows the first arm of a conditional: further arms, and at the end possibly a block
for the case that no condition holds. -/
inductive Chain where
  | done
  | elseIf (extent : Extent) (cond : Expr) (body : List Stmt) (rest : Chain)
  | otherwise (block : Span) (body : List Stmt)
end

structure Program where
  stmts : List Stmt := []
  span : Span := {}

namespace Expr

def mark : Expr → Mark
  | .number m _ | .string m _ | .boolean m _ | .null m | .name m _ | .self m
  | .binary m .. | .unary m .. | .step m .. | .ternary m .. | .call m .. | .member m ..
  | .subscript m .. | .array m _ | .dictionary m _ | .blockLambda m .. | .exprLambda m .. => m

def withMark (m : Mark) : Expr → Expr
  | .number _ v => .number m v
  | .string _ v => .string m v
  | .boolean _ v => .boolean m v
  | .null _ => .null m
  | .name _ n => .name m n
  | .self _ => .self m
  | .binary _ op l r => .binary m op l r
  | .unary _ op e => .unary m op e
  | .step _ op e => .step m op e
  | .ternary _ c y n => .ternary m c y n
  | .call _ f args target => .call m f args target
  | .member _ o f => .member m o f
  | .subscript _ o i => .subscript m o i
  | .array _ es => .array m es
  | .dictionary _ es => .dictionary m es
  | .blockLambda _ h b body => .blockLambda m h b body
  | .exprLambda _ h body => .exprLambda m h body

def span (e : Expr) : Span := e.mark.span

/-- The type of an expression; one that has not been looked at may be anything. -/
def type (e : Expr) : TypeId := e.mark.type.getD .any

def typed (e : Expr) (t : TypeId) : Expr := e.withMark (e.mark.typed t)

@[simp] theorem mark_withMark (m : Mark) (e : Expr) : (e.withMark m).mark = m := by
  cases e <;> rfl

@[simp] theorem withMark_mark (e : Expr) : e.withMark e.mark = e := by
  cases e <;> rfl

def number? : Expr → Option Float
  | .number _ v => some v
  | _ => none

def boolean? : Expr → Option Bool
  | .boolean _ v => some v
  | _ => none

def arity? : Expr → Option Nat
  | .call _ _ args _ => some args.length
  | _ => none

def isTarget : Expr → Bool
  | .name .. | .member .. | .subscript .. => true
  | _ => false

end Expr

namespace Stmt

def span : Stmt → Span
  | .var h _ => h.span
  | .assign s .. | .ret s _ | .brk s => s
  | .func h _ => h.extent.span
  | .cls h _ => h.extent.span
  | .ctor h _ => h.extent.span
  | .ifElse x .. | .whileLoop x .. | .forLoop x .. => x.span
  | .expr e => e.span

/-- Nothing after such a statement in the same block is reached. -/
def isTerminator : Stmt → Bool
  | .ret .. | .brk _ => true
  | _ => false

def isVar : Stmt → Bool
  | .var .. => true
  | _ => false

def isClass : Stmt → Bool
  | .cls .. => true
  | _ => false

def isFunction : Stmt → Bool
  | .func .. | .ctor .. => true
  | _ => false

def classHead? : Stmt → Option ClassHead
  | .cls h _ => some h
  | _ => none

end Stmt

/-- The arms with a condition of their own: extent, condition and block. -/
def Chain.arms : Chain → List (Extent × Expr × List Stmt)
  | .done | .otherwise .. => []
  | .elseIf x c body rest => (x, c, body) :: rest.arms

def Chain.last? : Chain → Option (Span × List Stmt)
  | .done => none
  | .otherwise s body => some (s, body)
  | .elseIf _ _ _ rest => rest.last?

/-- Puts a chain together from its arms and its last block. -/
def Chain.ofArms (last : Option (Span × List Stmt)) : List (Extent × Expr × List Stmt) → Chain
  | [] => match last with
    | none => .done
    | some (s, body) => .otherwise s body
  | (x, c, body) :: rest => .elseIf x c body (ofArms last rest)

end MiddleEnd
