import MiddleEnd.Tree.Basic

/-!
Trees without annotations. Erasing leaves what has been written, with no trace of what the analysis
has found out.
-/

namespace MiddleEnd

def Mark.erase (m : Mark) : Mark := { m with type := none }

def Param.erase (p : Param) : Param := { p with type := none }

def VarHead.erase (head : VarHead) : VarHead := { head with type := none }

def FuncHead.erase (head : FuncHead) : FuncHead :=
  { head with params := head.params.map .erase, type := none, settled := false, scope := none }

def CtorHead.erase (head : CtorHead) : CtorHead :=
  { head with params := head.params.map .erase, scope := none, cls := none }

def ClassHead.erase (head : ClassHead) : ClassHead :=
  { head with cls := none, scope := none, validated := false }

def LambdaHead.erase (head : LambdaHead) : LambdaHead where
  params := head.params.map .erase

mutual
/-- The expression without its annotations. -/
@[simp] def Expr.erase : Expr → Expr
  | .number m v => .number m.erase v
  | .string m v => .string m.erase v
  | .boolean m v => .boolean m.erase v
  | .null m => .null m.erase
  | .name m n => .name m.erase n
  | .self m => .self m.erase
  | .binary m op l r => .binary m.erase op l.erase r.erase
  | .unary m op e => .unary m.erase op e.erase
  | .step m op e => .step m.erase op e.erase
  | .ternary m c y n => .ternary m.erase c.erase y.erase n.erase
  | .call m f args _ => .call m.erase f.erase (Expr.eraseList args) none
  | .member m o n => .member m.erase o.erase n
  | .subscript m o i => .subscript m.erase o.erase i.erase
  | .array m es => .array m.erase (Expr.eraseList es)
  | .dictionary m es => .dictionary m.erase (Expr.eraseEntries es)
  | .blockLambda m head block body =>
    .blockLambda m.erase head.erase block (Stmt.eraseList body)
  | .exprLambda m head body => .exprLambda m.erase head.erase body.erase

@[simp] def Expr.eraseList : List Expr → List Expr
  | [] => []
  | e :: es => e.erase :: Expr.eraseList es

@[simp] def Expr.eraseEntries : List (Expr × Expr) → List (Expr × Expr)
  | [] => []
  | (k, v) :: es => (k.erase, v.erase) :: Expr.eraseEntries es

@[simp] def Expr.eraseOption : Option Expr → Option Expr
  | none => none
  | some e => some e.erase

@[simp] def Expr.eraseInit : Option (VarHead × Option Expr) → Option (VarHead × Option Expr)
  | none => none
  | some (head, e) => some (head.erase, Expr.eraseOption e)

@[simp] def Stmt.erase : Stmt → Stmt
  | .var head init => .var head.erase (Expr.eraseOption init)
  | .assign span t v => .assign span t.erase v.erase
  | .func head body => .func head.erase (Stmt.eraseList body)
  | .cls head ms => .cls head.erase (Stmt.eraseList ms)
  | .ctor head body => .ctor head.erase (Stmt.eraseList body)
  | .ifElse x c body rest => .ifElse x c.erase (Stmt.eraseList body) rest.erase
  | .whileLoop x c body => .whileLoop x c.erase (Stmt.eraseList body)
  | .forLoop x init c update body =>
    .forLoop x (Expr.eraseInit init) (Expr.eraseOption c) (Stmt.eraseUpdate update)
      (Stmt.eraseList body)
  | .ret span v => .ret span (Expr.eraseOption v)
  | .brk span => .brk span
  | .expr e => .expr e.erase

@[simp] def Stmt.eraseUpdate : Option Stmt → Option Stmt
  | none => none
  | some s => some s.erase

@[simp] def Stmt.eraseList : List Stmt → List Stmt
  | [] => []
  | s :: ss => s.erase :: Stmt.eraseList ss

@[simp] def Chain.erase : Chain → Chain
  | .done => .done
  | .elseIf x c body rest => .elseIf x c.erase (Stmt.eraseList body) rest.erase
  | .otherwise block body => .otherwise block (Stmt.eraseList body)
end

def Program.erase (p : Program) : Program := { p with stmts := Stmt.eraseList p.stmts }

@[simp] theorem Mark.erase_typed (m : Mark) (t : TypeId) : (m.typed t).erase = m.erase := rfl

@[simp] theorem Expr.erase_typed (e : Expr) (t : TypeId) : (e.typed t).erase = e.erase := by
  cases e <;> simp [Expr.typed, Expr.withMark, Expr.mark]

end MiddleEnd
