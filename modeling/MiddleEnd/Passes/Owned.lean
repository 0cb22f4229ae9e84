import MiddleEnd.Tree.Basic
import MiddleEnd.Passes.Edit

/-!
The expressions that a statement owns: those in it that do not belong to a block of its own.
The update of a `for` loop counts as part of the loop.
-/

namespace MiddleEnd

def Chain.editConds (g : Expr → Edit Expr) : Chain → Edit Chain
  | .done => return .done
  | .elseIf x c body rest => return .elseIf x (← g c) body (← rest.editConds g)
  | .otherwise block body => return .otherwise block body

def Stmt.editOwned (g : Expr → Edit Expr) : Stmt → Edit Stmt
  | .var head init => return .var head (← init.mapM g)
  | .assign span t v => return .assign span (← g t) (← g v)
  | .func head body => return .func head body
  | .cls head ms => return .cls head ms
  | .ctor head body => return .ctor head body
  | .ifElse x c body rest => return .ifElse x (← g c) body (← rest.editConds g)
  | .whileLoop x c body => return .whileLoop x (← g c) body
  | .forLoop x init c update body => do
    let init ← match init with
      | none => pure none
      | some (head, e) => do pure (some (head, ← e.mapM g))
    let c ← c.mapM g
    let update ← match update with
      | none => pure none
      | some s => do pure (some (← s.editOwned g))
    return .forLoop x init c update body
  | .ret span v => return .ret span (← v.mapM g)
  | .brk span => return .brk span
  | .expr e => return .expr (← g e)

end MiddleEnd
