import MiddleEnd.Tree.Basic
import MiddleEnd.Passes.Edit

/-!
Edits of all blocks of a program, the inner ones first: the bodies of functions, classes,
branches, loops and lambdas. Of the update of a `for` loop only the expressions that it owns are
entered, not the blocks in it.
-/

namespace MiddleEnd

abbrev BlockEdit := List Stmt → Edit (List Stmt)

mutual
def Expr.editBlocks (f : BlockEdit) : Expr → Edit Expr
  | .number m v => return .number m v
  | .string m v => return .string m v
  | .boolean m v => return .boolean m v
  | .null m => return .null m
  | .name m n => return .name m n
  | .self m => return .self m
  | .binary m op l r => return .binary m op (← l.editBlocks f) (← r.editBlocks f)
  | .unary m op e => return .unary m op (← e.editBlocks f)
  | .step m op e => return .step m op (← e.editBlocks f)
  | .ternary m c y n =>
    return .ternary m (← c.editBlocks f) (← y.editBlocks f) (← n.editBlocks f)
  | .call m g args target =>
    return .call m (← g.editBlocks f) (← Expr.editBlocksList f args) target
  | .member m o n => return .member m (← o.editBlocks f) n
  | .subscript m o i => return .subscript m (← o.editBlocks f) (← i.editBlocks f)
  | .array m es => return .array m (← Expr.editBlocksList f es)
  | .dictionary m es => return .dictionary m (← Expr.editBlocksEntries f es)
  | .blockLambda m head block body =>
    return .blockLambda m head block (← f (← Stmt.editBlocksList f body))
  | .exprLambda m head body => return .exprLambda m head (← body.editBlocks f)

def Expr.editBlocksList (f : BlockEdit) : List Expr → Edit (List Expr)
  | [] => return []
  | e :: es => return (← e.editBlocks f) :: (← Expr.editBlocksList f es)

def Expr.editBlocksEntries (f : BlockEdit) : List (Expr × Expr) → Edit (List (Expr × Expr))
  | [] => return []
  | (k, v) :: es =>
    return (← k.editBlocks f, ← v.editBlocks f) :: (← Expr.editBlocksEntries f es)

def Expr.editBlocksOption (f : BlockEdit) : Option Expr → Edit (Option Expr)
  | none => return none
  | some e => return some (← e.editBlocks f)

def Stmt.editBlocks (f : BlockEdit) : Stmt → Edit Stmt
  | .var head init => return .var head (← Expr.editBlocksOption f init)
  | .assign span t v => return .assign span (← t.editBlocks f) (← v.editBlocks f)
  | .func head body => return .func head (← f (← Stmt.editBlocksList f body))
  | .cls head ms => return .cls head (← f (← Stmt.editBlocksList f ms))
  | .ctor head body => return .ctor head (← f (← Stmt.editBlocksList f body))
  | .ifElse x c body rest =>
    return .ifElse x (← c.editBlocks f) (← f (← Stmt.editBlocksList f body)) (← rest.editBlocks f)
  | .whileLoop x c body =>
    return .whileLoop x (← c.editBlocks f) (← f (← Stmt.editBlocksList f body))
  | .forLoop x init c update body => do
    let init ← match init with
      | none => pure none
      | some (head, e) => do pure (some (head, ← Expr.editBlocksOption f e))
    let c ← Expr.editBlocksOption f c
    let update ← match update with
      | none => pure none
      | some s => do pure (some (← s.editOwnedBlocks f))
    return .forLoop x init c update (← f (← Stmt.editBlocksList f body))
  | .ret span v => return .ret span (← Expr.editBlocksOption f v)
  | .brk span => return .brk span
  | .expr e => return .expr (← e.editBlocks f)

/-- Edits the blocks of the lambdas in the expressions that a statement owns, and leaves its
other blocks alone. -/
def Stmt.editOwnedBlocks (f : BlockEdit) : Stmt → Edit Stmt
  | .var head init => return .var head (← Expr.editBlocksOption f init)
  | .assign span t v => return .assign span (← t.editBlocks f) (← v.editBlocks f)
  | .func head body => return .func head body
  | .cls head ms => return .cls head ms
  | .ctor head body => return .ctor head body
  | .ifElse x c body rest =>
    return .ifElse x (← c.editBlocks f) body (← rest.editOwnedBlocks f)
  | .whileLoop x c body => return .whileLoop x (← c.editBlocks f) body
  | .forLoop x init c update body => do
    let init ← match init with
      | none => pure none
      | some (head, e) => do pure (some (head, ← Expr.editBlocksOption f e))
    let c ← Expr.editBlocksOption f c
    let update ← match update with
      | none => pure none
      | some s => do pure (some (← s.editOwnedBlocks f))
    return .forLoop x init c update body
  | .ret span v => return .ret span (← Expr.editBlocksOption f v)
  | .brk span => return .brk span
  | .expr e => return .expr (← e.editBlocks f)

def Stmt.editBlocksList (f : BlockEdit) : List Stmt → Edit (List Stmt)
  | [] => return []
  | s :: ss => return (← s.editBlocks f) :: (← Stmt.editBlocksList f ss)

def Chain.editBlocks (f : BlockEdit) : Chain → Edit Chain
  | .done => return .done
  | .elseIf x c body rest =>
    return .elseIf x (← c.editBlocks f) (← f (← Stmt.editBlocksList f body)) (← rest.editBlocks f)
  | .otherwise block body => return .otherwise block (← f (← Stmt.editBlocksList f body))

def Chain.editOwnedBlocks (f : BlockEdit) : Chain → Edit Chain
  | .done => return .done
  | .elseIf x c body rest =>
    return .elseIf x (← c.editBlocks f) body (← rest.editOwnedBlocks f)
  | .otherwise block body => return .otherwise block body
end

def BlockEdit.everywhere (f : BlockEdit) : BlockEdit := fun ss => do
  f (← Stmt.editBlocksList f ss)

end MiddleEnd
