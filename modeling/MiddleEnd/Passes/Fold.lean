import MiddleEnd.Passes.Blocks
import MiddleEnd.Passes.Owned
import MiddleEnd.Tree.Constant

/-!
Constant folding: operators on literals become literals, operands that do nothing disappear, and
a ternary with a literal condition becomes one of its branches.
-/

namespace MiddleEnd

mutual
/-- Evaluating the expression may do more than give a value. -/
def Expr.hasEffects : Expr → Bool
  | .call .. | .step .. => true
  | .unary _ op e => op.writes || e.hasEffects
  | .binary _ _ l r => l.hasEffects || r.hasEffects
  | .ternary _ c y n => c.hasEffects || y.hasEffects || n.hasEffects
  | .member _ o _ => o.hasEffects
  | .subscript _ o i => o.hasEffects || i.hasEffects
  | .array _ es => Expr.anyHasEffects es
  | .dictionary _ es => Expr.entriesHaveEffects es
  | _ => false

def Expr.anyHasEffects : List Expr → Bool
  | [] => false
  | e :: es => e.hasEffects || Expr.anyHasEffects es

def Expr.entriesHaveEffects : List (Expr × Expr) → Bool
  | [] => false
  | (k, v) :: es => k.hasEffects || v.hasEffects || Expr.entriesHaveEffects es
end

namespace Fold

def isNumeric (e : Expr) : Bool := e.mark.type = some .number

def isNumber (v : Float) (e : Expr) : Bool := e.number?.any (· == v)

/-- Operators with an operand that does nothing: `x + 0`, `x - 0`, `x * 1` and `x / 1` are `x`,
and `x * 0` is zero if leaving out `x` is not noticed. -/
def identity (op : BinaryOp) (l r : Expr) (span : Span) : Option Expr :=
  match op with
  | .add =>
    if isNumber 0 r && isNumeric l then some l
    else if isNumber 0 l && isNumeric r then some r
    else none
  | .subtract => if isNumber 0 r && isNumeric l then some l else none
  | .multiply =>
    if isNumber 1 r && isNumeric l then some l
    else if isNumber 1 l && isNumeric r then some r
    else if isNumber 0 r && isNumeric l && !l.hasEffects
        || isNumber 0 l && isNumeric r && !r.hasEffects then
      some ((Constant.number 0).toExpr span)
    else none
  | .divide => if isNumber 1 r && isNumeric l then some l else none
  | _ => none

def binary (op : BinaryOp) (l r : Expr) (span : Span) : Option Expr :=
  match l.constant?, r.constant? with
  | some (.number a), some (.number b) => (op.onNumbers a b).map (·.toExpr span)
  | some (.boolean a), some (.boolean b) => (op.onBooleans a b).map (·.toExpr span)
  | _, _ => identity op l r span

def unary (op : UnaryOp) (e : Expr) (span : Span) : Option Expr :=
  (e.constant?.bind op.onConstant).map (·.toExpr span)

def ternary (c y n : Expr) : Option Expr := c.boolean?.map fun b => if b then y else n

/-- Puts the folded expression in place of an expression, if there is one. -/
def orElse (folded : Option Expr) (e : Expr) : Edit Expr :=
  match folded with
  | some e => .replace e
  | none => .keep e

end Fold

mutual
/-- Folds an expression, the operands first. The blocks of lambdas are left alone. -/
def Expr.fold : Expr → Edit Expr
  | .binary m op l r => do
    let l ← l.fold
    let r ← r.fold
    Fold.orElse (Fold.binary op l r m.span) (.binary m op l r)
  | .unary m op e => do
    let e ← e.fold
    Fold.orElse (Fold.unary op e m.span) (.unary m op e)
  | .ternary m c y n => do
    let c ← c.fold
    let y ← y.fold
    let n ← n.fold
    Fold.orElse (Fold.ternary c y n) (.ternary m c y n)
  | .step m op e => return .step m op (← e.fold)
  | .call m f args target => return .call m (← f.fold) (← Expr.foldList args) target
  | .member m o n => return .member m (← o.fold) n
  | .subscript m o i => return .subscript m (← o.fold) (← i.fold)
  | .array m es => return .array m (← Expr.foldList es)
  | .dictionary m es => return .dictionary m (← Expr.foldEntries es)
  | .exprLambda m head body => return .exprLambda m head (← body.fold)
  | e => return e

def Expr.foldList : List Expr → Edit (List Expr)
  | [] => return []
  | e :: es => return (← e.fold) :: (← Expr.foldList es)

def Expr.foldEntries : List (Expr × Expr) → Edit (List (Expr × Expr))
  | [] => return []
  | (k, v) :: es => return (← k.fold, ← v.fold) :: (← Expr.foldEntries es)
end

def foldBlock : BlockEdit := fun ss => ss.mapM (Stmt.editOwned Expr.fold)

end MiddleEnd
