import MiddleEnd.Tree.Basic
import MiddleEnd.Number.Remainder

/-!
Constants and what the operators make of them. An operator has no value on operands of the
wrong kind, and neither division nor remainder has one where the divisor is zero.
-/

namespace MiddleEnd

inductive Constant where
  | number (value : Float)
  | boolean (value : Bool)

def Constant.toExpr (span : Span) : Constant → Expr
  | .number v => .number { span, type := some .number } v
  | .boolean v => .boolean { span, type := some .boolean } v

def Expr.constant? : Expr → Option Constant
  | .number _ v => some (.number v)
  | .boolean _ v => some (.boolean v)
  | _ => none

namespace BinaryOp

def onNumbers (a b : Float) : BinaryOp → Option Constant
  | .add => some (.number (a + b))
  | .subtract => some (.number (a - b))
  | .multiply => some (.number (a * b))
  | .divide => if b == 0 then none else some (.number (a / b))
  | .modulo => if b == 0 then none else some (.number (remainder a b))
  | .power => some (.number (a.pow b))
  | .less => some (.boolean (a < b))
  | .lessEqual => some (.boolean (a ≤ b))
  | .greater => some (.boolean (b < a))
  | .greaterEqual => some (.boolean (b ≤ a))
  | .equal => some (.boolean (a == b))
  | .notEqual => some (.boolean (a != b))
  | .and | .or => none

def onBooleans (a b : Bool) : BinaryOp → Option Constant
  | .and => some (.boolean (a && b))
  | .or => some (.boolean (a || b))
  | .equal => some (.boolean (a == b))
  | .notEqual => some (.boolean (a != b))
  | _ => none

end BinaryOp

def UnaryOp.onConstant : UnaryOp → Constant → Option Constant
  | .negate, .number v => some (.number (-v))
  | .not, .boolean v => some (.boolean !v)
  | _, _ => none

end MiddleEnd
