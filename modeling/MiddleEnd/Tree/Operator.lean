/-!
The operators of expressions.
-/

namespace MiddleEnd

inductive BinaryOp where
  | or | and
  | less | lessEqual | greater | greaterEqual | equal | notEqual
  | add | subtract | multiply | divide | modulo | power
  deriving DecidableEq

namespace BinaryOp

/-- Operators whose result has the type of their left operand. -/
def isArithmetic : BinaryOp → Bool
  | .add | .subtract | .multiply | .divide | .modulo | .power => true
  | _ => false

def isRelational : BinaryOp → Bool
  | .less | .lessEqual | .greater | .greaterEqual | .equal | .notEqual => true
  | _ => false

def all : List BinaryOp :=
  [.or, .and, .less, .lessEqual, .greater, .greaterEqual, .equal, .notEqual, .add, .subtract,
    .multiply, .divide, .modulo, .power]

def text : BinaryOp → String
  | .or => "or"
  | .and => "and"
  | .less => "<"
  | .lessEqual => "<="
  | .greater => ">"
  | .greaterEqual => ">="
  | .equal => "=="
  | .notEqual => "!="
  | .add => "+"
  | .subtract => "-"
  | .multiply => "*"
  | .divide => "/"
  | .modulo => "%"
  | .power => "**"

def ofText? (s : String) : Option BinaryOp := all.find? (·.text = s)

theorem ofText?_text (op : BinaryOp) : ofText? op.text = some op := by
  cases op <;> decide

end BinaryOp

inductive UnaryOp where
  | negate | not | increment | decrement
  deriving DecidableEq

namespace UnaryOp

def all : List UnaryOp := [.negate, .not, .increment, .decrement]

def text : UnaryOp → String
  | .negate => "-"
  | .not => "!"
  | .increment => "++"
  | .decrement => "--"

def ofText? (s : String) : Option UnaryOp := all.find? (·.text = s)

theorem ofText?_text (op : UnaryOp) : ofText? op.text = some op := by
  cases op <;> decide

def writes : UnaryOp → Bool
  | .increment | .decrement => true
  | _ => false

end UnaryOp

inductive StepOp where
  | increment | decrement
  deriving DecidableEq

namespace StepOp

def all : List StepOp := [.increment, .decrement]

def text : StepOp → String
  | .increment => "++"
  | .decrement => "--"

def ofText? (s : String) : Option StepOp := all.find? (·.text = s)

theorem ofText?_text (op : StepOp) : ofText? op.text = some op := by
  cases op <;> decide

end StepOp
end MiddleEnd
