import MiddleEnd.Tree.Basic

/-!
Equality of trees as programs compare them: places, types and handles count, and numbers are
compared as numbers, so that a tree with a literal that is not a number differs from itself.
-/

namespace MiddleEnd

mutual
def Expr.same : Expr → Expr → Bool
  | .number m v, .number n w => m = n && v == w
  | .string m v, .string n w => m = n && v = w
  | .boolean m v, .boolean n w => m = n && v = w
  | .null m, .null n => m = n
  | .name m v, .name n w => m = n && v = w
  | .self m, .self n => m = n
  | .binary m p l r, .binary n q s t => m = n && p = q && l.same s && r.same t
  | .unary m p e, .unary n q f => m = n && p = q && e.same f
  | .step m p e, .step n q f => m = n && p = q && e.same f
  | .ternary m c y o, .ternary n d z p => m = n && c.same d && y.same z && o.same p
  | .call m f as t, .call n g bs u => m = n && f.same g && Expr.sameList as bs && t = u
  | .member m o f, .member n p g => m = n && o.same p && f = g
  | .subscript m o i, .subscript n p j => m = n && o.same p && i.same j
  | .array m es, .array n fs => m = n && Expr.sameList es fs
  | .dictionary m es, .dictionary n fs => m = n && Expr.sameEntries es fs
  | .blockLambda m h s b, .blockLambda n g t c => m = n && h = g && s = t && Stmt.sameList b c
  | .exprLambda m h b, .exprLambda n g c => m = n && h = g && b.same c
  | _, _ => false
termination_by structural a => a

def Expr.sameList : List Expr → List Expr → Bool
  | [], [] => true
  | e :: es, f :: fs => e.same f && Expr.sameList es fs
  | _, _ => false
termination_by structural a => a

def Expr.sameEntries : List (Expr × Expr) → List (Expr × Expr) → Bool
  | [], [] => true
  | (k, v) :: es, (l, w) :: fs => k.same l && v.same w && Expr.sameEntries es fs
  | _, _ => false
termination_by structural a => a

def Expr.sameOption : Option Expr → Option Expr → Bool
  | none, none => true
  | some e, some f => e.same f
  | _, _ => false
termination_by structural a => a

def Stmt.same : Stmt → Stmt → Bool
  | .var h i, .var g j => h = g && Expr.sameOption i j
  | .assign s t v, .assign r u w => s = r && t.same u && v.same w
  | .func h b, .func g c => h = g && Stmt.sameList b c
  | .cls h b, .cls g c => h = g && Stmt.sameList b c
  | .ctor h b, .ctor g c => h = g && Stmt.sameList b c
  | .ifElse x c b r, .ifElse y d e s => x = y && c.same d && Stmt.sameList b e && r.same s
  | .whileLoop x c b, .whileLoop y d e => x = y && c.same d && Stmt.sameList b e
  | .forLoop x i c u b, .forLoop y j d w e =>
    x = y
      && (match i, j with
        | none, none => true
        | some (h, v), some (g, w) => h = g && Expr.sameOption v w
        | _, _ => false)
      && Expr.sameOption c d
      && (match u, w with
        | none, none => true
        | some s, some t => s.same t
        | _, _ => false)
      && Stmt.sameList b e
  | .ret s v, .ret r w => s = r && Expr.sameOption v w
  | .brk s, .brk r => s = r
  | .expr e, .expr f => e.same f
  | _, _ => false
termination_by structural a => a

def Stmt.sameList : List Stmt → List Stmt → Bool
  | [], [] => true
  | s :: ss, t :: ts => s.same t && Stmt.sameList ss ts
  | _, _ => false
termination_by structural a => a

def Chain.same : Chain → Chain → Bool
  | .done, .done => true
  | .elseIf x c b r, .elseIf y d e s => x = y && c.same d && Stmt.sameList b e && r.same s
  | .otherwise s b, .otherwise t c => s = t && Stmt.sameList b c
  | _, _ => false
termination_by structural a => a
end

def Program.same (p q : Program) : Bool := p.span = q.span && Stmt.sameList p.stmts q.stmts

/-- An expression whose root carries nothing but its place. -/
def Expr.isBare (e : Expr) : Bool := e.same (e.withMark { span := e.span })

end MiddleEnd
