import MiddleEnd.Passes.Blocks

/-!
Pruning: arms and loops whose condition is a literal that rules them out are removed.
-/

namespace MiddleEnd

/-- Removes the arms that are never taken: those under a literal `false`, and all that follow a
literal `true`. -/
def Chain.prune : Chain → Edit Chain
  | .done => return .done
  | .otherwise block body => return .otherwise block body
  | .elseIf x c body rest =>
    match c.boolean? with
    | none => return .elseIf x c body (← rest.prune)
    | some false => .replace rest.prune.value
    | some true =>
      match rest with
      | .done => return .elseIf x c body .done
      | _ => .replace (.elseIf x c body .done)

def Expr.always (span : Span) : Expr := .boolean { span, type := some .boolean } true

/-- Prunes a conditional. Where the first condition is a literal `false`, the next arm takes its
place; a conditional without arms is removed. -/
def pruneIf (x : Extent) (c : Expr) (body : List Stmt) (rest : Chain) : Edit (Option Stmt) :=
  match c.boolean? with
  | none => return some (.ifElse x c body (← rest.prune))
  | some true =>
    match rest with
    | .done => return some (.ifElse x c body .done)
    | _ => .replace (some (.ifElse x c body .done))
  | some false =>
    match rest.prune.value with
    | .done => .replace none
    | .elseIf y d next after => .replace (some (.ifElse { x with block := y.block } d next after))
    | .otherwise block last =>
      .replace (some (.ifElse { x with block } (.always c.span) last .done))

def Stmt.prune : Stmt → Edit (Option Stmt)
  | .ifElse x c body rest => pruneIf x c body rest
  | .whileLoop x c body =>
    match c.boolean? with
    | some false => .replace none
    | _ => return some (.whileLoop x c body)
  | s => return some s

def pruneBlock : BlockEdit
  | [] => return []
  | s :: ss => do
    let s ← s.prune
    let ss ← pruneBlock ss
    return s.toList ++ ss

end MiddleEnd
