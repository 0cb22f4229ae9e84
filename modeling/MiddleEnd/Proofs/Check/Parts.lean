import Mathlib.Tactic.Simproc.ExistsAndEq
import MiddleEnd.Proofs.Check.Run

/-!
What a walk that succeeds consists of. For each kind of node there are the runs through its parts,
in the order in which they are made, with the sessions between them, the rules that have passed,
and the node that is given back.
-/

namespace MiddleEnd

variable {scope : ScopeId} {σ τ : Session}

lemma Except.exists_eq_ok {ε : Type} {r : Except ε Unit} : (∃ u, r = .ok u) ↔ r = .ok () := by
  constructor
  · rintro ⟨_, h⟩
    exact h
  · exact fun h => ⟨(), h⟩

lemma Check.gives_blockRules {ss : List Stmt} {u : Unit} :
    Gives (blockRules ss) σ u τ ↔ (∀ s ∈ ss, Rule.blockStmt s = .ok ()) ∧ σ = τ := by
  rw [blockRules, gives_rule, ← Except.forM_eq_ok]

/-! ### Blocks in the walk -/

namespace Check

/-- A block: the rules for its statements, and the statements. -/
def block (scope : ScopeId) (ss : List Stmt) : Check (List Stmt) := do
  blockRules ss
  stmts scope ss

def inner (scope : ScopeId) (kind : ScopeKind) (ss : List Stmt) : Check (List Stmt) := do
  let id ← openIn scope kind
  block id ss

/-- A condition, and the block for which it stands. -/
def arm (scope : ScopeId) (role : String) (kind : ScopeKind) (c : Expr) (ss : List Stmt) :
    Check (Expr × List Stmt) := do
  let c ← expr scope c
  rule (Rule.boolean c role)
  let ss ← inner scope kind ss
  return (c, ss)

lemma stmt_func {head : FuncHead} {body : List Stmt} :
    stmt scope (.func head body) = do
      let id ← registered head.scope head.name head.extent.span
      let body ← block id body
      return .func (← closeFunction head id) body := by
  rw [stmt]
  simp only [block, bind_assoc]

lemma stmt_ctor {head : CtorHead} {body : List Stmt} {id : ScopeId} (h : head.scope = some id) :
    stmt scope (.ctor head body) = do
      let body ← block id body
      return .ctor head body := by
  rw [stmt, h]
  simp only [block, bind_assoc]

lemma stmt_ifElse {x : Extent} {c : Expr} {body : List Stmt} {rest : Chain} :
    stmt scope (.ifElse x c body rest) = do
      let r ← arm scope "If condition" .block c body
      let rest ← chain scope rest
      return .ifElse x r.1 r.2 rest := by
  rw [stmt]
  simp only [arm, inner, block, bind_assoc, pure_bind]

lemma chain_elseIf {x : Extent} {c : Expr} {body : List Stmt} {rest : Chain} :
    chain scope (.elseIf x c body rest) = do
      let r ← arm scope "Else if condition" .block c body
      let rest ← chain scope rest
      return .elseIf x r.1 r.2 rest := by
  rw [chain]
  simp only [arm, inner, block, bind_assoc, pure_bind]

lemma chain_otherwise {b : Span} {body : List Stmt} :
    chain scope (.otherwise b body) = do
      let ss ← inner scope .block body
      return .otherwise b ss := by
  rw [chain]
  simp only [inner, block, bind_assoc]

lemma stmt_whileLoop {x : Extent} {c : Expr} {body : List Stmt} :
    stmt scope (.whileLoop x c body) = do
      let r ← arm scope "While condition" .loop c body
      return .whileLoop x r.1 r.2 := by
  rw [stmt]
  simp only [arm, inner, block, bind_assoc, pure_bind]

lemma stmt_forLoop {x : Extent} {init : Option (VarHead × Option Expr)} {c : Option Expr}
    {update : Option Stmt} {body : List Stmt} :
    stmt scope (.forLoop x init c update body) = do
      let id ← openIn scope .loop
      let init ← loopInit id init
      let c ← loopCondition id c
      let update ← loopUpdate id update
      let body ← block id body
      return .forLoop x init c update body := by
  rw [stmt]
  simp only [block, bind_assoc]

lemma expr_blockLambda {m : Mark} {head : LambdaHead} {b : Span} {body : List Stmt} :
    expr scope (.blockLambda m head b body) = do
      let r ← openLambda scope head
      let body ← block r.1 body
      return .blockLambda (m.typed .any) r.2 b body := by
  rw [expr]
  simp only [block, bind_assoc]

end Check

namespace Gives

open Check

variable {body : List Stmt} {rest : Chain}

/-! ### Expressions -/

section Expressions

variable {m f : Mark} {n : String} {l r c y o i e e' : Expr} {es es' args : List Expr}
  {target : Option CallTarget} {head : LambdaHead}

lemma name (h : Gives (expr scope (.name m n)) σ e' τ) :
    ∃ t, Gives (nameType scope n m.span) σ t τ ∧ .name (m.typed t) n = e' := by
  simpa [expr, gives_bind, gives_map] using h

lemma self (h : Gives (expr scope (.self m)) σ e' τ) :
    ∃ t, Gives (selfType scope m.span) σ t τ ∧ .self (m.typed t) = e' := by
  simpa [expr, gives_bind, gives_map] using h

lemma binary {op : BinaryOp} (h : Gives (expr scope (.binary m op l r)) σ e' τ) :
    ∃ l' υ, Gives (expr scope l) σ l' υ ∧ ∃ r', Gives (expr scope r) υ r' τ ∧
      .binary (m.typed (if op.isArithmetic then l'.type else .boolean)) op l' r' = e' := by
  simpa [expr, gives_bind, gives_map] using h

lemma unary {op : UnaryOp} (h : Gives (expr scope (.unary m op e)) σ e' τ) :
    ∃ d, Gives (expr scope e) σ d τ ∧
      (if op = .not then Rule.boolean d "Operand of !" else Rule.number d) = .ok () ∧
      .unary (m.typed d.type) op d = e' := by
  simpa [expr, gives_bind, gives_map, Except.exists_eq_ok] using h

lemma step {op : StepOp} (h : Gives (expr scope (.step m op e)) σ e' τ) :
    ∃ d, Gives (expr scope e) σ d τ ∧ Rule.number d = .ok () ∧
      .step (m.typed d.type) op d = e' := by
  simpa [expr, gives_bind, gives_map, Except.exists_eq_ok] using h

lemma ternary (h : Gives (expr scope (.ternary m c y e)) σ e' τ) :
    ∃ c' σ1, Gives (expr scope c) σ c' σ1 ∧ Rule.boolean c' "Ternary condition" = .ok () ∧
      ∃ y' σ2, Gives (expr scope y) σ1 y' σ2 ∧ ∃ d, Gives (expr scope e) σ2 d τ ∧
      .ternary (m.typed (if τ.types.sameType y'.type d.type then y'.type else .any)) c' y' d =
        e' := by
  simpa [expr, gives_bind, gives_map, Except.exists_eq_ok] using h

lemma call_name (h : Gives (expr scope (.call m (.name f n) args target)) σ e' τ) :
    ∃ b, σ.scopes.resolve scope n f.span = .ok b ∧ Rule.callable b f.span = .ok () ∧
      ∃ u υ, Gives (recordCall scope n) σ u υ ∧ ∃ args', Gives (exprs scope args) υ args' τ ∧
      ∃ g t, Call.named τ.types b args' m.span = .ok (g, t) ∧
      .call (m.typed t) (.name (f.typed .any) n) args' (some g) = e' := by
  simpa [expr, gives_bind, gives_map, Except.exists_eq_ok] using h

lemma call_member (h : Gives (expr scope (.call m (.member f o n) args target)) σ e' τ) :
    ∃ o' υ, Gives (expr scope o) σ o' υ ∧ Rule.member υ.types o'.type n f.span = .ok () ∧
      ∃ args', Gives (exprs scope args) υ args' τ ∧
      ∃ g t, Call.member τ.types o'.type n args' m.span = .ok (g, t) ∧
      .call (m.typed t) (.member (f.typed .any) o' n) args' (some g) = e' := by
  simpa [expr, gives_bind, gives_map, Except.exists_eq_ok] using h

lemma call_computed (h : Gives (expr scope (.call m e args target)) σ e' τ)
    (hname : ∀ g n, e ≠ .name g n) (hmember : ∀ g o n, e ≠ .member g o n) :
    ∃ d υ, Gives (expr scope e) σ d υ ∧ Call.computed υ.types d = .ok () ∧
      ∃ args', Gives (exprs scope args) υ args' τ ∧
      .call (m.typed .any) (d.typed .any) args' (some .dynamic) = e' := by
  simpa [expr_call hname hmember, gives_bind, gives_map, Except.exists_eq_ok] using h

lemma member (h : Gives (expr scope (.member m o n)) σ e' τ) :
    ∃ o', Gives (expr scope o) σ o' τ ∧ Rule.member τ.types o'.type n m.span = .ok () ∧
      .member (m.typed (τ.types.memberType o'.type n)) o' n = e' := by
  simpa [expr, gives_bind, gives_map, Except.exists_eq_ok] using h

lemma subscript (h : Gives (expr scope (.subscript m o i)) σ e' τ) :
    ∃ o' υ, Gives (expr scope o) σ o' υ ∧ Rule.collection υ.types o' = .ok () ∧
      ∃ i', Gives (expr scope i) υ i' τ ∧
      ∃ t, subscriptType τ.types o' i' = .ok t ∧ .subscript (m.typed t) o' i' = e' := by
  simpa [expr, gives_bind, gives_map, Except.exists_eq_ok] using h

lemma array (h : Gives (expr scope (.array m es)) σ e' τ) :
    ∃ es' υ, Gives (exprs scope es) σ es' υ ∧
      ∃ t, Gives (addType (.array (.common (es'.map Expr.type)))) υ t τ ∧
      .array (m.typed t) es' = e' := by
  simpa [expr, gives_bind, gives_map] using h

lemma dictionary {es : List (Expr × Expr)} (h : Gives (expr scope (.dictionary m es)) σ e' τ) :
    ∃ es' υ, Gives (entries scope es) σ es' υ ∧
      ∃ t, Gives (addType (.dictionary (.common (es'.map (·.1.type)))
        (.common (es'.map (·.2.type))))) υ t τ ∧
      .dictionary (m.typed t) es' = e' := by
  simpa [expr, gives_bind, gives_map] using h

lemma blockLambda {block : Span} (h : Gives (expr scope (.blockLambda m head block body)) σ e' τ) :
    ∃ inner head' υ, Gives (openLambda scope head) σ (inner, head') υ ∧
      (∀ s ∈ body, Rule.blockStmt s = .ok ()) ∧ ∃ body', Gives (stmts inner body) υ body' τ ∧
      .blockLambda (m.typed .any) head' block body' = e' := by
  simpa [expr, gives_bind, gives_map, gives_blockRules] using h

lemma exprLambda (h : Gives (expr scope (.exprLambda m head e)) σ e' τ) :
    ∃ inner head' υ, Gives (openLambda scope head) σ (inner, head') υ ∧
      ∃ d, Gives (expr inner e) υ d τ ∧ .exprLambda (m.typed .any) head' d = e' := by
  simpa [expr, gives_bind, gives_map] using h

lemma exprs_cons (h : Gives (exprs scope (e :: es)) σ es' τ) :
    ∃ d υ, Gives (expr scope e) σ d υ ∧ ∃ ds, Gives (exprs scope es) υ ds τ ∧ d :: ds = es' := by
  simpa [exprs, gives_bind, gives_map] using h

lemma entries_cons {k v : Expr} {es es' : List (Expr × Expr)}
    (h : Gives (entries scope ((k, v) :: es)) σ es' τ) :
    ∃ k' σ1, Gives (expr scope k) σ k' σ1 ∧ ∃ v' σ2, Gives (expr scope v) σ1 v' σ2 ∧
      ∃ ds, Gives (entries scope es) σ2 ds τ ∧ (k', v') :: ds = es' := by
  simpa [entries, gives_bind, gives_map] using h

lemma openLambda {head' : LambdaHead} {inner : ScopeId}
    (h : Gives (Check.openLambda scope head) σ (inner, head') τ) :
    ∃ frame σ1, Gives (addFrame
        { name := "lambda", kind := .lambda, result := .any, settled := true }) σ frame σ1 ∧
      ∃ σ2, Gives (openIn scope (.function frame)) σ1 inner σ2 ∧
      ∃ ps, Gives (params inner head.params) σ2 ps τ ∧
      head' = { params := ps, scope := some inner } := by
  simp only [Check.openLambda, gives_bind, gives_pure] at h
  obtain ⟨frame, σ1, hframe, _, σ2, hinner, ps, _, hps, heq, rfl⟩ := h
  cases heq
  exact ⟨frame, σ1, hframe, σ2, hinner, ps, hps, rfl⟩

end Expressions

/-! ### Statements -/

section Statements

variable {x : Extent} {span : Span} {c t v e : Expr} {head : VarHead} {s s' : Stmt}
  {ss ss' ms : List Stmt} {ch' : Chain}

lemma var_none {init' : Option Expr} {head' : VarHead}
    (h : Gives (Check.var scope head none) σ (head', init') τ) :
    ∃ declared υ, Gives (typeOf? scope head.annotation) σ declared υ ∧
      Gives (declareVar scope head declared none) υ head' τ ∧ init' = none := by
  simp only [Check.var, gives_bind, gives_pure] at h
  obtain ⟨declared, υ, hdeclared, _, _, hhead, heq, rfl⟩ := h
  cases heq
  exact ⟨declared, υ, hdeclared, hhead, rfl⟩

lemma var_some {init' : Option Expr} {head' : VarHead}
    (h : Gives (Check.var scope head (some e)) σ (head', init') τ) :
    ∃ declared σ1, Gives (typeOf? scope head.annotation) σ declared σ1 ∧
      ∃ e' σ2, Gives (Check.expr scope e) σ1 e' σ2 ∧
      Gives (declareVar scope head declared (some e')) σ2 head' τ ∧ init' = some e' := by
  simp only [Check.var, gives_bind, gives_pure] at h
  obtain ⟨declared, σ1, hdeclared, e', σ2, he, _, _, hhead, heq, rfl⟩ := h
  cases heq
  exact ⟨declared, σ1, hdeclared, e', σ2, he, hhead, rfl⟩

lemma var {init : Option Expr} (h : Gives (stmt scope (.var head init)) σ s' τ) :
    ∃ head' init', Gives (Check.var scope head init) σ (head', init') τ ∧
      .var head' init' = s' := by
  simpa [stmt, gives_bind, gives_map] using h

lemma assign (h : Gives (stmt scope (.assign span t v)) σ s' τ) :
    ∃ v' υ, Gives (expr scope v) σ v' υ ∧ ensure t.isTarget .invalidTarget t.span = .ok () ∧
      ∃ t', Gives (expr scope t) υ t' τ ∧ Rule.assignable τ.types v' t'.type = .ok () ∧
      .assign span t' v' = s' := by
  simpa [stmt, gives_bind, gives_map, Except.exists_eq_ok] using h

lemma func {head : FuncHead} (h : Gives (stmt scope (.func head body)) σ s' τ) :
    ∃ inner, head.scope = some inner ∧ (∀ s ∈ body, Rule.blockStmt s = .ok ()) ∧
      ∃ body' υ, Gives (stmts inner body) σ body' υ ∧
      ∃ head', Gives (closeFunction head inner) υ head' τ ∧ .func head' body' = s' := by
  simpa [stmt, gives_bind, gives_map, gives_blockRules] using h

lemma cls {head : ClassHead} (h : Gives (stmt scope (.cls head ms)) σ s' τ) :
    ∃ c, head.cls = some c ∧ ∃ inner, head.scope = some inner ∧
      ∃ u σ1, Gives (note (.classBodyEntered head.name ms.length)) σ u σ1 ∧
      ∃ ms' σ2, Gives (members inner ms) σ1 ms' σ2 ∧
      ∃ head', Gives (closeClass head c inner) σ2 head' τ ∧ .cls head' ms' = s' := by
  simpa [stmt, gives_bind, gives_map] using h

lemma ctor {head : CtorHead} (h : Gives (stmt scope (.ctor head body)) σ s' τ) :
    ∃ inner, head.scope = some inner ∧ (∀ s ∈ body, Rule.blockStmt s = .ok ()) ∧
      ∃ body', Gives (stmts inner body) σ body' τ ∧ s' = .ctor head body' := by
  cases hinner : head.scope with
  | none => simp only [stmt, hinner, gives_throw] at h
  | some inner =>
    simp only [stmt, hinner, gives_bind, gives_blockRules, gives_pure] at h
    obtain ⟨_, _, ⟨hrules, rfl⟩, body', _, hbody, rfl, rfl⟩ := h
    exact ⟨inner, rfl, hrules, body', hbody, rfl⟩

lemma ifElse (h : Gives (stmt scope (.ifElse x c body rest)) σ s' τ) :
    ∃ c' σ1, Gives (expr scope c) σ c' σ1 ∧ Rule.boolean c' "If condition" = .ok () ∧
      ∃ inner σ2, Gives (openIn scope .block) σ1 inner σ2 ∧
      (∀ s ∈ body, Rule.blockStmt s = .ok ()) ∧ ∃ body' σ3, Gives (stmts inner body) σ2 body' σ3 ∧
      ∃ rest', Gives (chain scope rest) σ3 rest' τ ∧ .ifElse x c' body' rest' = s' := by
  simpa [stmt, gives_bind, gives_map, gives_blockRules, Except.exists_eq_ok] using h

lemma whileLoop (h : Gives (stmt scope (.whileLoop x c body)) σ s' τ) :
    ∃ c' σ1, Gives (expr scope c) σ c' σ1 ∧ Rule.boolean c' "While condition" = .ok () ∧
      ∃ inner σ2, Gives (openIn scope .loop) σ1 inner σ2 ∧
      (∀ s ∈ body, Rule.blockStmt s = .ok ()) ∧ ∃ body', Gives (stmts inner body) σ2 body' τ ∧
      .whileLoop x c' body' = s' := by
  simpa [stmt, gives_bind, gives_map, gives_blockRules, Except.exists_eq_ok] using h

lemma loopCondition_some {c' : Option Expr} (h : Gives (loopCondition scope (some c)) σ c' τ) :
    ∃ d, Gives (expr scope c) σ d τ ∧ Rule.boolean d "For condition" = .ok () ∧ some d = c' := by
  simpa [loopCondition, gives_bind, gives_map, Except.exists_eq_ok] using h

lemma loopUpdate_some {update : Option Stmt} (h : Gives (loopUpdate scope (some s)) σ update τ) :
    Rule.blockStmt s = .ok () ∧ ∃ s', Gives (stmt scope s) σ s' τ ∧ some s' = update := by
  simpa [loopUpdate, gives_bind, gives_map, Except.exists_eq_ok] using h

lemma forLoop {init : Option (VarHead × Option Expr)} {c : Option Expr} {update : Option Stmt}
    (h : Gives (stmt scope (.forLoop x init c update body)) σ s' τ) :
    ∃ inner σ1, Gives (openIn scope .loop) σ inner σ1 ∧
      ∃ init' σ2, Gives (loopInit inner init) σ1 init' σ2 ∧
      ∃ c' σ3, Gives (loopCondition inner c) σ2 c' σ3 ∧
      ∃ update' σ4, Gives (loopUpdate inner update) σ3 update' σ4 ∧
      (∀ s ∈ body, Rule.blockStmt s = .ok ()) ∧ ∃ body', Gives (stmts inner body) σ4 body' τ ∧
      .forLoop x init' c' update' body' = s' := by
  simpa [stmt, gives_bind, gives_map, gives_blockRules] using h

lemma ret_none (h : Gives (stmt scope (.ret span none)) σ s' τ) :
    ∃ frame, Gives (returnFrame scope none span) σ frame τ ∧ .ret span none = s' := by
  simpa [stmt, gives_bind, gives_map] using h

lemma ret_some (h : Gives (stmt scope (.ret span (some e))) σ s' τ) :
    ∃ id frame σ1, Gives (returnFrame scope (some e) span) σ (id, frame) σ1 ∧
      ∃ e' σ2, Gives (Check.expr scope e) σ1 e' σ2 ∧ ∃ u, Gives (giveBack id frame e') σ2 u τ ∧
      .ret span (some e') = s' := by
  simpa [stmt, gives_bind, gives_map] using h

lemma brk (h : Gives (stmt scope (.brk span)) σ s' τ) :
    Rule.inLoop σ.scopes scope "break" span = .ok () ∧ σ = τ ∧ .brk span = s' := by
  simpa [stmt, gives_bind, gives_map, Except.exists_eq_ok, and_assoc] using h

lemma expr (h : Gives (stmt scope (.expr e)) σ s' τ) :
    ∃ e', Gives (Check.expr scope e) σ e' τ ∧ .expr e' = s' := by
  simpa [stmt, gives_bind, gives_map] using h

lemma elseIf (h : Gives (chain scope (.elseIf x c body rest)) σ ch' τ) :
    ∃ c' σ1, Gives (Check.expr scope c) σ c' σ1 ∧ Rule.boolean c' "Else if condition" = .ok () ∧
      ∃ inner σ2, Gives (openIn scope .block) σ1 inner σ2 ∧
      (∀ s ∈ body, Rule.blockStmt s = .ok ()) ∧ ∃ body' σ3, Gives (stmts inner body) σ2 body' σ3 ∧
      ∃ rest', Gives (chain scope rest) σ3 rest' τ ∧ .elseIf x c' body' rest' = ch' := by
  simpa [chain, gives_bind, gives_map, gives_blockRules, Except.exists_eq_ok] using h

lemma otherwise {block : Span} (h : Gives (chain scope (.otherwise block body)) σ ch' τ) :
    ∃ inner υ, Gives (openIn scope .block) σ inner υ ∧ (∀ s ∈ body, Rule.blockStmt s = .ok ()) ∧
      ∃ body', Gives (stmts inner body) υ body' τ ∧ .otherwise block body' = ch' := by
  simpa [chain, gives_bind, gives_map, gives_blockRules] using h

lemma stmts_cons (h : Gives (stmts scope (s :: ss)) σ ss' τ) :
    ∃ s' υ, Gives (stmt scope s) σ s' υ ∧ ∃ rest, Gives (stmts scope ss) υ rest τ ∧
      s' :: rest = ss' := by
  simpa [stmts, gives_bind, gives_map] using h

/-! ### Members of classes -/

lemma members_var {init : Option Expr}
    (h : Gives (members scope (.var head init :: ms)) σ ss' τ) :
    ∃ rest, Gives (members scope ms) σ rest τ ∧ .var head init :: rest = ss' := by
  simpa [members, gives_bind, gives_map] using h

lemma members_cons (h : Gives (members scope (s :: ms)) σ ss' τ) (hs : s.isVar = false) :
    ∃ s' υ, Gives (stmt scope s) σ s' υ ∧ ∃ rest, Gives (members scope ms) υ rest τ ∧
      s' :: rest = ss' := by
  simpa [Check.members_cons hs, gives_bind, gives_map] using h

lemma memberFields_var {init : Option Expr}
    (h : Gives (memberFields scope (.var head init :: ms)) σ ss' τ) :
    ∃ head' init' υ, Gives (Check.var scope head init) σ (head', init') υ ∧
      ∃ rest, Gives (memberFields scope ms) υ rest τ ∧ .var head' init' :: rest = ss' := by
  simpa [memberFields, gives_bind, gives_map] using h

lemma memberFields_cons (h : Gives (memberFields scope (s :: ms)) σ ss' τ) (hs : s.isVar = false) :
    ∃ s' υ, Gives (classFields s) σ s' υ ∧ ∃ rest, Gives (memberFields scope ms) υ rest τ ∧
      s' :: rest = ss' := by
  simpa [Check.memberFields_cons hs, gives_bind, gives_map] using h

lemma classFields_cls {head : ClassHead} (h : Gives (classFields (.cls head ms)) σ s' τ) :
    ∃ inner, head.scope = some inner ∧ ∃ ms' υ, Gives (memberFields inner ms) σ ms' υ ∧
      ∃ u, Gives (note (.fieldsDeclared head.name (ms'.countP Stmt.isVar))) υ u τ ∧
      .cls head ms' = s' := by
  simpa [classFields, gives_bind, gives_map] using h

end Statements

/-- The declarations of a program are announced, then its fields are looked at, then the rest. -/
lemma program {p q : Program} (h : Gives (Check.program p) σ q τ) :
    ∃ ss A, Gives (announce .root p.stmts) σ ss A ∧
      ∃ fs F, Gives (ss.mapM classFields) A fs F ∧ ∃ ws υ, Gives (stmts .root fs) F ws υ ∧
      ∃ u, Gives (note (.walkCompleted ws.length)) υ u τ ∧ { p with stmts := ws } = q := by
  simpa [Check.program, gives_bind, gives_map] using h

end Gives
end MiddleEnd
