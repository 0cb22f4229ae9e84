import Mathlib.Tactic.Lemma
import MiddleEnd.Tree.Basic

/-!
Induction over trees. Expressions, statements and chains of arms contain each other, also inside
of lists; one principle covers all three, with what holds of the parts given for each kind of node.
-/

namespace MiddleEnd

/-- An expression without parts. -/
def Expr.isLeaf : Expr → Bool
  | .number .. | .string .. | .boolean .. | .null _ | .name .. | .self _ => true
  | _ => false

/-- What has to be shown of each kind of node, from what holds of its parts. -/
structure Tree.Inductive (PE : Expr → Prop) (PS : Stmt → Prop) (PC : Chain → Prop) : Prop where
  leaf : ∀ e, e.isLeaf = true → PE e
  binary : ∀ m op l r, PE l → PE r → PE (.binary m op l r)
  unary : ∀ m op e, PE e → PE (.unary m op e)
  step : ∀ m op e, PE e → PE (.step m op e)
  ternary : ∀ m c y n, PE c → PE y → PE n → PE (.ternary m c y n)
  call : ∀ m f args target, PE f → (∀ e ∈ args, PE e) → PE (.call m f args target)
  member : ∀ m o n, PE o → PE (.member m o n)
  subscript : ∀ m o i, PE o → PE i → PE (.subscript m o i)
  array : ∀ m es, (∀ e ∈ es, PE e) → PE (.array m es)
  dictionary : ∀ m es, (∀ e ∈ es, PE e.1 ∧ PE e.2) → PE (.dictionary m es)
  blockLambda : ∀ m head block body, (∀ s ∈ body, PS s) → PE (.blockLambda m head block body)
  exprLambda : ∀ m head body, PE body → PE (.exprLambda m head body)
  var : ∀ head init, (∀ e ∈ init, PE e) → PS (.var head init)
  assign : ∀ span t v, PE t → PE v → PS (.assign span t v)
  func : ∀ head body, (∀ s ∈ body, PS s) → PS (.func head body)
  cls : ∀ head ms, (∀ s ∈ ms, PS s) → PS (.cls head ms)
  ctor : ∀ head body, (∀ s ∈ body, PS s) → PS (.ctor head body)
  ifElse : ∀ x c body rest, PE c → (∀ s ∈ body, PS s) → PC rest → PS (.ifElse x c body rest)
  whileLoop : ∀ x c body, PE c → (∀ s ∈ body, PS s) → PS (.whileLoop x c body)
  forLoop : ∀ x init c update body, (∀ i ∈ init, ∀ e ∈ i.2, PE e) → (∀ e ∈ c, PE e) →
    (∀ s ∈ update, PS s) → (∀ s ∈ body, PS s) → PS (.forLoop x init c update body)
  ret : ∀ span v, (∀ e ∈ v, PE e) → PS (.ret span v)
  brk : ∀ span, PS (.brk span)
  expr : ∀ e, PE e → PS (.expr e)
  done : PC .done
  elseIf : ∀ x c body rest, PE c → (∀ s ∈ body, PS s) → PC rest → PC (.elseIf x c body rest)
  otherwise : ∀ block body, (∀ s ∈ body, PS s) → PC (.otherwise block body)

namespace Tree.Inductive

variable {PE : Expr → Prop} {PS : Stmt → Prop} {PC : Chain → Prop}

mutual
theorem expr_holds (h : Tree.Inductive PE PS PC) : ∀ e, PE e
  | .number .. | .string .. | .boolean .. | .null _ | .name .. | .self _ => h.leaf _ rfl
  | .binary m op l r => h.binary m op l r (h.expr_holds l) (h.expr_holds r)
  | .unary m op e => h.unary m op e (h.expr_holds e)
  | .step m op e => h.step m op e (h.expr_holds e)
  | .ternary m c y n =>
    h.ternary m c y n (h.expr_holds c) (h.expr_holds y) (h.expr_holds n)
  | .call m f args target => h.call m f args target (h.expr_holds f) (h.exprs_hold args)
  | .member m o n => h.member m o n (h.expr_holds o)
  | .subscript m o i => h.subscript m o i (h.expr_holds o) (h.expr_holds i)
  | .array m es => h.array m es (h.exprs_hold es)
  | .dictionary m es => h.dictionary m es (h.entries_hold es)
  | .blockLambda m head block body => h.blockLambda m head block body (h.stmts_hold body)
  | .exprLambda m head body => h.exprLambda m head body (h.expr_holds body)
termination_by structural t => t

theorem exprs_hold (h : Tree.Inductive PE PS PC) : ∀ es : List Expr, ∀ e ∈ es, PE e
  | [], e, he => nomatch he
  | e :: es, e', he => by
    have h1 := h.expr_holds e
    have h2 := h.exprs_hold es
    rcases List.mem_cons.mp he with rfl | he
    · exact h1
    · exact h2 e' he
termination_by structural t => t

theorem entries_hold (h : Tree.Inductive PE PS PC) :
    ∀ es : List (Expr × Expr), ∀ e ∈ es, PE e.1 ∧ PE e.2
  | [], e, he => nomatch he
  | (k, v) :: es, e, he => by
    have h1 := h.expr_holds k
    have h2 := h.expr_holds v
    have h3 := h.entries_hold es
    rcases List.mem_cons.mp he with rfl | he
    · exact ⟨h1, h2⟩
    · exact h3 e he
termination_by structural t => t

theorem option_holds (h : Tree.Inductive PE PS PC) : ∀ o : Option Expr, ∀ e ∈ o, PE e
  | none, e, he => nomatch he
  | some e, e', he => by
    have h1 := h.expr_holds e
    cases he
    exact h1
termination_by structural t => t

theorem init_holds (h : Tree.Inductive PE PS PC) :
    ∀ o : Option (VarHead × Option Expr), ∀ i ∈ o, ∀ e ∈ i.2, PE e
  | none, i, hi => nomatch hi
  | some (head, e), i, hi => by
    have h1 := h.option_holds e
    cases hi
    exact h1
termination_by structural t => t

theorem update_holds (h : Tree.Inductive PE PS PC) : ∀ o : Option Stmt, ∀ s ∈ o, PS s
  | none, s, hs => nomatch hs
  | some s, s', hs => by
    have h1 := h.stmt_holds s
    cases hs
    exact h1
termination_by structural t => t

theorem stmt_holds (h : Tree.Inductive PE PS PC) : ∀ s, PS s
  | .var head init => h.var head init (h.option_holds init)
  | .assign span t v => h.assign span t v (h.expr_holds t) (h.expr_holds v)
  | .func head body => h.func head body (h.stmts_hold body)
  | .cls head ms => h.cls head ms (h.stmts_hold ms)
  | .ctor head body => h.ctor head body (h.stmts_hold body)
  | .ifElse x c body rest =>
    h.ifElse x c body rest (h.expr_holds c) (h.stmts_hold body) (h.chain_holds rest)
  | .whileLoop x c body => h.whileLoop x c body (h.expr_holds c) (h.stmts_hold body)
  | .forLoop x init c update body =>
    h.forLoop x init c update body (h.init_holds init) (h.option_holds c)
      (h.update_holds update) (h.stmts_hold body)
  | .ret span v => h.ret span v (h.option_holds v)
  | .brk span => h.brk span
  | .expr e => h.expr e (h.expr_holds e)
termination_by structural t => t

theorem stmts_hold (h : Tree.Inductive PE PS PC) : ∀ ss : List Stmt, ∀ s ∈ ss, PS s
  | [], s, hs => nomatch hs
  | s :: ss, s', hs => by
    have h1 := h.stmt_holds s
    have h2 := h.stmts_hold ss
    rcases List.mem_cons.mp hs with rfl | hs
    · exact h1
    · exact h2 s' hs
termination_by structural t => t

theorem chain_holds (h : Tree.Inductive PE PS PC) : ∀ ch, PC ch
  | .done => h.done
  | .elseIf x c body rest =>
    h.elseIf x c body rest (h.expr_holds c) (h.stmts_hold body) (h.chain_holds rest)
  | .otherwise block body => h.otherwise block body (h.stmts_hold body)
termination_by structural t => t
end

end Tree.Inductive

/-- What has to be shown of each kind of node where a member that is called is not looked at as an
expression of its own, as in a walk that asks only its object. -/
structure Tree.Walk (PE : Expr → Prop) (PS : Stmt → Prop) (PC : Chain → Prop) : Prop where
  leaf : ∀ {e}, e.isLeaf = true → PE e
  binary : ∀ {l r}, PE l → PE r → ∀ m op, PE (.binary m op l r)
  unary : ∀ {e}, PE e → ∀ m op, PE (.unary m op e)
  step : ∀ {e}, PE e → ∀ m op, PE (.step m op e)
  ternary : ∀ {c y n}, PE c → PE y → PE n → ∀ m, PE (.ternary m c y n)
  call_name : ∀ {args}, (∀ e ∈ args, PE e) → ∀ m f n target, PE (.call m (.name f n) args target)
  call_member : ∀ {o args}, PE o → (∀ e ∈ args, PE e) → ∀ m f n target,
    PE (.call m (.member f o n) args target)
  call_computed : ∀ {f args}, (∀ g n, f ≠ .name g n) → (∀ g o n, f ≠ .member g o n) → PE f →
    (∀ e ∈ args, PE e) → ∀ m target, PE (.call m f args target)
  member : ∀ {o}, PE o → ∀ m n, PE (.member m o n)
  subscript : ∀ {o i}, PE o → PE i → ∀ m, PE (.subscript m o i)
  array : ∀ {es}, (∀ e ∈ es, PE e) → ∀ m, PE (.array m es)
  dictionary : ∀ {es}, (∀ e ∈ es, PE e.1 ∧ PE e.2) → ∀ m, PE (.dictionary m es)
  blockLambda : ∀ {body}, (∀ s ∈ body, PS s) → ∀ m head block, PE (.blockLambda m head block body)
  exprLambda : ∀ {body}, PE body → ∀ m head, PE (.exprLambda m head body)
  var : ∀ {init}, (∀ e ∈ init, PE e) → ∀ head, PS (.var head init)
  assign : ∀ {t v}, PE t → PE v → ∀ span, PS (.assign span t v)
  func : ∀ {body}, (∀ s ∈ body, PS s) → ∀ head, PS (.func head body)
  cls : ∀ {ms}, (∀ s ∈ ms, PS s) → ∀ head, PS (.cls head ms)
  ctor : ∀ {body}, (∀ s ∈ body, PS s) → ∀ head, PS (.ctor head body)
  ifElse : ∀ {c body rest}, PE c → (∀ s ∈ body, PS s) → PC rest → ∀ x, PS (.ifElse x c body rest)
  whileLoop : ∀ {c body}, PE c → (∀ s ∈ body, PS s) → ∀ x, PS (.whileLoop x c body)
  forLoop : ∀ {init c update body}, (∀ i ∈ init, ∀ e ∈ i.2, PE e) → (∀ e ∈ c, PE e) →
    (∀ s ∈ update, PS s) → (∀ s ∈ body, PS s) → ∀ x, PS (.forLoop x init c update body)
  ret : ∀ {v}, (∀ e ∈ v, PE e) → ∀ span, PS (.ret span v)
  brk : ∀ span, PS (.brk span)
  expr : ∀ {e}, PE e → PS (.expr e)
  done : PC .done
  elseIf : ∀ {c body rest}, PE c → (∀ s ∈ body, PS s) → PC rest → ∀ x, PC (.elseIf x c body rest)
  otherwise : ∀ {body}, (∀ s ∈ body, PS s) → ∀ block, PC (.otherwise block body)

namespace Tree.Walk

variable {PE : Expr → Prop} {PS : Stmt → Prop} {PC : Chain → Prop}

lemma tree (h : Tree.Walk PE PS PC) :
    Tree.Inductive (fun e => PE e ∧ ∀ m o n, e = .member m o n → PE o) PS PC where
  leaf e he := ⟨h.leaf he, by rintro m o n rfl; cases he⟩
  binary m op l r hl hr := ⟨h.binary hl.1 hr.1 m op, by simp⟩
  unary m op e he := ⟨h.unary he.1 m op, by simp⟩
  step m op e he := ⟨h.step he.1 m op, by simp⟩
  ternary m c y n hc hy hn := ⟨h.ternary hc.1 hy.1 hn.1 m, by simp⟩
  call m f args target hf hargs := by
    have hargs' : ∀ e ∈ args, PE e := fun e he => (hargs e he).1
    refine ⟨?_, by simp⟩
    -- a call is split by its callee, and below a member the object is what is walked
    cases f with
    | name g n => exact h.call_name hargs' m g n target
    | member g o n => exact h.call_member (hf.2 g o n rfl) hargs' m g n target
    | _ => exact h.call_computed (by simp) (by simp) hf.1 hargs' m target
  member m o n ho := ⟨h.member ho.1 m n, by rintro _ _ _ ⟨⟩; exact ho.1⟩
  subscript m o i ho hi := ⟨h.subscript ho.1 hi.1 m, by simp⟩
  array m es hes := ⟨h.array (fun e he => (hes e he).1) m, by simp⟩
  dictionary m es hes :=
    ⟨h.dictionary (fun e he => ⟨(hes e he).1.1, (hes e he).2.1⟩) m, by simp⟩
  blockLambda m head block body hbody := ⟨h.blockLambda hbody m head block, by simp⟩
  exprLambda m head body hbody := ⟨h.exprLambda hbody.1 m head, by simp⟩
  var head init hinit := h.var (fun e he => (hinit e he).1) head
  assign span t v ht hv := h.assign ht.1 hv.1 span
  func head body hbody := h.func hbody head
  cls head ms hms := h.cls hms head
  ctor head body hbody := h.ctor hbody head
  ifElse x c body rest hc hbody hrest := h.ifElse hc.1 hbody hrest x
  whileLoop x c body hc hbody := h.whileLoop hc.1 hbody x
  forLoop x init c update body hinit hc hupdate hbody :=
    h.forLoop (fun i hi e he => (hinit i hi e he).1) (fun e he => (hc e he).1) hupdate hbody x
  ret span v hv := h.ret (fun e he => (hv e he).1) span
  brk := h.brk
  expr e he := h.expr he.1
  done := h.done
  elseIf x c body rest hc hbody hrest := h.elseIf hc.1 hbody hrest x
  otherwise block body hbody := h.otherwise hbody block

theorem expr_holds (h : Tree.Walk PE PS PC) (e : Expr) : PE e := (h.tree.expr_holds e).1

theorem stmt_holds (h : Tree.Walk PE PS PC) (s : Stmt) : PS s := h.tree.stmt_holds s

theorem chain_holds (h : Tree.Walk PE PS PC) (ch : Chain) : PC ch := h.tree.chain_holds ch

end Tree.Walk

/-- What has to be shown of each kind of expression where the blocks of lambdas do not matter. -/
structure Expr.Inductive (P : Expr → Prop) : Prop where
  leaf : ∀ e, e.isLeaf = true → P e
  binary : ∀ m op l r, P l → P r → P (.binary m op l r)
  unary : ∀ m op e, P e → P (.unary m op e)
  step : ∀ m op e, P e → P (.step m op e)
  ternary : ∀ m c y n, P c → P y → P n → P (.ternary m c y n)
  call : ∀ m f args target, P f → (∀ e ∈ args, P e) → P (.call m f args target)
  member : ∀ m o n, P o → P (.member m o n)
  subscript : ∀ m o i, P o → P i → P (.subscript m o i)
  array : ∀ m es, (∀ e ∈ es, P e) → P (.array m es)
  dictionary : ∀ m es, (∀ e ∈ es, P e.1 ∧ P e.2) → P (.dictionary m es)
  blockLambda : ∀ m head block body, P (.blockLambda m head block body)
  exprLambda : ∀ m head body, P body → P (.exprLambda m head body)

theorem Expr.Inductive.holds {P : Expr → Prop} (h : Expr.Inductive P) (e : Expr) : P e := by
  have tree : Tree.Inductive P (fun _ => True) (fun _ => True) := by
    obtain ⟨leaf, binary, unary, step, ternary, call, member, subscript, array, dictionary,
      blockLambda, exprLambda⟩ := h
    constructor
    case blockLambda => exact fun m head block body _ => blockLambda m head block body
    all_goals first | assumption | (intros; trivial)
  exact tree.expr_holds e

/-- Induction along the arms of a conditional. -/
@[induction_eliminator]
theorem Chain.arms_induction {P : Chain → Prop} (done : P .done)
    (elseIf : ∀ extent cond body rest, P rest → P (.elseIf extent cond body rest))
    (otherwise : ∀ block body, P (.otherwise block body)) : ∀ ch, P ch
  | .done => done
  | .elseIf x c body rest => elseIf x c body rest (Chain.arms_induction done elseIf otherwise rest)
  | .otherwise block body => otherwise block body
termination_by structural t => t

/-- Induction along the updates of loops, for what does not look into the blocks of statements. -/
@[induction_eliminator]
theorem Stmt.update_induction {P : Stmt → Prop} (var : ∀ head init, P (.var head init))
    (assign : ∀ span target value, P (.assign span target value))
    (func : ∀ head body, P (.func head body)) (cls : ∀ head members, P (.cls head members))
    (ctor : ∀ head body, P (.ctor head body))
    (ifElse : ∀ extent cond body rest, P (.ifElse extent cond body rest))
    (whileLoop : ∀ extent cond body, P (.whileLoop extent cond body))
    (forLoop : ∀ extent init cond update body, (∀ s ∈ update, P s) →
      P (.forLoop extent init cond update body))
    (ret : ∀ span value, P (.ret span value)) (brk : ∀ span, P (.brk span))
    (expr : ∀ e, P (.expr e)) (s : Stmt) : P s := by
  have tree : Tree.Inductive (fun _ => True) P (fun _ => True) := by
    constructor
    case forLoop => exact fun x init c update body _ _ ih _ => forLoop x init c update body ih
    case var => exact fun head init _ => var head init
    case assign => exact fun span t v _ _ => assign span t v
    case func => exact fun head body _ => func head body
    case cls => exact fun head ms _ => cls head ms
    case ctor => exact fun head body _ => ctor head body
    case ifElse => exact fun x c body rest _ _ _ => ifElse x c body rest
    case whileLoop => exact fun x c body _ _ => whileLoop x c body
    case ret => exact fun span v _ => ret span v
    case brk => exact brk
    case expr => exact fun e _ => expr e
    all_goals (intros; trivial)
  exact tree.stmt_holds s

/-- Induction along the members of classes, for what does not look into other statements. -/
theorem Stmt.members_induction {P : Stmt → Prop} (other : ∀ s, s.isClass = false → P s)
    (cls : ∀ head ms, (∀ s ∈ ms, P s) → P (.cls head ms)) (s : Stmt) : P s := by
  have tree : Tree.Inductive (fun _ => True) P (fun _ => True) := by
    constructor
    case cls => exact cls
    all_goals (intros; first | trivial | exact other _ rfl)
  exact tree.stmt_holds s

end MiddleEnd
