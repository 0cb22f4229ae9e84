import MiddleEnd.Proofs.Tree.Collect
import MiddleEnd.Proofs.Tree.Erase

/-!
The places of a program that a report can point to: those of its statements, expressions and
parameters, and of the type names that are written in it.
-/

namespace MiddleEnd

/-- The places of the names in a written type. -/
def TypeExpr.spans : TypeExpr → List Span
  | .named _ span => [span]
  | .array e => e.spans
  | .dictionary k v => k.spans ++ v.spans

def TypeExpr.spansOption : Option TypeExpr → List Span
  | none => []
  | some t => t.spans

def Param.spans (p : Param) : List Span := p.span :: TypeExpr.spansOption p.annotation

def Param.spansList (ps : List Param) : List Span := ps.flatMap Param.spans

/-- A variable declaration and the type that is written for it. -/
def VarHead.spans (head : VarHead) : List Span :=
  head.span :: TypeExpr.spansOption head.annotation

/-- A function declaration, its parameters and the type that is written for its result. -/
def FuncHead.spans (head : FuncHead) : List Span :=
  head.extent.span :: (Param.spansList head.params ++ TypeExpr.spansOption head.result)

def CtorHead.spans (head : CtorHead) : List Span :=
  head.extent.span :: Param.spansList head.params

/-- The places of a node without its parts. The variable of a loop is no statement of its own. -/
def Node.ownSpans : Node → List Span
  | .expr (.blockLambda m head _ _) => m.span :: Param.spansList head.params
  | .expr (.exprLambda m head _) => m.span :: Param.spansList head.params
  | .expr e => [e.span]
  | .stmt (.var head _) => head.spans
  | .stmt (.func head _) => head.spans
  | .stmt (.ctor head _) => head.spans
  | .stmt (.forLoop x init _ _ _) =>
    x.span :: TypeExpr.spansOption (init.bind fun i => VarHead.annotation i.1)
  | .stmt (.expr _) => []
  | .stmt s => [s.span]
  | .chain _ => []

namespace Collector

def spans : Collector Unit Span := { own := fun _ => Node.ownSpans, updates := () }

@[simp] lemma spans_inBlock (d : Unit) (ss : List Stmt) (inner : List Span) :
    spans.inBlock d ss inner = inner := rfl

@[simp] lemma spans_removal (a : Unit) : spans.removal a = .nothing := rfl

end Collector

abbrev Expr.spans (e : Expr) : List Span := e.collect .spans ()

abbrev Expr.spansList (es : List Expr) : List Span := Expr.collectList .spans () es

abbrev Stmt.spans (s : Stmt) : List Span := s.collect .spans () () ()

abbrev Stmt.spansList (ss : List Stmt) : List Span := Stmt.collectList .spans () () ss

abbrev Chain.spans (ch : Chain) : List Span := ch.collect .spans () () ()

def Program.spans (p : Program) : List Span := Stmt.spansList p.stmts

lemma Expr.span_mem_spans (e : Expr) : e.span ∈ e.spans := by
  cases e <;> first | exact List.mem_singleton_self _ | exact List.mem_cons_self

lemma Stmt.span_mem_spans (s : Stmt) : s.span ∈ s.spans := by
  cases s with
  | brk span => exact List.mem_singleton_self _
  | expr e => exact e.span_mem_spans
  | _ => exact List.mem_cons_self

lemma Expr.spans_subset_spansList {e : Expr} {es : List Expr} (h : e ∈ es) :
    e.spans ⊆ Expr.spansList es := fun _ hspan => Expr.mem_collectList.mpr ⟨e, h, hspan⟩

lemma Stmt.spansList_cons (s : Stmt) (ss : List Stmt) :
    spansList (s :: ss) = s.spans ++ spansList ss := rfl

lemma Stmt.spans_subset_spansList {s : Stmt} {ss : List Stmt} (h : s ∈ ss) :
    s.spans ⊆ Stmt.spansList ss := by
  rw [spansList, collectList_eq_flatMap rfl]
  exact fun _ hspan => List.mem_flatMap.mpr ⟨s, h, hspan⟩

/-! ### Annotations -/

section Erase

lemma Param.spansList_erase (ps : List Param) :
    spansList (ps.map Param.erase) = spansList ps := by
  rw [spansList, List.flatMap_map]
  rfl

lemma Expr.spansList_erase {es : List Expr} (h : ∀ e ∈ es, e.erase.spans = e.spans) :
    spansList (eraseList es) = spansList es := by
  induction es with
  | nil => rfl
  | cons e es ih =>
    rw [List.forall_mem_cons] at h
    simp only [eraseList, collectList, h.1, ih h.2]

lemma Expr.spansEntries_erase {es : List (Expr × Expr)}
    (h : ∀ e ∈ es, e.1.erase.spans = e.1.spans ∧ e.2.erase.spans = e.2.spans) :
    collectEntries .spans () (eraseEntries es) = collectEntries .spans () es := by
  induction es with
  | nil => rfl
  | cons e es ih =>
    rw [List.forall_mem_cons] at h
    simp only [eraseEntries, collectEntries, h.1.1, h.1.2, ih h.2]

lemma Expr.spansOption_erase {e : Option Expr} (h : ∀ x ∈ e, x.erase.spans = x.spans) :
    collectOption .spans () (eraseOption e) = collectOption .spans () e := by
  cases e with
  | none => rfl
  | some e => exact h e rfl

lemma Stmt.spansList_erase {ss : List Stmt} (h : ∀ s ∈ ss, s.erase.spans = s.spans) :
    spansList (eraseList ss) = spansList ss := by
  induction ss with
  | nil => rfl
  | cons s ss ih =>
    rw [List.forall_mem_cons] at h
    exact congrArg₂ List.append h.1 (ih h.2)

open Collector in
/-- Annotations have no places. -/
lemma Tree.spans_erase : Tree.Inductive (fun e => e.erase.spans = e.spans)
    (fun s => s.erase.spans = s.spans) (fun ch => ch.erase.spans = ch.spans) where
  leaf e he := by cases e <;> first | rfl | cases he
  binary m op l r hl hr := add_congr rfl (congrArg₂ _ hl hr)
  unary m op e he := add_congr rfl he
  step m op e he := add_congr rfl he
  ternary m c y n hc hy hn := add_congr rfl (congrArg₂ _ (congrArg₂ _ hc hy) hn)
  call m f args target hf hargs := add_congr rfl (congrArg₂ _ hf (Expr.spansList_erase hargs))
  member m o n ho := add_congr rfl ho
  subscript m o i ho hi := add_congr rfl (congrArg₂ _ ho hi)
  array m es hes := add_congr rfl (Expr.spansList_erase hes)
  dictionary m es hes := add_congr rfl (Expr.spansEntries_erase hes)
  blockLambda m head block body hbody :=
    add_congr (congrArg (m.span :: ·) (Param.spansList_erase _)) (Stmt.spansList_erase hbody)
  exprLambda m head body hbody :=
    add_congr (congrArg (m.span :: ·) (Param.spansList_erase _)) hbody
  var head init hinit := add_congr rfl (Expr.spansOption_erase hinit)
  assign span t v ht hv := add_congr rfl (congrArg₂ _ ht hv)
  func head body hbody :=
    add_congr (congrArg (fun ps => head.extent.span :: (ps ++ TypeExpr.spansOption head.result))
      (Param.spansList_erase _)) (Stmt.spansList_erase hbody)
  cls head ms hms := add_congr rfl (Stmt.spansList_erase hms)
  ctor head body hbody :=
    add_congr (congrArg (head.extent.span :: ·) (Param.spansList_erase _))
      (Stmt.spansList_erase hbody)
  ifElse x c body rest hc hbody hrest :=
    add_congr rfl (congrArg₂ _ (congrArg₂ _ hc (Stmt.spansList_erase hbody)) hrest)
  whileLoop x c body hc hbody := add_congr rfl (congrArg₂ _ hc (Stmt.spansList_erase hbody))
  forLoop x init c update body hinit hc hupdate hbody := by
    have hwritten : (Expr.eraseInit init).bind (fun i => VarHead.annotation i.1) =
        init.bind fun i => VarHead.annotation i.1 := by cases init <;> rfl
    have hi : Expr.collectInit .spans () (Expr.eraseInit init) =
        Expr.collectInit .spans () init := by
      cases init with
      | none => rfl
      | some i => exact Expr.spansOption_erase (hinit i rfl)
    have hu : Stmt.collectUpdate .spans () (Stmt.eraseUpdate update) =
        Stmt.collectUpdate .spans () update := by
      cases update with
      | none => rfl
      | some s => exact hupdate s rfl
    exact add_congr (congrArg (fun t => x.span :: TypeExpr.spansOption t) hwritten)
      (congrArg₂ _ (congrArg₂ _ (congrArg₂ _ hi (Expr.spansOption_erase hc)) hu)
        (Stmt.spansList_erase hbody))
  ret span v hv := add_congr rfl (Expr.spansOption_erase hv)
  brk span := rfl
  expr e he := add_congr rfl he
  done := rfl
  elseIf x c body rest hc hbody hrest :=
    add_congr rfl (congrArg₂ _ (congrArg₂ _ hc (Stmt.spansList_erase hbody)) hrest)
  otherwise block body hbody := add_congr rfl (Stmt.spansList_erase hbody)

lemma Stmt.spans_erase (s : Stmt) : s.erase.spans = s.spans := Tree.spans_erase.stmt_holds s

lemma Expr.spans_erase (e : Expr) : e.erase.spans = e.spans := Tree.spans_erase.expr_holds e

lemma Stmt.spansList_congr {ss ss' : List Stmt} (h : eraseList ss' = eraseList ss) :
    spansList ss' = spansList ss := by
  rw [← spansList_erase fun s _ => s.spans_erase, h, spansList_erase fun s _ => s.spans_erase]

lemma Expr.spansList_congr {es es' : List Expr} (h : eraseList es' = eraseList es) :
    spansList es' = spansList es := by
  rw [← spansList_erase fun e _ => e.spans_erase, h, spansList_erase fun e _ => e.spans_erase]

lemma Expr.spans_congr {e e' : Expr} (h : e'.erase = e.erase) : e'.spans = e.spans := by
  rw [← spans_erase, h, spans_erase]

end Erase

end MiddleEnd
