import Mathlib.Data.List.Forall2
import Mathlib.Data.Option.Basic
import MiddleEnd.Passes.Optimizer
import MiddleEnd.Proofs.Tree.Induction

/-!
Trees from which parts have been removed: arms and loops that are never entered, and statements that
are never reached. What stays is as it was, and stays in its order. So the relation holds across any
number of passes that only remove.
-/

namespace MiddleEnd

/-- Conditionals and loops, which are removed when their conditions rule them out. -/
def Stmt.isBranch : Stmt → Bool
  | .ifElse .. | .whileLoop .. => true
  | _ => false

mutual
/-- The second expression is the first one, with parts removed from the blocks in it. Nothing is
removed unless the relation is lossy. -/
inductive Expr.Trims (lossy : Prop) : Expr → Expr → Prop where
  | number {m : Mark} {v : Float} : Expr.Trims lossy (.number m v) (.number m v)
  | string {m : Mark} {v : String} : Expr.Trims lossy (.string m v) (.string m v)
  | boolean {m : Mark} {v : Bool} : Expr.Trims lossy (.boolean m v) (.boolean m v)
  | null {m : Mark} : Expr.Trims lossy (.null m) (.null m)
  | name {m : Mark} {n : String} : Expr.Trims lossy (.name m n) (.name m n)
  | self {m : Mark} : Expr.Trims lossy (.self m) (.self m)
  | binary {m : Mark} {op : BinaryOp} {l l' r r' : Expr} (hl : Expr.Trims lossy l l')
      (hr : Expr.Trims lossy r r') : Expr.Trims lossy (.binary m op l r) (.binary m op l' r')
  | unary {m : Mark} {op : UnaryOp} {e e' : Expr} (he : Expr.Trims lossy e e') :
      Expr.Trims lossy (.unary m op e) (.unary m op e')
  | step {m : Mark} {op : StepOp} {e e' : Expr} (he : Expr.Trims lossy e e') :
      Expr.Trims lossy (.step m op e) (.step m op e')
  | ternary {m : Mark} {c c' y y' n n' : Expr} (hc : Expr.Trims lossy c c')
      (hy : Expr.Trims lossy y y') (hn : Expr.Trims lossy n n') :
      Expr.Trims lossy (.ternary m c y n) (.ternary m c' y' n')
  | call {m : Mark} {f f' : Expr} {args args' : List Expr} {target : Option CallTarget}
      (hf : Expr.Trims lossy f f') (hargs : List.Forall₂ (Expr.Trims lossy) args args') :
      Expr.Trims lossy (.call m f args target) (.call m f' args' target)
  | member {m : Mark} {o o' : Expr} {n : String} (ho : Expr.Trims lossy o o') :
      Expr.Trims lossy (.member m o n) (.member m o' n)
  | subscript {m : Mark} {o o' i i' : Expr} (ho : Expr.Trims lossy o o')
      (hi : Expr.Trims lossy i i') : Expr.Trims lossy (.subscript m o i) (.subscript m o' i')
  | array {m : Mark} {es es' : List Expr} (hes : List.Forall₂ (Expr.Trims lossy) es es') :
      Expr.Trims lossy (.array m es) (.array m es')
  | dictionary {m : Mark} {es es' : List (Expr × Expr)}
      (hk : List.Forall₂ (Expr.Trims lossy) (es.map Prod.fst) (es'.map Prod.fst))
      (hv : List.Forall₂ (Expr.Trims lossy) (es.map Prod.snd) (es'.map Prod.snd)) :
      Expr.Trims lossy (.dictionary m es) (.dictionary m es')
  | blockLambda {m : Mark} {head : LambdaHead} {block : Span} {body body' : List Stmt}
      (hbody : Stmt.TrimsList lossy body body') :
      Expr.Trims lossy (.blockLambda m head block body) (.blockLambda m head block body')
  | exprLambda {m : Mark} {head : LambdaHead} {e e' : Expr} (he : Expr.Trims lossy e e') :
      Expr.Trims lossy (.exprLambda m head e) (.exprLambda m head e')

/-- The second statement is the first one, with parts removed. Of a conditional a later arm may be
left, which then has become the first one. -/
inductive Stmt.Trims (lossy : Prop) : Stmt → Stmt → Prop where
  | var {head : VarHead} {init init' : Option Expr}
      (hinit : Option.Rel (Expr.Trims lossy) init init') :
      Stmt.Trims lossy (.var head init) (.var head init')
  | assign {span : Span} {t t' v v' : Expr} (ht : Expr.Trims lossy t t')
      (hv : Expr.Trims lossy v v') : Stmt.Trims lossy (.assign span t v) (.assign span t' v')
  | func {head : FuncHead} {body body' : List Stmt} (hbody : Stmt.TrimsList lossy body body') :
      Stmt.Trims lossy (.func head body) (.func head body')
  | cls {head : ClassHead} {ms ms' : List Stmt} (hms : Stmt.TrimsList lossy ms ms') :
      Stmt.Trims lossy (.cls head ms) (.cls head ms')
  | ctor {head : CtorHead} {body body' : List Stmt} (hbody : Stmt.TrimsList lossy body body') :
      Stmt.Trims lossy (.ctor head body) (.ctor head body')
  | ifElse {x : Extent} {c c' : Expr} {body body' : List Stmt} {rest rest' : Chain}
      (hc : Expr.Trims lossy c c') (hbody : Stmt.TrimsList lossy body body')
      (hrest : Chain.Trims lossy rest rest') :
      Stmt.Trims lossy (.ifElse x c body rest) (.ifElse x c' body' rest')
  | nextArm {x x' y : Extent} {c d : Expr} {body next : List Stmt} {rest after : Chain}
      (hlossy : lossy) (h : Chain.Trims lossy rest (.elseIf y d next after)) :
      Stmt.Trims lossy (.ifElse x c body rest) (.ifElse x' d next after)
  | lastArm {x x' : Extent} {c : Expr} {m : Mark} {body last : List Stmt} {rest : Chain}
      {block : Span} (hlossy : lossy) (h : Chain.Trims lossy rest (.otherwise block last)) :
      Stmt.Trims lossy (.ifElse x c body rest) (.ifElse x' (.boolean m true) last .done)
  | whileLoop {x : Extent} {c c' : Expr} {body body' : List Stmt} (hc : Expr.Trims lossy c c')
      (hbody : Stmt.TrimsList lossy body body') :
      Stmt.Trims lossy (.whileLoop x c body) (.whileLoop x c' body')
  | forLoop {x : Extent} {init init' : Option (VarHead × Option Expr)} {c c' : Option Expr}
      {update update' : Option Stmt} {body body' : List Stmt}
      (hhead : init'.map Prod.fst = init.map Prod.fst)
      (hinit : Option.Rel (Option.Rel (Expr.Trims lossy)) (init.map Prod.snd) (init'.map Prod.snd))
      (hc : Option.Rel (Expr.Trims lossy) c c')
      (hupdate : Option.Rel (Stmt.Trims lossy) update update')
      (hbody : Stmt.TrimsList lossy body body') :
      Stmt.Trims lossy (.forLoop x init c update body) (.forLoop x init' c' update' body')
  | ret {span : Span} {v v' : Option Expr} (hv : Option.Rel (Expr.Trims lossy) v v') :
      Stmt.Trims lossy (.ret span v) (.ret span v')
  | brk {span : Span} : Stmt.Trims lossy (.brk span) (.brk span)
  | expr {e e' : Expr} (he : Expr.Trims lossy e e') : Stmt.Trims lossy (.expr e) (.expr e')

/-- Of a block, branches may be removed, and all that follows a terminator. -/
inductive Stmt.TrimsList (lossy : Prop) : List Stmt → List Stmt → Prop where
  | nil : Stmt.TrimsList lossy [] []
  | keep {s s' : Stmt} {ss ss' : List Stmt} (hs : Stmt.Trims lossy s s')
      (hss : Stmt.TrimsList lossy ss ss') : Stmt.TrimsList lossy (s :: ss) (s' :: ss')
  | drop {s : Stmt} {ss ss' : List Stmt} (hlossy : lossy) (hs : s.isBranch = true)
      (hss : Stmt.TrimsList lossy ss ss') : Stmt.TrimsList lossy (s :: ss) ss'
  | cut {s s' : Stmt} {ss : List Stmt} (hlossy : lossy) (hterm : s.isTerminator = true)
      (hs : Stmt.Trims lossy s s') : Stmt.TrimsList lossy (s :: ss) [s']

/-- Of the further arms of a conditional, any may be removed. -/
inductive Chain.Trims (lossy : Prop) : Chain → Chain → Prop where
  | done : Chain.Trims lossy .done .done
  | elseIf {x : Extent} {c c' : Expr} {body body' : List Stmt} {rest rest' : Chain}
      (hc : Expr.Trims lossy c c') (hbody : Stmt.TrimsList lossy body body')
      (hrest : Chain.Trims lossy rest rest') :
      Chain.Trims lossy (.elseIf x c body rest) (.elseIf x c' body' rest')
  | otherwise {block : Span} {body body' : List Stmt} (hbody : Stmt.TrimsList lossy body body') :
      Chain.Trims lossy (.otherwise block body) (.otherwise block body')
  | skip {x : Extent} {c : Expr} {body : List Stmt} {rest ch : Chain} (hlossy : lossy)
      (h : Chain.Trims lossy rest ch) : Chain.Trims lossy (.elseIf x c body rest) ch
  | stop {ch : Chain} (hlossy : lossy) : Chain.Trims lossy ch .done
end

variable {lossy : Prop}

/-! ### What stays the same -/

namespace Stmt.Trims

variable {s s' : Stmt}

lemma isClass_eq (h : s.Trims lossy s') : s'.isClass = s.isClass := by
  cases h <;> rfl

lemma isVar_eq (h : s.Trims lossy s') : s'.isVar = s.isVar := by
  cases h <;> rfl

lemma isTerminator_eq (h : s.Trims lossy s') : s'.isTerminator = s.isTerminator := by
  cases h <;> rfl

lemma isBranch_eq (h : s.Trims lossy s') : s'.isBranch = s.isBranch := by
  cases h <;> rfl

lemma classHead?_eq (h : s.Trims lossy s') : s'.classHead? = s.classHead? := by
  cases h <;> rfl

lemma isUncalled_eq (h : s.Trims lossy s') (called : List String) :
    s'.isUncalled called = s.isUncalled called := by
  cases h <;> rfl

end Stmt.Trims

lemma Expr.Trims.isTarget_eq {e e' : Expr} (h : e.Trims lossy e') : e'.isTarget = e.isTarget := by
  cases h <;> rfl

lemma Stmt.not_isTerminator_of_isBranch {s : Stmt} (h : s.isBranch = true) :
    s.isTerminator = false := by
  cases s with
  | ifElse | whileLoop => rfl
  | _ => cases h

/-- Every statement that is left is what remains of one. -/
lemma Stmt.TrimsList.exists_of_mem {ss ss' : List Stmt} (h : TrimsList lossy ss ss') {s' : Stmt}
    (hs' : s' ∈ ss') : ∃ s ∈ ss, s.Trims lossy s' := by
  induction ss generalizing ss' with
  | nil =>
    cases h
    cases hs'
  | cons s ss ih =>
    cases h with
    | keep hs hss =>
      rcases List.mem_cons.mp hs' with rfl | hs'
      · exact ⟨s, List.mem_cons_self, hs⟩
      · obtain ⟨t, ht, htrims⟩ := ih hss hs'
        exact ⟨t, List.mem_cons_of_mem _ ht, htrims⟩
    | drop _ _ hss =>
      obtain ⟨t, ht, htrims⟩ := ih hss hs'
      exact ⟨t, List.mem_cons_of_mem _ ht, htrims⟩
    | cut _ _ hs =>
      obtain rfl := List.mem_singleton.mp hs'
      exact ⟨s, List.mem_cons_self, hs⟩

/-! ### Nothing removed -/

lemma Option.rel_self {α : Type} {r : α → α → Prop} {o : Option α} (h : ∀ a ∈ o, r a a) :
    Option.Rel r o o := by
  cases o with
  | none => exact .none
  | some a => exact .some (h a rfl)

lemma Stmt.trimsList_of_forall {ss : List Stmt} (h : ∀ s ∈ ss, s.Trims lossy s) :
    TrimsList lossy ss ss := by
  induction ss with
  | nil => exact .nil
  | cons s ss ih =>
    rw [List.forall_mem_cons] at h
    exact .keep h.1 (ih h.2)

lemma Tree.trims_refl : Tree.Inductive (fun e => e.Trims lossy e) (fun s => s.Trims lossy s)
    (fun ch => ch.Trims lossy ch) where
  leaf e he := by
    cases e with
    | number => exact .number
    | string => exact .string
    | boolean => exact .boolean
    | null => exact .null
    | name => exact .name
    | self => exact .self
    | _ => cases he
  binary _ _ _ _ hl hr := .binary hl hr
  unary _ _ _ he := .unary he
  step _ _ _ he := .step he
  ternary _ _ _ _ hc hy hn := .ternary hc hy hn
  call _ _ _ _ hf hargs := .call hf (List.forall₂_same.mpr hargs)
  member _ _ _ ho := .member ho
  subscript _ _ _ ho hi := .subscript ho hi
  array _ _ hes := .array (List.forall₂_same.mpr hes)
  dictionary _ es hes := by
    refine .dictionary (List.forall₂_same.mpr fun e he => ?_) (List.forall₂_same.mpr fun e he => ?_)
    · obtain ⟨kv, hkv, rfl⟩ := List.mem_map.mp he
      exact (hes kv hkv).1
    · obtain ⟨kv, hkv, rfl⟩ := List.mem_map.mp he
      exact (hes kv hkv).2
  blockLambda _ _ _ _ hbody := .blockLambda (Stmt.trimsList_of_forall hbody)
  exprLambda _ _ _ he := .exprLambda he
  var _ _ hinit := .var (Option.rel_self hinit)
  assign _ _ _ ht hv := .assign ht hv
  func _ _ hbody := .func (Stmt.trimsList_of_forall hbody)
  cls _ _ hms := .cls (Stmt.trimsList_of_forall hms)
  ctor _ _ hbody := .ctor (Stmt.trimsList_of_forall hbody)
  ifElse _ _ _ _ hc hbody hrest := .ifElse hc (Stmt.trimsList_of_forall hbody) hrest
  whileLoop _ _ _ hc hbody := .whileLoop hc (Stmt.trimsList_of_forall hbody)
  forLoop _ init _ _ _ hinit hc hupdate hbody := by
    refine .forLoop rfl (Option.rel_self fun e he => ?_) (Option.rel_self hc)
      (Option.rel_self hupdate) (Stmt.trimsList_of_forall hbody)
    obtain ⟨i, hi, rfl⟩ := Option.map_eq_some_iff.mp he
    exact Option.rel_self (hinit i hi)
  ret _ _ hv := .ret (Option.rel_self hv)
  brk _ := .brk
  expr _ he := .expr he
  done := .done
  elseIf _ _ _ _ hc hbody hrest := .elseIf hc (Stmt.trimsList_of_forall hbody) hrest
  otherwise _ _ hbody := .otherwise (Stmt.trimsList_of_forall hbody)

lemma Expr.trims_refl (e : Expr) : e.Trims lossy e := Tree.trims_refl.expr_holds e

lemma Stmt.trims_refl (s : Stmt) : s.Trims lossy s := Tree.trims_refl.stmt_holds s

lemma Stmt.trimsList_refl (ss : List Stmt) : TrimsList lossy ss ss :=
  trimsList_of_forall fun s _ => s.trims_refl

lemma Chain.trims_refl (ch : Chain) : ch.Trims lossy ch := Tree.trims_refl.chain_holds ch

/-! ### Removing more -/

section Trans

variable {α : Type} {r : α → α → Prop}

lemma forall₂_trans {l l' l'' : List α} (hr : ∀ a ∈ l, ∀ {b c}, r a b → r b c → r a c)
    (h : List.Forall₂ r l l') (h' : List.Forall₂ r l' l'') : List.Forall₂ r l l'' := by
  induction h generalizing l'' with
  | nil => exact h'
  | cons hab _ ih =>
    rw [List.forall_mem_cons] at hr
    cases h' with
    | cons hbc hrest => exact .cons (hr.1 hab hbc) (ih hr.2 hrest)

lemma Option.rel_trans {o o' o'' : Option α} (hr : ∀ a ∈ o, ∀ {b c}, r a b → r b c → r a c)
    (h : Option.Rel r o o') (h' : Option.Rel r o' o'') : Option.Rel r o o'' := by
  cases h with
  | none => exact h'
  | some hab =>
    cases h' with
    | some hbc => exact .some (hr _ rfl hab hbc)

end Trans

def Expr.TrimsOn (lossy : Prop) (e : Expr) : Prop :=
  ∀ {e' e''}, e.Trims lossy e' → e'.Trims lossy e'' → e.Trims lossy e''

def Stmt.TrimsOn (lossy : Prop) (s : Stmt) : Prop :=
  ∀ {s' s''}, s.Trims lossy s' → s'.Trims lossy s'' → s.Trims lossy s''

def Chain.TrimsOn (lossy : Prop) (ch : Chain) : Prop :=
  ∀ {ch' ch''}, ch.Trims lossy ch' → ch'.Trims lossy ch'' → ch.Trims lossy ch''

lemma Stmt.trimsList_trans {ss ss' ss'' : List Stmt} (hss : ∀ s ∈ ss, s.TrimsOn lossy)
    (h : TrimsList lossy ss ss') (h' : TrimsList lossy ss' ss'') : TrimsList lossy ss ss'' := by
  induction ss generalizing ss' ss'' with
  | nil =>
    cases h
    exact h'
  | cons s ss ih =>
    rw [List.forall_mem_cons] at hss
    cases h with
    | keep hs hrest =>
      cases h' with
      | keep hs' hrest' => exact .keep (hss.1 hs hs') (ih hss.2 hrest hrest')
      | drop hlossy hbranch hrest' =>
        exact .drop hlossy (hs.isBranch_eq ▸ hbranch) (ih hss.2 hrest hrest')
      | cut hlossy hterm hs' => exact .cut hlossy (hs.isTerminator_eq ▸ hterm) (hss.1 hs hs')
    | drop hlossy hbranch hrest => exact .drop hlossy hbranch (ih hss.2 hrest h')
    | cut hlossy hterm hs =>
      cases h' with
      | keep hs' hnil =>
        cases hnil
        exact .cut hlossy hterm (hss.1 hs hs')
      | drop _ hbranch _ =>
        -- a terminator is no branch
        have hnot := not_isTerminator_of_isBranch hbranch
        rw [hs.isTerminator_eq, hterm] at hnot
        cases hnot
      | cut _ _ hs' => exact .cut hlossy hterm (hss.1 hs hs')

lemma Chain.trimsOn_elseIf {x : Extent} {c : Expr} {body : List Stmt} {rest : Chain}
    (hc : c.TrimsOn lossy) (hbody : ∀ s ∈ body, s.TrimsOn lossy) (hrest : rest.TrimsOn lossy) :
    (elseIf x c body rest).TrimsOn lossy := by
  intro ch' ch'' h h'
  cases h with
  | elseIf hc1 hb1 hr1 =>
    cases h' with
    | elseIf hc2 hb2 hr2 =>
      exact .elseIf (hc hc1 hc2) (Stmt.trimsList_trans hbody hb1 hb2) (hrest hr1 hr2)
    | skip hlossy h2 => exact .skip hlossy (hrest hr1 h2)
    | stop hlossy => exact .stop hlossy
  | skip hlossy h1 => exact .skip hlossy (hrest h1 h')
  | stop hlossy =>
    cases h' with
    | done => exact .stop hlossy
    | stop _ => exact .stop hlossy

lemma Chain.trimsOn_otherwise {block : Span} {body : List Stmt}
    (hbody : ∀ s ∈ body, s.TrimsOn lossy) : (otherwise block body).TrimsOn lossy := by
  intro ch' ch'' h h'
  cases h with
  | otherwise hb1 =>
    cases h' with
    | otherwise hb2 => exact .otherwise (Stmt.trimsList_trans hbody hb1 hb2)
    | stop hlossy => exact .stop hlossy
  | stop hlossy =>
    cases h' with
    | done => exact .stop hlossy
    | stop _ => exact .stop hlossy

lemma Stmt.trimsOn_ifElse {x : Extent} {c : Expr} {body : List Stmt} {rest : Chain}
    (hc : c.TrimsOn lossy) (hbody : ∀ s ∈ body, s.TrimsOn lossy) (hrest : rest.TrimsOn lossy) :
    (ifElse x c body rest).TrimsOn lossy := by
  intro s' s'' h h'
  cases h with
  | ifElse hc1 hb1 hr1 =>
    cases h' with
    | ifElse hc2 hb2 hr2 =>
      exact .ifElse (hc hc1 hc2) (trimsList_trans hbody hb1 hb2) (hrest hr1 hr2)
    | nextArm hlossy h2 => exact .nextArm hlossy (hrest hr1 h2)
    | lastArm hlossy h2 => exact .lastArm hlossy (hrest hr1 h2)
  | @nextArm _ _ y _ _ _ _ _ _ hlossy h1 =>
    cases h' with
    | ifElse hc2 hb2 hr2 => exact .nextArm hlossy (hrest h1 (.elseIf hc2 hb2 hr2))
    | nextArm _ h2 => exact .nextArm hlossy (hrest h1 (.skip hlossy h2))
    | lastArm _ h2 => exact .lastArm hlossy (hrest h1 (.skip hlossy h2))
  | lastArm hlossy h1 =>
    cases h' with
    | ifElse hc2 hb2 hr2 =>
      cases hc2
      cases hr2
      · exact .lastArm hlossy (hrest h1 (.otherwise hb2))
      · exact .lastArm hlossy (hrest h1 (.otherwise hb2))
    | nextArm _ h2 => cases h2
    | lastArm _ h2 => cases h2

lemma Stmt.trimsOn_forLoop {x : Extent} {init : Option (VarHead × Option Expr)} {c : Option Expr}
    {update : Option Stmt} {body : List Stmt} (hinit : ∀ i ∈ init, ∀ e ∈ i.2, e.TrimsOn lossy)
    (hc : ∀ e ∈ c, e.TrimsOn lossy) (hupdate : ∀ s ∈ update, s.TrimsOn lossy)
    (hbody : ∀ s ∈ body, s.TrimsOn lossy) : (forLoop x init c update body).TrimsOn lossy := by
  intro s' s'' h h'
  cases h with
  | forLoop hh1 hi1 hc1 hu1 hb1 =>
    cases h' with
    | forLoop hh2 hi2 hc2 hu2 hb2 =>
      refine .forLoop (hh2.trans hh1) (Option.rel_trans (fun e he => ?_) hi1 hi2)
        (Option.rel_trans (fun e he => hc e he) hc1 hc2)
        (Option.rel_trans (fun s hs => hupdate s hs) hu1 hu2) (trimsList_trans hbody hb1 hb2)
      obtain ⟨i, hi, rfl⟩ := Option.map_eq_some_iff.mp he
      exact Option.rel_trans fun e he => hinit i hi e he

lemma Expr.trimsOn_dictionary {m : Mark} {es : List (Expr × Expr)}
    (hes : ∀ e ∈ es, e.1.TrimsOn lossy ∧ e.2.TrimsOn lossy) :
    (dictionary m es).TrimsOn lossy := by
  intro e' e'' h h'
  cases h with
  | dictionary hk1 hv1 =>
    cases h' with
    | dictionary hk2 hv2 =>
      refine .dictionary (forall₂_trans (fun e he => ?_) hk1 hk2)
        (forall₂_trans (fun e he => ?_) hv1 hv2)
      · obtain ⟨kv, hkv, rfl⟩ := List.mem_map.mp he
        exact (hes kv hkv).1
      · obtain ⟨kv, hkv, rfl⟩ := List.mem_map.mp he
        exact (hes kv hkv).2

lemma Tree.trims_trans : Tree.Inductive (Expr.TrimsOn lossy) (Stmt.TrimsOn lossy)
    (Chain.TrimsOn lossy) where
  leaf e he := by
    intro e' e'' h h'
    cases h with
    | number | string | boolean | null | name | self => exact h'
    | _ => cases he
  binary m op l r hl hr := by
    intro e' e'' h h'
    cases h with
    | binary hl1 hr1 =>
      cases h' with
      | binary hl2 hr2 => exact .binary (hl hl1 hl2) (hr hr1 hr2)
  unary m op e he := by
    intro e' e'' h h'
    cases h with
    | unary h1 =>
      cases h' with
      | unary h2 => exact .unary (he h1 h2)
  step m op e he := by
    intro e' e'' h h'
    cases h with
    | step h1 =>
      cases h' with
      | step h2 => exact .step (he h1 h2)
  ternary m c y n hc hy hn := by
    intro e' e'' h h'
    cases h with
    | ternary hc1 hy1 hn1 =>
      cases h' with
      | ternary hc2 hy2 hn2 => exact .ternary (hc hc1 hc2) (hy hy1 hy2) (hn hn1 hn2)
  call m f args target hf hargs := by
    intro e' e'' h h'
    cases h with
    | call hf1 ha1 =>
      cases h' with
      | call hf2 ha2 => exact .call (hf hf1 hf2) (forall₂_trans (fun e he => hargs e he) ha1 ha2)
  member m o n ho := by
    intro e' e'' h h'
    cases h with
    | member h1 =>
      cases h' with
      | member h2 => exact .member (ho h1 h2)
  subscript m o i ho hi := by
    intro e' e'' h h'
    cases h with
    | subscript ho1 hi1 =>
      cases h' with
      | subscript ho2 hi2 => exact .subscript (ho ho1 ho2) (hi hi1 hi2)
  array m es hes := by
    intro e' e'' h h'
    cases h with
    | array h1 =>
      cases h' with
      | array h2 => exact .array (forall₂_trans (fun e he => hes e he) h1 h2)
  dictionary m es hes := Expr.trimsOn_dictionary hes
  blockLambda m head block body hbody := by
    intro e' e'' h h'
    cases h with
    | blockLambda h1 =>
      cases h' with
      | blockLambda h2 => exact .blockLambda (Stmt.trimsList_trans hbody h1 h2)
  exprLambda m head e he := by
    intro e' e'' h h'
    cases h with
    | exprLambda h1 =>
      cases h' with
      | exprLambda h2 => exact .exprLambda (he h1 h2)
  var head init hinit := by
    intro s' s'' h h'
    cases h with
    | var h1 =>
      cases h' with
      | var h2 => exact .var (Option.rel_trans (fun e he => hinit e he) h1 h2)
  assign span t v ht hv := by
    intro s' s'' h h'
    cases h with
    | assign ht1 hv1 =>
      cases h' with
      | assign ht2 hv2 => exact .assign (ht ht1 ht2) (hv hv1 hv2)
  func head body hbody := by
    intro s' s'' h h'
    cases h with
    | func h1 =>
      cases h' with
      | func h2 => exact .func (Stmt.trimsList_trans hbody h1 h2)
  cls head ms hms := by
    intro s' s'' h h'
    cases h with
    | cls h1 =>
      cases h' with
      | cls h2 => exact .cls (Stmt.trimsList_trans hms h1 h2)
  ctor head body hbody := by
    intro s' s'' h h'
    cases h with
    | ctor h1 =>
      cases h' with
      | ctor h2 => exact .ctor (Stmt.trimsList_trans hbody h1 h2)
  ifElse x c body rest hc hbody hrest := Stmt.trimsOn_ifElse hc hbody hrest
  whileLoop x c body hc hbody := by
    intro s' s'' h h'
    cases h with
    | whileLoop hc1 hb1 =>
      cases h' with
      | whileLoop hc2 hb2 => exact .whileLoop (hc hc1 hc2) (Stmt.trimsList_trans hbody hb1 hb2)
  forLoop x init c update body hinit hc hupdate hbody :=
    Stmt.trimsOn_forLoop hinit hc hupdate hbody
  ret span v hv := by
    intro s' s'' h h'
    cases h with
    | ret h1 =>
      cases h' with
      | ret h2 => exact .ret (Option.rel_trans (fun e he => hv e he) h1 h2)
  brk span := by
    intro s' s'' h h'
    cases h
    exact h'
  expr e he := by
    intro s' s'' h h'
    cases h with
    | expr h1 =>
      cases h' with
      | expr h2 => exact .expr (he h1 h2)
  done := by
    intro ch' ch'' h h'
    cases h <;> exact h'
  elseIf x c body rest hc hbody hrest := Chain.trimsOn_elseIf hc hbody hrest
  otherwise block body hbody := Chain.trimsOn_otherwise hbody

lemma Stmt.Trims.trans {s s' s'' : Stmt} (h : s.Trims lossy s') (h' : s'.Trims lossy s'') :
    s.Trims lossy s'' :=
  Tree.trims_trans.stmt_holds s h h'

lemma Stmt.TrimsList.trans {ss ss' ss'' : List Stmt} (h : TrimsList lossy ss ss')
    (h' : TrimsList lossy ss' ss'') : TrimsList lossy ss ss'' :=
  trimsList_trans (fun s _ => Tree.trims_trans.stmt_holds s) h h'

end MiddleEnd
