import MiddleEnd.Proofs.Passes.Reports

/-!
The form that the optimizer brings programs into: nothing after a terminator, no arm or loop that a
literal rules out, no operator on literals that has a value, and no function that is not called. The
form is described by itself, without the passes.
-/

namespace MiddleEnd

/-! ### Expressions -/

/-- The expressions outside of blocks, the outermost first. -/
def Collector.parts : Collector Unit Expr where
  own _ n :=
    match n with
    | .expr e => [e]
    | _ => []
  enters _ := false
  updates := ()

@[simp] lemma Collector.parts_add (e : Expr) (parts : List Expr) :
    Collector.parts.add () (.expr e) parts = e :: parts := rfl

abbrev Expr.parts (e : Expr) : List Expr := e.collect .parts ()

/-- The operator has a value on numbers of which the right one is `b`. -/
def BinaryOp.hasValue (b : Float) : BinaryOp → Bool
  | .divide | .modulo => b != 0
  | op => op.isArithmetic || op.isRelational

/-- The expression can be evaluated one step: a ternary whose condition is a literal, a negated
literal, or an operator that has a value on two number literals. -/
def Expr.isRedex : Expr → Bool
  | .ternary _ (.boolean ..) _ _ => true
  | .unary _ .negate (.number ..) => true
  | .unary _ .not (.boolean ..) => true
  | .binary _ op (.number ..) (.number _ b) => op.hasValue b
  | _ => false

lemma BinaryOp.hasValue_eq_false {op : BinaryOp} {a b : Float} (h : op.onNumbers a b = none) :
    op.hasValue b = false := by
  cases op with
  | divide | modulo =>
    simp only [onNumbers, ite_eq_left_iff, reduceCtorEq, imp_false, Bool.not_eq_true,
      Bool.not_eq_false] at h
    simp [hasValue, bne, h]
  | and | or => rfl
  | _ => cases h

namespace Expr

lemma parts_leaf {e : Expr} (he : e.isLeaf = true) : e.parts = [e] := by
  cases e <;> first | rfl | cases he

lemma isFolded_iff {e : Expr} : e.IsFolded ↔ e.fold.changed = false := by
  unfold IsFolded
  rw [Edit.eq_pure_iff]
  exact ⟨And.right, fun h => ⟨e.fold_shrinks.same h, h⟩⟩

/-! ### Folded operands -/

lemma IsFolded.binary {m : Mark} {op : BinaryOp} {l r : Expr} (h : (binary m op l r).IsFolded) :
    l.IsFolded ∧ r.IsFolded ∧ Fold.binary op l r m.span = none := by
  rw [isFolded_iff] at h
  simp only [fold, Edit.bind_changed, Bool.or_eq_false_iff, Fold.orElse_changed,
    Option.isSome_eq_false_iff, Option.isNone_iff_eq_none] at h
  obtain ⟨hl, hr, h⟩ := h
  rw [l.fold_shrinks.same hl, r.fold_shrinks.same hr] at h
  exact ⟨isFolded_iff.mpr hl, isFolded_iff.mpr hr, h⟩

lemma IsFolded.unary {m : Mark} {op : UnaryOp} {e : Expr} (h : (unary m op e).IsFolded) :
    e.IsFolded ∧ Fold.unary op e m.span = none := by
  rw [isFolded_iff] at h
  simp only [fold, Edit.bind_changed, Bool.or_eq_false_iff, Fold.orElse_changed,
    Option.isSome_eq_false_iff, Option.isNone_iff_eq_none] at h
  obtain ⟨he, h⟩ := h
  rw [e.fold_shrinks.same he] at h
  exact ⟨isFolded_iff.mpr he, h⟩

lemma IsFolded.ternary {m : Mark} {c y n : Expr} (h : (ternary m c y n).IsFolded) :
    c.IsFolded ∧ y.IsFolded ∧ n.IsFolded ∧ c.boolean? = none := by
  rw [isFolded_iff] at h
  simp only [fold, Edit.bind_changed, Bool.or_eq_false_iff, Fold.orElse_changed,
    Option.isSome_eq_false_iff, Option.isNone_iff_eq_none, Fold.ternary,
    Option.map_eq_none_iff] at h
  obtain ⟨hc, hy, hn, h⟩ := h
  rw [c.fold_shrinks.same hc] at h
  exact ⟨isFolded_iff.mpr hc, isFolded_iff.mpr hy, isFolded_iff.mpr hn, h⟩

lemma isFolded_of_foldList {es : List Expr} (h : (foldList es).changed = false) :
    ∀ e ∈ es, e.IsFolded := by
  induction es with
  | nil => exact List.forall_mem_nil _
  | cons e es ih =>
    simp only [foldList, Edit.bind_changed, Edit.pure_changed, Bool.or_false,
      Bool.or_eq_false_iff] at h
    exact List.forall_mem_cons.mpr ⟨isFolded_iff.mpr h.1, ih h.2⟩

lemma isFolded_of_foldEntries {es : List (Expr × Expr)} (h : (foldEntries es).changed = false) :
    ∀ e ∈ es, e.1.IsFolded ∧ e.2.IsFolded := by
  induction es with
  | nil => exact List.forall_mem_nil _
  | cons e es ih =>
    obtain ⟨k, v⟩ := e
    simp only [foldEntries, Edit.bind_changed, Edit.pure_changed, Bool.or_false,
      Bool.or_eq_false_iff] at h
    exact List.forall_mem_cons.mpr ⟨⟨isFolded_iff.mpr h.1, isFolded_iff.mpr h.2.1⟩, ih h.2.2⟩

/-! ### No redex is left -/

lemma isRedex_binary {m : Mark} {op : BinaryOp} {l r : Expr}
    (h : Fold.binary op l r m.span = none) : (binary m op l r).isRedex = false := by
  cases l with
  | number _ a =>
    cases r with
    | number _ b =>
      simp only [Fold.binary, constant?, Option.map_eq_none_iff] at h
      exact BinaryOp.hasValue_eq_false h
    | _ => rfl
  | _ => rfl

lemma isRedex_unary {m : Mark} {op : UnaryOp} {e : Expr} (h : Fold.unary op e m.span = none) :
    (unary m op e).isRedex = false := by
  cases op <;> cases e <;> first | rfl | cases h

lemma isRedex_ternary {m : Mark} {c y n : Expr} (h : c.boolean? = none) :
    (ternary m c y n).isRedex = false := by
  cases c <;> first | rfl | cases h

/-- Where there is nothing to fold, no part of the expression can be evaluated. -/
theorem IsFolded.isRedex {e : Expr} (h : e.IsFolded) : ∀ d ∈ e.parts, d.isRedex = false := by
  revert h
  refine Expr.Inductive.holds
    (P := fun e => e.IsFolded → ∀ d ∈ e.parts, d.isRedex = false) ?_ e
  constructor
  case leaf =>
    intro e he _
    rw [parts_leaf he, List.forall_mem_singleton]
    cases e <;> first | rfl | cases he
  case binary =>
    intro m op l r hl hr h
    obtain ⟨h1, h2, h⟩ := h.binary
    simp only [collect, Collector.parts_add, List.forall_mem_cons, List.forall_mem_append]
    exact ⟨isRedex_binary h, hl h1, hr h2⟩
  case unary =>
    intro m op e he h
    obtain ⟨h1, h⟩ := h.unary
    exact List.forall_mem_cons.mpr ⟨isRedex_unary h, he h1⟩
  case ternary =>
    intro m c y n hc hy hn h
    obtain ⟨h1, h2, h3, h⟩ := h.ternary
    simp only [collect, Collector.parts_add, List.forall_mem_cons, List.forall_mem_append]
    exact ⟨isRedex_ternary h, ⟨hc h1, hy h2⟩, hn h3⟩
  case step | member | exprLambda =>
    intro m a e he h
    refine List.forall_mem_cons.mpr ⟨rfl, he ?_⟩
    simpa [isFolded_iff, fold] using h
  case call =>
    intro m f args target hf hargs h
    simp only [isFolded_iff, fold, Edit.bind_changed, Edit.pure_changed, Bool.or_false,
      Bool.or_eq_false_iff] at h
    have hlist := isFolded_of_foldList h.2
    simp only [collect, Collector.parts_add, List.forall_mem_cons, List.forall_mem_append,
      mem_collectList]
    refine ⟨rfl, hf (isFolded_iff.mpr h.1), ?_⟩
    rintro d ⟨e, he, hd⟩
    exact hargs e he (hlist e he) d hd
  case subscript =>
    intro m o i ho hi h
    simp only [isFolded_iff, fold, Edit.bind_changed, Edit.pure_changed, Bool.or_false,
      Bool.or_eq_false_iff] at h
    simp only [collect, Collector.parts_add, List.forall_mem_cons, List.forall_mem_append]
    exact ⟨rfl, ho (isFolded_iff.mpr h.1), hi (isFolded_iff.mpr h.2)⟩
  case array =>
    intro m es hes h
    simp only [isFolded_iff, fold, Edit.bind_changed, Edit.pure_changed, Bool.or_false] at h
    have hlist := isFolded_of_foldList h
    simp only [collect, Collector.parts_add, List.forall_mem_cons, mem_collectList]
    refine ⟨rfl, ?_⟩
    rintro d ⟨e, he, hd⟩
    exact hes e he (hlist e he) d hd
  case dictionary =>
    intro m es hes h
    simp only [isFolded_iff, fold, Edit.bind_changed, Edit.pure_changed, Bool.or_false] at h
    have hlist := isFolded_of_foldEntries h
    simp only [collect, Collector.parts_add, List.forall_mem_cons, mem_collectEntries]
    refine ⟨rfl, ?_⟩
    rintro d ⟨e, he, hd | hd⟩
    · exact (hes e he).1 (hlist e he).1 d hd
    · exact (hes e he).2 (hlist e he).2 d hd
  case blockLambda =>
    intro m head block body _
    exact List.forall_mem_singleton.mpr rfl

end Expr

/-! ### Blocks and programs -/

/-- A block in which nothing is unreachable and nothing can be evaluated. -/
structure NormalBlock (ss : List Stmt) : Prop where
  returns : ∀ before span v after, ss = before ++ .ret span v :: after → after = []
  breaks : ∀ before span after, ss = before ++ .brk span :: after → after = []
  loops : ∀ x c body, .whileLoop x c body ∈ ss → c.boolean? ≠ some false
  /-- No arm is under a literal `false`, and one under a literal `true` is the last, with no block
  for the other cases. -/
  arms : ∀ x c body rest, .ifElse x c body rest ∈ ss →
    ∀ before arm after, (x, c, body) :: rest.arms = before ++ arm :: after →
      arm.2.1.boolean? ≠ some false ∧
        (arm.2.1.boolean? = some true → after = [] ∧ rest.last? = none)
  exprs : ∀ s ∈ ss, ∀ e ∈ s.owned, ∀ d ∈ e.parts, d.isRedex = false

/-- All blocks that are visited are normal, and all functions of the program are called. -/
structure Program.Normal (called : List String) (p : Program) : Prop where
  blocks : ∀ b ∈ p.stmts :: Stmt.blocksList p.stmts, NormalBlock b
  functions : ∀ head body, .func head body ∈ p.stmts → head.name ∈ called

lemma CutBlock.ended {ss : List Stmt} (h : CutBlock ss) (before : List Stmt) (s : Stmt)
    (after : List Stmt) (hss : ss = before ++ s :: after) (hs : s.isTerminator = true) :
    after = [] := by
  subst hss
  have hafter := (List.pairwise_cons.mp (List.pairwise_append.mp h).2.1).1
  rw [List.eq_nil_iff_forall_not_mem]
  intro t ht
  rw [hafter t ht] at hs
  cases hs

/-- The arms of a pruned conditional, its first one included. -/
lemma Chain.IsPruned.arms {ch : Chain} (h : ch.IsPruned) :
    ∀ before arm after, ch.arms = before ++ arm :: after →
      arm.2.1.boolean? ≠ some false ∧
        (arm.2.1.boolean? = some true → after = [] ∧ ch.last? = none) := by
  induction ch with
  | done | otherwise => simp [Chain.arms]
  | elseIf x c body rest ih =>
    intro before arm after heq
    rcases h with ⟨hc, hrest⟩ | ⟨hc, rfl⟩
    · cases before with
      | nil =>
        cases heq
        simp [hc]
      | cons first before => exact ih hrest before arm after (List.cons.inj heq).2
    · cases before with
      | nil =>
        cases heq
        simp [hc, Chain.arms, Chain.last?]
      | cons first before => simp [Chain.arms] at heq

lemma normalBlock_of_settled {ss : List Stmt} (hfold : FoldedBlock ss) (hprune : PrunedBlock ss)
    (hcut : CutBlock ss) : NormalBlock ss where
  returns before _ _ after hss := hcut.ended before _ after hss rfl
  breaks before _ after hss := hcut.ended before _ after hss rfl
  loops _ _ _ hmem := hprune _ hmem
  arms x c body rest hmem :=
    (show (Chain.elseIf x c body rest).IsPruned from hprune _ hmem).arms
  exprs s hs e he := (hfold s hs e he).isRedex

namespace Optimizer

/-- **Normal form.** With all its passes the optimizer leaves, for every set of called names and
every program, a program that is normal in all blocks that are visited. -/
theorem optimize_normal (called : List String) (p : Program) :
    ((ofSwitches {} called).optimize p).program.Normal called := by
  have hmax : 1 ≤ (ofSwitches {} called).maxIterations := Nat.le_add_left 1 9
  rw [(optimize_of_once_eq_pure hmax (once_once {} called p)).1]
  have hsettled := Pass.settled_runAll (ofSwitches_pairwise {} called) p
  have hfold := hsettled .foldConstants (by simp [ofSwitches])
  have hprune := hsettled .pruneBranches (by simp [ofSwitches])
  have hcut := hsettled .cutUnreachable (by simp [ofSwitches])
  have hdrop := hsettled (.dropUncalled called) (by simp [ofSwitches])
  refine ⟨fun b hb => normalBlock_of_settled (hfold b hb) (hprune b hb) (hcut b hb), ?_⟩
  intro head body hmem
  simpa [Stmt.isUncalled] using hdrop _ hmem

end Optimizer
end MiddleEnd
