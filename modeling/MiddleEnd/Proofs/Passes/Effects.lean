import Mathlib.Computability.Language
import Mathlib.Order.CompletePartialOrder
import MiddleEnd.Proofs.Passes.Fold

/-!
What an expression does besides giving a value, and in which order. The sequences of effects that
its evaluation can have form a language. Folding leaves those of them that agree with the conditions
that it has decided: the operands that it drops have no effects.
-/

namespace MiddleEnd

/-- Something that an expression does: a call, or a step before or after a value is taken. -/
inductive Effect where
  | call (span : Span)
  | before (op : UnaryOp) (span : Span)
  | after (op : StepOp) (span : Span)
  deriving DecidableEq

def Effect.alone (effect : Effect) : Language Effect := {[effect]}

/-- The effect of an operator that is written before its operand. -/
def UnaryOp.effects (op : UnaryOp) (span : Span) : Language Effect :=
  if op.writes then Effect.alone (.before op span) else 1

mutual
/-- The sequences of effects that an evaluation can have: those of the operands from left to right,
then that of the node. A ternary has the effects of its condition and of one of its branches; where
the condition is decided, there is no choice. What is inside of a lambda is not evaluated. -/
def Expr.effectsUnder (decided : Expr → Option Bool) : Expr → Language Effect
  | .binary _ _ l r => l.effectsUnder decided * r.effectsUnder decided
  | .unary m op e => e.effectsUnder decided * op.effects m.span
  | .step m op e => e.effectsUnder decided * Effect.alone (.after op m.span)
  | .ternary _ c y n =>
    c.effectsUnder decided *
      match decided c with
      | some true => y.effectsUnder decided
      | some false => n.effectsUnder decided
      | none => y.effectsUnder decided + n.effectsUnder decided
  | .call m f args _ =>
    f.effectsUnder decided * Expr.effectsUnderList decided args * Effect.alone (.call m.span)
  | .member _ o _ => o.effectsUnder decided
  | .subscript _ o i => o.effectsUnder decided * i.effectsUnder decided
  | .array _ es => Expr.effectsUnderList decided es
  | .dictionary _ es => Expr.effectsUnderEntries decided es
  | _ => 1

def Expr.effectsUnderList (decided : Expr → Option Bool) : List Expr → Language Effect
  | [] => 1
  | e :: es => e.effectsUnder decided * Expr.effectsUnderList decided es

def Expr.effectsUnderEntries (decided : Expr → Option Bool) :
    List (Expr × Expr) → Language Effect
  | [] => 1
  | (k, v) :: es =>
    k.effectsUnder decided * v.effectsUnder decided * Expr.effectsUnderEntries decided es
end

namespace Expr

/-- All sequences of effects, with both branches of every ternary. -/
def effects (e : Expr) : Language Effect := e.effectsUnder fun _ => none

/-- The sequences that agree with the value of each condition that folds to a literal. -/
def agreeingEffects (e : Expr) : Language Effect := e.effectsUnder fun c => c.fold.value.boolean?

variable {decided : Expr → Option Bool}

lemma effectsUnder_leaf {e : Expr} (he : e.isLeaf = true) : e.effectsUnder decided = 1 := by
  cases e <;> first | rfl | cases he

/-! ### Expressions without effects -/

lemma effectsUnder_of_number? {e : Expr} (h : e.number?.isSome = true) :
    e.effectsUnder decided = 1 := by
  cases e <;> first | rfl | cases h

lemma effectsUnder_of_boolean? {e : Expr} {b : Bool} (h : e.boolean? = some b) :
    e.effectsUnder decided = 1 := by
  cases e <;> first | rfl | cases h

lemma effectsUnder_of_constant? {e : Expr} {c : Constant} (h : e.constant? = some c) :
    e.effectsUnder decided = 1 := by
  cases e <;> first | rfl | cases h

lemma effectsUnder_toExpr (c : Constant) (span : Span) :
    (c.toExpr span).effectsUnder decided = 1 := by
  cases c <;> rfl

lemma effectsUnderList_of_not_hasEffects {es : List Expr}
    (ih : ∀ e ∈ es, e.hasEffects = false → e.effectsUnder decided = 1)
    (h : anyHasEffects es = false) : effectsUnderList decided es = 1 := by
  induction es with
  | nil => rfl
  | cons e es ihes =>
    rw [List.forall_mem_cons] at ih
    rw [anyHasEffects, Bool.or_eq_false_iff] at h
    rw [effectsUnderList, ih.1 h.1, ihes ih.2 h.2, one_mul]

lemma effectsUnderEntries_of_not_hasEffects {es : List (Expr × Expr)}
    (ih : ∀ e ∈ es, (e.1.hasEffects = false → e.1.effectsUnder decided = 1) ∧
      (e.2.hasEffects = false → e.2.effectsUnder decided = 1))
    (h : entriesHaveEffects es = false) : effectsUnderEntries decided es = 1 := by
  induction es with
  | nil => rfl
  | cons e es ihes =>
    obtain ⟨k, v⟩ := e
    rw [List.forall_mem_cons] at ih
    simp only [entriesHaveEffects, Bool.or_eq_false_iff] at h
    rw [effectsUnderEntries, ih.1.1 h.1.1, ih.1.2 h.1.2, ihes ih.2 h.2, one_mul, one_mul]

/-- An expression that is said to have no effects has none, whichever branches are taken. -/
lemma effectsUnder_of_not_hasEffects {e : Expr} (h : e.hasEffects = false) :
    e.effectsUnder decided = 1 := by
  revert h
  refine Expr.Inductive.holds
    (P := fun e => e.hasEffects = false → e.effectsUnder decided = 1) ?_ e
  constructor
  case leaf =>
    intro e he _
    exact effectsUnder_leaf he
  case binary =>
    intro m op l r hl hr h
    rw [hasEffects, Bool.or_eq_false_iff] at h
    rw [effectsUnder, hl h.1, hr h.2, one_mul]
  case subscript =>
    intro m o i ho hi h
    rw [hasEffects, Bool.or_eq_false_iff] at h
    rw [effectsUnder, ho h.1, hi h.2, one_mul]
  case unary =>
    intro m op e he h
    rw [hasEffects, Bool.or_eq_false_iff] at h
    rw [effectsUnder, he h.2, UnaryOp.effects, if_neg (by simp [h.1]), one_mul]
  case ternary =>
    intro m c y n hc hy hn h
    simp only [hasEffects, Bool.or_eq_false_iff] at h
    rw [effectsUnder, hc h.1.1, hy h.1.2, hn h.2, one_mul]
    split
    · rfl
    · rfl
    · exact add_idem 1
  case step =>
    intro m op e _ h
    cases h
  case call =>
    intro m f args target _ _ h
    cases h
  case member =>
    intro m o n ho h
    exact ho h
  case array =>
    intro m es hes h
    exact effectsUnderList_of_not_hasEffects hes h
  case dictionary =>
    intro m es hes h
    exact effectsUnderEntries_of_not_hasEffects hes h
  case blockLambda | exprLambda =>
    intros
    rfl

end Expr

/-! ### Fewer choices -/

namespace Expr

variable {decided : Expr → Option Bool}

lemma effectsUnderList_le {es : List Expr} (ih : ∀ e ∈ es, e.effectsUnder decided ≤ e.effects) :
    effectsUnderList decided es ≤ effectsUnderList (fun _ => none) es := by
  induction es with
  | nil => exact le_rfl
  | cons e es ihes =>
    rw [List.forall_mem_cons] at ih
    exact mul_le_mul' ih.1 (ihes ih.2)

lemma effectsUnderEntries_le {es : List (Expr × Expr)}
    (ih : ∀ e ∈ es, e.1.effectsUnder decided ≤ e.1.effects ∧
      e.2.effectsUnder decided ≤ e.2.effects) :
    effectsUnderEntries decided es ≤ effectsUnderEntries (fun _ => none) es := by
  induction es with
  | nil => exact le_rfl
  | cons e es ihes =>
    rw [List.forall_mem_cons] at ih
    exact mul_le_mul' (mul_le_mul' ih.1.1 ih.1.2) (ihes ih.2)

/-- Decided conditions take choices away and add nothing. -/
lemma effectsUnder_le (decided : Expr → Option Bool) (e : Expr) :
    e.effectsUnder decided ≤ e.effects := by
  refine Expr.Inductive.holds (P := fun e => e.effectsUnder decided ≤ e.effects) ?_ e
  constructor
  case leaf =>
    intro e he
    exact ((effectsUnder_leaf he).trans (effectsUnder_leaf he).symm).le
  case binary =>
    intro m op l r hl hr
    exact mul_le_mul' hl hr
  case unary | step =>
    intro m op e he
    exact mul_le_mul' he le_rfl
  case ternary =>
    intro m c y n hc hy hn
    refine mul_le_mul' hc ?_
    split
    · exact hy.trans le_self_add
    · exact hn.trans le_add_self
    · exact add_le_add hy hn
  case call =>
    intro m f args target hf hargs
    exact mul_le_mul' (mul_le_mul' hf (effectsUnderList_le hargs)) le_rfl
  case member =>
    intro m o n ho
    exact ho
  case subscript =>
    intro m o i ho hi
    exact mul_le_mul' ho hi
  case array =>
    intro m es hes
    exact effectsUnderList_le hes
  case dictionary =>
    intro m es hes
    exact effectsUnderEntries_le hes
  case blockLambda | exprLambda =>
    intros
    exact le_rfl

end Expr

/-! ### What is folded -/

namespace Fold

/-- An operand that disappears has no effects. -/
lemma effects_of_simpler {op : BinaryOp} {l r x : Expr} {span : Span}
    (h : Simpler op l r span x) : x.effects = l.effects * r.effects := by
  unfold Expr.effects
  cases h with
  | left hr => rw [Expr.effectsUnder_of_number? hr, mul_one]
  | right hl => rw [Expr.effectsUnder_of_number? hl, one_mul]
  | zeroRight _ hr _ he =>
    rw [Expr.effectsUnder_toExpr, Expr.effectsUnder_of_not_hasEffects he,
      Expr.effectsUnder_of_number? (isSome_of_isNumber hr), one_mul]
  | zeroLeft _ hl _ he =>
    rw [Expr.effectsUnder_toExpr, Expr.effectsUnder_of_not_hasEffects he,
      Expr.effectsUnder_of_number? (isSome_of_isNumber hl), one_mul]

lemma effects_of_binary {op : BinaryOp} {l r x : Expr} {span : Span}
    (h : binary op l r span = some x) : x.effects = l.effects * r.effects := by
  unfold binary at h
  split at h
  · rename_i hl hr
    obtain ⟨c, -, rfl⟩ := Option.map_eq_some_iff.mp h
    unfold Expr.effects
    rw [Expr.effectsUnder_toExpr, Expr.effectsUnder_of_constant? hl,
      Expr.effectsUnder_of_constant? hr, one_mul]
  · rename_i hl hr
    obtain ⟨c, -, rfl⟩ := Option.map_eq_some_iff.mp h
    unfold Expr.effects
    rw [Expr.effectsUnder_toExpr, Expr.effectsUnder_of_constant? hl,
      Expr.effectsUnder_of_constant? hr, one_mul]
  · exact effects_of_simpler (simpler_of_identity h)

lemma effects_of_unary {op : UnaryOp} {e x : Expr} {span : Span} (h : unary op e span = some x) :
    x.effects = e.effects * op.effects span := by
  obtain ⟨c, hc, rfl⟩ := Option.map_eq_some_iff.mp h
  obtain ⟨b, hb, hop⟩ := Option.bind_eq_some_iff.mp hc
  have hwrites : op.writes = false := by
    cases op with
    | negate | not => rfl
    | increment | decrement => cases hop
  unfold Expr.effects
  rw [Expr.effectsUnder_toExpr, Expr.effectsUnder_of_constant? hb, UnaryOp.effects,
    if_neg (by simp [hwrites]), one_mul]

end Fold

namespace Expr

lemma effects_foldList {es : List Expr} (ih : ∀ e ∈ es, e.fold.value.effects = e.agreeingEffects) :
    effectsUnderList (fun _ => none) (foldList es).value =
      effectsUnderList (fun c => c.fold.value.boolean?) es := by
  induction es with
  | nil => rfl
  | cons e es ihes =>
    rw [List.forall_mem_cons] at ih
    have he : e.fold.value.effectsUnder _ = e.effectsUnder _ := ih.1
    simp only [foldList, Edit.bind_value, Edit.pure_value, effectsUnderList]
    rw [he, ihes ih.2]

lemma effects_foldEntries {es : List (Expr × Expr)}
    (ih : ∀ e ∈ es, e.1.fold.value.effects = e.1.agreeingEffects ∧
      e.2.fold.value.effects = e.2.agreeingEffects) :
    effectsUnderEntries (fun _ => none) (foldEntries es).value =
      effectsUnderEntries (fun c => c.fold.value.boolean?) es := by
  induction es with
  | nil => rfl
  | cons e es ihes =>
    obtain ⟨k, v⟩ := e
    rw [List.forall_mem_cons] at ih
    have hk : k.fold.value.effectsUnder _ = k.effectsUnder _ := ih.1.1
    have hv : v.fold.value.effectsUnder _ = v.effectsUnder _ := ih.1.2
    simp only [foldEntries, Edit.bind_value, Edit.pure_value, effectsUnderEntries]
    rw [hk, hv, ihes ih.2]

lemma effects_fold (e : Expr) : e.fold.value.effects = e.agreeingEffects := by
  refine Expr.Inductive.holds (P := fun e => e.fold.value.effects = e.agreeingEffects) ?_ e
  constructor
  case leaf =>
    intro e he
    rw [fold_leaf he]
    exact (effectsUnder_leaf he).trans (effectsUnder_leaf he).symm
  case binary =>
    intro m op l r hl hr
    have hparts : l.fold.value.effects * r.fold.value.effects =
        (binary m op l r).agreeingEffects := by
      rw [hl, hr]
      rfl
    simp only [fold, Edit.bind_value, Fold.orElse_value]
    cases h : Fold.binary op l.fold.value r.fold.value m.span with
    | none => exact hparts
    | some x => exact (Fold.effects_of_binary h).trans hparts
  case unary =>
    intro m op e he
    have hparts : e.fold.value.effects * op.effects m.span = (unary m op e).agreeingEffects := by
      rw [he]
      rfl
    simp only [fold, Edit.bind_value, Fold.orElse_value]
    cases h : Fold.unary op e.fold.value m.span with
    | none => exact hparts
    | some x => exact (Fold.effects_of_unary h).trans hparts
  case ternary =>
    intro m c y n hc hy hn
    simp only [fold, Edit.bind_value, Fold.orElse_value, Fold.ternary, agreeingEffects,
      effectsUnder]
    -- a condition that is decided has no effects left
    cases hb : c.fold.value.boolean? with
    | none =>
      show c.fold.value.effects * (y.fold.value.effects + n.fold.value.effects) = _
      rw [hc, hy, hn]
      rfl
    | some b =>
      have hcond : c.effectsUnder (fun c => c.fold.value.boolean?) = 1 :=
        hc.symm.trans (effectsUnder_of_boolean? hb)
      rw [hcond, one_mul]
      cases b
      · exact hn
      · exact hy
  case step =>
    intro m op e he
    show e.fold.value.effects * _ = _
    rw [he]
    rfl
  case call =>
    intro m f args target hf hargs
    show f.fold.value.effects * effectsUnderList _ (foldList args).value * _ = _
    rw [hf, effects_foldList hargs]
    rfl
  case member =>
    intro m o n ho
    exact ho
  case subscript =>
    intro m o i ho hi
    show o.fold.value.effects * i.fold.value.effects = _
    rw [ho, hi]
    rfl
  case array =>
    intro m es hes
    exact effects_foldList hes
  case dictionary =>
    intro m es hes
    exact effects_foldEntries hes
  case blockLambda | exprLambda =>
    intros
    rfl

/-- **Folding keeps every effect in its order.** The sequences of effects of a folded expression are
the sequences of the expression that agree with each condition that folds to a literal; whatever an
identity or a zero product drops has none. -/
theorem fold_keeps_effects (e : Expr) :
    e.fold.value.effects = e.agreeingEffects ∧ e.agreeingEffects ≤ e.effects :=
  ⟨e.effects_fold, e.effectsUnder_le _⟩

end Expr
end MiddleEnd
