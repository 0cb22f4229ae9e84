import MiddleEnd.Passes.Fold
import MiddleEnd.Proofs.Passes.Blocks

/-!
Constant folding of expressions: what it leaves has nothing left to fold, it makes no new blocks,
and it does not look into blocks.
-/

namespace MiddleEnd

lemma append_subset_append {α : Type} {k l m n : List α} (hk : k ⊆ m) (hl : l ⊆ n) :
    k ++ l ⊆ m ++ n :=
  List.append_subset.mpr
    ⟨List.subset_append_of_subset_left n hk, List.subset_append_of_subset_right m hl⟩

def Expr.IsFolded (e : Expr) : Prop := e.fold = pure e

namespace Fold

@[simp] lemma orElse_none (e : Expr) : orElse none e = pure e := rfl

lemma orElse_value (o : Option Expr) (e : Expr) : (orElse o e).value = o.getD e := by
  cases o <;> rfl

lemma orElse_changed (o : Option Expr) (e : Expr) : (orElse o e).changed = o.isSome := by
  cases o <;> rfl

lemma isFolded_toExpr (span : Span) (c : Constant) : (c.toExpr span).IsFolded := by
  cases c <;> rfl

lemma blocks_toExpr (span : Span) (c : Constant) : (c.toExpr span).blocks = [] := by
  cases c <;> rfl

/-- What is left of an operator with an operand that does nothing: the other operand next to a
literal, or zero next to an operand that is left out. -/
inductive Simpler (op : BinaryOp) (l r : Expr) (span : Span) : Expr → Prop where
  | left (hr : r.number?.isSome = true) (hl : isNumeric l = true) : Simpler op l r span l
  | right (hl : l.number?.isSome = true) (hr : isNumeric r = true) : Simpler op l r span r
  | zeroRight (hop : op = .multiply) (hr : isNumber 0 r = true) (hl : isNumeric l = true)
      (he : l.hasEffects = false) : Simpler op l r span ((Constant.number 0).toExpr span)
  | zeroLeft (hop : op = .multiply) (hl : isNumber 0 l = true) (hr : isNumeric r = true)
      (he : r.hasEffects = false) : Simpler op l r span ((Constant.number 0).toExpr span)

lemma isSome_of_isNumber {v : Float} {e : Expr} (h : isNumber v e = true) :
    e.number?.isSome = true := by
  cases e <;> first | rfl | cases h

lemma simpler_of_identity {op : BinaryOp} {l r x : Expr} {span : Span}
    (h : identity op l r span = some x) : Simpler op l r span x := by
  have left {v : Float} (hc : (isNumber v r && isNumeric l) = true) : Simpler op l r span l := by
    rw [Bool.and_eq_true] at hc
    exact .left (isSome_of_isNumber hc.1) hc.2
  have right {v : Float} (hc : (isNumber v l && isNumeric r) = true) : Simpler op l r span r := by
    rw [Bool.and_eq_true] at hc
    exact .right (isSome_of_isNumber hc.1) hc.2
  cases op with
  | add =>
    simp only [identity] at h
    split_ifs at h with h1 h2 <;> cases h
    · exact left h1
    · exact right h2
  | subtract | divide =>
    simp only [identity] at h
    split_ifs at h with h1
    cases h
    exact left h1
  | multiply =>
    simp only [identity] at h
    split_ifs at h with h1 h2 h3 <;> cases h
    · exact left h1
    · exact right h2
    · -- a product with zero, on either side
      simp only [Bool.or_eq_true, Bool.and_eq_true, Bool.not_eq_true'] at h3
      rcases h3 with ⟨⟨hr, hl⟩, he⟩ | ⟨⟨hl, hr⟩, he⟩
      · exact .zeroRight rfl hr hl he
      · exact .zeroLeft rfl hl hr he
  | _ => cases h

/-- An operand that does nothing leaves the other operand or a literal. -/
lemma identity_eq_some {op : BinaryOp} {l r x : Expr} {span : Span}
    (h : identity op l r span = some x) : x = l ∨ x = r ∨ ∃ c : Constant, x = c.toExpr span := by
  cases simpler_of_identity h with
  | left => exact Or.inl rfl
  | right => exact Or.inr (Or.inl rfl)
  | zeroRight | zeroLeft => exact Or.inr (Or.inr ⟨_, rfl⟩)

lemma binary_eq_some {op : BinaryOp} {l r x : Expr} {span : Span}
    (h : binary op l r span = some x) : x = l ∨ x = r ∨ ∃ c : Constant, x = c.toExpr span := by
  unfold binary at h
  split at h
  · obtain ⟨c, -, rfl⟩ := Option.map_eq_some_iff.mp h
    exact Or.inr (Or.inr ⟨c, rfl⟩)
  · obtain ⟨c, -, rfl⟩ := Option.map_eq_some_iff.mp h
    exact Or.inr (Or.inr ⟨c, rfl⟩)
  · exact identity_eq_some h

lemma unary_eq_some {op : UnaryOp} {e x : Expr} {span : Span} (h : unary op e span = some x) :
    ∃ c : Constant, x = c.toExpr span := by
  obtain ⟨c, -, rfl⟩ := Option.map_eq_some_iff.mp h
  exact ⟨c, rfl⟩

lemma ternary_eq_some {c y n x : Expr} (h : ternary c y n = some x) : x = y ∨ x = n := by
  obtain ⟨b, -, rfl⟩ := Option.map_eq_some_iff.mp h
  cases b
  · exact Or.inr rfl
  · exact Or.inl rfl

end Fold

namespace Expr

lemma fold_leaf {e : Expr} (he : e.isLeaf = true) : e.fold = pure e := by
  cases e <;> first | rfl | cases he

lemma foldList_value (es : List Expr) : (foldList es).value = es.map fun e => e.fold.value := by
  induction es with
  | nil => rfl
  | cons e es ih => simp [foldList, ih]

lemma foldEntries_value (es : List (Expr × Expr)) :
    (foldEntries es).value = es.map fun e => (e.1.fold.value, e.2.fold.value) := by
  induction es with
  | nil => rfl
  | cons e es ih => simp [foldEntries, ih]

lemma foldList_eq_pure {es : List Expr} (h : ∀ e ∈ es, e.IsFolded) : foldList es = pure es := by
  induction es with
  | nil => rfl
  | cons e es ih =>
    rw [List.forall_mem_cons] at h
    have he : e.fold = pure e := h.1
    simp [foldList, he, ih h.2]

lemma foldEntries_eq_pure {es : List (Expr × Expr)} (h : ∀ e ∈ es, e.1.IsFolded ∧ e.2.IsFolded) :
    foldEntries es = pure es := by
  induction es with
  | nil => rfl
  | cons e es ih =>
    obtain ⟨k, v⟩ := e
    rw [List.forall_mem_cons] at h
    have hk : k.fold = pure k := h.1.1
    have hv : v.fold = pure v := h.1.2
    simp [foldEntries, hk, hv, ih h.2]

/-- **Folding twice is folding once.** -/
theorem isFolded_fold (e : Expr) : e.fold.value.IsFolded := by
  refine Expr.Inductive.holds (P := fun e => e.fold.value.IsFolded) ?_ e
  constructor
  case leaf =>
    intro e he
    rw [fold_leaf he]
    exact fold_leaf he
  case binary =>
    intro m op l r hl hr
    simp only [fold, Edit.bind_value, Fold.orElse_value]
    cases h : Fold.binary op l.fold.value r.fold.value m.span with
    | none =>
      -- no rule applies to the folded sides, so none applies again
      unfold IsFolded at hl hr ⊢
      simp [fold, hl, hr, h]
    | some x =>
      rcases Fold.binary_eq_some h with rfl | rfl | ⟨c, rfl⟩
      · exact hl
      · exact hr
      · exact Fold.isFolded_toExpr _ c
  case unary =>
    intro m op e he
    simp only [fold, Edit.bind_value, Fold.orElse_value]
    cases h : Fold.unary op e.fold.value m.span with
    | none =>
      unfold IsFolded at he ⊢
      simp [fold, he, h]
    | some x =>
      obtain ⟨c, rfl⟩ := Fold.unary_eq_some h
      exact Fold.isFolded_toExpr _ c
  case ternary =>
    intro m c y n hc hy hn
    simp only [fold, Edit.bind_value, Fold.orElse_value]
    cases h : Fold.ternary c.fold.value y.fold.value n.fold.value with
    | none =>
      unfold IsFolded at hc hy hn ⊢
      simp [fold, hc, hy, hn, h]
    | some x =>
      rcases Fold.ternary_eq_some h with rfl | rfl
      · exact hy
      · exact hn
  case step | member | exprLambda =>
    intro m a e he
    unfold IsFolded at he ⊢
    simp [fold, he]
  case call =>
    intro m f args target hf hargs
    have hlist : ∀ e ∈ (foldList args).value, e.IsFolded := by
      simpa [foldList_value] using hargs
    unfold IsFolded at hf ⊢
    simp [fold, hf, foldList_eq_pure hlist]
  case subscript =>
    intro m o i ho hi
    unfold IsFolded at ho hi ⊢
    simp [fold, ho, hi]
  case array =>
    intro m es hes
    have hlist : ∀ e ∈ (foldList es).value, e.IsFolded := by
      simpa [foldList_value] using hes
    unfold IsFolded
    simp [fold, foldList_eq_pure hlist]
  case dictionary =>
    intro m es hes
    have hlist : ∀ e ∈ (foldEntries es).value, e.1.IsFolded ∧ e.2.IsFolded := by
      rw [foldEntries_value]
      intro e he
      obtain ⟨p, hp, rfl⟩ := List.mem_map.mp he
      exact hes p hp
    unfold IsFolded
    simp [fold, foldEntries_eq_pure hlist]
  case blockLambda =>
    intro m head block body
    rfl

/-- Folding makes no new blocks. -/
theorem blocks_fold_subset (e : Expr) : e.fold.value.blocks ⊆ e.blocks := by
  refine Expr.Inductive.holds (P := fun e => e.fold.value.blocks ⊆ e.blocks) ?_ e
  constructor
  case leaf =>
    intro e he
    rw [fold_leaf he]
    exact List.Subset.refl _
  case binary =>
    intro m op l r hl hr
    simp only [fold, Edit.bind_value, Fold.orElse_value]
    cases h : Fold.binary op l.fold.value r.fold.value m.span with
    | none => exact append_subset_append hl hr
    | some x =>
      rcases Fold.binary_eq_some h with rfl | rfl | ⟨c, rfl⟩
      · exact List.subset_append_of_subset_left _ hl
      · exact List.subset_append_of_subset_right _ hr
      · simp [Fold.blocks_toExpr]
  case unary =>
    intro m op e he
    simp only [fold, Edit.bind_value, Fold.orElse_value]
    cases h : Fold.unary op e.fold.value m.span with
    | none => exact he
    | some x =>
      obtain ⟨c, rfl⟩ := Fold.unary_eq_some h
      simp [Fold.blocks_toExpr]
  case ternary =>
    intro m c y n hc hy hn
    simp only [fold, Edit.bind_value, Fold.orElse_value]
    cases h : Fold.ternary c.fold.value y.fold.value n.fold.value with
    | none => exact append_subset_append (append_subset_append hc hy) hn
    | some x =>
      rcases Fold.ternary_eq_some h with rfl | rfl
      · exact List.subset_append_of_subset_left _ (List.subset_append_of_subset_right _ hy)
      · exact List.subset_append_of_subset_right _ hn
  case step | member | exprLambda =>
    intro m a e he
    exact he
  case call =>
    intro m f args target hf hargs
    simp only [fold, Edit.bind_value, Edit.pure_value, collect,
      Collector.blocks_add, foldList_value]
    refine append_subset_append hf fun b hb => ?_
    simp only [mem_collectList, List.mem_map] at hb ⊢
    obtain ⟨e', ⟨e, he, rfl⟩, hb⟩ := hb
    exact ⟨e, he, hargs e he hb⟩
  case subscript =>
    intro m o i ho hi
    exact append_subset_append ho hi
  case array =>
    intro m es hes b hb
    simp only [fold, Edit.bind_value, Edit.pure_value, collect, Collector.blocks_add,
      foldList_value, mem_collectList, List.mem_map] at hb ⊢
    obtain ⟨e', ⟨e, he, rfl⟩, hb⟩ := hb
    exact ⟨e, he, hes e he hb⟩
  case dictionary =>
    intro m es hes b hb
    simp only [fold, Edit.bind_value, Edit.pure_value, collect, Collector.blocks_add,
      foldEntries_value, mem_collectEntries, List.mem_map] at hb ⊢
    obtain ⟨e', ⟨e, he, rfl⟩, hb⟩ := hb
    exact ⟨e, he, hb.imp (fun h => (hes e he).1 h) (fun h => (hes e he).2 h)⟩
  case blockLambda =>
    intro m head block body
    exact List.Subset.refl _

/-! ### What folding looks at -/

section Inner

variable (g : BlockEdit)

@[simp] lemma mark_editBlocks (e : Expr) : (e.editBlocks g).value.mark = e.mark := by
  cases e <;> rfl

@[simp] lemma constant?_editBlocks (e : Expr) :
    (e.editBlocks g).value.constant? = e.constant? := by
  cases e <;> rfl

@[simp] lemma number?_editBlocks (e : Expr) : (e.editBlocks g).value.number? = e.number? := by
  cases e <;> rfl

@[simp] lemma boolean?_editBlocks (e : Expr) :
    (e.editBlocks g).value.boolean? = e.boolean? := by
  cases e <;> rfl

lemma anyHasEffects_editBlocks {es : List Expr}
    (ih : ∀ e ∈ es, (e.editBlocks g).value.hasEffects = e.hasEffects) :
    anyHasEffects (editBlocksList g es).value = anyHasEffects es := by
  induction es with
  | nil => rfl
  | cons e es ihes =>
    rw [List.forall_mem_cons] at ih
    simp [editBlocksList, anyHasEffects, ih.1, ihes ih.2]

lemma entriesHaveEffects_editBlocks {es : List (Expr × Expr)}
    (ih : ∀ e ∈ es, (e.1.editBlocks g).value.hasEffects = e.1.hasEffects ∧
      (e.2.editBlocks g).value.hasEffects = e.2.hasEffects) :
    entriesHaveEffects (editBlocksEntries g es).value = entriesHaveEffects es := by
  induction es with
  | nil => rfl
  | cons e es ihes =>
    obtain ⟨k, v⟩ := e
    rw [List.forall_mem_cons] at ih
    simp [editBlocksEntries, entriesHaveEffects, ih.1.1, ih.1.2, ihes ih.2]

@[simp] lemma hasEffects_editBlocks (e : Expr) :
    (e.editBlocks g).value.hasEffects = e.hasEffects := by
  refine Expr.Inductive.holds
    (P := fun e => (e.editBlocks g).value.hasEffects = e.hasEffects) ?_ e
  constructor
  case leaf =>
    intro e he
    rw [editBlocks_leaf he]
    rfl
  case binary =>
    intro m op l r hl hr
    simp [editBlocks, hasEffects, hl, hr]
  case unary =>
    intro m op e he
    simp [editBlocks, hasEffects, he]
  case step => intros; rfl
  case ternary =>
    intro m c y n hc hy hn
    simp [editBlocks, hasEffects, hc, hy, hn]
  case call => intros; rfl
  case member =>
    intro m o n ho
    simp [editBlocks, hasEffects, ho]
  case subscript =>
    intro m o i ho hi
    simp [editBlocks, hasEffects, ho, hi]
  case array =>
    intro m es hes
    exact anyHasEffects_editBlocks g hes
  case dictionary =>
    intro m es hes
    exact entriesHaveEffects_editBlocks g hes
  case blockLambda => intros; rfl
  case exprLambda => intros; rfl

end Inner

end Expr

namespace Fold

variable (g : BlockEdit)

lemma toExpr_editBlocks (c : Constant) (span : Span) :
    ((c.toExpr span).editBlocks g).value = c.toExpr span := by
  cases c <;> rfl

lemma identity_editBlocks (op : BinaryOp) (l r : Expr) (span : Span) :
    identity op (l.editBlocks g).value (r.editBlocks g).value span =
      (identity op l r span).map fun e => (e.editBlocks g).value := by
  have hnum (v : Float) (e : Expr) : isNumber v (e.editBlocks g).value = isNumber v e := by
    simp [isNumber]
  have htype (e : Expr) : isNumeric (e.editBlocks g).value = isNumeric e := by
    simp [isNumeric]
  unfold identity
  simp only [hnum, htype, Expr.hasEffects_editBlocks]
  cases op <;> simp only [Option.map_none]
  all_goals split_ifs <;> rfl

/-- What an operator is folded to depends on its operands only through what no edit of blocks
touches, and the blocks are edited in what it is folded to. -/
lemma binary_editBlocks (op : BinaryOp) (l r : Expr) (span : Span) :
    binary op (l.editBlocks g).value (r.editBlocks g).value span =
      (binary op l r span).map fun e => (e.editBlocks g).value := by
  unfold binary
  rw [Expr.constant?_editBlocks, Expr.constant?_editBlocks]
  split
  · cases op.onNumbers _ _ <;> simp [toExpr_editBlocks]
  · cases op.onBooleans _ _ <;> simp [toExpr_editBlocks]
  · exact identity_editBlocks g op l r span

lemma unary_editBlocks (op : UnaryOp) (e : Expr) (span : Span) :
    unary op (e.editBlocks g).value span =
      (unary op e span).map fun e => (e.editBlocks g).value := by
  unfold unary
  rw [Expr.constant?_editBlocks]
  cases e.constant?.bind op.onConstant <;> simp [toExpr_editBlocks]

lemma ternary_editBlocks (c y n : Expr) :
    ternary (c.editBlocks g).value (y.editBlocks g).value (n.editBlocks g).value =
      (ternary c y n).map fun e => (e.editBlocks g).value := by
  unfold ternary
  rw [Expr.boolean?_editBlocks]
  cases c.boolean? with
  | none => rfl
  | some b => cases b <;> rfl

end Fold

namespace Expr

variable {g : BlockEdit}

/-- Folding and the edit of blocks can be done in either order, and folding reports the same. -/
def FoldCommutes (g : BlockEdit) (e : Expr) : Prop :=
  (e.editBlocks g).value.fold.value = (e.fold.value.editBlocks g).value ∧
    (e.editBlocks g).value.fold.changed = e.fold.changed

lemma foldList_editBlocks {es : List Expr} (ih : ∀ e ∈ es, e.FoldCommutes g) :
    (foldList (editBlocksList g es).value).value = (editBlocksList g (foldList es).value).value ∧
      (foldList (editBlocksList g es).value).changed = (foldList es).changed := by
  induction es with
  | nil => exact ⟨rfl, rfl⟩
  | cons e es ihes =>
    rw [List.forall_mem_cons] at ih
    obtain ⟨⟨hv, hc⟩, hes⟩ := ih
    simp [foldList, editBlocksList, hv, hc, ihes hes]

lemma foldEntries_editBlocks {es : List (Expr × Expr)}
    (ih : ∀ e ∈ es, e.1.FoldCommutes g ∧ e.2.FoldCommutes g) :
    (foldEntries (editBlocksEntries g es).value).value =
        (editBlocksEntries g (foldEntries es).value).value ∧
      (foldEntries (editBlocksEntries g es).value).changed = (foldEntries es).changed := by
  induction es with
  | nil => exact ⟨rfl, rfl⟩
  | cons e es ihes =>
    obtain ⟨k, v⟩ := e
    rw [List.forall_mem_cons] at ih
    obtain ⟨⟨⟨hkv, hkc⟩, hvv, hvc⟩, hes⟩ := ih
    simp [foldEntries, editBlocksEntries, hkv, hkc, hvv, hvc, ihes hes]

theorem foldCommutes (g : BlockEdit) (e : Expr) : e.FoldCommutes g := by
  refine Expr.Inductive.holds (P := FoldCommutes g) ?_ e
  constructor
  case leaf =>
    intro e he
    unfold FoldCommutes
    rw [fold_leaf he, editBlocks_leaf he]
    simp [fold_leaf he, editBlocks_leaf he]
  case binary =>
    rintro m op l r ⟨hlv, hlc⟩ ⟨hrv, hrc⟩
    unfold FoldCommutes
    simp only [editBlocks, fold, Edit.bind_value, Edit.bind_changed, Edit.pure_value,
      Fold.orElse_value, Fold.orElse_changed, hlv, hlc, hrv, hrc, Fold.binary_editBlocks,
      Option.isSome_map, and_true]
    cases Fold.binary op l.fold.value r.fold.value m.span <;> rfl
  case unary =>
    rintro m op e ⟨hv, hc⟩
    unfold FoldCommutes
    simp only [editBlocks, fold, Edit.bind_value, Edit.bind_changed, Edit.pure_value,
      Fold.orElse_value, Fold.orElse_changed, hv, hc, Fold.unary_editBlocks, Option.isSome_map,
      and_true]
    cases Fold.unary op e.fold.value m.span <;> rfl
  case ternary =>
    rintro m c y n ⟨hcv, hcc⟩ ⟨hyv, hyc⟩ ⟨hnv, hnc⟩
    unfold FoldCommutes
    simp only [editBlocks, fold, Edit.bind_value, Edit.bind_changed, Edit.pure_value,
      Fold.orElse_value, Fold.orElse_changed, hcv, hcc, hyv, hyc, hnv, hnc,
      Fold.ternary_editBlocks, Option.isSome_map, and_true]
    cases Fold.ternary c.fold.value y.fold.value n.fold.value <;> rfl
  case step | member | exprLambda =>
    rintro m a e ⟨hv, hc⟩
    simp [FoldCommutes, editBlocks, fold, hv, hc]
  case call =>
    rintro m f args target ⟨hv, hc⟩ hargs
    simp [FoldCommutes, editBlocks, fold, hv, hc, foldList_editBlocks hargs]
  case subscript =>
    rintro m o i ⟨hov, hoc⟩ ⟨hiv, hic⟩
    simp [FoldCommutes, editBlocks, fold, hov, hoc, hiv, hic]
  case array =>
    intro m es hes
    simp [FoldCommutes, editBlocks, fold, foldList_editBlocks hes]
  case dictionary =>
    intro m es hes
    simp [FoldCommutes, editBlocks, fold, foldEntries_editBlocks hes]
  case blockLambda =>
    intro m head block body
    exact ⟨rfl, rfl⟩

lemma IsFolded.editBlocks {e : Expr} (h : e.IsFolded) (g : BlockEdit) :
    (e.editBlocks g).value.IsFolded := by
  obtain ⟨hv, hc⟩ := foldCommutes g e
  have he : e.fold = pure e := h
  rw [he] at hv hc
  exact Edit.eq_pure_iff.mpr ⟨hv, hc⟩

end Expr
end MiddleEnd
