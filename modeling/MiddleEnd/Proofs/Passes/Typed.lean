import MiddleEnd.Proofs.Check.Complete
import MiddleEnd.Proofs.Tree.Collect
import MiddleEnd.Proofs.Passes.Fold

/-!
Constant folding respects the types that the analysis has found. A folded expression has the type
that it had; only where nothing was known of it, it may get the type of the branch of a ternary that
was selected in it.
-/

namespace MiddleEnd

/-! ### Literals carry their types -/

def Constant.type : Constant → TypeId
  | .number _ => .number
  | .boolean _ => .boolean

lemma Constant.mark_toExpr (c : Constant) (span : Span) :
    (c.toExpr span).mark = { span, type := some c.type } := by
  cases c <;> rfl

lemma BinaryOp.type_onNumbers {op : BinaryOp} {a b : Float} {c : Constant}
    (h : op.onNumbers a b = some c) :
    c.type = if op.isArithmetic then .number else .boolean := by
  cases op with
  | divide | modulo =>
    simp only [onNumbers] at h
    split at h <;> cases h
    rfl
  | and | or => cases h
  | _ =>
    cases h
    rfl

lemma BinaryOp.type_onBooleans {op : BinaryOp} {a b : Bool} {c : Constant}
    (h : op.onBooleans a b = some c) : op.isArithmetic = false ∧ c.type = .boolean := by
  cases op <;> cases h <;> exact ⟨rfl, rfl⟩

lemma UnaryOp.type_onConstant {op : UnaryOp} {b c : Constant} (h : op.onConstant b = some c) :
    c.type = b.type := by
  cases op <;> cases b <;> cases h <;> rfl

variable {a : Analysis}

/-- All nodes of the expression pass the check of their own. -/
def Expr.Checked (a : Analysis) (e : Expr) : Prop := ∀ n ∈ e.nodes, n.Checks a

namespace Expr

lemma Checked.root {e : Expr} (h : e.Checked a) : e.Checks a := h _ e.mem_nodes_self

lemma Checked.binary {m : Mark} {op : BinaryOp} {l r : Expr} (h : (binary m op l r).Checked a) :
    l.Checked a ∧ r.Checked a := by
  simp only [Checked, collect, Collector.nodes_add, List.forall_mem_cons,
    List.forall_mem_append] at h
  exact h.2

lemma Checked.ternary {m : Mark} {c y n : Expr} (h : (ternary m c y n).Checked a) :
    c.Checked a ∧ y.Checked a ∧ n.Checked a := by
  simp only [Checked, collect, Collector.nodes_add, List.forall_mem_cons,
    List.forall_mem_append] at h
  exact ⟨h.2.1.1, h.2.1.2, h.2.2⟩

lemma Checked.unary {m : Mark} {op : UnaryOp} {e : Expr} (h : (unary m op e).Checked a) :
    e.Checked a :=
  (List.forall_mem_cons.mp h).2

/-- An expression that is a literal has the type of the literal. -/
def LiteralTyped (e : Expr) : Prop := ∀ c, e.constant? = some c → e.mark.type = some c.type

lemma literalTyped_toExpr (c : Constant) (span : Span) : (c.toExpr span).LiteralTyped := by
  intro c' hc'
  cases c <;> cases hc' <;> rfl

/-- What is left of an expression by folding is no literal, or one with its own type. -/
lemma Checked.literalTyped {e : Expr} (h : e.Checked a) : e.fold.value.LiteralTyped := by
  revert h
  refine Expr.Inductive.holds (P := fun e => e.Checked a → e.fold.value.LiteralTyped) ?_ e
  constructor
  case leaf =>
    intro e he h c hc
    rw [fold_leaf he] at hc ⊢
    have hroot := h.root
    cases e <;> cases hc <;> exact hroot
  case binary =>
    intro m op l r hl hr h
    simp only [fold, Edit.bind_value, Fold.orElse_value]
    cases hx : Fold.binary op l.fold.value r.fold.value m.span with
    | none => exact fun c hc => by cases hc
    | some x =>
      rcases Fold.binary_eq_some hx with rfl | rfl | ⟨c, rfl⟩
      · exact hl h.binary.1
      · exact hr h.binary.2
      · exact literalTyped_toExpr c _
  case unary =>
    intro m op e he h
    simp only [fold, Edit.bind_value, Fold.orElse_value]
    cases hx : Fold.unary op e.fold.value m.span with
    | none => exact fun c hc => by cases hc
    | some x =>
      obtain ⟨c, rfl⟩ := Fold.unary_eq_some hx
      exact literalTyped_toExpr c _
  case ternary =>
    intro m c y n hc hy hn h
    simp only [fold, Edit.bind_value, Fold.orElse_value]
    cases hx : Fold.ternary c.fold.value y.fold.value n.fold.value with
    | none => exact fun c hc => by cases hc
    | some x =>
      rcases Fold.ternary_eq_some hx with rfl | rfl
      · exact hy h.ternary.2.1
      · exact hn h.ternary.2.2
  -- nothing else folds to a literal
  all_goals
    intros
    intro c hc
    cases hc

end Expr

/-! ### The type of what is left -/

namespace Expr

lemma type_of_mark {e : Expr} {t : TypeId} (h : e.mark.type = some t) : e.type = t := by
  rw [type, h]
  rfl

lemma LiteralTyped.type {e : Expr} {c : Constant} (h : e.LiteralTyped)
    (hc : e.constant? = some c) : e.type = c.type :=
  type_of_mark (h c hc)

lemma LiteralTyped.type_number {e : Expr} (h : e.LiteralTyped) (he : e.number?.isSome = true) :
    e.type = .number := by
  cases e with
  | number m v => exact h.type rfl
  | _ => cases he

end Expr

namespace Fold

lemma type_of_isNumeric {e : Expr} (h : isNumeric e = true) : e.type = .number :=
  Expr.type_of_mark (of_decide_eq_true h)

/-- Where an identity applies, the left operand is known to be a number, and so is what is left. -/
lemma type_of_simpler {op : BinaryOp} {l r x : Expr} {span : Span} (hl : l.LiteralTyped)
    (h : Simpler op l r span x) : x.type = l.type := by
  cases h with
  | left => rfl
  | right hlit hnum => rw [hl.type_number hlit, type_of_isNumeric hnum]
  | zeroRight _ _ hnum => rw [type_of_isNumeric hnum]; rfl
  | zeroLeft _ hlit => rw [hl.type_number (isSome_of_isNumber hlit)]; rfl

lemma isArithmetic_of_identity {op : BinaryOp} {l r x : Expr} {span : Span}
    (h : identity op l r span = some x) : op.isArithmetic = true := by
  cases op with
  | add | subtract | multiply | divide => rfl
  | _ => cases h

/-- What an operator is folded to has the type of the left operand, or it is true or false. -/
lemma type_of_binary {op : BinaryOp} {l r x : Expr} {span : Span} (hl : l.LiteralTyped)
    (h : binary op l r span = some x) :
    x.type = if op.isArithmetic then l.type else .boolean := by
  unfold binary at h
  split at h
  · rename_i hlit _
    obtain ⟨c, hc, rfl⟩ := Option.map_eq_some_iff.mp h
    rw [hl.type hlit, Expr.type, c.mark_toExpr]
    exact BinaryOp.type_onNumbers hc
  · obtain ⟨c, hc, rfl⟩ := Option.map_eq_some_iff.mp h
    obtain ⟨hop, htype⟩ := BinaryOp.type_onBooleans hc
    rw [hop, Expr.type, c.mark_toExpr, htype]
    rfl
  · rw [isArithmetic_of_identity h, type_of_simpler hl (simpler_of_identity h)]
    rfl

lemma type_of_unary {op : UnaryOp} {e x : Expr} {span : Span} (he : e.LiteralTyped)
    (h : unary op e span = some x) : x.type = e.type := by
  obtain ⟨c, hc, rfl⟩ := Option.map_eq_some_iff.mp h
  obtain ⟨b, hb, hop⟩ := Option.bind_eq_some_iff.mp hc
  rw [he.type hb, Expr.type, c.mark_toExpr]
  exact UnaryOp.type_onConstant hop

end Fold

/-- A type that compares as the same as a basic type is that type. -/
lemma TypeTable.WellFormed.eq_basic {t : TypeTable} (ht : t.WellFormed) {id b : TypeId}
    {f : TypeForm} (hf : f.basicId? = some b) (hid : t.Registered id)
    (h : t.sameType id b = true) : id = b := by
  have hleaf : t.Unfolds b (.leaf b) :=
    .leaf (form?_basic t hf) (by cases f <;> first | rfl | cases hf)
  obtain ⟨x, hx⟩ := ht.exists_unfolds hid
  rw [ht.sameType_iff hx hleaf] at h
  subst h
  cases hx
  rfl

/-! ### Refinement -/

/-- The expression gets the type of a selected branch: it is a ternary whose condition is folded to
a literal, or an operator that takes its type from such an operand. -/
inductive Expr.Refines : Expr → TypeId → Prop where
  | selected {m : Mark} {c y n : Expr} {b : Bool} (hc : c.fold.value.boolean? = some b) :
      Refines (.ternary m c y n) (if b then y.fold.value else n.fold.value).type
  | left {m : Mark} {op : BinaryOp} {l r : Expr} {t : TypeId} (hop : op.isArithmetic = true)
      (hl : l.Refines t) : Refines (.binary m op l r) t
  | operand {m : Mark} {op : UnaryOp} {e : Expr} {t : TypeId} (he : e.Refines t) :
      Refines (.unary m op e) t

/-- Folding keeps the type of the expression, or refines it where nothing was known. -/
def Expr.KeepsType (t : TypeTable) (e : Expr) : Prop :=
  t.sameType e.type e.fold.value.type = true ∨ e.type = .any ∧ e.Refines e.fold.value.type

def Node.Annotated : Node → Prop
  | .expr e => e.mark.type.isSome = true
  | _ => True

lemma Node.Complete.annotated {n : Node} (h : n.Complete a) : n.Annotated := by
  cases n with
  | expr e =>
    obtain ⟨⟨t, ht, -⟩, -⟩ := h
    rw [Node.Annotated, ht]
    rfl
  | stmt | chain => trivial

/-- Folding keeps the type of the expression, and leaves an expression with a type that is there
and with annotations at all its nodes. -/
structure Expr.FoldsTyped (t : TypeTable) (e : Expr) : Prop where
  keeps : e.KeepsType t
  registered : t.Registered e.fold.value.type
  annotated : ∀ n ∈ e.fold.value.nodes, n.Annotated

namespace Expr

lemma Complete.registered {e : Expr} (h : e.Complete a) : a.types.Registered e.type := by
  obtain ⟨⟨t, ht, hreg⟩, -⟩ := h
  rwa [type_of_mark ht]

/-- A node that stays keeps its type. -/
lemma FoldsTyped.of_mark {e : Expr} (h : e.Complete a) (hmark : e.fold.value.mark = e.mark)
    (hparts : ∀ n ∈ e.fold.value.nodes, n = .expr e.fold.value ∨ n.Annotated) :
    e.FoldsTyped a.types := by
  have htype : e.fold.value.type = e.type := by rw [type, type, hmark]
  refine ⟨Or.inl (htype ▸ TypeTable.sameType_refl _ _), htype ▸ h.registered, fun n hn => ?_⟩
  rcases hparts n hn with rfl | hn
  · have hroot : (Node.expr e).Annotated := Node.Complete.annotated h
    rwa [Node.Annotated, ← hmark] at hroot
  · exact hn

lemma annotated_foldList {t : TypeTable} {es : List Expr} (h : ∀ e ∈ es, e.FoldsTyped t) :
    ∀ n ∈ nodesList (foldList es).value, n.Annotated := by
  induction es with
  | nil => exact List.forall_mem_nil _
  | cons e es ih =>
    rw [List.forall_mem_cons] at h
    exact List.forall_mem_append.mpr ⟨h.1.annotated, ih h.2⟩

lemma annotated_foldEntries {t : TypeTable} {es : List (Expr × Expr)}
    (h : ∀ e ∈ es, e.1.FoldsTyped t ∧ e.2.FoldsTyped t) :
    ∀ n ∈ collectEntries .nodes () (foldEntries es).value, n.Annotated := by
  induction es with
  | nil => exact List.forall_mem_nil _
  | cons e es ih =>
    rw [List.forall_mem_cons] at h
    exact List.forall_mem_append.mpr
      ⟨List.forall_mem_append.mpr ⟨h.1.1.annotated, h.1.2.annotated⟩, ih h.2⟩

lemma annotated_toExpr (c : Constant) (span : Span) :
    ∀ n ∈ (c.toExpr span).nodes, n.Annotated := by
  cases c <;> exact List.forall_mem_singleton.mpr rfl

lemma registered_toExpr (t : TypeTable) (c : Constant) (span : Span) :
    t.Registered (c.toExpr span).type := by
  cases c
  · exact ⟨.number, rfl⟩
  · exact ⟨.boolean, rfl⟩

/-! ### Operators -/

lemma FoldsTyped.binary {m : Mark} {op : BinaryOp} {l r : Expr} (hl : l.FoldsTyped a.types)
    (hr : r.FoldsTyped a.types) (h : (binary m op l r).Checked a)
    (hcomplete : (Expr.binary m op l r).Complete a) :
    (Expr.binary m op l r).FoldsTyped a.types := by
  have htype : (Expr.binary m op l r).type = if op.isArithmetic then l.type else .boolean :=
    type_of_mark h.root
  cases hx : Fold.binary op l.fold.value r.fold.value m.span with
  | none =>
    have hvalue : (Expr.binary m op l r).fold.value = .binary m op l.fold.value r.fold.value := by
      simp [fold, hx]
    refine .of_mark hcomplete (by rw [hvalue]; rfl) ?_
    rw [hvalue, nodes, collect, Collector.nodes_add, List.forall_mem_cons, List.forall_mem_append]
    exact ⟨Or.inl rfl, fun n hn => Or.inr (hl.annotated n hn),
      fun n hn => Or.inr (hr.annotated n hn)⟩
  | some x =>
    have hvalue : (Expr.binary m op l r).fold.value = x := by simp [fold, hx, Fold.orElse_value]
    have hxtype := Fold.type_of_binary h.binary.1.literalTyped hx
    -- an arithmetic operation has the type of its left side, any other is a boolean
    have hkeeps : (Expr.binary m op l r).KeepsType a.types := by
      unfold KeepsType
      rw [htype, hvalue, hxtype]
      by_cases hop : op.isArithmetic = true
      · rw [if_pos hop, if_pos hop]
        exact hl.keeps.imp_right fun hany => ⟨hany.1, .left hop hany.2⟩
      · rw [if_neg hop, if_neg hop]
        exact Or.inl (TypeTable.sameType_refl _ _)
    refine ⟨hkeeps, ?_, ?_⟩ <;> rw [hvalue] <;>
      rcases Fold.binary_eq_some hx with rfl | rfl | ⟨c, rfl⟩
    · exact hl.registered
    · exact hr.registered
    · exact registered_toExpr _ c _
    · exact hl.annotated
    · exact hr.annotated
    · exact annotated_toExpr c _

lemma FoldsTyped.unary {m : Mark} {op : UnaryOp} {e : Expr} (he : e.FoldsTyped a.types)
    (h : (unary m op e).Checked a) (hcomplete : (Expr.unary m op e).Complete a) :
    (Expr.unary m op e).FoldsTyped a.types := by
  have htype : (Expr.unary m op e).type = e.type := type_of_mark h.root.1
  cases hx : Fold.unary op e.fold.value m.span with
  | none =>
    have hvalue : (Expr.unary m op e).fold.value = .unary m op e.fold.value := by simp [fold, hx]
    refine .of_mark hcomplete (by rw [hvalue]; rfl) ?_
    rw [hvalue, nodes, collect, Collector.nodes_add, List.forall_mem_cons]
    exact ⟨Or.inl rfl, fun n hn => Or.inr (he.annotated n hn)⟩
  | some x =>
    have hvalue : (Expr.unary m op e).fold.value = x := by simp [fold, hx, Fold.orElse_value]
    have hxtype := Fold.type_of_unary h.unary.literalTyped hx
    obtain ⟨c, rfl⟩ := Fold.unary_eq_some hx
    refine ⟨?_, hvalue ▸ registered_toExpr _ c _, hvalue ▸ annotated_toExpr c _⟩
    unfold KeepsType
    rw [htype, hvalue, hxtype]
    exact he.keeps.imp_right fun hany => ⟨hany.1, .operand hany.2⟩

/-- The type of a ternary is that of both branches or `Any`, so the selected branch keeps it. -/
lemma FoldsTyped.ternary {m : Mark} {c y n : Expr} (ht : a.types.WellFormed)
    (hc : c.FoldsTyped a.types) (hy : y.FoldsTyped a.types) (hn : n.FoldsTyped a.types)
    (hyreg : a.types.Registered y.type) (hnreg : a.types.Registered n.type)
    (h : (ternary m c y n).Checked a) (hcomplete : (Expr.ternary m c y n).Complete a) :
    (Expr.ternary m c y n).FoldsTyped a.types := by
  have htype : (Expr.ternary m c y n).type =
      if a.types.sameType y.type n.type then y.type else .any := type_of_mark h.root.2
  cases hb : c.fold.value.boolean? with
  | none =>
    have hvalue : (Expr.ternary m c y n).fold.value =
        .ternary m c.fold.value y.fold.value n.fold.value := by simp [fold, Fold.ternary, hb]
    refine .of_mark hcomplete (by rw [hvalue]; rfl) ?_
    rw [hvalue, nodes, collect, Collector.nodes_add, List.forall_mem_cons, List.forall_mem_append,
      List.forall_mem_append]
    exact ⟨Or.inl rfl, ⟨fun n hn => Or.inr (hc.annotated n hn),
      fun n hn => Or.inr (hy.annotated n hn)⟩, fun d hd => Or.inr (hn.annotated d hd)⟩
  | some b =>
    have hvalue : (Expr.ternary m c y n).fold.value = if b then y.fold.value else n.fold.value := by
      simp [fold, Fold.ternary, hb, Fold.orElse_value]
    have hrefines := Refines.selected (m := m) (y := y) (n := n) hb
    refine ⟨?_, ?_, ?_⟩
    · unfold KeepsType
      rw [htype, hvalue]
      by_cases hsame : a.types.sameType y.type n.type = true
      · rw [if_pos hsame]
        cases b with
        | true => exact hy.keeps.imp_right fun hany => ⟨hany.1, hrefines⟩
        | false =>
          -- the annotation is the type of the first branch, which is that of the second as well
          refine hn.keeps.imp (fun hkeeps => ?_) fun hany => ⟨?_, hrefines⟩
          · exact ht.sameType_equivalence.trans (x := ⟨_, hyreg⟩) (y := ⟨_, hnreg⟩)
              (z := ⟨_, hn.registered⟩) hsame hkeeps
          · rw [hany.1] at hsame
            exact ht.eq_basic (f := .any) rfl hyreg hsame
      · -- branches of different types: the annotation is any, and the branch taken is more precise
        rw [if_neg hsame]
        exact Or.inr ⟨rfl, hrefines⟩
    · rw [hvalue]
      cases b
      · exact hn.registered
      · exact hy.registered
    · rw [hvalue]
      cases b
      · exact hn.annotated
      · exact hy.annotated

lemma foldsTyped (ht : a.types.WellFormed) {e : Expr} (h : e.Checked a)
    (hcomplete : ∀ n ∈ e.nodes, n.Complete a) : e.FoldsTyped a.types := by
  revert h hcomplete
  refine Expr.Inductive.holds (P := fun e => e.Checked a → (∀ n ∈ e.nodes, n.Complete a) →
    e.FoldsTyped a.types) ?_ e
  constructor
  case leaf =>
    intro e he _ hcomplete
    refine .of_mark (hcomplete _ e.mem_nodes_self) (by rw [fold_leaf he]; rfl) fun n hn => ?_
    rw [fold_leaf he] at hn
    exact Or.inr (hcomplete n hn).annotated
  case binary =>
    intro m op l r hl hr h hcomplete
    simp only [collect, Collector.nodes_add, List.forall_mem_cons,
      List.forall_mem_append] at hcomplete
    obtain ⟨hroot, hcl, hcr⟩ := hcomplete
    exact .binary (hl h.binary.1 hcl) (hr h.binary.2 hcr) h hroot
  case unary =>
    intro m op e he h hcomplete
    obtain ⟨hroot, hce⟩ := List.forall_mem_cons.mp hcomplete
    exact .unary (he h.unary hce) h hroot
  case ternary =>
    intro m c y n hc hy hn h hcomplete
    simp only [collect, Collector.nodes_add, List.forall_mem_cons,
      List.forall_mem_append] at hcomplete
    obtain ⟨hroot, ⟨hcc, hcy⟩, hcn⟩ := hcomplete
    obtain ⟨h1, h2, h3⟩ := h.ternary
    exact .ternary ht (hc h1 hcc) (hy h2 hcy) (hn h3 hcn) (hcy _ y.mem_nodes_self).registered
      (hcn _ n.mem_nodes_self).registered h hroot
  case step | member | exprLambda =>
    intro m x e he h hcomplete
    obtain ⟨hroot, hce⟩ := List.forall_mem_cons.mp hcomplete
    have hkept := he (List.forall_mem_cons.mp h).2 hce
    exact .of_mark hroot rfl (List.forall_mem_cons.mpr
      ⟨Or.inl rfl, fun n hn => Or.inr (hkept.annotated n hn)⟩)
  case call =>
    intro m f args target hf hargs h hcomplete
    simp only [Checked, collect, Collector.nodes_add, List.forall_mem_cons,
      List.forall_mem_append] at h hcomplete
    have hkf := hf h.2.1 hcomplete.2.1
    have hkargs : ∀ e ∈ args, e.FoldsTyped a.types := fun e he =>
      hargs e he (fun n hn => h.2.2 n (mem_collectList.mpr ⟨e, he, hn⟩))
        fun n hn => hcomplete.2.2 n (mem_collectList.mpr ⟨e, he, hn⟩)
    refine .of_mark hcomplete.1 rfl (List.forall_mem_cons.mpr ⟨Or.inl rfl, ?_⟩)
    exact List.forall_mem_append.mpr ⟨fun n hn => Or.inr (hkf.annotated n hn),
      fun n hn => Or.inr (annotated_foldList hkargs n hn)⟩
  case subscript =>
    intro m o i ho hi h hcomplete
    simp only [Checked, collect, Collector.nodes_add, List.forall_mem_cons,
      List.forall_mem_append] at h hcomplete
    have hko := ho h.2.1 hcomplete.2.1
    have hki := hi h.2.2 hcomplete.2.2
    refine .of_mark hcomplete.1 rfl (List.forall_mem_cons.mpr ⟨Or.inl rfl, ?_⟩)
    exact List.forall_mem_append.mpr
      ⟨fun n hn => Or.inr (hko.annotated n hn), fun n hn => Or.inr (hki.annotated n hn)⟩
  case array =>
    intro m es hes h hcomplete
    obtain ⟨hroot, hcomplete⟩ := List.forall_mem_cons.mp hcomplete
    have hkes : ∀ e ∈ es, e.FoldsTyped a.types := fun e he =>
      hes e he (fun n hn => (List.forall_mem_cons.mp h).2 n (mem_collectList.mpr ⟨e, he, hn⟩))
        fun n hn => hcomplete n (mem_collectList.mpr ⟨e, he, hn⟩)
    exact .of_mark hroot rfl (List.forall_mem_cons.mpr
      ⟨Or.inl rfl, fun n hn => Or.inr (annotated_foldList hkes n hn)⟩)
  case dictionary =>
    intro m es hes h hcomplete
    obtain ⟨hroot, hcomplete⟩ := List.forall_mem_cons.mp hcomplete
    have hkes : ∀ e ∈ es, e.1.FoldsTyped a.types ∧ e.2.FoldsTyped a.types := by
      intro e he
      have inside (n : Node) (hn : n ∈ e.1.nodes ∨ n ∈ e.2.nodes) :
          n ∈ collectEntries .nodes () es := mem_collectEntries.mpr ⟨e, he, hn⟩
      have hchecks := (List.forall_mem_cons.mp h).2
      exact ⟨(hes e he).1 (fun n hn => hchecks n (inside n (Or.inl hn)))
          fun n hn => hcomplete n (inside n (Or.inl hn)),
        (hes e he).2 (fun n hn => hchecks n (inside n (Or.inr hn)))
          fun n hn => hcomplete n (inside n (Or.inr hn))⟩
    exact .of_mark hroot rfl (List.forall_mem_cons.mpr
      ⟨Or.inl rfl, fun n hn => Or.inr (annotated_foldEntries hkes n hn)⟩)
  case blockLambda =>
    intro m head block body _ hcomplete
    -- the body of a lambda is not folded with the expression
    exact .of_mark (hcomplete _ List.mem_cons_self) rfl fun n hn =>
      Or.inr (hcomplete n hn).annotated

end Expr

/-- **Folding respects types.** Take any expression of a program that is accepted. After folding it
has a type, and so have all expressions that are left in it. The type is the same as before unless
nothing was known of the expression; then it may be that of a branch selected in it, which operators
around the ternary pass on. -/
theorem fold_respects_types (p q : Program) (a : Analysis) (h : analyze p = .ok (q, a)) (e : Expr)
    (he : .expr e ∈ q.nodes) :
    ∃ t t', e.mark.type = some t ∧ e.fold.value.mark.type = some t' ∧
      (t = .any ∨ a.types.sameType t t' = true) ∧
      (a.types.sameType t t' = false → e.Refines t') ∧
      ∀ n ∈ e.fold.value.nodes, n.Annotated := by
  obtain ⟨Ω, hrun, rfl⟩ := analyze_eq_ok.mp h
  have hsub := q.nodes_subset he
  have hchecked : e.Checked Ω.analysis := fun n hn =>
    Check.settled_program (Session.consistent_start _) hrun n (hsub hn)
  have hcomplete : ∀ n ∈ e.nodes, n.Complete Ω.analysis := fun n hn =>
    (Check.completes_program hrun).1 n (hsub hn)
  obtain ⟨hkeeps, -, hannotated⟩ := Expr.foldsTyped
    (Check.sorted_program hrun).1.types.wellFormed hchecked hcomplete
  obtain ⟨t, ht⟩ := Option.isSome_iff_exists.mp (hcomplete _ e.mem_nodes_self).annotated
  obtain ⟨t', ht'⟩ := Option.isSome_iff_exists.mp (hannotated _ e.fold.value.mem_nodes_self)
  unfold Expr.KeepsType at hkeeps
  rw [Expr.type_of_mark ht, Expr.type_of_mark ht'] at hkeeps
  refine ⟨t, t', ht, ht', hkeeps.symm.imp_left And.left, fun hdiffer => ?_, hannotated⟩
  rcases hkeeps with hsame | hrefines
  · cases hdiffer.symm.trans hsame
  · exact hrefines.2

/-- The expression `-(!false ? 3 : "three")`, of which nothing is known before it is folded. -/
def wavering : Expr :=
  .unary {} .negate (.ternary {} (.unary {} .not (.boolean {} false)) (.number {} 3)
    (.string {} "three"))

/-- The same expression when it has been analyzed. -/
def waveringTyped : Expr :=
  .unary { type := some .any } .negate (.ternary { type := some .any }
    (.unary { type := some .boolean } .not (.boolean { type := some .boolean } false))
    (.number { type := some .number } 3) (.string { type := some .string } "three"))

/-- Folding makes a number of it, and it gets its type from the selected branch. -/
theorem fold_respects_wavering : ∃ a, analyze { stmts := [.expr wavering] } =
      .ok ({ stmts := [.expr waveringTyped] }, a) ∧
    .expr waveringTyped ∈ ({ stmts := [.expr waveringTyped] } : Program).nodes ∧
    waveringTyped.type = .any ∧
    waveringTyped.fold.value = .number { type := some .number } (-3) ∧
    waveringTyped.Refines .number ∧ ∀ n ∈ waveringTyped.fold.value.nodes, n.Annotated := by
  have hmem : .expr waveringTyped ∈ ({ stmts := [.expr waveringTyped] } : Program).nodes :=
    List.mem_cons_of_mem _ List.mem_cons_self
  refine ⟨_, rfl, hmem, rfl, rfl, ?_⟩
  obtain ⟨_, _, ⟨⟩, ⟨⟩, -, hrefines, hannotated⟩ :=
    fold_respects_types { stmts := [.expr wavering] } _ _ rfl waveringTyped hmem
  exact ⟨hrefines rfl, hannotated⟩

end MiddleEnd
