import MiddleEnd.Proofs.Passes.Reports
import MiddleEnd.Proofs.Passes.Typed

/-!
Constant folding against evaluation. An expression of literals has a value if all the operators that
are evaluated in it have one. Folding finds this value, and a literal that it leaves is the value of
the expression, unless a factor without a value was left out next to a zero.
-/

namespace MiddleEnd

/-! ### Evaluation -/

/-- The value of an operator on two constants: arithmetic and comparisons are of numbers, `and` and
`or` of truth values, and equality of two constants of one kind. -/
def BinaryOp.value? : BinaryOp → Constant → Constant → Option Constant
  | .add, .number a, .number b => some (.number (a + b))
  | .subtract, .number a, .number b => some (.number (a - b))
  | .multiply, .number a, .number b => some (.number (a * b))
  | .divide, .number a, .number b => if b == 0 then none else some (.number (a / b))
  | .modulo, .number a, .number b => if b == 0 then none else some (.number (remainder a b))
  | .power, .number a, .number b => some (.number (a.pow b))
  | .less, .number a, .number b => some (.boolean (a < b))
  | .lessEqual, .number a, .number b => some (.boolean (a ≤ b))
  | .greater, .number a, .number b => some (.boolean (b < a))
  | .greaterEqual, .number a, .number b => some (.boolean (b ≤ a))
  | .equal, .number a, .number b => some (.boolean (a == b))
  | .equal, .boolean a, .boolean b => some (.boolean (a == b))
  | .notEqual, .number a, .number b => some (.boolean (a != b))
  | .notEqual, .boolean a, .boolean b => some (.boolean (a != b))
  | .and, .boolean a, .boolean b => some (.boolean (a && b))
  | .or, .boolean a, .boolean b => some (.boolean (a || b))
  | _, _, _ => none

def UnaryOp.value? : UnaryOp → Constant → Option Constant
  | .negate, .number v => some (.number (-v))
  | .not, .boolean v => some (.boolean !v)
  | _, _ => none

def Constant.isZero : Constant → Bool
  | .number v => v == 0
  | .boolean _ => false

namespace Expr

/-- The value of an expression of literals. Both operands of an operator are evaluated, and of the
branches of a ternary the selected one. There is none if an operator has no value on its operands,
or if something else than a literal, an operator or a ternary has to be evaluated. -/
def eval? : Expr → Option Constant
  | .number _ v => some (.number v)
  | .boolean _ v => some (.boolean v)
  | .unary _ op e => e.eval?.bind op.value?
  | .binary _ op l r => l.eval?.bind fun a => r.eval?.bind (op.value? a)
  | .ternary _ c y n =>
    match c.eval? with
    | some (.boolean true) => y.eval?
    | some (.boolean false) => n.eval?
    | _ => none
  | _ => none

def mayBeNumber (e : Expr) : Bool := e.type = .number || e.type = .any

/-- The first factor is zero, and the second may be a number but has no value. -/
def absorbs (zero other : Expr) : Bool :=
  zero.eval?.any (·.isZero) && other.eval?.isNone && other.mayBeNumber

/-- Evaluating the expression meets a product of zero and a factor without a value. -/
def hidesFault : Expr → Bool
  | .unary _ _ e => e.hidesFault
  | .binary _ op l r =>
    l.hidesFault || r.hidesFault || op == .multiply && (l.absorbs r || r.absorbs l)
  | .ternary _ c y n =>
    c.hidesFault ||
      match c.eval? with
      | some (.boolean true) => y.hidesFault
      | some (.boolean false) => n.hidesFault
      | _ => false
  | _ => false

end Expr

/-! ### The tables of the folder -/

namespace BinaryOp

lemma onNumbers_eq_value? (op : BinaryOp) (a b : Float) :
    op.onNumbers a b = op.value? (.number a) (.number b) := by
  cases op <;> rfl

lemma onBooleans_eq_value? (op : BinaryOp) (a b : Bool) :
    op.onBooleans a b = op.value? (.boolean a) (.boolean b) := by
  cases op <;> rfl

/-- On operands of two kinds no operator has a value. -/
lemma value?_mixed (op : BinaryOp) (a : Float) (b : Bool) :
    op.value? (.number a) (.boolean b) = none ∧ op.value? (.boolean b) (.number a) = none := by
  cases op <;> exact ⟨rfl, rfl⟩

end BinaryOp

lemma UnaryOp.onConstant_eq_value? (op : UnaryOp) (c : Constant) :
    op.onConstant c = op.value? c := by
  cases op <;> cases c <;> rfl

/-! ### Folding finds the value -/

namespace Expr

lemma constant?_toExpr (c : Constant) (span : Span) : (c.toExpr span).constant? = some c := by
  cases c <;> rfl

lemma boolean?_eq_some {e : Expr} {b : Bool} :
    e.boolean? = some b ↔ e.constant? = some (.boolean b) := by
  cases e <;> simp [boolean?, constant?]

end Expr

namespace Fold

lemma binary_of_constants {op : BinaryOp} {l r : Expr} {a b c : Constant} {span : Span}
    (hl : l.constant? = some a) (hr : r.constant? = some b) (h : op.value? a b = some c) :
    binary op l r span = some (c.toExpr span) := by
  unfold binary
  rw [hl, hr]
  rcases a with a | a <;> rcases b with b | b
  · exact Option.map_eq_some_iff.mpr ⟨c, (op.onNumbers_eq_value? a b).trans h, rfl⟩
  · rw [(op.value?_mixed a b).1] at h
    cases h
  · rw [(op.value?_mixed b a).2] at h
    cases h
  · exact Option.map_eq_some_iff.mpr ⟨c, (op.onBooleans_eq_value? a b).trans h, rfl⟩

/-- An operator is folded to the value on its operands, or by an identity. -/
lemma value?_or_simpler {op : BinaryOp} {l r x : Expr} {c : Constant} {span : Span}
    (h : binary op l r span = some x) (hx : x.constant? = some c) :
    (∃ a b, l.constant? = some a ∧ r.constant? = some b ∧ op.value? a b = some c) ∨
      Simpler op l r span x ∧
        ∀ a b, l.constant? = some (.number a) → r.constant? = some (.number b) → False := by
  unfold binary at h
  split at h
  · rename_i a b hl hr
    obtain ⟨d, hd, rfl⟩ := Option.map_eq_some_iff.mp h
    rw [Expr.constant?_toExpr] at hx
    rw [op.onNumbers_eq_value?] at hd
    exact Or.inl ⟨_, _, hl, hr, hd.trans hx⟩
  · rename_i a b hl hr
    obtain ⟨d, hd, rfl⟩ := Option.map_eq_some_iff.mp h
    rw [Expr.constant?_toExpr] at hx
    rw [op.onBooleans_eq_value?] at hd
    exact Or.inl ⟨_, _, hl, hr, hd.trans hx⟩
  · rename_i hnumbers _
    exact Or.inr ⟨simpler_of_identity h, hnumbers⟩

end Fold

namespace Expr

lemma eval?_ternary {m : Mark} {c y n : Expr} {d : Constant} :
    (ternary m c y n).eval? = some d ↔
      ∃ b, c.eval? = some (.boolean b) ∧ (if b then y.eval? else n.eval?) = some d := by
  simp only [eval?]
  split
  · rename_i hc
    simp [hc]
  · rename_i hc
    simp [hc]
  · rename_i htrue hfalse
    refine ⟨fun h => (by cases h), fun ⟨b, hb, _⟩ => ?_⟩
    cases b
    · exact (hfalse hb).elim
    · exact (htrue hb).elim

lemma value_fold_ternary {m : Mark} {c y n : Expr} {b : Bool}
    (h : c.fold.value.constant? = some (.boolean b)) :
    (ternary m c y n).fold.value = if b then y.fold.value else n.fold.value := by
  simp [fold, Fold.ternary, boolean?_eq_some.mpr h, Fold.orElse_value]

/-- An expression that has a value is folded to the literal of the value. -/
lemma constant?_fold_of_eval? {e : Expr} {c : Constant} (h : e.eval? = some c) :
    e.fold.value.constant? = some c := by
  revert c
  refine Expr.Inductive.holds (P := fun e => ∀ {c}, e.eval? = some c →
    e.fold.value.constant? = some c) ?_ e
  constructor
  case leaf =>
    intro e he c h
    rw [fold_leaf he]
    cases e with
    | number | string | boolean | null | name | self => exact h
    | _ => cases he
  case binary =>
    intro m op l r hl hr c h
    obtain ⟨a, ha, h⟩ := Option.bind_eq_some_iff.mp h
    obtain ⟨b, hb, h⟩ := Option.bind_eq_some_iff.mp h
    have hx : Fold.binary op l.fold.value r.fold.value m.span = some (c.toExpr m.span) :=
      Fold.binary_of_constants (hl ha) (hr hb) h
    simp only [fold, Edit.bind_value, Fold.orElse_value, hx, Option.getD_some, constant?_toExpr]
  case unary =>
    intro m op e he c h
    obtain ⟨b, hb, h⟩ := Option.bind_eq_some_iff.mp h
    rw [← op.onConstant_eq_value?] at h
    simp only [fold, Edit.bind_value, Fold.orElse_value, Fold.unary, he hb, Option.bind_some, h,
      Option.map_some, Option.getD_some, constant?_toExpr]
  case ternary =>
    intro m c y n hc hy hn d h
    obtain ⟨b, hb, h⟩ := eval?_ternary.mp h
    rw [value_fold_ternary (hc hb)]
    cases b
    · exact hn h
    · exact hy h
  -- nothing else has a value
  all_goals
    intros
    rename_i h
    cases h

lemma changed_fold_of_eval? {e : Expr} {c : Constant} (h : e.eval? = some c) :
    e.fold.changed = e.constant?.isNone := by
  cases hc : e.constant? with
  | none =>
    by_contra hchanged
    have hsame : e.fold.value = e := e.fold_shrinks.same (Bool.eq_false_iff.mpr hchanged)
    have hlit := constant?_fold_of_eval? h
    rw [hsame, hc] at hlit
    cases hlit
  | some d =>
    cases e with
    | number | boolean => rfl
    | _ => cases hc

end Expr

/-- **An expression with a value folds to it at once.** Whatever types are noted in it and whatever
stands in the branches that are not selected, folding once leaves the literal of the value. It
reports a change exactly if the expression was no literal, and leaves nothing to fold. -/
theorem folds_to_value (e : Expr) (c : Constant) (h : e.eval? = some c) :
    e.fold.value.constant? = some c ∧ e.fold.changed = e.constant?.isNone ∧
      e.fold.value.fold = pure e.fold.value :=
  ⟨Expr.constant?_fold_of_eval? h, Expr.changed_fold_of_eval? h, e.isFolded_fold⟩

/-- The expression `((!(2 < 1) && true) == (false || 3 != 4)) != false ?
(false ? f(1 / 0) : 7) - -4 : x / true`, with a wrong type at one of its operators. -/
def sheltered : Expr :=
  .ternary {} (.binary {} .notEqual
      (.binary {} .equal
        (.binary {} .and (.unary {} .not (.binary {} .less (.number {} 2) (.number {} 1)))
          (.boolean {} true))
        (.binary {} .or (.boolean {} false) (.binary {} .notEqual (.number {} 3) (.number {} 4))))
      (.boolean {} false))
    (.binary { type := some .boolean } .subtract
      (.ternary {} (.boolean {} false)
        (.call {} (.name {} "f") [.binary {} .divide (.number {} 1) (.number {} 0)] none)
        (.number {} 7))
      (.unary {} .negate (.number {} 4)))
    (.binary {} .divide (.name {} "x") (.boolean {} true))

/-- Neither the call nor the division in the branches that are not selected is in the way. -/
theorem folds_to_value_sheltered : sheltered.eval? = some (.number (7 - -4)) ∧
    sheltered.fold.value.constant? = some (.number (7 - -4)) ∧ sheltered.fold.changed = true ∧
    sheltered.fold.value.fold = pure sheltered.fold.value := by
  have h : sheltered.eval? = some (.number (7 - -4)) := rfl
  exact ⟨h, folds_to_value sheltered _ h⟩

namespace Expr

/-! ### The literal is the value -/

variable {a : Analysis}

/-- What folding takes for a number may be one, by the type that it had. -/
lemma mayBeNumber_of_isNumeric (ht : a.types.WellFormed) {e : Expr} (h : e.Checked a)
    (hcomplete : ∀ n ∈ e.nodes, n.Complete a) (hnum : Fold.isNumeric e.fold.value = true) :
    e.mayBeNumber = true := by
  unfold mayBeNumber
  rw [Bool.or_eq_true, decide_eq_true_iff, decide_eq_true_iff]
  refine (foldsTyped ht h hcomplete).keeps.imp (fun hsame => ?_) And.left
  rw [Fold.type_of_isNumeric hnum] at hsame
  exact ht.eq_basic (f := .number) rfl (hcomplete _ e.mem_nodes_self).registered hsame

/-- A literal that is known to be a number is one. -/
lemma LiteralTyped.eq_number {e : Expr} {c : Constant} (h : e.LiteralTyped)
    (hnum : Fold.isNumeric e = true) (hc : e.constant? = some c) : ∃ v, c = .number v := by
  have htype := (h.type hc).symm.trans (Fold.type_of_isNumeric hnum)
  cases c with
  | number v => exact ⟨v, rfl⟩
  | boolean v => cases htype

lemma constant?_of_isNumber {e : Expr} {v : Float} (h : Fold.isNumber v e = true) :
    ∃ u, e.constant? = some (.number u) ∧ (u == v) = true := by
  cases e with
  | number m u => exact ⟨u, rfl, h⟩
  | _ => cases h

lemma constant?_of_number? {e : Expr} (h : e.number?.isSome = true) :
    ∃ u, e.constant? = some (.number u) := by
  cases e with
  | number m u => exact ⟨u, rfl⟩
  | _ => cases h

/-- Where the zero product leaves out a factor, this factor has no value. -/
lemma absorbs_of_fold (ht : a.types.WellFormed) {zero other : Expr} (h : other.Checked a)
    (hcomplete : ∀ n ∈ other.nodes, n.Complete a)
    (hzero : ∀ c, zero.fold.value.constant? = some c → zero.eval? = some c)
    (hv : Fold.isNumber 0 zero.fold.value = true) (hnum : Fold.isNumeric other.fold.value = true)
    (hnumbers : ∀ u v, zero.fold.value.constant? = some (.number u) →
      other.fold.value.constant? = some (.number v) → False) :
    zero.absorbs other = true := by
  obtain ⟨u, hu, hu0⟩ := constant?_of_isNumber hv
  have hnone : other.eval? = none := by
    by_contra hsome
    obtain ⟨c, hc⟩ := Option.ne_none_iff_exists'.mp hsome
    have hc := constant?_fold_of_eval? hc
    obtain ⟨v, rfl⟩ := h.literalTyped.eq_number hnum hc
    exact hnumbers u v hu hc
  simp only [absorbs, hzero _ hu, hnone, mayBeNumber_of_isNumeric ht h hcomplete hnum,
    Option.any_some, Constant.isZero, hu0, Option.isNone_none, Bool.and_self]

/-- A literal that folding leaves is the value of the expression, unless a factor without a value
was left out. -/
lemma eval?_of_constant?_fold (ht : a.types.WellFormed) {e : Expr} {c : Constant}
    (h : e.Checked a) (hcomplete : ∀ n ∈ e.nodes, n.Complete a) (hfault : e.hidesFault = false)
    (hc : e.fold.value.constant? = some c) : e.eval? = some c := by
  revert c h hcomplete hfault
  refine Expr.Inductive.holds (P := fun e => ∀ {c}, e.Checked a → (∀ n ∈ e.nodes, n.Complete a) →
    e.hidesFault = false → e.fold.value.constant? = some c → e.eval? = some c) ?_ e
  constructor
  case leaf =>
    intro e he c _ _ _ hc
    rw [fold_leaf he] at hc
    cases e with
    | number | string | boolean | null | name | self => exact hc
    | _ => cases he
  case binary =>
    intro m op l r hl hr c h hcomplete hfault hc
    simp only [collect, Collector.nodes_add, List.forall_mem_cons,
      List.forall_mem_append] at hcomplete
    obtain ⟨-, hcl, hcr⟩ := hcomplete
    obtain ⟨h1, h2⟩ := h.binary
    simp only [hidesFault, Bool.or_eq_false_iff] at hfault
    obtain ⟨⟨hfl, hfr⟩, hproduct⟩ := hfault
    simp only [fold, Edit.bind_value, Fold.orElse_value] at hc
    cases hx : Fold.binary op l.fold.value r.fold.value m.span with
    | none =>
      rw [hx] at hc
      cases hc
    | some x =>
      rw [hx] at hc
      rcases Fold.value?_or_simpler hx hc with ⟨u, v, hu, hv, hop⟩ | ⟨hsimpler, hnumbers⟩
      · -- both sides are constants
        simp only [eval?, hl h1 hcl hfl hu, hr h2 hcr hfr hv, Option.bind_some, hop]
      · cases hsimpler with
        | left hlit hnum =>
          -- the side that is left is a number too, so the table would have been asked first
          obtain ⟨v, rfl⟩ := h1.literalTyped.eq_number hnum hc
          obtain ⟨u, hu⟩ := constant?_of_number? hlit
          exact (hnumbers v u hc hu).elim
        | right hlit hnum =>
          obtain ⟨v, rfl⟩ := h2.literalTyped.eq_number hnum hc
          obtain ⟨u, hu⟩ := constant?_of_number? hlit
          exact (hnumbers u v hu hc).elim
        | zeroRight hop hzero hnum =>
          -- the product drops its other side, which is what `hidesFault` looks for
          have habsorbs := absorbs_of_fold ht h1 hcl (fun _ => hr h2 hcr hfr) hzero hnum
            fun u v hu hv => hnumbers v u hv hu
          simp [hop, habsorbs] at hproduct
        | zeroLeft hop hzero hnum =>
          have habsorbs := absorbs_of_fold ht h2 hcr (fun _ => hl h1 hcl hfl) hzero hnum hnumbers
          simp [hop, habsorbs] at hproduct
  case unary =>
    intro m op e he c h hcomplete hfault hc
    obtain ⟨-, hce⟩ := List.forall_mem_cons.mp hcomplete
    simp only [fold, Edit.bind_value, Fold.orElse_value] at hc
    cases hx : Fold.unary op e.fold.value m.span with
    | none =>
      rw [hx] at hc
      cases hc
    | some x =>
      rw [hx] at hc
      obtain ⟨d, hd, rfl⟩ := Option.map_eq_some_iff.mp hx
      obtain ⟨b, hb, hop⟩ := Option.bind_eq_some_iff.mp hd
      rw [op.onConstant_eq_value?] at hop
      rw [Option.getD_some, constant?_toExpr] at hc
      simp only [eval?, he h.unary hce hfault hb, Option.bind_some, hop, hc]
  case ternary =>
    intro m c y n hc hy hn d h hcomplete hfault hd
    simp only [collect, Collector.nodes_add, List.forall_mem_cons,
      List.forall_mem_append] at hcomplete
    obtain ⟨-, ⟨hcc, hcy⟩, hcn⟩ := hcomplete
    obtain ⟨h1, h2, h3⟩ := h.ternary
    simp only [hidesFault, Bool.or_eq_false_iff] at hfault
    obtain ⟨hfc, hfault⟩ := hfault
    cases hb : c.fold.value.boolean? with
    | none =>
      simp only [fold, Edit.bind_value, Fold.orElse_value, Fold.ternary, hb] at hd
      cases hd
    | some b =>
      have hb := boolean?_eq_some.mp hb
      have hcond := hc h1 hcc hfc hb
      rw [value_fold_ternary hb] at hd
      -- only the side that is taken is asked for hidden faults
      rw [hcond] at hfault
      rw [eval?_ternary]
      refine ⟨b, hcond, ?_⟩
      cases b
      · exact hn h3 hcn hfault hd
      · exact hy h2 hcy hfault hd
  all_goals
    intros
    rename_i h
    cases h

end Expr

/-- **Folding to a literal gives the value.** Take any expression of a program that is accepted. If
folding leaves a literal, then evaluating all that has to be evaluated in the expression succeeds
with this literal, so nothing in it divides by zero or has operands of the wrong kind. It may not be
so only if evaluation meets a product of zero and a factor that has no value. -/
theorem folded_literal_is_value (p q : Program) (a : Analysis) (h : analyze p = .ok (q, a))
    (e : Expr) (he : .expr e ∈ q.nodes) (hfault : e.hidesFault = false) (c : Constant)
    (hc : e.fold.value.constant? = some c) : e.eval? = some c := by
  obtain ⟨Ω, hrun, rfl⟩ := analyze_eq_ok.mp h
  have hsub := q.nodes_subset he
  exact Expr.eval?_of_constant?_fold (Check.sorted_program hrun).1.types.wellFormed
    (fun n hn => Check.settled_program (Session.consistent_start _) hrun n (hsub hn))
    (fun n hn => (Check.completes_program hrun).1 n (hsub hn)) hfault hc

/-- The expression `!(1 / 2 > 3) ? 0 * 5 - 7 : 1 / 0` before and after the analysis. -/
def guarded (number boolean : Mark) : Expr :=
  .ternary number
    (.unary boolean .not (.binary boolean .greater
      (.binary number .divide (.number number 1) (.number number 2)) (.number number 3)))
    (.binary number .subtract (.binary number .multiply (.number number 0) (.number number 5))
      (.number number 7))
    (.binary number .divide (.number number 1) (.number number 0))

/-- A division by zero that is not evaluated does no harm. -/
theorem folded_literal_guarded : ∃ e a, analyze { stmts := [.expr (guarded {} {})] } =
      .ok ({ stmts := [.expr e] }, a) ∧
    .expr e ∈ ({ stmts := [.expr e] } : Program).nodes ∧ e.hidesFault = false ∧
    e.fold.value.constant? = some (.number (-7)) ∧ e.eval? = some (.number (-7)) := by
  let e := guarded { type := some .number } { type := some .boolean }
  have hmem : .expr e ∈ ({ stmts := [.expr e] } : Program).nodes :=
    List.mem_cons_of_mem _ List.mem_cons_self
  have hfault : e.hidesFault = false := rfl
  have hc : e.fold.value.constant? = some (.number (-7)) := rfl
  exact ⟨e, _, rfl, hmem, hfault, hc,
    folded_literal_is_value { stmts := [.expr (guarded {} {})] } _ _ rfl e hmem hfault _ hc⟩

/-- The products `(1 / 0) * 0` and `0 * (1 / true)` before and after the analysis. -/
def hollow (number boolean : Mark) : List Expr :=
  [.binary number .multiply (.binary number .divide (.number number 1) (.number number 0))
      (.number number 0),
    .binary number .multiply (.number number 0)
      (.binary number .divide (.number number 1) (.boolean boolean true))]

/-- The products of zero are folded to zero although the other factor has no value. -/
theorem folded_literal_hollow :
    let es := hollow { type := some .number } { type := some .boolean }
    (∃ a, analyze { stmts := (hollow {} {}).map .expr } = .ok ({ stmts := es.map .expr }, a)) ∧
    ∀ e ∈ es, e.fold.value.constant? = some (.number 0) ∧ e.eval? = none := by
  refine ⟨⟨_, rfl⟩, fun e he => ?_⟩
  rcases List.mem_pair.mp he with rfl | rfl
  · exact ⟨rfl, rfl⟩
  · exact ⟨rfl, rfl⟩

end MiddleEnd
