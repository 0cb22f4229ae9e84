import Mathlib.Data.List.Forall2
import MiddleEnd.Proofs.Check.Run
import MiddleEnd.Proofs.Passes.Settled

/-!
What `++` and `--` write to, before and after constants are folded. An operand that can be written
to stays what it was. But an operand that is a computed value may become a variable, since operators
with an operand that does nothing and ternaries with a known condition are left out around it.
-/

namespace MiddleEnd

/-! ### What is written to -/

/-- What can be written to. -/
inductive Target where
  | variable (name : String)
  | field (name : String)
  | element
  deriving DecidableEq

/-- What is written to where the expression is the operand of `++` or `--`. -/
def Expr.target? : Expr → Option Target
  | .name _ n => some (.variable n)
  | .member _ _ n => some (.field n)
  | .subscript .. => some .element
  | _ => none

/-- An operator that writes to its operand, and whether the passes come by there. -/
structure Write where
  mark : Mark
  op : UnaryOp ⊕ StepOp
  operand : Expr
  reached : Bool

/-- All `++` and `--`, in the order in which they are written. The passes come by there if the state
says so, and do not come by the blocks of the update of a loop. -/
def Collector.writes : Collector Bool Write where
  own reached n :=
    match n with
    | .expr (.unary m op e) => if op.writes then [⟨m, .inl op, e, reached⟩] else []
    | .expr (.step m op e) => [⟨m, .inr op, e, reached⟩]
    | _ => []
  updates := false

abbrev Expr.writes (reached : Bool) (e : Expr) : List Write := e.collect .writes reached

lemma Expr.writes_unary (reached : Bool) (m : Mark) (op : UnaryOp) (e : Expr) :
    (Expr.unary m op e).writes reached =
      (if op.writes then [⟨m, .inl op, e, reached⟩] else []) ++ e.writes reached :=
  Collector.add_eq_append ..

/-- All `++` and `--` in a statement, where the passes come by the expressions that it owns if the
first flag is set, and by its blocks if the second one is. -/
abbrev Stmt.writes (reached inner : Bool) (s : Stmt) : List Write :=
  s.collect .writes inner reached inner

abbrev Stmt.writesList (reached : Bool) (ss : List Stmt) : List Write :=
  Stmt.collectList .writes reached reached ss

abbrev Chain.writes (reached inner : Bool) (ch : Chain) : List Write :=
  ch.collect .writes inner reached inner

/-- All `++` and `--` of a program, in the order in which they are written. -/
def Program.writes (p : Program) : List Write := Stmt.writesList true p.stmts

/-! ### What is left of an operand -/

/-- Next to this number on the right, an operator gives its other operand. -/
def BinaryOp.rightUnit? : BinaryOp → Option Float
  | .add | .subtract => some 0
  | .multiply | .divide => some 1
  | _ => none

/-- Next to this number on the left, an operator gives its other operand. -/
def BinaryOp.leftUnit? : BinaryOp → Option Float
  | .add => some 0
  | .multiply => some 1
  | _ => none

/-- The target is all that is left of the expression without the operators that do nothing and the
branches that are not selected. -/
inductive Expr.Bares : Expr → Target → Prop where
  | target {e : Expr} {k : Target} (h : e.target? = some k) : Bares e k
  | left {m : Mark} {op : BinaryOp} {l r : Expr} {v : Float} {k : Target}
      (hop : op.rightUnit? = some v) (hr : Fold.isNumber v r.fold.value = true)
      (hl : Fold.isNumeric l.fold.value = true) (h : Bares l k) : Bares (.binary m op l r) k
  | right {m : Mark} {op : BinaryOp} {l r : Expr} {v : Float} {k : Target}
      (hop : op.leftUnit? = some v) (hl : Fold.isNumber v l.fold.value = true)
      (hr : Fold.isNumeric r.fold.value = true) (h : Bares r k) : Bares (.binary m op l r) k
  | selected {m : Mark} {c y n : Expr} {b : Bool} {k : Target}
      (hc : c.fold.value.boolean? = some b) (h : Bares (if b then y else n) k) :
      Bares (.ternary m c y n) k

namespace Expr

lemma constant?_of_target? {e : Expr} {k : Target} (h : e.target? = some k) :
    e.constant? = none := by
  cases e <;> first | rfl | cases h

lemma isNumber_of_target? {e : Expr} {k : Target} (h : e.target? = some k) (v : Float) :
    Fold.isNumber v e = false := by
  cases e <;> first | rfl | cases h

@[simp] lemma target?_toExpr (c : Constant) (span : Span) : (c.toExpr span).target? = none := by
  cases c <;> rfl

@[simp] lemma target?_editBlocks (g : BlockEdit) (e : Expr) :
    (e.editBlocks g).value.target? = e.target? := by
  cases e <;> rfl

end Expr

namespace Fold

/-- The operand that an operator gives back, since the other one does nothing. -/
inductive GivesBack (op : BinaryOp) (l r : Expr) : Expr → Prop where
  | left {v : Float} (hop : op.rightUnit? = some v) (hr : isNumber v r = true)
      (hl : isNumeric l = true) : GivesBack op l r l
  | right {v : Float} (hop : op.leftUnit? = some v) (hl : isNumber v l = true)
      (hr : isNumeric r = true) : GivesBack op l r r

lemma binary_of_givesBack {op : BinaryOp} {l r x : Expr} {k : Target} {span : Span}
    (h : GivesBack op l r x) (hx : x.target? = some k) : binary op l r span = some x := by
  cases h with
  | left hop hr hl =>
    have hid : binary op l r span = identity op l r span := by
      simp [binary, Expr.constant?_of_target? hx]
    rw [hid]
    cases op <;> cases hop <;> simp [identity, hr, hl]
  | right hop hl hr =>
    have hid : binary op l r span = identity op l r span := by
      simp [binary, Expr.constant?_of_target? hx]
    rw [hid]
    cases op <;> cases hop <;> simp [identity, hl, hr, Expr.isNumber_of_target? hx]

lemma givesBack_of_identity {op : BinaryOp} {l r x : Expr} {k : Target} {span : Span}
    (h : identity op l r span = some x) (hx : x.target? = some k) : GivesBack op l r x := by
  have left {v : Float} (hop : op.rightUnit? = some v)
      (hc : (isNumber v r && isNumeric l) = true) : GivesBack op l r l := by
    rw [Bool.and_eq_true] at hc
    exact .left hop hc.1 hc.2
  have right {v : Float} (hop : op.leftUnit? = some v)
      (hc : (isNumber v l && isNumeric r) = true) : GivesBack op l r r := by
    rw [Bool.and_eq_true] at hc
    exact .right hop hc.1 hc.2
  cases op with
  | add =>
    simp only [identity] at h
    split_ifs at h with h1 h2 <;> cases h
    · exact left rfl h1
    · exact right rfl h2
  | subtract | divide =>
    simp only [identity] at h
    split_ifs at h with h1
    cases h
    exact left rfl h1
  | multiply =>
    simp only [identity] at h
    split_ifs at h with h1 h2 <;> cases h
    · exact left rfl h1
    · exact right rfl h2
    · -- a product with zero is a number and no target
      cases hx
  | _ => cases h

/-- A literal is not written to, so an operator that is folded to a target gives back an operand. -/
lemma givesBack_of_binary {op : BinaryOp} {l r x : Expr} {k : Target} {span : Span}
    (h : binary op l r span = some x) (hx : x.target? = some k) : GivesBack op l r x := by
  unfold binary at h
  split at h
  · obtain ⟨c, -, rfl⟩ := Option.map_eq_some_iff.mp h
    simp at hx
  · obtain ⟨c, -, rfl⟩ := Option.map_eq_some_iff.mp h
    simp at hx
  · exact givesBack_of_identity h hx

end Fold

namespace Expr

/-- One of the parts may be all that is left of the expression. -/
def mayVanish : Expr → Bool
  | .binary .. | .ternary .. => true
  | _ => false

lemma bares_iff_target? {e : Expr} {k : Target} (he : e.mayVanish = false) :
    e.Bares k ↔ e.target? = some k := by
  refine ⟨fun h => ?_, .target⟩
  cases h with
  | target h => exact h
  | left | right | selected => cases he

/-- Folding leaves a target exactly where one is bared. -/
lemma target?_fold {e : Expr} {k : Target} : e.fold.value.target? = some k ↔ e.Bares k := by
  refine Expr.Inductive.holds (P := fun e => e.fold.value.target? = some k ↔ e.Bares k) ?_ e
  constructor
  case leaf =>
    intro e he
    have hplain : e.mayVanish = false := by
      cases e <;> first | rfl | cases he
    rw [fold_leaf he, bares_iff_target? hplain]
    rfl
  case binary =>
    intro m op l r hl hr
    simp only [fold, Edit.bind_value, Fold.orElse_value]
    constructor
    · intro h
      cases hx : Fold.binary op l.fold.value r.fold.value m.span with
      | none =>
        rw [hx] at h
        cases h
      | some x =>
        rw [hx, Option.getD_some] at h
        cases Fold.givesBack_of_binary hx h with
        | left hop hlit hnum => exact .left hop hlit hnum (hl.mp h)
        | right hop hlit hnum => exact .right hop hlit hnum (hr.mp h)
    · intro h
      cases h with
      | target h => cases h
      | left hop hlit hnum h =>
        have h := hl.mpr h
        rwa [Fold.binary_of_givesBack (.left hop hlit hnum) h, Option.getD_some]
      | right hop hlit hnum h =>
        have h := hr.mpr h
        rwa [Fold.binary_of_givesBack (.right hop hlit hnum) h, Option.getD_some]
  -- an operation folds to a literal at most
  case unary =>
    intro m op e _
    rw [bares_iff_target? rfl]
    simp only [fold, Edit.bind_value, Fold.orElse_value]
    refine ⟨fun h => ?_, fun h => by cases h⟩
    cases hx : Fold.unary op e.fold.value m.span with
    | none =>
      rw [hx] at h
      cases h
    | some x =>
      obtain ⟨c, rfl⟩ := Fold.unary_eq_some hx
      rw [hx, Option.getD_some, target?_toExpr] at h
      cases h
  case ternary =>
    intro m c y n _ hy hn
    simp only [fold, Edit.bind_value, Fold.orElse_value, Fold.ternary]
    constructor
    · intro h
      cases hc : c.fold.value.boolean? with
      | none =>
        rw [hc] at h
        cases h
      | some b =>
        rw [hc] at h
        refine .selected hc ?_
        cases b
        · exact hn.mp h
        · exact hy.mp h
    · intro h
      cases h with
      | target h => cases h
      | selected hc h =>
        rename_i b
        rw [hc]
        cases b
        · exact hn.mpr h
        · exact hy.mpr h
  all_goals
    intros
    rw [bares_iff_target? rfl]
    rfl

end Expr

/-! ### Trees after the pass -/

def Expr.folded (e : Expr) : Expr := (e.editBlocks foldBlock).value.fold.value

def Stmt.folded (s : Stmt) : Stmt := ((s.editBlocks foldBlock).value.editOwned Expr.fold).value

/-- The update of a loop that the pass has reached. Its own blocks are as they were. -/
def Stmt.foldedUpdate (s : Stmt) : Stmt :=
  ((s.editOwnedBlocks foldBlock).value.editOwned Expr.fold).value

def Chain.folded (ch : Chain) : Chain :=
  ((ch.editBlocks foldBlock).value.editConds Expr.fold).value

def Chain.foldedConds (ch : Chain) : Chain :=
  ((ch.editOwnedBlocks foldBlock).value.editConds Expr.fold).value

namespace Expr

lemma target?_folded {e : Expr} {k : Target} : e.folded.target? = some k ↔ e.Bares k := by
  rw [folded, (foldCommutes foldBlock e).1, target?_editBlocks, target?_fold]

lemma foldList_folded (es : List Expr) :
    (foldList (editBlocksList foldBlock es).value).value = es.map folded := by
  induction es with
  | nil => rfl
  | cons e es ih => simp [editBlocksList, foldList, ih, folded]

lemma foldEntries_folded (es : List (Expr × Expr)) :
    (foldEntries (editBlocksEntries foldBlock es).value).value =
      es.map fun e => (e.1.folded, e.2.folded) := by
  induction es with
  | nil => rfl
  | cons e es ih => simp [editBlocksEntries, foldEntries, ih, folded]

lemma foldOption_folded (o : Option Expr) :
    ((editBlocksOption foldBlock o).value.mapM fold).value = o.map folded := by
  cases o <;> rfl

end Expr

namespace Stmt

lemma foldBlock_folded (ss : List Stmt) :
    (foldBlock (editBlocksList foldBlock ss).value).value = ss.map folded := by
  rw [foldBlock_value, editBlocksList_value, List.map_map]
  rfl

lemma editInit_folded (o : Option (VarHead × Option Expr)) :
    (editInit Expr.fold (Expr.editBlocksInit foldBlock o).value).value =
      o.map fun i => (i.1, i.2.map Expr.folded) := by
  rcases o with _ | ⟨head, _ | e⟩ <;> rfl

lemma editUpdate_folded (o : Option Stmt) :
    (editUpdate Expr.fold (editBlocksUpdate foldBlock o).value).value = o.map foldedUpdate := by
  cases o <;> rfl

lemma folded_forLoop (x : Extent) (init : Option (VarHead × Option Expr)) (c : Option Expr)
    (update : Option Stmt) (body : List Stmt) :
    (forLoop x init c update body).folded =
      .forLoop x (init.map fun i => (i.1, i.2.map Expr.folded)) (c.map Expr.folded)
        (update.map foldedUpdate) (body.map folded) := by
  simp only [folded, editBlocks_forLoop, editOwned_forLoop, Edit.bind_value, Edit.pure_value,
    editInit_folded, editUpdate_folded, Expr.foldOption_folded, foldBlock_folded]

lemma foldedUpdate_forLoop (x : Extent) (init : Option (VarHead × Option Expr)) (c : Option Expr)
    (update : Option Stmt) (body : List Stmt) :
    (forLoop x init c update body).foldedUpdate =
      .forLoop x (init.map fun i => (i.1, i.2.map Expr.folded)) (c.map Expr.folded)
        (update.map foldedUpdate) body := by
  simp only [foldedUpdate, editOwnedBlocks_forLoop, editOwned_forLoop, Edit.bind_value,
    Edit.pure_value, editInit_folded, editUpdate_folded, Expr.foldOption_folded]

end Stmt

section

variable (m : Mark) (x : Extent) (e c l r y n f : Expr) (es : List Expr) (body : List Stmt)
  (rest : Chain)

lemma Expr.folded_binary (op : BinaryOp) : (binary m op l r).folded =
    (Fold.binary op l.folded r.folded m.span).getD (.binary m op l.folded r.folded) := by
  simp [folded, editBlocks, fold, Fold.orElse_value]

lemma Expr.folded_unary (op : UnaryOp) : (unary m op e).folded =
    (Fold.unary op e.folded m.span).getD (.unary m op e.folded) := by
  simp [folded, editBlocks, fold, Fold.orElse_value]

lemma Expr.folded_ternary : (ternary m c y n).folded =
    (Fold.ternary c.folded y.folded n.folded).getD (.ternary m c.folded y.folded n.folded) := by
  simp [folded, editBlocks, fold, Fold.orElse_value]

lemma Expr.folded_call (target : Option CallTarget) :
    (call m f es target).folded = .call m f.folded (es.map folded) target := by
  simp [folded, editBlocks, fold, foldList_folded]

lemma Expr.folded_array : (array m es).folded = .array m (es.map folded) := by
  simp [folded, editBlocks, fold, foldList_folded]

lemma Expr.folded_dictionary (es : List (Expr × Expr)) :
    (dictionary m es).folded = .dictionary m (es.map fun e => (e.1.folded, e.2.folded)) := by
  simp [folded, editBlocks, fold, foldEntries_folded]

lemma Expr.folded_blockLambda (head : LambdaHead) (block : Span) :
    (blockLambda m head block body).folded = .blockLambda m head block (body.map Stmt.folded) := by
  simp [folded, editBlocks, fold, Stmt.foldBlock_folded]

lemma Stmt.folded_func (head : FuncHead) :
    (func head body).folded = .func head (body.map folded) := by
  simp [folded, editBlocks, editOwned, foldBlock_folded]

lemma Stmt.folded_cls (head : ClassHead) :
    (cls head body).folded = .cls head (body.map folded) := by
  simp [folded, editBlocks, editOwned, foldBlock_folded]

lemma Stmt.folded_ctor (head : CtorHead) :
    (ctor head body).folded = .ctor head (body.map folded) := by
  simp [folded, editBlocks, editOwned, foldBlock_folded]

lemma Stmt.folded_ifElse : (ifElse x c body rest).folded =
    .ifElse x c.folded (body.map folded) rest.folded := by
  simp [folded, editBlocks, editOwned, foldBlock_folded, Expr.folded, Chain.folded]

lemma Stmt.folded_whileLoop :
    (whileLoop x c body).folded = .whileLoop x c.folded (body.map folded) := by
  simp [folded, editBlocks, editOwned, foldBlock_folded, Expr.folded]

lemma Chain.folded_elseIf : (elseIf x c body rest).folded =
    .elseIf x c.folded (body.map Stmt.folded) rest.folded := by
  simp [folded, editBlocks, editConds, Stmt.foldBlock_folded, Expr.folded]

lemma Chain.folded_otherwise (block : Span) :
    (otherwise block body).folded = .otherwise block (body.map Stmt.folded) := by
  simp [folded, editBlocks, editConds, Stmt.foldBlock_folded]

end

/-! ### The writes that are left -/

/-- What folding makes of a `++` or `--`. Its operand is still the same target if it was one. Where
the pass comes by, it is a target exactly if one was bared, and elsewhere it is what it was. -/
structure Write.FoldsFrom (w' w : Write) : Prop where
  mark : w'.mark = w.mark
  op : w'.op = w.op
  kept : ∀ k, w.operand.target? = some k → w'.operand.target? = some k
  bared : w.reached = true → ∀ k, w'.operand.target? = some k ↔ w.operand.Bares k
  passed : w.reached = false → w' = w

lemma Write.foldsFrom_self {w : Write} (h : w.reached = false) : w.FoldsFrom w :=
  ⟨rfl, rfl, fun _ hk => hk, fun hr => (by rw [h] at hr; cases hr), fun _ => rfl⟩

lemma Write.foldsFrom_folded (m : Mark) (op : UnaryOp ⊕ StepOp) (e : Expr) :
    FoldsFrom ⟨m, op, e.folded, true⟩ ⟨m, op, e, true⟩ :=
  ⟨rfl, rfl, fun _ h => Expr.target?_folded.mpr (.target h), fun _ _ => Expr.target?_folded, nofun⟩

/-- The writes that are left come from writes that were there, in the same order. -/
abbrev WritesFrom (ws' ws : List Write) : Prop := List.SublistForall₂ Write.FoldsFrom ws' ws

lemma Collector.reached_of_mem_own {reached : Bool} {n : Node} {w : Write}
    (hw : w ∈ Collector.writes.own reached n) : w.reached = reached := by
  simp only [Collector.writes] at hw
  split at hw
  · split at hw
    · rw [List.mem_singleton.mp hw]
    · cases hw
  · rw [List.mem_singleton.mp hw]
  · cases hw

namespace WritesFrom

variable {k k' l l' : List Write}

lemma append (hk : WritesFrom k' k) (hl : WritesFrom l' l) : WritesFrom (k' ++ l') (k ++ l) := by
  unfold WritesFrom at hk hl ⊢
  rw [List.sublistForall₂_iff] at hk hl ⊢
  obtain ⟨k1, hk1, hk⟩ := hk
  obtain ⟨l1, hl1, hl⟩ := hl
  exact ⟨k1 ++ l1, List.rel_append hk1 hl1, hk.append hl⟩

lemma left (h : WritesFrom l' k) : WritesFrom l' (k ++ l) := by
  simpa using append h (.nil (l := l))

lemma right (h : WritesFrom l' l) : WritesFrom l' (k ++ l) := append (.nil (l := k)) h

lemma passed (ss : List Stmt) :
    WritesFrom (Stmt.writesList false ss) (Stmt.writesList false ss) := by
  rw [WritesFrom, List.sublistForall₂_iff]
  refine ⟨_, List.forall₂_same.mpr fun w hw => Write.foldsFrom_self ?_, List.Sublist.refl _⟩
  have hreached := Collector.forall_collect (c := .writes) rfl
    (fun n w hw => Collector.reached_of_mem_own (n := n) hw) (fun _ _ hw => nomatch hw)
  rw [Stmt.writesList, Stmt.collectList_eq_flatMap rfl, List.mem_flatMap] at hw
  obtain ⟨s, -, hw⟩ := hw
  exact hreached.stmt_holds s false w hw

/-! ### Parts of nodes -/

lemma exprs {es : List Expr} (hes : ∀ e ∈ es, WritesFrom (e.folded.writes true) (e.writes true)) :
    WritesFrom (Expr.collectList .writes true (es.map Expr.folded))
      (Expr.collectList .writes true es) := by
  induction es with
  | nil => exact .nil
  | cons e es ih =>
    rw [List.forall_mem_cons] at hes
    exact append hes.1 (ih hes.2)

lemma entries {es : List (Expr × Expr)}
    (hes : ∀ e ∈ es, WritesFrom (e.1.folded.writes true) (e.1.writes true) ∧
      WritesFrom (e.2.folded.writes true) (e.2.writes true)) :
    WritesFrom (Expr.collectEntries .writes true (es.map fun e => (e.1.folded, e.2.folded)))
      (Expr.collectEntries .writes true es) := by
  induction es with
  | nil => exact .nil
  | cons e es ih =>
    rw [List.forall_mem_cons] at hes
    exact append (append hes.1.1 hes.1.2) (ih hes.2)

lemma option {o : Option Expr} (ho : ∀ e ∈ o, WritesFrom (e.folded.writes true) (e.writes true)) :
    WritesFrom (Expr.collectOption .writes true (o.map Expr.folded))
      (Expr.collectOption .writes true o) := by
  cases o with
  | none => exact .nil
  | some e => exact ho e rfl

lemma init {o : Option (VarHead × Option Expr)}
    (ho : ∀ i ∈ o, ∀ e ∈ i.2, WritesFrom (e.folded.writes true) (e.writes true)) :
    WritesFrom (Expr.collectInit .writes true (o.map fun i => (i.1, i.2.map Expr.folded)))
      (Expr.collectInit .writes true o) := by
  cases o with
  | none => exact .nil
  | some i => exact option (ho i rfl)

lemma update {o : Option Stmt}
    (ho : ∀ s ∈ o, WritesFrom (s.foldedUpdate.writes true false) (s.writes true false)) :
    WritesFrom (Stmt.collectUpdate .writes true (o.map Stmt.foldedUpdate))
      (Stmt.collectUpdate .writes true o) := by
  cases o with
  | none => exact .nil
  | some s => exact ho s rfl

lemma stmts {ss : List Stmt}
    (hss : ∀ s ∈ ss, WritesFrom (s.folded.writes true true) (s.writes true true)) :
    WritesFrom (Stmt.writesList true (ss.map Stmt.folded)) (Stmt.writesList true ss) := by
  induction ss with
  | nil => exact .nil
  | cons s ss ih =>
    rw [List.forall_mem_cons] at hss
    exact append hss.1 (ih hss.2)

end WritesFrom

namespace Fold

lemma writes_toExpr (c : Constant) (span : Span) (reached : Bool) :
    (c.toExpr span).writes reached = [] := by
  cases c <;> rfl

lemma unary_of_writes {op : UnaryOp} (h : op.writes = true) (e : Expr) (span : Span) :
    unary op e span = none := by
  cases op with
  | increment | decrement =>
    unfold unary
    cases e.constant? <;> rfl
  | negate | not => cases h

end Fold

open WritesFrom in
/-- The writes after the pass come from those before it, for every kind of node. -/
lemma writesFrom_folded : Tree.Inductive
    (fun e => WritesFrom (e.folded.writes true) (e.writes true))
    (fun s => WritesFrom (s.folded.writes true true) (s.writes true true) ∧
      WritesFrom (s.foldedUpdate.writes true false) (s.writes true false))
    (fun ch => WritesFrom (ch.folded.writes true true) (ch.writes true true) ∧
      WritesFrom (ch.foldedConds.writes true false) (ch.writes true false)) where
  leaf e he := by
    cases e with
    | number | string | boolean | null | name | self => exact .nil
    | _ => cases he
  binary m op l r hl hr := by
    rw [Expr.folded_binary]
    cases hx : Fold.binary op l.folded r.folded m.span with
    | none => exact append hl hr
    | some x =>
      rcases Fold.binary_eq_some hx with rfl | rfl | ⟨c, rfl⟩
      · -- the writes of the side that goes are lost
        exact left hl
      · exact right hr
      · rw [Option.getD_some, Fold.writes_toExpr]
        exact .nil
  unary m op e he := by
    rw [Expr.folded_unary]
    cases hop : op.writes with
    | true =>
      -- an operation that writes is not folded away, only what it writes to is folded
      rw [Fold.unary_of_writes hop, Option.getD_none]
      simp only [Expr.writes_unary, hop, if_true]
      exact append (.cons (Write.foldsFrom_folded m (.inl op) e) .nil) he
    | false =>
      cases hx : Fold.unary op e.folded m.span with
      | none => simpa [Expr.writes_unary, hop] using he
      | some x =>
        obtain ⟨c, rfl⟩ := Fold.unary_eq_some hx
        rw [Option.getD_some, Fold.writes_toExpr]
        exact .nil
  step m op e he := .cons (Write.foldsFrom_folded m (.inr op) e) he
  ternary m c y n hc hy hn := by
    rw [Expr.folded_ternary]
    cases hx : Fold.ternary c.folded y.folded n.folded with
    | none => exact append (append hc hy) hn
    | some x =>
      rcases Fold.ternary_eq_some hx with rfl | rfl
      · exact left (right hy)
      · exact right hn
  call m f args target hf hargs := by
    rw [Expr.folded_call]
    exact append hf (exprs hargs)
  member m o n ho := ho
  subscript m o i ho hi := append ho hi
  array m es hes := by
    rw [Expr.folded_array]
    exact exprs hes
  dictionary m es hes := by
    rw [Expr.folded_dictionary]
    exact entries hes
  blockLambda m head block body hbody := by
    rw [Expr.folded_blockLambda]
    exact stmts fun s hs => (hbody s hs).1
  exprLambda m head body hbody := hbody
  var head init hinit := by
    have hvar := option hinit
    cases init <;> exact ⟨hvar, hvar⟩
  assign span t v ht hv := ⟨append ht hv, append ht hv⟩
  func head body hbody := by
    rw [Stmt.folded_func]
    -- at the head of a loop the body is not folded
    exact ⟨stmts fun s hs => (hbody s hs).1, passed body⟩
  cls head ms hms := by
    rw [Stmt.folded_cls]
    exact ⟨stmts fun s hs => (hms s hs).1, passed ms⟩
  ctor head body hbody := by
    rw [Stmt.folded_ctor]
    exact ⟨stmts fun s hs => (hbody s hs).1, passed body⟩
  ifElse x c body rest hc hbody hrest := by
    rw [Stmt.folded_ifElse]
    exact ⟨append (append hc (stmts fun s hs => (hbody s hs).1)) hrest.1,
      append (append hc (passed body)) hrest.2⟩
  whileLoop x c body hc hbody := by
    rw [Stmt.folded_whileLoop]
    exact ⟨append hc (stmts fun s hs => (hbody s hs).1), append hc (passed body)⟩
  forLoop x init c update body hinit hc hupdate hbody := by
    rw [Stmt.folded_forLoop, Stmt.foldedUpdate_forLoop]
    have hheader := append (append (WritesFrom.init hinit) (option hc))
      (WritesFrom.update fun s hs => (hupdate s hs).2)
    exact ⟨append hheader (stmts fun s hs => (hbody s hs).1), append hheader (passed body)⟩
  ret span v hv := by
    have hret := option hv
    cases v <;> exact ⟨hret, hret⟩
  brk span := ⟨.nil, .nil⟩
  expr e he := ⟨he, he⟩
  done := ⟨.nil, .nil⟩
  elseIf x c body rest hc hbody hrest := by
    rw [Chain.folded_elseIf]
    exact ⟨append (append hc (stmts fun s hs => (hbody s hs).1)) hrest.1,
      append (append hc (passed body)) hrest.2⟩
  otherwise block body hbody := by
    rw [Chain.folded_otherwise]
    exact ⟨stmts fun s hs => (hbody s hs).1, passed body⟩

/-- **What `++` and `--` write to after folding.** Those that are left come from those that were
there, in the same order. A variable, field or element that was written to is still written to. An
operand that was none of these has become one exactly if one was bared, except in the blocks of the
updates of loops, where nothing changes. -/
theorem fold_retargets_bared (p : Program) :
    List.SublistForall₂ Write.FoldsFrom (Pass.foldConstants.run p).value.writes p.writes := by
  have hrun : (Pass.foldConstants.run p).value.stmts = p.stmts.map Stmt.folded := by
    simp [Pass.run, Pass.edit, BlockEdit.everywhere, Stmt.foldBlock_folded]
  unfold Program.writes
  rw [hrun]
  exact WritesFrom.stmts fun s _ => (writesFrom_folded.stmt_holds s).1

/-- The program `var x = 1; (x + 0)++`. -/
def disguised : Program where
  stmts := [.var { name := "x" } (some (.number {} 1)),
    .expr (.step {} .increment (.binary {} .add (.name {} "x") (.number {} 0)))]

/-- A computed value is counted up before the pass, and the variable in it afterwards. -/
theorem fold_retargets_disguised : ∃ q a, analyze disguised = .ok (q, a) ∧
    q.writes.map (·.operand.target?) = [none] ∧
    (Pass.foldConstants.run q).value.writes.map (·.operand.target?) = [some (.variable "x")] := by
  have haccepted : (analyze disguised).toOption.map (fun r =>
      (r.1.writes.map (·.operand.target?),
        (Pass.foldConstants.run r.1).value.writes.map (·.operand.target?))) =
          some ([none], [some (.variable "x")]) := by
    decide +kernel
  obtain ⟨r, h, hr⟩ := Except.exists_ok_of_map haccepted
  obtain ⟨hbefore, hafter⟩ := Prod.mk.injEq .. ▸ hr
  exact ⟨r.1, r.2, h, hbefore, hafter⟩

end MiddleEnd
