import MiddleEnd.Proofs.Passes.OneRound

/-!
The reports of the passes are exact. Expressions, statements and blocks are counted; an edit that
reports a change leaves fewer of them, and one that reports none leaves its value alone. Both are
kept when edits follow each other, from the operands of an expression up to the rounds of the
optimizer, so no two changes can cancel each other.
-/

namespace MiddleEnd

/-! ### The size of a tree -/

/-- An entry for each expression, statement and block. -/
def Collector.counts : Collector Unit Unit where
  own _ n :=
    match n with
    | .chain _ => []
    | _ => [()]
  block _ _ := [()]
  updates := ()

namespace Collector

@[simp] lemma counts_expr (e : Expr) (parts : List Unit) :
    counts.add () (.expr e) parts = () :: parts := rfl

@[simp] lemma counts_stmt (s : Stmt) (parts : List Unit) :
    counts.add () (.stmt s) parts = () :: parts := rfl

@[simp] lemma counts_chain (ch : Chain) (parts : List Unit) :
    counts.add () (.chain ch) parts = parts := rfl

@[simp] lemma counts_removal (a : Unit) : counts.removal a = .nothing := rfl

end Collector

/-- The number of expressions, statements and blocks in an expression, itself included. -/
abbrev Expr.size (e : Expr) : Nat := (e.collect .counts ()).length

abbrev Expr.sizeList (es : List Expr) : Nat := (Expr.collectList .counts () es).length

abbrev Expr.sizeEntries (es : List (Expr × Expr)) : Nat :=
  (Expr.collectEntries .counts () es).length

abbrev Expr.sizeOption (o : Option Expr) : Nat := (Expr.collectOption .counts () o).length

abbrev Expr.sizeInit (o : Option (VarHead × Option Expr)) : Nat :=
  (Expr.collectInit .counts () o).length

abbrev Stmt.size (s : Stmt) : Nat := (s.collect .counts () () ()).length

abbrev Stmt.sizeOption (o : Option Stmt) : Nat := (Stmt.collectUpdate .counts () o).length

/-- A block counts one, also if it is empty. -/
abbrev Stmt.blockSize (ss : List Stmt) : Nat := (Stmt.collectBlock .counts () ss).length

abbrev Chain.size (ch : Chain) : Nat := (ch.collect .counts () () ()).length

def Program.size (p : Program) : Nat := Stmt.blockSize p.stmts

lemma Expr.size_always (span : Span) : (Expr.always span).size = 1 := rfl

lemma Stmt.blockSize_nil : Stmt.blockSize [] = 1 := rfl

lemma Stmt.blockSize_cons (s : Stmt) (ss : List Stmt) :
    Stmt.blockSize (s :: ss) = s.size + Stmt.blockSize ss := by
  have hss : Stmt.collectBlock .counts () (s :: ss) =
      () :: (s.collect .counts () () () ++ Stmt.collectList .counts () () ss) := rfl
  rw [Stmt.blockSize, hss, List.length_cons, List.length_append, Nat.add_assoc]
  rfl

lemma Stmt.size_ifElse (x : Extent) (c : Expr) (body : List Stmt) (rest : Chain) :
    (Stmt.ifElse x c body rest).size = c.size + Stmt.blockSize body + rest.size + 1 := by
  simp [Stmt.size, Stmt.collect, Nat.add_assoc]

lemma Chain.size_elseIf (x : Extent) (c : Expr) (body : List Stmt) (rest : Chain) :
    (Chain.elseIf x c body rest).size = c.size + Stmt.blockSize body + rest.size := by
  simp [Chain.size, Chain.collect, Nat.add_assoc]

lemma Chain.size_done : Chain.done.size = 0 := rfl

lemma Chain.size_otherwise (block : Span) (body : List Stmt) :
    (Chain.otherwise block body).size = Stmt.blockSize body := rfl

lemma Stmt.sizeOption_none : Stmt.sizeOption none = 0 := rfl

lemma Stmt.sizeOption_some (s : Stmt) : Stmt.sizeOption (some s) = s.size := rfl

lemma Expr.size_pos (e : Expr) : 0 < e.size := by
  cases e <;> exact Nat.succ_pos _

lemma Stmt.size_pos (s : Stmt) : 0 < s.size := by
  cases s <;> exact Nat.succ_pos _

lemma Stmt.blockSize_pos (ss : List Stmt) : 0 < Stmt.blockSize ss := Nat.succ_pos _

lemma Chain.size_pos {ch : Chain} (h : ch ≠ .done) : 0 < ch.size := by
  cases ch with
  | done => exact absurd rfl h
  | elseIf x c body rest =>
    rw [Chain.size_elseIf]
    have := c.size_pos
    omega
  | otherwise block body => exact Stmt.blockSize_pos body

/-! ### Edits that report what they do -/

namespace Edit

variable {α β : Type} {size : α → Nat} {size' : β → Nat}

/-- Without a report of a change the value is the old one, and with a report it is smaller. -/
structure Shrinks (size : α → Nat) (a : α) (x : Edit α) : Prop where
  same : x.changed = false → x.value = a
  less : x.changed = true → size x.value < size a

/-- The report says whether the value is another one, which is the case exactly if it is
smaller. -/
def Exact (size : α → Nat) (a : α) (x : Edit α) : Prop :=
  (x.changed = true ↔ x.value ≠ a) ∧ (x.changed = true ↔ size x.value < size a)

namespace Shrinks

variable {a : α} {x : Edit α}

lemma exact (h : x.Shrinks size a) : x.Exact size a := by
  constructor
  · constructor
    · intro hc heq
      exact absurd (heq ▸ h.less hc) (Nat.lt_irrefl _)
    · intro hne
      by_contra hc
      exact hne (h.same (Bool.eq_false_iff.mpr hc))
  · constructor
    · exact h.less
    · intro hlt
      by_contra hc
      rw [h.same (Bool.eq_false_iff.mpr hc)] at hlt
      exact Nat.lt_irrefl _ hlt

lemma le (h : x.Shrinks size a) : size x.value ≤ size a := by
  cases hc : x.changed with
  | false => exact Nat.le_of_eq (by rw [h.same hc])
  | true => exact Nat.le_of_lt (h.less hc)

lemma pure (a : α) : (Pure.pure a : Edit α).Shrinks size a := ⟨fun _ => rfl, nofun⟩

lemma replace {b : α} (h : size b < size a) : (Edit.replace b).Shrinks size a :=
  ⟨nofun, fun _ => h⟩

/-- An edit of a part, followed by an edit of the whole `h a` in which the part stands. -/
lemma bind {k : α → Edit β} {h : α → β} (hx : x.Shrinks size a)
    (hk : ∀ b, (k b).Shrinks size' (h b)) (hh : ∀ b, size b < size a → size' (h b) < size' (h a)) :
    (x >>= k).Shrinks size' (h a) := by
  constructor
  · intro hc
    rw [bind_changed, Bool.or_eq_false_iff] at hc
    rw [bind_value, (hk x.value).same hc.2, hx.same hc.1]
  · intro hc
    rw [bind_value]
    cases hx' : x.changed with
    | true => exact Nat.lt_of_le_of_lt (hk x.value).le (hh x.value (hx.less hx'))
    | false =>
      rw [bind_changed, hx', Bool.false_or] at hc
      have hless := (hk x.value).less hc
      rwa [hx.same hx'] at hless ⊢

lemma trans {k : α → Edit α} (hx : x.Shrinks size a) (hk : ∀ b, (k b).Shrinks size b) :
    (x >>= k).Shrinks size a :=
  hx.bind (h := id) hk fun _ hb => hb

lemma map {h : α → β} (hx : x.Shrinks size a)
    (hh : ∀ b, size b < size a → size' (h b) < size' (h a)) :
    (x >>= fun b => Pure.pure (h b)).Shrinks size' (h a) :=
  hx.bind (fun b => pure (h b)) hh

end Shrinks
end Edit

/-! ### Edits of all blocks -/

section Everywhere

variable {f : BlockEdit}

lemma Expr.editBlocksList_shrinks {es : List Expr}
    (ih : ∀ e ∈ es, (e.editBlocks f).Shrinks Expr.size e) :
    (Expr.editBlocksList f es).Shrinks Expr.sizeList es := by
  induction es with
  | nil => exact .pure []
  | cons e es ihes =>
    rw [List.forall_mem_cons] at ih
    refine ih.1.bind (fun e' => (ihes ih.2).map fun es' h => ?_) fun e' h => ?_ <;>
      simpa [Expr.sizeList, Expr.collectList] using h

lemma Expr.editBlocksEntries_shrinks {es : List (Expr × Expr)}
    (ih : ∀ e ∈ es, (e.1.editBlocks f).Shrinks Expr.size e.1 ∧
      (e.2.editBlocks f).Shrinks Expr.size e.2) :
    (Expr.editBlocksEntries f es).Shrinks Expr.sizeEntries es := by
  induction es with
  | nil => exact .pure []
  | cons e es ihes =>
    obtain ⟨k, v⟩ := e
    simp only [List.forall_mem_cons] at ih
    refine ih.1.1.bind (h := fun k' => (k', v) :: es) (fun k' =>
      ih.1.2.bind (h := fun v' => (k', v') :: es) (fun v' => (ihes ih.2).map fun es' h => ?_)
        fun v' h => ?_) fun k' h => ?_ <;>
      simpa [Expr.sizeEntries, Expr.collectEntries] using h

lemma Expr.editBlocksOption_shrinks {o : Option Expr}
    (ih : ∀ e ∈ o, (e.editBlocks f).Shrinks Expr.size e) :
    (Expr.editBlocksOption f o).Shrinks Expr.sizeOption o := by
  cases o with
  | none => exact .pure none
  | some e => exact (ih e rfl).map fun e' he => he

lemma Expr.editBlocksInit_shrinks {o : Option (VarHead × Option Expr)}
    (ih : ∀ i ∈ o, ∀ e ∈ i.2, (e.editBlocks f).Shrinks Expr.size e) :
    (Expr.editBlocksInit f o).Shrinks Expr.sizeInit o := by
  rcases o with _ | ⟨head, e⟩
  · exact .pure none
  · exact (Expr.editBlocksOption_shrinks (ih _ rfl)).map (h := fun e' => some (head, e'))
      fun e' he => he

lemma Stmt.editBlocksUpdate_shrinks {o : Option Stmt}
    (ih : ∀ s ∈ o, (s.editOwnedBlocks f).Shrinks Stmt.size s) :
    (Stmt.editBlocksUpdate f o).Shrinks Stmt.sizeOption o := by
  cases o with
  | none => exact .pure none
  | some s => exact (ih s rfl).map fun s' hs => hs

lemma Stmt.editBlocksList_shrinks {ss : List Stmt}
    (ih : ∀ s ∈ ss, (s.editBlocks f).Shrinks Stmt.size s) :
    (Stmt.editBlocksList f ss).Shrinks Stmt.blockSize ss := by
  induction ss with
  | nil => exact .pure []
  | cons s ss ihss =>
    rw [List.forall_mem_cons] at ih
    refine ih.1.bind (fun s' => (ihss ih.2).map fun ss' h => ?_) fun s' h => ?_ <;>
      simpa [Stmt.blockSize_cons] using h

lemma Stmt.editBlock_shrinks {β : Type} {size : β → Nat} (hf : ∀ ss, (f ss).Shrinks blockSize ss)
    {ss : List Stmt} (ih : ∀ s ∈ ss, (s.editBlocks f).Shrinks Stmt.size s) {h : List Stmt → β}
    {k : List Stmt → Edit β} (hk : ∀ ss, (k ss).Shrinks size (h ss))
    (hh : ∀ ss ts, blockSize ss < blockSize ts → size (h ss) < size (h ts)) :
    (Stmt.editBlocksList f ss >>= fun ss => f ss >>= k).Shrinks size (h ss) :=
  (Stmt.editBlocksList_shrinks ih).bind
    (fun b => (hf b).bind hk fun c hc => hh c b hc) fun b hb => hh b ss hb

lemma editBlocks_shrinks (hf : ∀ ss, (f ss).Shrinks Stmt.blockSize ss) :
    Tree.Inductive (fun e => (e.editBlocks f).Shrinks Expr.size e)
      (fun s => (s.editBlocks f).Shrinks Stmt.size s ∧ (s.editOwnedBlocks f).Shrinks Stmt.size s)
      (fun ch => (ch.editBlocks f).Shrinks Chain.size ch ∧
        (ch.editOwnedBlocks f).Shrinks Chain.size ch) where
  leaf e he := by
    rw [Expr.editBlocks_leaf he]
    exact .pure e
  binary m op l r hl hr := by
    refine hl.bind (fun l' => hr.map fun r' h => ?_) fun l' h => ?_ <;>
      simpa [Expr.size, Expr.collect] using h
  unary m op e he := he.map fun e' h => by simpa [Expr.size, Expr.collect] using h
  step m op e he := he.map fun e' h => by simpa [Expr.size, Expr.collect] using h
  ternary m c y n hc hy hn := by
    refine hc.bind (fun c' => hy.bind (fun y' => hn.map fun n' h => ?_) fun y' h => ?_)
      fun c' h => ?_ <;>
      simpa [Expr.size, Expr.collect] using h
  call m g args target hg hargs := by
    refine hg.bind (h := fun g' => Expr.call m g' args target) (fun g' =>
      (Expr.editBlocksList_shrinks hargs).map (h := fun es => Expr.call m g' es target)
        fun es h => ?_) fun g' h => ?_ <;>
      simpa [Expr.size, Expr.collect] using h
  member m o n ho := ho.map (h := fun o' => Expr.member m o' n) fun o' h => by
    simpa [Expr.size, Expr.collect] using h
  subscript m o i ho hi := by
    refine ho.bind (fun o' => hi.map fun i' h => ?_) fun o' h => ?_ <;>
      simpa [Expr.size, Expr.collect] using h
  array m es hes :=
    (Expr.editBlocksList_shrinks hes).map fun es' h => by simpa [Expr.size, Expr.collect] using h
  dictionary m es hes :=
    (Expr.editBlocksEntries_shrinks hes).map fun es' h => by simpa [Expr.size, Expr.collect] using h
  blockLambda m head block body hbody :=
    Stmt.editBlock_shrinks hf (fun s hs => (hbody s hs).1) (fun _ => .pure _) fun ss ts h => by
      simpa [Expr.size, Expr.collect] using h
  exprLambda m head body hb := hb.map fun e' h => by simpa [Expr.size, Expr.collect] using h
  var head init hinit := by
    refine ⟨(Expr.editBlocksOption_shrinks hinit).map fun e' h => ?_,
      (Expr.editBlocksOption_shrinks hinit).map fun e' h => ?_⟩ <;>
      simpa [Stmt.size, Stmt.collect] using h
  assign span t v ht hv := by
    refine ⟨ht.bind (fun t' => hv.map fun v' h => ?_) fun t' h => ?_,
      ht.bind (fun t' => hv.map fun v' h => ?_) fun t' h => ?_⟩ <;>
      simpa [Stmt.size, Stmt.collect] using h
  func head body hbody :=
    ⟨Stmt.editBlock_shrinks hf (fun s hs => (hbody s hs).1) (fun _ => .pure _) fun ss ts h => by
      simpa [Stmt.size, Stmt.collect] using h, .pure _⟩
  cls head ms hms :=
    ⟨Stmt.editBlock_shrinks hf (fun s hs => (hms s hs).1) (fun _ => .pure _) fun ss ts h => by
      simpa [Stmt.size, Stmt.collect] using h, .pure _⟩
  ctor head body hbody :=
    ⟨Stmt.editBlock_shrinks hf (fun s hs => (hbody s hs).1) (fun _ => .pure _) fun ss ts h => by
      simpa [Stmt.size, Stmt.collect] using h, .pure _⟩
  ifElse x c body rest hc hbody hrest := by
    refine ⟨hc.bind (fun c' => Stmt.editBlock_shrinks hf (fun s hs => (hbody s hs).1)
        (fun ss => hrest.1.map fun rest' h => ?_) fun ss ts h => ?_) fun c' h => ?_,
      hc.bind (h := fun c' => Stmt.ifElse x c' body rest) (fun c' =>
        hrest.2.map (h := fun rest' => Stmt.ifElse x c' body rest') fun rest' h => ?_)
        fun c' h => ?_⟩ <;>
      simpa [Stmt.size, Stmt.collect] using h
  whileLoop x c body hc hbody := by
    refine ⟨hc.bind (fun c' => Stmt.editBlock_shrinks hf (fun s hs => (hbody s hs).1)
        (fun ss => .pure _) fun ss ts h => ?_) fun c' h => ?_,
      hc.map (h := fun c' => Stmt.whileLoop x c' body) fun c' h => ?_⟩ <;>
      simpa [Stmt.size, Stmt.collect] using h
  -- the first half edits the body after the head, the second the head alone
  forLoop x init c update body hinit hc hupdate hbody := by
    have hinit := Expr.editBlocksInit_shrinks hinit
    have hcond := Expr.editBlocksOption_shrinks hc
    have hstep := Stmt.editBlocksUpdate_shrinks fun s hs => (hupdate s hs).2
    rw [Stmt.editBlocks_forLoop, Stmt.editOwnedBlocks_forLoop]
    refine ⟨hinit.bind (fun i => hcond.bind (fun c => hstep.bind (fun u =>
        Stmt.editBlock_shrinks hf (fun s hs => (hbody s hs).1) (fun ss => .pure _)
          fun ss ts h => ?_) fun u h => ?_) fun c h => ?_) fun i h => ?_,
      hinit.bind (h := fun i => Stmt.forLoop x i c update body) (fun i =>
        hcond.bind (h := fun c => Stmt.forLoop x i c update body) (fun c =>
          hstep.map (h := fun u => Stmt.forLoop x i c u body) fun u h => ?_) fun c h => ?_)
        fun i h => ?_⟩ <;>
      simpa [Stmt.size, Stmt.collect] using h
  ret span v hv := by
    refine ⟨(Expr.editBlocksOption_shrinks hv).map fun e' h => ?_,
      (Expr.editBlocksOption_shrinks hv).map fun e' h => ?_⟩ <;>
      simpa [Stmt.size, Stmt.collect] using h
  brk span := ⟨.pure _, .pure _⟩
  expr e he := by
    refine ⟨he.map fun e' h => ?_, he.map fun e' h => ?_⟩ <;>
      simpa [Stmt.size, Stmt.collect] using h
  done := ⟨.pure _, .pure _⟩
  elseIf x c body rest hc hbody hrest := by
    refine ⟨hc.bind (fun c' => Stmt.editBlock_shrinks hf (fun s hs => (hbody s hs).1)
        (fun ss => hrest.1.map fun rest' h => ?_) fun ss ts h => ?_) fun c' h => ?_,
      hc.bind (h := fun c' => Chain.elseIf x c' body rest) (fun c' =>
        hrest.2.map (h := fun rest' => Chain.elseIf x c' body rest') fun rest' h => ?_)
        fun c' h => ?_⟩ <;>
      simpa [Chain.size, Chain.collect] using h
  otherwise block body hbody :=
    ⟨Stmt.editBlock_shrinks hf (fun s hs => (hbody s hs).1) (fun _ => .pure _) fun ss ts h => h,
      .pure _⟩

/-- An edit of single blocks that reports what it does does so everywhere. -/
lemma everywhere_shrinks (hf : ∀ ss, (f ss).Shrinks Stmt.blockSize ss) (ss : List Stmt) :
    (f.everywhere ss).Shrinks Stmt.blockSize ss :=
  (Stmt.editBlocksList_shrinks fun s _ => ((editBlocks_shrinks hf).stmt_holds s).1).trans hf

end Everywhere

/-! ### Folding -/

namespace Fold

lemma size_toExpr (span : Span) (c : Constant) : (c.toExpr span).size = 1 := by
  cases c <;> rfl

/-- What stands for an expression after folding is smaller. -/
lemma orElse_shrinks {o : Option Expr} {e : Expr} (h : ∀ x, o = some x → x.size < e.size) :
    (orElse o e).Shrinks Expr.size e := by
  cases o with
  | none => exact .pure e
  | some x => exact .replace (h x rfl)

lemma binary_size_lt {m : Mark} {op : BinaryOp} {l r x : Expr}
    (h : binary op l r m.span = some x) : x.size < (Expr.binary m op l r).size := by
  have hl := l.size_pos
  have hr := r.size_pos
  have hsize : (Expr.binary m op l r).size = l.size + r.size + 1 := by
    simp [Expr.size, Expr.collect]
  rw [hsize]
  rcases binary_eq_some h with rfl | rfl | ⟨c, rfl⟩
  · omega
  · omega
  · rw [size_toExpr]
    omega

lemma unary_size_lt {m : Mark} {op : UnaryOp} {e x : Expr} (h : unary op e m.span = some x) :
    x.size < (Expr.unary m op e).size := by
  have he := e.size_pos
  obtain ⟨c, rfl⟩ := unary_eq_some h
  rw [size_toExpr]
  exact Nat.lt_add_of_pos_left he

lemma ternary_size_lt {m : Mark} {c y n x : Expr} (h : ternary c y n = some x) :
    x.size < (Expr.ternary m c y n).size := by
  have hsize : (Expr.ternary m c y n).size = c.size + y.size + n.size + 1 := by
    simp [Expr.size, Expr.collect, Nat.add_assoc]
  rw [hsize]
  rcases ternary_eq_some h with rfl | rfl <;> omega

end Fold

lemma Expr.foldList_shrinks {es : List Expr} (ih : ∀ e ∈ es, e.fold.Shrinks Expr.size e) :
    (Expr.foldList es).Shrinks Expr.sizeList es := by
  induction es with
  | nil => exact .pure []
  | cons e es ihes =>
    rw [List.forall_mem_cons] at ih
    refine ih.1.bind (fun e' => (ihes ih.2).map fun es' h => ?_) fun e' h => ?_ <;>
      simpa [Expr.sizeList, Expr.collectList] using h

lemma Expr.foldEntries_shrinks {es : List (Expr × Expr)}
    (ih : ∀ e ∈ es, e.1.fold.Shrinks Expr.size e.1 ∧ e.2.fold.Shrinks Expr.size e.2) :
    (Expr.foldEntries es).Shrinks Expr.sizeEntries es := by
  induction es with
  | nil => exact .pure []
  | cons e es ihes =>
    obtain ⟨k, v⟩ := e
    simp only [List.forall_mem_cons] at ih
    refine ih.1.1.bind (h := fun k' => (k', v) :: es) (fun k' =>
      ih.1.2.bind (h := fun v' => (k', v') :: es) (fun v' => (ihes ih.2).map fun es' h => ?_)
        fun v' h => ?_) fun k' h => ?_ <;>
      simpa [Expr.sizeEntries, Expr.collectEntries] using h

lemma Expr.fold_shrinks (e : Expr) : e.fold.Shrinks Expr.size e := by
  refine Expr.Inductive.holds (P := fun e => e.fold.Shrinks Expr.size e) ?_ e
  constructor
  case leaf =>
    intro e he
    rw [Expr.fold_leaf he]
    exact .pure e
  case binary =>
    intro m op l r hl hr
    -- the sides shrink one after the other, and a rule that applies shrinks the whole
    refine hl.bind (h := fun l' => Expr.binary m op l' r) (fun l' =>
      hr.bind (h := fun r' => Expr.binary m op l' r') (fun r' =>
        Fold.orElse_shrinks fun x => Fold.binary_size_lt) fun r' h => ?_) fun l' h => ?_ <;>
      simpa [Expr.size, Expr.collect] using h
  case unary =>
    intro m op e he
    refine he.bind (h := fun e' => Expr.unary m op e')
      (fun e' => Fold.orElse_shrinks fun x => Fold.unary_size_lt) fun e' h => ?_
    simpa [Expr.size, Expr.collect] using h
  case ternary =>
    intro m c y n hc hy hn
    refine hc.bind (h := fun c' => Expr.ternary m c' y n) (fun c' =>
      hy.bind (h := fun y' => Expr.ternary m c' y' n) (fun y' =>
        hn.bind (h := fun n' => Expr.ternary m c' y' n') (fun n' =>
          Fold.orElse_shrinks fun x => Fold.ternary_size_lt) fun n' h => ?_) fun y' h => ?_)
      fun c' h => ?_ <;>
      simpa [Expr.size, Expr.collect] using h
  case step | exprLambda =>
    intro m a e he
    refine he.map fun e' h => ?_
    simpa [Expr.size, Expr.collect] using h
  case member =>
    intro m o n ho
    refine ho.map (h := fun o' => Expr.member m o' n) fun o' h => ?_
    simpa [Expr.size, Expr.collect] using h
  case call =>
    intro m f args target hf hargs
    refine hf.bind (h := fun f' => Expr.call m f' args target) (fun f' =>
      (Expr.foldList_shrinks hargs).map (h := fun es => Expr.call m f' es target) fun es h => ?_)
        fun f' h => ?_ <;>
      simpa [Expr.size, Expr.collect] using h
  case subscript =>
    intro m o i ho hi
    refine ho.bind (fun o' => hi.map fun i' h => ?_) fun o' h => ?_ <;>
      simpa [Expr.size, Expr.collect] using h
  case array =>
    intro m es hes
    refine (Expr.foldList_shrinks hes).map fun es' h => ?_
    simpa [Expr.size, Expr.collect] using h
  case dictionary =>
    intro m es hes
    refine (Expr.foldEntries_shrinks hes).map fun es' h => ?_
    simpa [Expr.size, Expr.collect] using h
  case blockLambda =>
    intro m head block body
    exact .pure _

section Owned

variable {g : Expr → Edit Expr} (hg : ∀ e, (g e).Shrinks Expr.size e)
include hg

lemma Expr.optionMapM_shrinks (o : Option Expr) : (o.mapM g).Shrinks Expr.sizeOption o := by
  cases o with
  | none => exact .pure none
  | some e =>
    have h : (g e >>= fun e' => pure (some e')).Shrinks Expr.sizeOption (some e) :=
      (hg e).map fun e' he => he
    rwa [bind_pure_comp] at h

lemma Stmt.editInit_shrinks (o : Option (VarHead × Option Expr)) :
    (Stmt.editInit g o).Shrinks Expr.sizeInit o := by
  rcases o with _ | ⟨head, e⟩
  · exact .pure none
  · exact (Expr.optionMapM_shrinks hg e).map (h := fun e' => some (head, e'))
      fun e' he => he

lemma Chain.editConds_shrinks (ch : Chain) : (ch.editConds g).Shrinks Chain.size ch := by
  induction ch with
  | done => exact .pure _
  | otherwise block body => exact .pure _
  | elseIf x c body rest ih =>
    refine (hg c).bind (h := fun c' => Chain.elseIf x c' body rest) (fun c' =>
      ih.map (h := fun rest' => Chain.elseIf x c' body rest') fun rest' h => ?_) fun c' h => ?_ <;>
      simpa [Chain.size, Chain.collect] using h

lemma Stmt.editOwned_shrinks (s : Stmt) : (s.editOwned g).Shrinks Stmt.size s := by
  induction s with
  | var head init =>
    refine (Expr.optionMapM_shrinks hg init).map fun e' h => ?_
    simpa [Stmt.size, Stmt.collect] using h
  | assign span t v =>
    refine (hg t).bind (fun t' => (hg v).map fun v' h => ?_) fun t' h => ?_ <;>
      simpa [Stmt.size, Stmt.collect] using h
  | ifElse x c body rest =>
    refine (hg c).bind (h := fun c' => Stmt.ifElse x c' body rest) (fun c' =>
      (Chain.editConds_shrinks hg rest).map (h := fun rest' => Stmt.ifElse x c' body rest')
        fun rest' h => ?_) fun c' h => ?_ <;>
      simpa [Stmt.size, Stmt.collect] using h
  | whileLoop x c body =>
    refine (hg c).map (h := fun c' => Stmt.whileLoop x c' body) fun c' h => ?_
    simpa [Stmt.size, Stmt.collect] using h
  | forLoop x init c update body ih =>
    have hupdate : (Stmt.editUpdate g update).Shrinks Stmt.sizeOption update := by
      cases update with
      | none => exact .pure none
      | some s => exact (ih s rfl).map fun s' hs => hs
    rw [Stmt.editOwned_forLoop]
    have hinit := Stmt.editInit_shrinks hg init
    refine hinit.bind (h := fun i => Stmt.forLoop x i c update body) (fun i =>
      (Expr.optionMapM_shrinks hg c).bind (h := fun c => Stmt.forLoop x i c update body) (fun c =>
        hupdate.map (h := fun u => Stmt.forLoop x i c u body) fun u h => ?_) fun c h => ?_)
      fun i h => ?_ <;>
      simpa [Stmt.size, Stmt.collect] using h
  | ret span v =>
    refine (Expr.optionMapM_shrinks hg v).map fun e' h => ?_
    simpa [Stmt.size, Stmt.collect] using h
  | expr e =>
    refine (hg e).map fun e' h => ?_
    simpa [Stmt.size, Stmt.collect] using h
  | func | cls | ctor | brk => exact .pure _

end Owned

lemma foldBlock_shrinks (ss : List Stmt) : (foldBlock ss).Shrinks Stmt.blockSize ss := by
  unfold foldBlock
  induction ss with
  | nil => exact .pure []
  | cons s ss ih =>
    rw [List.mapM_cons]
    refine (Stmt.editOwned_shrinks Expr.fold_shrinks s).bind (fun s' => ih.map fun ss' h => ?_)
      fun s' h => ?_ <;>
      simpa [Stmt.blockSize_cons] using h

/-! ### Pruning -/

lemma Chain.prune_shrinks (ch : Chain) : ch.prune.Shrinks Chain.size ch := by
  induction ch with
  | done => exact .pure _
  | otherwise block body => exact .pure _
  | elseIf x c body rest ih =>
    have hc := c.size_pos
    unfold Chain.prune
    split
    · refine ih.map fun rest' h => ?_
      simp only [Chain.size_elseIf]
      omega
    · refine .replace ?_
      have := ih.le
      simp only [Chain.size_elseIf]
      omega
    · split
      · exact .pure _
      · rename_i hrest
        have := Chain.size_pos fun h => hrest h
        refine .replace ?_
        simp only [Chain.size_elseIf, Chain.size_done]
        omega

/-- The arm that moves up leaves the first one and its literal behind. -/
lemma pruneIf_shrinks (x : Extent) (c : Expr) (body : List Stmt) (rest : Chain) :
    (pruneIf x c body rest).Shrinks Stmt.sizeOption (some (.ifElse x c body rest)) := by
  have hc := c.size_pos
  have hbody := Stmt.blockSize_pos body
  have hle := rest.prune_shrinks.le
  unfold pruneIf
  split
  · refine rest.prune_shrinks.map (h := fun rest => some (Stmt.ifElse x c body rest))
      fun rest' h => ?_
    simpa [Stmt.sizeOption, Stmt.collectUpdate, Stmt.collect] using h
  · split
    · exact .pure _
    · rename_i hrest
      have := Chain.size_pos fun h => hrest h
      refine .replace ?_
      simp only [Stmt.sizeOption_some, Stmt.size_ifElse, Chain.size_done]
      omega
  · split
    all_goals
      rename_i heq
      rw [heq] at hle
      refine .replace ?_
      simp only [Stmt.sizeOption_none, Stmt.sizeOption_some, Stmt.size_ifElse, Chain.size_done,
        Chain.size_elseIf, Chain.size_otherwise, Expr.size_always] at hle ⊢
      omega

lemma Stmt.prune_shrinks (s : Stmt) : s.prune.Shrinks Stmt.sizeOption (some s) := by
  cases s with
  | ifElse x c body rest => exact pruneIf_shrinks x c body rest
  | whileLoop x c body =>
    simp only [Stmt.prune]
    split
    · exact .replace (Stmt.size_pos (.whileLoop x c body))
    · exact .pure _
  | _ => exact .pure _

lemma Stmt.blockSize_toList_append (o : Option Stmt) (ss : List Stmt) :
    blockSize (o.toList ++ ss) = sizeOption o + blockSize ss := by
  cases o with
  | none => exact (Nat.zero_add _).symm
  | some s => exact blockSize_cons s ss

lemma pruneBlock_shrinks (ss : List Stmt) : (pruneBlock ss).Shrinks Stmt.blockSize ss := by
  induction ss with
  | nil => exact .pure []
  | cons s ss ih =>
    refine s.prune_shrinks.bind (h := fun o => o.toList ++ ss)
      (fun o => ih.map (h := fun ss' => o.toList ++ ss') fun ss' h => ?_) fun o h => ?_ <;>
      simp only [Stmt.blockSize_toList_append] <;> omega

/-! ### Statements that are removed -/

lemma cutBlock_shrinks (ss : List Stmt) : (cutBlock ss).Shrinks Stmt.blockSize ss := by
  induction ss with
  | nil => exact .pure []
  | cons s ss ih =>
    unfold cutBlock
    split
    · split
      · exact .pure _
      · rename_i hne
        obtain ⟨t, ts, rfl⟩ := List.exists_cons_of_ne_nil fun h => hne h
        have := t.size_pos
        have := Stmt.blockSize_pos ts
        refine .replace ?_
        simp only [Stmt.blockSize_cons, Stmt.blockSize_nil]
        omega
    · refine ih.map fun ss' h => ?_
      simp only [Stmt.blockSize_cons]
      omega

lemma dropUncalled_shrinks (called : List String) (ss : List Stmt) :
    (dropUncalled called ss).Shrinks Stmt.blockSize ss := by
  induction ss with
  | nil => exact .pure []
  | cons s ss ih =>
    have hs := s.size_pos
    have hle := ih.le
    simp only [dropUncalled] at hle
    cases h : s.isUncalled called with
    | false =>
      refine ⟨fun hc => ?_, fun hc => ?_⟩ <;>
        simp only [dropUncalled, List.any_cons, List.filter_cons, h, Bool.false_or, Bool.not_false,
          if_true] at hc ⊢
      · exact congrArg (s :: ·) (ih.same hc)
      · rw [Stmt.blockSize_cons, Stmt.blockSize_cons]
        exact Nat.add_lt_add_left (ih.less hc) s.size
    | true =>
      refine ⟨fun hc => ?_, fun _ => ?_⟩
      · simp [dropUncalled, h] at hc
      · simp only [dropUncalled, List.filter_cons, h, Stmt.blockSize_cons]
        simp only [Bool.not_true, Bool.false_eq_true, if_false]
        omega

/-! ### Passes and rounds -/

namespace Pass

lemma edit_shrinks (pass : Pass) (ss : List Stmt) : (pass.edit ss).Shrinks Stmt.blockSize ss := by
  cases pass with
  | foldConstants => exact everywhere_shrinks foldBlock_shrinks ss
  | pruneBranches => exact everywhere_shrinks pruneBlock_shrinks ss
  | cutUnreachable => exact everywhere_shrinks cutBlock_shrinks ss
  | dropUncalled called => exact dropUncalled_shrinks called ss

lemma run_shrinks (pass : Pass) (p : Program) : (pass.run p).Shrinks Program.size p := by
  have h : (pass.edit p.stmts >>= fun ss => pure { p with stmts := ss }).Shrinks Program.size p :=
    (pass.edit_shrinks p.stmts).map (h := fun ss => { p with stmts := ss }) fun ss hss => hss
  rwa [bind_pure_comp] at h

lemma runAll_shrinks (passes : List Pass) (p : Program) :
    (runAll passes p).Shrinks Program.size p := by
  induction passes generalizing p with
  | nil => exact .pure p
  | cons pass passes ih =>
    rw [runAll_cons]
    exact (pass.run_shrinks p).trans ih

end Pass

/-- What an optimization did, without its log. -/
def OptimizerRun.edit (run : OptimizerRun) : Edit Program := ⟨run.program, run.changed⟩

namespace Optimizer

lemma round_edit (iteration : Nat) (passes : List Pass) (p : Program) :
    (round iteration passes p).edit = Pass.runAll passes p := by
  obtain ⟨hprogram, hchanged⟩ := round_eq_runAll iteration passes p
  unfold OptimizerRun.edit
  rw [hprogram, hchanged]

end Optimizer
end MiddleEnd
