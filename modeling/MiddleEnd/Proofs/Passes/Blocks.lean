import Mathlib.Data.List.Basic
import MiddleEnd.Passes.Blocks
import MiddleEnd.Proofs.Tree.Collect

/-!
The blocks that the passes visit, and what an edit of all blocks does to them. The walk goes
through the blocks from the inside out, so what holds of every block afterwards follows from what
the edit of a single block does.
-/

namespace MiddleEnd

namespace Edit

variable {α β : Type}

lemma eq_pure_iff {x : Edit α} {a : α} : x = pure a ↔ x.value = a ∧ x.changed = false := by
  constructor
  · rintro rfl
    exact ⟨rfl, rfl⟩
  · rintro ⟨rfl, h⟩
    obtain ⟨v, c⟩ := x
    cases h
    rfl

@[simp] lemma replace_value (a : α) : (replace a).value = a := rfl

lemma mapM_value (f : α → Edit β) (l : List α) :
    (l.mapM f).value = l.map fun a => (f a).value := by
  induction l with
  | nil => rfl
  | cons a l ih => simp [List.mapM_cons, ih]

lemma mapM_eq_pure {f : α → Edit α} {l : List α} (h : ∀ a ∈ l, f a = pure a) :
    l.mapM f = pure l := by
  induction l with
  | nil => rfl
  | cons a l ih =>
    rw [List.mapM_cons, h a List.mem_cons_self, ih fun b hb => h b (List.mem_cons_of_mem a hb)]
    simp

end Edit

/-! ### The parts of a loop -/

def Expr.editBlocksInit (f : BlockEdit) :
    Option (VarHead × Option Expr) → Edit (Option (VarHead × Option Expr))
  | none => return none
  | some (head, e) => return some (head, ← Expr.editBlocksOption f e)

/-- Edits the blocks in the expressions that the update of a loop owns. -/
def Stmt.editBlocksUpdate (f : BlockEdit) : Option Stmt → Edit (Option Stmt)
  | none => return none
  | some s => return some (← s.editOwnedBlocks f)

lemma Stmt.editBlocks_forLoop (f : BlockEdit) (x : Extent) (init : Option (VarHead × Option Expr))
    (c : Option Expr) (update : Option Stmt) (body : List Stmt) :
    (Stmt.forLoop x init c update body).editBlocks f =
      return .forLoop x (← Expr.editBlocksInit f init) (← Expr.editBlocksOption f c)
        (← Stmt.editBlocksUpdate f update) (← f (← Stmt.editBlocksList f body)) := by
  rcases init with _ | ⟨head, e⟩ <;> rcases update with _ | s <;>
    simp [Stmt.editBlocks, Expr.editBlocksInit, Stmt.editBlocksUpdate]

lemma Stmt.editOwnedBlocks_forLoop (f : BlockEdit) (x : Extent)
    (init : Option (VarHead × Option Expr)) (c : Option Expr) (update : Option Stmt)
    (body : List Stmt) :
    (Stmt.forLoop x init c update body).editOwnedBlocks f =
      return .forLoop x (← Expr.editBlocksInit f init) (← Expr.editBlocksOption f c)
        (← Stmt.editBlocksUpdate f update) body := by
  rcases init with _ | ⟨head, e⟩ <;> rcases update with _ | s <;>
    simp [Stmt.editOwnedBlocks, Expr.editBlocksInit, Stmt.editBlocksUpdate]

/-! ### The blocks that are visited -/

namespace Collector

/-- The blocks that the passes visit, which is what the state says. -/
def blocks : Collector Bool (List Stmt) where
  block visited ss := if visited then [ss] else []
  enters := id
  updates := false

@[simp] lemma blocks_own (r : Bool) (n : Node) : blocks.own r n = [] := rfl

@[simp] lemma blocks_add (r : Bool) (n : Node) (parts : List (List Stmt)) :
    blocks.add r n parts = parts := rfl

@[simp] lemma blocks_visited (ss : List Stmt) (inner : List (List Stmt)) :
    blocks.inBlock true ss inner = ss :: inner := rfl

@[simp] lemma blocks_hidden (ss : List Stmt) (inner : List (List Stmt)) :
    blocks.inBlock false ss inner = [] := rfl

@[simp] lemma blocks_removal (a : Bool) : blocks.removal a = .nothing := rfl

end Collector

abbrev Expr.blocks (e : Expr) : List (List Stmt) := e.collect .blocks true

/-- The blocks inside a statement that the passes visit. -/
abbrev Stmt.blocks (s : Stmt) : List (List Stmt) := s.collect .blocks true true true

/-- The blocks in the expressions that a statement owns. -/
abbrev Stmt.ownedBlocks (s : Stmt) : List (List Stmt) := s.collect .blocks false true false

abbrev Stmt.blocksList (ss : List Stmt) : List (List Stmt) := Stmt.collectList .blocks true true ss

abbrev Chain.blocks (ch : Chain) : List (List Stmt) := ch.collect .blocks true true true

abbrev Chain.ownedBlocks (ch : Chain) : List (List Stmt) := ch.collect .blocks false true false

lemma Expr.editBlocks_leaf {f : BlockEdit} {e : Expr} (he : e.isLeaf = true) :
    e.editBlocks f = pure e := by
  cases e <;> first | rfl | cases he

@[simp] lemma Stmt.mem_blocksList {ss : List Stmt} {b : List Stmt} :
    b ∈ Stmt.blocksList ss ↔ ∃ s ∈ ss, b ∈ s.blocks := by
  rw [blocksList, collectList_eq_flatMap rfl, List.mem_flatMap]

/-! ### Blocks that are left alone -/

section Kept

variable {f : BlockEdit}

lemma Expr.editBlocksList_eq_pure {es : List Expr}
    (ih : ∀ e ∈ es, (∀ b ∈ e.blocks, f b = pure b) → e.editBlocks f = pure e)
    (h : ∀ b ∈ Expr.collectList .blocks true es, f b = pure b) :
    Expr.editBlocksList f es = pure es := by
  induction es with
  | nil => rfl
  | cons e es ihes =>
    simp only [Expr.collectList, List.forall_mem_append] at h
    rw [List.forall_mem_cons] at ih
    simp [Expr.editBlocksList, ih.1 h.1, ihes ih.2 h.2]

lemma Expr.editBlocksEntries_eq_pure {es : List (Expr × Expr)}
    (ih : ∀ e ∈ es, ((∀ b ∈ e.1.blocks, f b = pure b) → e.1.editBlocks f = pure e.1) ∧
      ((∀ b ∈ e.2.blocks, f b = pure b) → e.2.editBlocks f = pure e.2))
    (h : ∀ b ∈ Expr.collectEntries .blocks true es, f b = pure b) :
    Expr.editBlocksEntries f es = pure es := by
  induction es with
  | nil => rfl
  | cons e es ihes =>
    obtain ⟨k, v⟩ := e
    simp only [Expr.collectEntries, List.forall_mem_append] at h
    rw [List.forall_mem_cons] at ih
    simp [Expr.editBlocksEntries, ih.1.1 h.1.1, ih.1.2 h.1.2, ihes ih.2 h.2]

lemma Expr.editBlocksOption_eq_pure {o : Option Expr}
    (ih : ∀ e ∈ o, (∀ b ∈ e.blocks, f b = pure b) → e.editBlocks f = pure e)
    (h : ∀ b ∈ Expr.collectOption .blocks true o, f b = pure b) :
    Expr.editBlocksOption f o = pure o := by
  cases o with
  | none => rfl
  | some e => simp [Expr.editBlocksOption, ih e rfl h]

lemma Expr.editBlocksInit_eq_pure {o : Option (VarHead × Option Expr)}
    (ih : ∀ i ∈ o, ∀ e ∈ i.2, (∀ b ∈ e.blocks, f b = pure b) → e.editBlocks f = pure e)
    (h : ∀ b ∈ Expr.collectInit .blocks true o, f b = pure b) :
    Expr.editBlocksInit f o = pure o := by
  rcases o with _ | ⟨head, e⟩
  · rfl
  · simp [Expr.editBlocksInit, Expr.editBlocksOption_eq_pure (ih _ rfl) h]

lemma Stmt.editBlocksUpdate_eq_pure {o : Option Stmt}
    (ih : ∀ s ∈ o, (∀ b ∈ s.ownedBlocks, f b = pure b) → s.editOwnedBlocks f = pure s)
    (h : ∀ b ∈ Stmt.collectUpdate .blocks true o, f b = pure b) :
    Stmt.editBlocksUpdate f o = pure o := by
  cases o with
  | none => rfl
  | some s => simp [Stmt.editBlocksUpdate, ih s rfl h]

lemma Stmt.editBlock_eq_pure {ss : List Stmt}
    (ih : ∀ s ∈ ss, (∀ b ∈ s.blocks, f b = pure b) → s.editBlocks f = pure s)
    (h : ∀ b ∈ ss :: Stmt.blocksList ss, f b = pure b) :
    Stmt.editBlocksList f ss = pure ss ∧ f ss = pure ss := by
  rw [List.forall_mem_cons] at h
  refine ⟨?_, h.1⟩
  replace h := h.2
  induction ss with
  | nil => rfl
  | cons s ss ihss =>
    obtain ⟨hs, hss⟩ := List.forall_mem_append.mp h
    rw [List.forall_mem_cons] at ih
    simp [Stmt.editBlocksList, ih.1 hs, ihss ih.2 hss]

/-- A tree whose blocks are all left alone is left alone. -/
lemma editBlocks_eq_pure (f : BlockEdit) :
    Tree.Inductive (fun e => (∀ b ∈ e.blocks, f b = pure b) → e.editBlocks f = pure e)
      (fun s => ((∀ b ∈ s.blocks, f b = pure b) → s.editBlocks f = pure s) ∧
        ((∀ b ∈ s.ownedBlocks, f b = pure b) → s.editOwnedBlocks f = pure s))
      (fun ch => ((∀ b ∈ ch.blocks, f b = pure b) → ch.editBlocks f = pure ch) ∧
        ((∀ b ∈ ch.ownedBlocks, f b = pure b) → ch.editOwnedBlocks f = pure ch)) where
  leaf e he _ := Expr.editBlocks_leaf he
  binary m op l r hl hr h := by
    simp only [Expr.collect, Collector.blocks_add, List.forall_mem_append] at h
    simp [Expr.editBlocks, hl h.1, hr h.2]
  unary m op e he h := by simp [Expr.editBlocks, he h]
  step m op e he h := by simp [Expr.editBlocks, he h]
  ternary m c y n hc hy hn h := by
    simp only [Expr.collect, Collector.blocks_add, List.forall_mem_append] at h
    simp [Expr.editBlocks, hc h.1.1, hy h.1.2, hn h.2]
  call m g args target hg hargs h := by
    simp only [Expr.collect, Collector.blocks_add, List.forall_mem_append] at h
    simp [Expr.editBlocks, hg h.1, Expr.editBlocksList_eq_pure hargs h.2]
  member m o n ho h := by simp [Expr.editBlocks, ho h]
  subscript m o i ho hi h := by
    simp only [Expr.collect, Collector.blocks_add, List.forall_mem_append] at h
    simp [Expr.editBlocks, ho h.1, hi h.2]
  array m es hes h := by simp [Expr.editBlocks, Expr.editBlocksList_eq_pure hes h]
  dictionary m es hes h := by simp [Expr.editBlocks, Expr.editBlocksEntries_eq_pure hes h]
  blockLambda m head block body hbody h := by
    obtain ⟨hlist, hf⟩ := Stmt.editBlock_eq_pure (fun s hs => (hbody s hs).1) h
    simp [Expr.editBlocks, hlist, hf]
  exprLambda m head body hb h := by simp [Expr.editBlocks, hb h]
  -- a statement at the head of a loop is edited in what it owns only, as the second half says
  var head init hinit := by
    refine ⟨fun h => ?_, fun h => ?_⟩ <;>
      simp [Stmt.editBlocks, Stmt.editOwnedBlocks, Expr.editBlocksOption_eq_pure hinit h]
  assign span t v ht hv := by
    simp only [Stmt.collect, Collector.blocks_add, List.forall_mem_append]
    refine ⟨fun h => ?_, fun h => ?_⟩ <;>
      simp [Stmt.editBlocks, Stmt.editOwnedBlocks, ht h.1, hv h.2]
  func head body hbody := by
    refine ⟨fun h => ?_, fun _ => rfl⟩
    obtain ⟨hlist, hf⟩ := Stmt.editBlock_eq_pure (fun s hs => (hbody s hs).1) h
    simp [Stmt.editBlocks, hlist, hf]
  cls head ms hms := by
    refine ⟨fun h => ?_, fun _ => rfl⟩
    obtain ⟨hlist, hf⟩ := Stmt.editBlock_eq_pure (fun s hs => (hms s hs).1) h
    simp [Stmt.editBlocks, hlist, hf]
  ctor head body hbody := by
    refine ⟨fun h => ?_, fun _ => rfl⟩
    obtain ⟨hlist, hf⟩ := Stmt.editBlock_eq_pure (fun s hs => (hbody s hs).1) h
    simp [Stmt.editBlocks, hlist, hf]
  ifElse x c body rest hc hbody hrest := by
    simp only [Stmt.collect, Collector.blocks_add, Collector.blocks_removal, Removal.select_nothing,
      Collector.blocks_visited, Collector.blocks_hidden, List.append_nil, List.append_assoc,
      List.forall_mem_append]
    constructor
    · rintro ⟨h1, h2, h3⟩
      obtain ⟨hlist, hf⟩ := Stmt.editBlock_eq_pure (fun s hs => (hbody s hs).1) h2
      simp [Stmt.editBlocks, hc h1, hlist, hf, hrest.1 h3]
    · rintro ⟨h1, h2⟩
      simp [Stmt.editOwnedBlocks, hc h1, hrest.2 h2]
  whileLoop x c body hc hbody := by
    simp only [Stmt.collect, Collector.blocks_add, Collector.blocks_visited,
      Collector.blocks_hidden, List.append_nil, List.forall_mem_append]
    constructor
    · rintro ⟨h1, h2⟩
      obtain ⟨hlist, hf⟩ := Stmt.editBlock_eq_pure (fun s hs => (hbody s hs).1) h2
      simp [Stmt.editBlocks, hc h1, hlist, hf]
    · intro h
      simp [Stmt.editOwnedBlocks, hc h]
  forLoop x init c update body hinit hc hupdate hbody := by
    simp only [Stmt.collect, Collector.blocks_add, Collector.blocks_visited,
      Collector.blocks_hidden, List.append_nil, List.append_assoc, List.forall_mem_append,
      Stmt.editBlocks_forLoop, Stmt.editOwnedBlocks_forLoop]
    constructor
    · rintro ⟨h1, h2, h3, h4⟩
      obtain ⟨hlist, hf⟩ := Stmt.editBlock_eq_pure (fun s hs => (hbody s hs).1) h4
      simp [Expr.editBlocksInit_eq_pure hinit h1, Expr.editBlocksOption_eq_pure hc h2,
        Stmt.editBlocksUpdate_eq_pure (fun s hs => (hupdate s hs).2) h3, hlist, hf]
    · rintro ⟨h1, h2, h3⟩
      simp [Expr.editBlocksInit_eq_pure hinit h1, Expr.editBlocksOption_eq_pure hc h2,
        Stmt.editBlocksUpdate_eq_pure (fun s hs => (hupdate s hs).2) h3]
  ret span v hv := by
    refine ⟨fun h => ?_, fun h => ?_⟩ <;>
      simp [Stmt.editBlocks, Stmt.editOwnedBlocks, Expr.editBlocksOption_eq_pure hv h]
  brk span := ⟨fun _ => rfl, fun _ => rfl⟩
  expr e he := by
    refine ⟨fun h => ?_, fun h => ?_⟩ <;> simp [Stmt.editBlocks, Stmt.editOwnedBlocks, he h]
  done := ⟨fun _ => rfl, fun _ => rfl⟩
  elseIf x c body rest hc hbody hrest := by
    simp only [Chain.collect, Collector.blocks_add, Collector.blocks_removal,
      Removal.select_nothing, Collector.blocks_visited, Collector.blocks_hidden, List.append_nil,
      List.append_assoc, List.forall_mem_append]
    constructor
    · rintro ⟨h1, h2, h3⟩
      obtain ⟨hlist, hf⟩ := Stmt.editBlock_eq_pure (fun s hs => (hbody s hs).1) h2
      simp [Chain.editBlocks, hc h1, hlist, hf, hrest.1 h3]
    · rintro ⟨h1, h2⟩
      simp [Chain.editOwnedBlocks, hc h1, hrest.2 h2]
  otherwise block body hbody := by
    refine ⟨fun h => ?_, fun _ => rfl⟩
    obtain ⟨hlist, hf⟩ := Stmt.editBlock_eq_pure (fun s hs => (hbody s hs).1) h
    simp [Chain.editBlocks, hlist, hf]

end Kept

/-! ### What an edit of all blocks carries over -/

/-- An edit of all blocks relates what `c` collects from a tree to what `c'` collects from the
edited tree. Where the passes visit, the states are `x` before and `y` after the edit; the arms of a
statement of a block that is still to be edited itself are decided by `a`. -/
structure BlockEdit.Carries {σ τ α β : Type} (f : BlockEdit) (c : Collector σ α)
    (c' : Collector τ β) (x : σ) (a y : τ) (ρ : List α → List β → Prop) : Prop where
  nil : ρ [] []
  append : ∀ {k l k' l'}, ρ k k' → ρ l l' → ρ (k ++ l) (k' ++ l')
  own : ∀ r r' n n', ρ (c.own r n) (c'.own r' n')
  arm : ∀ e, (c'.removal a).arm (e.editBlocks f).value = (c.removal x).arm e
  removal : c.removal c.updates = .nothing ∧ c'.removal c'.updates = .nothing
  /-- Blocks of updates are as they were. -/
  hidden : ∀ ss, ρ (Stmt.collectBlock c c.updates ss) (Stmt.collectBlock c' c'.updates ss)
  /-- A visited block, when this is known of the statements in it. -/
  visited : ∀ {ss : List Stmt},
    (∀ s ∈ ss, ρ (s.collect c x x x) ((s.editBlocks f).value.collect c' a y y)) →
      ρ (Stmt.collectBlock c x ss) (Stmt.collectBlock c' y (f.everywhere ss).value)

namespace BlockEdit.Carries

variable {σ τ α β : Type} {f : BlockEdit} {c : Collector σ α} {c' : Collector τ β} {x : σ} {a y : τ}
  {ρ : List α → List β → Prop} (h : f.Carries c c' x a y ρ)
include h

lemma add {r : σ} {r' : τ} {n n' : Node} {k : List α} {k' : List β} (hk : ρ k k') :
    ρ (c.add r n k) (c'.add r' n' k') := by
  rw [Collector.add_eq_append, Collector.add_eq_append]
  exact h.append (h.own r r' n n') hk

lemma select {k l m : List α} {k' l' m' : List β} (hk : ρ k k') (hl : ρ l l') (hm : ρ m m')
    (decided : Option Bool) :
    ρ (Removal.select decided k l m) (Removal.select decided k' l' m') := by
  rcases decided with _ | _ | _
  · exact h.append (h.append hk hl) hm
  · exact hm
  · exact h.append hk hl

lemma exprs {es : List Expr}
    (ih : ∀ e ∈ es, ρ (e.collect c x) ((e.editBlocks f).value.collect c' y)) :
    ρ (Expr.collectList c x es) (Expr.collectList c' y (Expr.editBlocksList f es).value) := by
  induction es with
  | nil => exact h.nil
  | cons e es ihes =>
    rw [List.forall_mem_cons] at ih
    exact h.append ih.1 (ihes ih.2)

lemma entries {es : List (Expr × Expr)}
    (ih : ∀ e ∈ es, ρ (e.1.collect c x) ((e.1.editBlocks f).value.collect c' y) ∧
      ρ (e.2.collect c x) ((e.2.editBlocks f).value.collect c' y)) :
    ρ (Expr.collectEntries c x es)
      (Expr.collectEntries c' y (Expr.editBlocksEntries f es).value) := by
  induction es with
  | nil => exact h.nil
  | cons e es ihes =>
    rw [List.forall_mem_cons] at ih
    exact h.append (h.append ih.1.1 ih.1.2) (ihes ih.2)

lemma option {o : Option Expr}
    (ih : ∀ e ∈ o, ρ (e.collect c x) ((e.editBlocks f).value.collect c' y)) :
    ρ (Expr.collectOption c x o) (Expr.collectOption c' y (Expr.editBlocksOption f o).value) := by
  cases o with
  | none => exact h.nil
  | some e => exact ih e rfl

lemma init {o : Option (VarHead × Option Expr)}
    (ih : ∀ i ∈ o, ∀ e ∈ i.2, ρ (e.collect c x) ((e.editBlocks f).value.collect c' y)) :
    ρ (Expr.collectInit c x o) (Expr.collectInit c' y (Expr.editBlocksInit f o).value) := by
  rcases o with _ | ⟨head, e⟩
  · exact h.nil
  · exact h.option (ih _ rfl)

lemma update {o : Option Stmt}
    (ih : ∀ s ∈ o, ρ (s.collect c c.updates x c.updates)
      ((s.editOwnedBlocks f).value.collect c' c'.updates y c'.updates)) :
    ρ (Stmt.collectUpdate c x o) (Stmt.collectUpdate c' y (Stmt.editBlocksUpdate f o).value) := by
  cases o with
  | none => exact h.nil
  | some s => exact ih s rfl

/-- The arms of a conditional and what follows them, before and after the edit. -/
lemma arms {e : Expr} {k l m : List α} {k' l' m' : List β} (hk : ρ k k') (hl : ρ l l')
    (hm : ρ m m') : ρ (Removal.select ((c.removal x).arm e) k l m)
      (Removal.select ((c'.removal a).arm (e.editBlocks f).value) k' l' m') := by
  rw [h.arm]
  exact h.select hk hl hm _

lemma ownedArms {e e' : Expr} {k l m : List α} {k' l' m' : List β} (hk : ρ k k') (hl : ρ l l')
    (hm : ρ m m') : ρ (Removal.select ((c.removal c.updates).arm e) k l m)
      (Removal.select ((c'.removal c'.updates).arm e') k' l' m') := by
  rw [h.removal.1, h.removal.2]
  exact h.select hk hl hm none

lemma tree : Tree.Inductive
    (fun e => ρ (e.collect c x) ((e.editBlocks f).value.collect c' y))
    (fun s => ρ (s.collect c x x x) ((s.editBlocks f).value.collect c' a y y) ∧
      ρ (s.collect c c.updates x c.updates)
        ((s.editOwnedBlocks f).value.collect c' c'.updates y c'.updates))
    (fun ch => ρ (ch.collect c x x x) ((ch.editBlocks f).value.collect c' a y y) ∧
      ρ (ch.collect c c.updates x c.updates)
        ((ch.editOwnedBlocks f).value.collect c' c'.updates y c'.updates)) where
  leaf e he := by
    rw [Expr.editBlocks_leaf he]
    cases e with
    | number | string | boolean | null | name | self => exact h.own _ _ _ _
    | _ => cases he
  binary m op l r hl hr := h.add (h.append hl hr)
  unary m op e he := h.add he
  step m op e he := h.add he
  ternary m e y n hc hy hn := h.add (h.append (h.append hc hy) hn)
  call m g args target hg hargs := h.add (h.append hg (h.exprs hargs))
  member m o n ho := h.add ho
  subscript m o i ho hi := h.add (h.append ho hi)
  array m es hes := h.add (h.exprs hes)
  dictionary m es hes := h.add (h.entries hes)
  blockLambda m head block body hbody := h.add (h.visited fun s hs => (hbody s hs).1)
  exprLambda m head body hb := h.add hb
  var head init hinit := ⟨h.add (h.option hinit), h.add (h.option hinit)⟩
  assign span t v ht hv := ⟨h.add (h.append ht hv), h.add (h.append ht hv)⟩
  func head body hbody :=
    ⟨h.add (h.visited fun s hs => (hbody s hs).1), h.add (h.hidden body)⟩
  cls head ms hms := ⟨h.add (h.visited fun s hs => (hms s hs).1), h.add (h.hidden ms)⟩
  ctor head body hbody :=
    ⟨h.add (h.visited fun s hs => (hbody s hs).1), h.add (h.hidden body)⟩
  ifElse m e body rest hc hbody hrest :=
    ⟨h.add (h.arms hc (h.visited fun s hs => (hbody s hs).1) hrest.1),
      h.add (h.ownedArms hc (h.hidden body) hrest.2)⟩
  whileLoop m e body hc hbody :=
    ⟨h.add (h.append hc (h.visited fun s hs => (hbody s hs).1)),
      h.add (h.append hc (h.hidden body))⟩
  forLoop m init e update body hinit hc hupdate hbody := by
    have hhead := h.append (h.append (h.init hinit) (h.option hc))
      (h.update fun s hs => (hupdate s hs).2)
    rw [Stmt.editBlocks_forLoop, Stmt.editOwnedBlocks_forLoop]
    exact ⟨h.add (h.append hhead (h.visited fun s hs => (hbody s hs).1)),
      h.add (h.append hhead (h.hidden body))⟩
  ret span v hv := ⟨h.add (h.option hv), h.add (h.option hv)⟩
  brk span := ⟨h.own _ _ _ _, h.own _ _ _ _⟩
  expr e he := ⟨h.add he, h.add he⟩
  done := ⟨h.own _ _ _ _, h.own _ _ _ _⟩
  elseIf m e body rest hc hbody hrest :=
    ⟨h.add (h.arms hc (h.visited fun s hs => (hbody s hs).1) hrest.1),
      h.add (h.ownedArms hc (h.hidden body) hrest.2)⟩
  otherwise block body hbody :=
    ⟨h.add (h.visited fun s hs => (hbody s hs).1), h.add (h.hidden body)⟩

lemma everywhere (ss : List Stmt) :
    ρ (Stmt.collectBlock c x ss) (Stmt.collectBlock c' y (f.everywhere ss).value) :=
  h.visited fun s _ => (h.tree.stmt_holds s).1

end BlockEdit.Carries

/-! ### What holds of all blocks afterwards -/

section Transfer

variable {g : BlockEdit} {M N : List Stmt → Prop}

/-- Let `M` hold of all blocks of a tree, whatever is done inside of them, and let the edit make
`N` of `M` and no new blocks. Then `N` holds of all blocks of the edited tree. -/
lemma BlockEdit.carries_blocks (hM : ∀ ss, M ss → M (Stmt.editBlocksList g ss).value)
    (hg : ∀ ss, M ss → N (g ss).value)
    (hsub : ∀ ss, Stmt.blocksList (g ss).value ⊆ Stmt.blocksList ss) :
    g.Carries .blocks .blocks true true true fun k k' => (∀ b ∈ k, M b) → ∀ b ∈ k', N b where
  nil _ := List.forall_mem_nil _
  append hk hl hM := by
    rw [List.forall_mem_append] at hM ⊢
    exact ⟨hk hM.1, hl hM.2⟩
  own _ _ _ _ _ := List.forall_mem_nil _
  arm _ := rfl
  removal := ⟨rfl, rfl⟩
  hidden _ _ := List.forall_mem_nil _
  visited {ss} ih h := by
    obtain ⟨hss, hinner⟩ := List.forall_mem_cons.mp h
    refine List.forall_mem_cons.mpr ⟨hg _ (hM ss hss), fun b hb => ?_⟩
    replace hb := hsub _ hb
    revert b
    clear h hss
    induction ss with
    | nil => exact List.forall_mem_nil _
    | cons s ss ihss =>
      rw [List.forall_mem_cons] at ih
      obtain ⟨hs, hss⟩ := List.forall_mem_append.mp hinner
      exact List.forall_mem_append.mpr ⟨ih.1 hs, ihss ih.2 hss⟩

end Transfer
end MiddleEnd
