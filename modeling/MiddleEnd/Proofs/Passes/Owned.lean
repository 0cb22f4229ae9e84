import MiddleEnd.Passes.Owned
import MiddleEnd.Proofs.Passes.Fold

/-!
The expressions that a statement owns, and what the edits of expressions and of blocks do to them.
-/

namespace MiddleEnd

def Chain.conds : Chain → List Expr
  | .done | .otherwise .. => []
  | .elseIf _ c _ rest => c :: rest.conds

mutual
def Stmt.owned : Stmt → List Expr
  | .var _ init => init.toList
  | .assign _ t v => [t, v]
  | .func .. | .cls .. | .ctor .. | .brk _ => []
  | .ifElse _ c _ rest => c :: rest.conds
  | .whileLoop _ c _ => [c]
  | .forLoop _ init c update _ =>
    (init.bind (·.2)).toList ++ c.toList ++ Stmt.ownedUpdate update
  | .ret _ v => v.toList
  | .expr e => [e]

def Stmt.ownedUpdate : Option Stmt → List Expr
  | none => []
  | some s => s.owned
end

section Edits

variable (h : Expr → Edit Expr)

def Stmt.editInit : Option (VarHead × Option Expr) → Edit (Option (VarHead × Option Expr))
  | none => return none
  | some (head, e) => return some (head, ← e.mapM h)

def Stmt.editUpdate : Option Stmt → Edit (Option Stmt)
  | none => return none
  | some s => return some (← s.editOwned h)

lemma Stmt.editOwned_forLoop (x : Extent) (init : Option (VarHead × Option Expr))
    (c : Option Expr) (update : Option Stmt) (body : List Stmt) :
    (Stmt.forLoop x init c update body).editOwned h =
      return .forLoop x (← Stmt.editInit h init) (← c.mapM h) (← Stmt.editUpdate h update)
        body := by
  rcases init with _ | ⟨head, e⟩ <;> rcases update with _ | s <;>
    simp [Stmt.editOwned, Stmt.editInit, Stmt.editUpdate]

lemma Edit.optionMapM_eq_pure {α : Type} {f : α → Edit α} {o : Option α}
    (hf : ∀ a ∈ o, f a = pure a) : o.mapM f = pure o := by
  cases o with
  | none => rfl
  | some a =>
    show some <$> f a = pure (some a)
    rw [hf a rfl]
    rfl

lemma Chain.editConds_eq_pure {ch : Chain} (hch : ∀ e ∈ ch.conds, h e = pure e) :
    ch.editConds h = pure ch := by
  induction ch with
  | done => rfl
  | otherwise block body => rfl
  | elseIf x c body rest ih =>
    simp only [Chain.conds, List.forall_mem_cons] at hch
    simp [Chain.editConds, hch.1, ih hch.2]

/-- A statement whose expressions are all left alone is left alone. -/
lemma Stmt.editOwned_eq_pure {s : Stmt} (hs : ∀ e ∈ s.owned, h e = pure e) :
    s.editOwned h = pure s := by
  induction s with
  | var head init =>
    have hinit := Edit.optionMapM_eq_pure fun e he => hs e (Option.mem_toList.mpr he)
    simp [Stmt.editOwned, hinit]
  | assign span t v =>
    simp only [Stmt.owned, List.forall_mem_cons] at hs
    simp [Stmt.editOwned, hs.1, hs.2.1]
  | ifElse x c body rest =>
    simp only [Stmt.owned, List.forall_mem_cons] at hs
    simp [Stmt.editOwned, hs.1, Chain.editConds_eq_pure h hs.2]
  | whileLoop x c body =>
    simp only [Stmt.owned, List.forall_mem_cons] at hs
    simp [Stmt.editOwned, hs.1]
  | forLoop x init c update body ih =>
    simp only [Stmt.owned, List.forall_mem_append] at hs
    obtain ⟨⟨hi, hc⟩, hu⟩ := hs
    have hinit : Stmt.editInit h init = pure init := by
      rcases init with _ | ⟨head, e⟩
      · rfl
      · have := Edit.optionMapM_eq_pure fun a ha => hi a (Option.mem_toList.mpr ha)
        simp only [Option.bind_some] at this
        simp [Stmt.editInit, this]
    have hcond := Edit.optionMapM_eq_pure fun e he => hc e (Option.mem_toList.mpr he)
    have hupdate : Stmt.editUpdate h update = pure update := by
      cases update with
      | none => rfl
      | some s => simp [Stmt.editUpdate, ih s rfl hu]
    simp [Stmt.editOwned_forLoop, hinit, hcond, hupdate]
  | ret span v =>
    have hv := Edit.optionMapM_eq_pure fun e he => hs e (Option.mem_toList.mpr he)
    simp [Stmt.editOwned, hv]
  | expr e =>
    simp only [Stmt.owned, List.forall_mem_cons] at hs
    simp [Stmt.editOwned, hs.1]
  | func | cls | ctor | brk => rfl

lemma Chain.conds_editConds (ch : Chain) :
    (ch.editConds h).value.conds = ch.conds.map fun e => (h e).value := by
  induction ch with
  | done => rfl
  | otherwise block body => rfl
  | elseIf x c body rest ih => simp [Chain.editConds, Chain.conds, ih]

/-- The expressions of an edited statement are the edited expressions. -/
lemma Stmt.owned_editOwned (s : Stmt) :
    (s.editOwned h).value.owned = s.owned.map fun e => (h e).value := by
  induction s with
  | var head init => cases init <;> simp [Stmt.editOwned, Stmt.owned]
  | ifElse x c body rest => simp [Stmt.editOwned, Stmt.owned, Chain.conds_editConds]
  | forLoop x init c update body ih =>
    have hinit : ((Stmt.editInit h init).value.bind (·.2)).toList =
        (init.bind (·.2)).toList.map fun e => (h e).value := by
      rcases init with _ | ⟨head, _ | e⟩ <;> rfl
    have hcond : (c.mapM h).value.toList = c.toList.map fun e => (h e).value := by
      cases c <;> rfl
    have hupdate : Stmt.ownedUpdate (Stmt.editUpdate h update).value =
        (Stmt.ownedUpdate update).map fun e => (h e).value := by
      cases update with
      | none => rfl
      | some s => exact ih s rfl
    simp [Stmt.editOwned_forLoop, Stmt.owned, hinit, hcond, hupdate]
  | ret span v => cases v <;> simp [Stmt.editOwned, Stmt.owned]
  | assign | func | cls | ctor | whileLoop | brk | expr => rfl

end Edits

/-! ### Edits of blocks -/

section Inner

variable (g : BlockEdit)

lemma Expr.editBlocksOption_toList (o : Option Expr) :
    (Expr.editBlocksOption g o).value.toList = o.toList.map fun e => (e.editBlocks g).value := by
  cases o <;> rfl

lemma Expr.editBlocksInit_toList (o : Option (VarHead × Option Expr)) :
    ((Expr.editBlocksInit g o).value.bind (·.2)).toList =
      (o.bind (·.2)).toList.map fun e => (e.editBlocks g).value := by
  rcases o with _ | ⟨head, _ | e⟩ <;> rfl

lemma Chain.conds_editBlocks (ch : Chain) :
    (ch.editBlocks g).value.conds = ch.conds.map (fun e => (e.editBlocks g).value) ∧
      (ch.editOwnedBlocks g).value.conds = ch.conds.map fun e => (e.editBlocks g).value := by
  induction ch with
  | done => exact ⟨rfl, rfl⟩
  | otherwise block body => exact ⟨rfl, rfl⟩
  | elseIf x c body rest ih =>
    simp [Chain.editBlocks, Chain.editOwnedBlocks, Chain.conds, ih]

/-- The blocks are edited in each of the expressions. -/
lemma Stmt.owned_editBlocks (s : Stmt) :
    (s.editBlocks g).value.owned = s.owned.map (fun e => (e.editBlocks g).value) ∧
      (s.editOwnedBlocks g).value.owned = s.owned.map fun e => (e.editBlocks g).value := by
  induction s with
  | var head init =>
    simp [Stmt.editBlocks, Stmt.editOwnedBlocks, Stmt.owned, Expr.editBlocksOption_toList]
  | ifElse x c body rest =>
    simp [Stmt.editBlocks, Stmt.editOwnedBlocks, Stmt.owned, Chain.conds_editBlocks]
  | forLoop x init c update body ih =>
    have hupdate : Stmt.ownedUpdate (Stmt.editBlocksUpdate g update).value =
        (Stmt.ownedUpdate update).map fun e => (e.editBlocks g).value := by
      cases update with
      | none => rfl
      | some s => exact (ih s rfl).2
    simp [Stmt.editBlocks_forLoop, Stmt.editOwnedBlocks_forLoop, Stmt.owned,
      Expr.editBlocksOption_toList, Expr.editBlocksInit_toList, hupdate]
  | ret span v =>
    simp [Stmt.editBlocks, Stmt.editOwnedBlocks, Stmt.owned, Expr.editBlocksOption_toList]
  | assign | func | cls | ctor | whileLoop | brk | expr => exact ⟨rfl, rfl⟩

end Inner

/-! ### Blocks of edited expressions -/

section Subset

variable {h : Expr → Edit Expr} (hsub : ∀ e, (h e).value.blocks ⊆ e.blocks)

include hsub

lemma Expr.blocksOption_mapM_subset (o : Option Expr) :
    Expr.collectOption .blocks true (o.mapM h).value ⊆ Expr.collectOption .blocks true o := by
  cases o with
  | none => exact List.Subset.refl _
  | some e => exact hsub e

lemma Expr.blocksInit_editInit_subset (o : Option (VarHead × Option Expr)) :
    Expr.collectInit .blocks true (Stmt.editInit h o).value ⊆ Expr.collectInit .blocks true o := by
  rcases o with _ | ⟨head, e⟩
  · exact List.Subset.refl _
  · exact Expr.blocksOption_mapM_subset hsub e

lemma Chain.blocks_editConds_subset (ch : Chain) :
    (ch.editConds h).value.blocks ⊆ ch.blocks ∧
      (ch.editConds h).value.ownedBlocks ⊆ ch.ownedBlocks := by
  induction ch with
  | done => exact ⟨List.Subset.refl _, List.Subset.refl _⟩
  | otherwise block body => exact ⟨List.Subset.refl _, List.Subset.refl _⟩
  | elseIf x c body rest ih =>
    exact ⟨append_subset_append (append_subset_append (hsub c) (List.Subset.refl _)) ih.1,
      append_subset_append (append_subset_append (hsub c) (List.Subset.refl _)) ih.2⟩

/-- An edit of expressions that makes no new blocks makes none in statements. -/
lemma Stmt.blocks_editOwned_subset (s : Stmt) :
    (s.editOwned h).value.blocks ⊆ s.blocks ∧
      (s.editOwned h).value.ownedBlocks ⊆ s.ownedBlocks := by
  induction s with
  | var head init =>
    exact ⟨Expr.blocksOption_mapM_subset hsub init, Expr.blocksOption_mapM_subset hsub init⟩
  | assign span t v =>
    exact ⟨append_subset_append (hsub t) (hsub v), append_subset_append (hsub t) (hsub v)⟩
  | ifElse x c body rest =>
    have hrest := Chain.blocks_editConds_subset hsub rest
    exact ⟨append_subset_append (append_subset_append (hsub c) (List.Subset.refl _)) hrest.1,
      append_subset_append (append_subset_append (hsub c) (List.Subset.refl _)) hrest.2⟩
  | whileLoop x c body =>
    exact ⟨append_subset_append (hsub c) (List.Subset.refl _),
      append_subset_append (hsub c) (List.Subset.refl _)⟩
  | forLoop x init c update body ih =>
    have hupdate : Stmt.collectUpdate .blocks true (Stmt.editUpdate h update).value ⊆
        Stmt.collectUpdate .blocks true update := by
      cases update with
      | none => exact List.Subset.refl _
      | some s => exact (ih s rfl).2
    have hhead := append_subset_append
      (append_subset_append (Expr.blocksInit_editInit_subset hsub init)
        (Expr.blocksOption_mapM_subset hsub c)) hupdate
    simp only [Stmt.editOwned_forLoop, Edit.bind_value, Edit.pure_value]
    exact ⟨append_subset_append hhead (List.Subset.refl _),
      append_subset_append hhead (List.Subset.refl _)⟩
  | ret span v =>
    exact ⟨Expr.blocksOption_mapM_subset hsub v, Expr.blocksOption_mapM_subset hsub v⟩
  | expr e => exact ⟨hsub e, hsub e⟩
  | func | cls | ctor | brk => exact ⟨List.Subset.refl _, List.Subset.refl _⟩

end Subset
end MiddleEnd
