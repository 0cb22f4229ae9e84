import MiddleEnd.Proofs.Passes.OneRound
import MiddleEnd.Proofs.Passes.Trims
import MiddleEnd.Proofs.Tree.Placed

/-!
What the passes remove. Pruning and cutting remove parts of blocks and so parts of trees; the
removal of functions that are not called takes statements from the top. Passes one after another
leave a program with parts removed, and nothing else is changed.
-/

namespace MiddleEnd

variable {lossy : Prop}

/-! ### What the passes remove -/

section Everywhere

variable {f : BlockEdit}

lemma Expr.trims_editBlocksList {es : List Expr}
    (hes : ∀ e ∈ es, e.Trims lossy (e.editBlocks f).value) :
    List.Forall₂ (Expr.Trims lossy) es (editBlocksList f es).value := by
  induction es with
  | nil => exact .nil
  | cons e es ih =>
    rw [List.forall_mem_cons] at hes
    exact .cons hes.1 (ih hes.2)

lemma Expr.trims_editBlocksEntries {es : List (Expr × Expr)}
    (hes : ∀ e ∈ es, e.1.Trims lossy (e.1.editBlocks f).value ∧
      e.2.Trims lossy (e.2.editBlocks f).value) :
    List.Forall₂ (Expr.Trims lossy) (es.map Prod.fst)
        ((editBlocksEntries f es).value.map Prod.fst) ∧
      List.Forall₂ (Expr.Trims lossy) (es.map Prod.snd)
        ((editBlocksEntries f es).value.map Prod.snd) := by
  induction es with
  | nil => exact ⟨.nil, .nil⟩
  | cons e es ih =>
    rw [List.forall_mem_cons] at hes
    obtain ⟨hk, hv⟩ := ih hes.2
    exact ⟨.cons hes.1.1 hk, .cons hes.1.2 hv⟩

lemma Expr.trims_editBlocksOption {o : Option Expr}
    (ho : ∀ e ∈ o, e.Trims lossy (e.editBlocks f).value) :
    Option.Rel (Expr.Trims lossy) o (editBlocksOption f o).value := by
  cases o with
  | none => exact .none
  | some e => exact .some (ho e rfl)

lemma Expr.trims_editBlocksInit {o : Option (VarHead × Option Expr)}
    (ho : ∀ i ∈ o, ∀ e ∈ i.2, e.Trims lossy (e.editBlocks f).value) :
    (editBlocksInit f o).value.map Prod.fst = o.map Prod.fst ∧
      Option.Rel (Option.Rel (Expr.Trims lossy)) (o.map Prod.snd)
        ((editBlocksInit f o).value.map Prod.snd) := by
  cases o with
  | none => exact ⟨rfl, .none⟩
  | some i => exact ⟨rfl, .some (trims_editBlocksOption (ho i rfl))⟩

lemma Stmt.trims_editBlocksUpdate {o : Option Stmt}
    (ho : ∀ s ∈ o, s.Trims lossy (s.editOwnedBlocks f).value) :
    Option.Rel (Stmt.Trims lossy) o (editBlocksUpdate f o).value := by
  cases o with
  | none => exact .none
  | some s => exact .some (ho s rfl)

lemma Stmt.trims_editBlocksList {ss : List Stmt}
    (hss : ∀ s ∈ ss, s.Trims lossy (s.editBlocks f).value) :
    TrimsList lossy ss (editBlocksList f ss).value := by
  induction ss with
  | nil => exact .nil
  | cons s ss ih =>
    rw [List.forall_mem_cons] at hss
    exact .keep hss.1 (ih hss.2)

lemma Stmt.trims_editBlock (hf : ∀ ss, TrimsList lossy ss (f ss).value) {ss : List Stmt}
    (hss : ∀ s ∈ ss, s.Trims lossy (s.editBlocks f).value) :
    TrimsList lossy ss (f (editBlocksList f ss).value).value :=
  (trims_editBlocksList hss).trans (hf _)

/-- An edit that removes parts of a block removes parts of a tree. -/
lemma Tree.trims_editBlocks (hf : ∀ ss, Stmt.TrimsList lossy ss (f ss).value) : Tree.Inductive
    (fun e => e.Trims lossy (e.editBlocks f).value)
    (fun s => s.Trims lossy (s.editBlocks f).value ∧ s.Trims lossy (s.editOwnedBlocks f).value)
    (fun ch => ch.Trims lossy (ch.editBlocks f).value ∧
      ch.Trims lossy (ch.editOwnedBlocks f).value) where
  leaf e he := by
    rw [Expr.editBlocks_leaf he]
    exact e.trims_refl
  binary _ _ _ _ hl hr := .binary hl hr
  unary _ _ _ he := .unary he
  step _ _ _ he := .step he
  ternary _ _ _ _ hc hy hn := .ternary hc hy hn
  call _ _ _ _ hg hargs := .call hg (Expr.trims_editBlocksList hargs)
  member _ _ _ ho := .member ho
  subscript _ _ _ ho hi := .subscript ho hi
  array _ _ hes := .array (Expr.trims_editBlocksList hes)
  dictionary _ _ hes :=
    .dictionary (Expr.trims_editBlocksEntries hes).1 (Expr.trims_editBlocksEntries hes).2
  blockLambda _ _ _ _ hbody := .blockLambda (Stmt.trims_editBlock hf fun s hs => (hbody s hs).1)
  exprLambda _ _ _ he := .exprLambda he
  var _ _ hinit :=
    ⟨.var (Expr.trims_editBlocksOption hinit), .var (Expr.trims_editBlocksOption hinit)⟩
  assign _ _ _ ht hv := ⟨.assign ht hv, .assign ht hv⟩
  func _ _ hbody :=
    ⟨.func (Stmt.trims_editBlock hf fun s hs => (hbody s hs).1), Stmt.trims_refl _⟩
  cls _ _ hms := ⟨.cls (Stmt.trims_editBlock hf fun s hs => (hms s hs).1), Stmt.trims_refl _⟩
  ctor _ _ hbody :=
    ⟨.ctor (Stmt.trims_editBlock hf fun s hs => (hbody s hs).1), Stmt.trims_refl _⟩
  ifElse _ _ body _ hc hbody hrest :=
    ⟨.ifElse hc (Stmt.trims_editBlock hf fun s hs => (hbody s hs).1) hrest.1,
      .ifElse hc (Stmt.trimsList_refl body) hrest.2⟩
  whileLoop _ _ body hc hbody :=
    ⟨.whileLoop hc (Stmt.trims_editBlock hf fun s hs => (hbody s hs).1),
      .whileLoop hc (Stmt.trimsList_refl body)⟩
  forLoop x init c update body hinit hc hupdate hbody := by
    obtain ⟨hhead, hinit⟩ := Expr.trims_editBlocksInit hinit
    have hc := Expr.trims_editBlocksOption hc
    have hupdate := Stmt.trims_editBlocksUpdate fun s hs => (hupdate s hs).2
    rw [Stmt.editBlocks_forLoop, Stmt.editOwnedBlocks_forLoop]
    exact ⟨.forLoop hhead hinit hc hupdate (Stmt.trims_editBlock hf fun s hs => (hbody s hs).1),
      .forLoop hhead hinit hc hupdate (Stmt.trimsList_refl body)⟩
  ret _ _ hv := ⟨.ret (Expr.trims_editBlocksOption hv), .ret (Expr.trims_editBlocksOption hv)⟩
  brk _ := ⟨.brk, .brk⟩
  expr _ he := ⟨.expr he, .expr he⟩
  done := ⟨.done, .done⟩
  elseIf _ _ body _ hc hbody hrest :=
    ⟨.elseIf hc (Stmt.trims_editBlock hf fun s hs => (hbody s hs).1) hrest.1,
      .elseIf hc (Stmt.trimsList_refl body) hrest.2⟩
  otherwise _ body hbody :=
    ⟨.otherwise (Stmt.trims_editBlock hf fun s hs => (hbody s hs).1),
      .otherwise (Stmt.trimsList_refl body)⟩

lemma Stmt.trims_everywhere (hf : ∀ ss, TrimsList lossy ss (f ss).value) (ss : List Stmt) :
    TrimsList lossy ss (BlockEdit.everywhere f ss).value :=
  trims_editBlock hf fun s _ => ((Tree.trims_editBlocks hf).stmt_holds s).1

end Everywhere

lemma Chain.trims_prune (hlossy : lossy) (ch : Chain) : ch.Trims lossy ch.prune.value := by
  induction ch with
  | done => exact .done
  | otherwise block body => exact trims_refl _
  | elseIf x c body rest ih =>
    unfold prune
    split
    · exact .elseIf c.trims_refl (Stmt.trimsList_refl body) ih
    · exact .skip hlossy ih
    · split
      · exact trims_refl _
      · exact .elseIf c.trims_refl (Stmt.trimsList_refl body) (.stop hlossy)

/-- A conditional of which an arm is left is what is left of a conditional, and one of which nothing
is left was one. -/
lemma Stmt.trims_prune (hlossy : lossy) (s : Stmt) :
    (∀ s' ∈ s.prune.value, s.Trims lossy s') ∧ (s.prune.value = none → s.isBranch = true) := by
  have stays (s' : Stmt) (h : s.prune.value = some s') (hs : s.Trims lossy s') :
      (∀ s' ∈ s.prune.value, s.Trims lossy s') ∧ (s.prune.value = none → s.isBranch = true) := by
    rw [h]
    exact ⟨by rintro _ ⟨⟩; exact hs, nofun⟩
  cases s with
  | ifElse x c body rest =>
    have hrest := rest.trims_prune hlossy
    refine ⟨?_, fun _ => rfl⟩
    show ∀ s' ∈ (pruneIf x c body rest).value, _
    unfold pruneIf
    split
    · -- undecided: the chain is pruned
      rintro _ ⟨⟩
      exact .ifElse c.trims_refl (trimsList_refl body) hrest
    · -- always true: the chain ends here
      split
      · rintro _ ⟨⟩
        exact trims_refl _
      · rintro _ ⟨⟩
        exact .ifElse c.trims_refl (trimsList_refl body) (.stop hlossy)
    · -- always false: the next arm takes the place of this one
      split
      · rintro _ ⟨⟩
      · rename_i h
        rintro _ ⟨⟩
        exact .nextArm hlossy (h ▸ hrest)
      · rename_i h
        rintro _ ⟨⟩
        exact .lastArm hlossy (h ▸ hrest)
  | whileLoop x c body =>
    refine ⟨?_, fun _ => rfl⟩
    rw [prune]
    split
    · rintro _ ⟨⟩
    · rintro _ ⟨⟩
      exact trims_refl _
  | _ => exact stays _ rfl (trims_refl _)

lemma Stmt.trims_pruneBlock (hlossy : lossy) (ss : List Stmt) :
    TrimsList lossy ss (pruneBlock ss).value := by
  induction ss with
  | nil => exact .nil
  | cons s ss ih =>
    obtain ⟨hsome, hnone⟩ := s.trims_prune hlossy
    show TrimsList lossy (s :: ss) (s.prune.value.toList ++ (pruneBlock ss).value)
    cases h : s.prune.value with
    | none => exact .drop hlossy (hnone h) ih
    | some s' => exact .keep (hsome s' h) ih

lemma Stmt.trims_cutBlock (hlossy : lossy) (ss : List Stmt) :
    TrimsList lossy ss (cutBlock ss).value := by
  induction ss with
  | nil => exact .nil
  | cons s ss ih =>
    unfold cutBlock
    split
    · rename_i hterm
      split
      · exact trimsList_refl _
      · exact .cut hlossy hterm s.trims_refl
    · exact .keep s.trims_refl ih

/-! ### Programs -/

/-- The second list is what is left of the first: some members are lost, and the others are related
one by one. -/
inductive Thinned {α β : Type} (r : α → β → Prop) (lost : α → Prop) : List α → List β → Prop where
  | nil : Thinned r lost [] []
  | keep {a : α} {b : β} {l : List α} {l' : List β} (h : r a b) (hl : Thinned r lost l l') :
      Thinned r lost (a :: l) (b :: l')
  | lose {a : α} {l : List α} {l' : List β} (h : lost a) (hl : Thinned r lost l l') :
      Thinned r lost (a :: l) l'

namespace Thinned

variable {α β : Type}

lemma mono {r r' : α → β → Prop} {lost lost' : α → Prop} {l : List α} {l' : List β}
    (h : Thinned r lost l l') (hr : ∀ a ∈ l, ∀ b, r a b → r' a b)
    (hlost : ∀ a ∈ l, lost a → lost' a) : Thinned r' lost' l l' := by
  induction h with
  | nil => exact .nil
  | keep hab _ ih =>
    rw [List.forall_mem_cons] at hr hlost
    exact .keep (hr.1 _ hab) (ih hr.2 hlost.2)
  | lose ha _ ih =>
    rw [List.forall_mem_cons] at hr hlost
    exact .lose (hlost.1 ha) (ih hr.2 hlost.2)

lemma refl {r : α → α → Prop} {lost : α → Prop} (hr : ∀ a, r a a) (l : List α) :
    Thinned r lost l l := by
  induction l with
  | nil => exact .nil
  | cons a l ih => exact .keep (hr a) ih

lemma trans {r : α → α → Prop} {lost : α → Prop} {l l' l'' : List α}
    (hr : ∀ {a b c}, r a b → r b c → r a c) (hlost : ∀ {a b}, r a b → lost b → lost a)
    (h : Thinned r lost l l') (h' : Thinned r lost l' l'') : Thinned r lost l l'' := by
  induction h generalizing l'' with
  | nil => exact h'
  | keep hab _ ih =>
    cases h' with
    | keep hbc hrest => exact .keep (hr hab hbc) (ih hrest)
    | lose hb hrest => exact .lose (hlost hab hb) (ih hrest)
  | lose ha _ ih => exact .lose ha (ih h')

lemma exists_of_mem {r : α → β → Prop} {lost : α → Prop} {l : List α} {l' : List β} {b : β}
    (h : Thinned r lost l l') (hb : b ∈ l') : ∃ a ∈ l, r a b := by
  induction h with
  | nil => cases hb
  | keep hab _ ih =>
    rcases List.mem_cons.mp hb with rfl | hb
    · exact ⟨_, List.mem_cons_self, hab⟩
    · obtain ⟨a, ha, hab⟩ := ih hb
      exact ⟨a, List.mem_cons_of_mem _ ha, hab⟩
  | lose _ _ ih =>
    obtain ⟨a, ha, hab⟩ := ih hb
    exact ⟨a, List.mem_cons_of_mem _ ha, hab⟩

end Thinned

namespace Stmt

mutual
/-- Neither the statement itself nor a member of a class in it is a terminator. -/
def steady : Stmt → Bool
  | .cls _ ms => steadyList ms
  | .ret .. | .brk _ => false
  | _ => true

def steadyList : List Stmt → Bool
  | [] => true
  | s :: ss => s.steady && steadyList ss
end

lemma steadyList_iff {ss : List Stmt} : steadyList ss = true ↔ ∀ s ∈ ss, s.steady = true := by
  induction ss with
  | nil => simp [steadyList]
  | cons s ss ih => simp [steadyList, ih]

lemma not_isTerminator_of_steady {s : Stmt} (h : s.steady = true) : s.isTerminator = false := by
  cases s with
  | ret | brk => cases h
  | _ => rfl

lemma steady_of_placed {s : Stmt} {place : Surroundings} (hloop : place.inLoop = false)
    (hfunction : place.inFunction = false) (h : s.placed place = true) : s.steady = true := by
  induction s using members_induction generalizing place with
  | other s hs =>
    cases s with
    | ret span v => simp [placed, hfunction] at h
    | brk span => simp [placed, hloop] at h
    | cls head ms => cases hs
    | _ => rfl
  | cls head ms ih =>
    have hbody : place.body.inFunction = false := hfunction
    exact steadyList_iff.mpr fun s hs => ih s hs rfl hbody (placedList_iff.mp h s hs).2

/-- Where no terminator stands, only branches are removed. -/
lemma TrimsList.thinned {ss ss' : List Stmt} (h : TrimsList lossy ss ss')
    (hss : ∀ s ∈ ss, s.steady = true) :
    Thinned (Trims lossy) (fun s => lossy ∧ s.isBranch = true) ss ss' := by
  induction ss generalizing ss' with
  | nil =>
    cases h
    exact .nil
  | cons s ss ih =>
    rw [List.forall_mem_cons] at hss
    cases h with
    | keep hs hrest => exact .keep hs (ih hrest hss.2)
    | drop hlossy hs hrest => exact .lose ⟨hlossy, hs⟩ (ih hrest hss.2)
    | cut _ hterm _ =>
      rw [not_isTerminator_of_steady hss.1] at hterm
      cases hterm

lemma Trims.steady {s s' : Stmt} (h : s.Trims lossy s') (hs : s.steady = true) :
    s'.steady = true := by
  induction s using members_induction generalizing s' with
  | other s hcls =>
    have hterm := h.isTerminator_eq
    rw [not_isTerminator_of_steady hs] at hterm
    have hcls' := h.isClass_eq
    rw [hcls] at hcls'
    cases s' with
    | ret | brk => cases hterm
    | cls => cases hcls'
    | _ => rfl
  | cls head ms ih =>
    cases h with
    | cls hms =>
      have hsteady := steadyList_iff.mp hs
      refine steadyList_iff.mpr fun s' hs' => ?_
      obtain ⟨s, hmem, htrims⟩ := (hms.thinned hsteady).exists_of_mem hs'
      exact ih s hmem htrims (hsteady s hmem)

end Stmt

/-- The passes that only remove; functions are removed that are not called. -/
def Pass.Removes (called : List String) : Pass → Prop
  | .foldConstants => False
  | .pruneBranches | .cutUnreachable => True
  | .dropUncalled called' => called' = called

/-- The statement may be missing in a program that passes have removed parts from. -/
def Stmt.Removable (called : List String) (s : Stmt) : Prop :=
  s.isBranch = true ∨ s.isUncalled called = true

/-- The second program is the first one with parts removed. -/
def Program.Thins (called : List String) (p p' : Program) : Prop :=
  Thinned (Stmt.Trims True) (Stmt.Removable called) p.stmts p'.stmts

namespace Program.Thins

variable {called : List String} {p p' p'' : Program}

lemma refl (p : Program) : p.Thins called p := Thinned.refl Stmt.trims_refl p.stmts

lemma trans (h : p.Thins called p') (h' : p'.Thins called p'') : p.Thins called p'' := by
  refine Thinned.trans Stmt.Trims.trans (fun htrims hlost => ?_) h h'
  exact hlost.imp (htrims.isBranch_eq ▸ ·) (htrims.isUncalled_eq called ▸ ·)

lemma steady (h : p.Thins called p') (hp : ∀ s ∈ p.stmts, s.steady = true) :
    ∀ s ∈ p'.stmts, s.steady = true := by
  intro s' hs'
  obtain ⟨s, hs, htrims⟩ := h.exists_of_mem hs'
  exact htrims.steady (hp s hs)

end Program.Thins

lemma Pass.thins_run {called : List String} {pass : Pass} (hpass : pass.Removes called)
    {p : Program} (hp : ∀ s ∈ p.stmts, s.steady = true) : p.Thins called (pass.run p).value := by
  have everywhere {f : BlockEdit} (hf : ∀ ss, Stmt.TrimsList True ss (f ss).value) :
      Thinned (Stmt.Trims True) (Stmt.Removable called) p.stmts
        (BlockEdit.everywhere f p.stmts).value :=
    ((Stmt.trims_everywhere hf p.stmts).thinned hp).mono (fun _ _ _ h => h)
      fun _ _ h => Or.inl h.2
  cases pass with
  | foldConstants => exact hpass.elim
  | pruneBranches => exact everywhere (Stmt.trims_pruneBlock trivial)
  | cutUnreachable => exact everywhere (Stmt.trims_cutBlock trivial)
  | dropUncalled called' =>
    obtain rfl : called' = called := hpass
    show Thinned _ _ p.stmts (p.stmts.filter (!·.isUncalled called'))
    generalize p.stmts = ss
    induction ss with
    | nil => exact .nil
    | cons s ss ih =>
      rw [List.filter_cons]
      split
      · exact .keep s.trims_refl ih
      · rename_i h
        exact .lose (Or.inr (by simpa using h)) ih

/-- Passes that only remove, one after another, leave a program with parts removed. -/
lemma Pass.thins_runAll {called : List String} {passes : List Pass}
    (hpasses : ∀ pass ∈ passes, pass.Removes called) {p : Program}
    (hp : ∀ s ∈ p.stmts, s.steady = true) : p.Thins called (runAll passes p).value := by
  induction passes generalizing p with
  | nil => exact .refl p
  | cons pass passes ih =>
    rw [List.forall_mem_cons] at hpasses
    have hrun := thins_run hpasses.1 hp
    rw [runAll_cons, Edit.bind_value]
    exact hrun.trans (ih hpasses.2 (hrun.steady hp))

end MiddleEnd
