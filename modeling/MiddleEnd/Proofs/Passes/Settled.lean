import MiddleEnd.Passes.Optimizer
import MiddleEnd.Proofs.Passes.Owned

/-!
Blocks in which a pass finds nothing to do. Every pass leaves such blocks behind, and the passes
that come after it keep them so.
-/

namespace MiddleEnd

/-- Nothing is left to fold in the expressions of a block. -/
def FoldedBlock (ss : List Stmt) : Prop := ∀ s ∈ ss, ∀ e ∈ s.owned, e.IsFolded

/-- No arm is under a literal `false`, and none follows a literal `true`. -/
def Chain.IsPruned : Chain → Prop
  | .done | .otherwise .. => True
  | .elseIf _ c _ rest =>
    (c.boolean? = none ∧ rest.IsPruned) ∨ (c.boolean? = some true ∧ rest = .done)

/-- The statement has no arms and no loop that a literal rules out. -/
def Stmt.IsPruned : Stmt → Prop
  | .ifElse x c body rest => (Chain.elseIf x c body rest).IsPruned
  | .whileLoop _ c _ => c.boolean? ≠ some false
  | _ => True

def PrunedBlock (ss : List Stmt) : Prop := ∀ s ∈ ss, s.IsPruned

def CutBlock (ss : List Stmt) : Prop := ss.Pairwise fun s _ => s.isTerminator = false

/-! ### Folding -/

lemma foldBlock_value (ss : List Stmt) :
    (foldBlock ss).value = ss.map fun s => (s.editOwned Expr.fold).value :=
  Edit.mapM_value _ ss

lemma FoldedBlock.foldBlock_eq_pure {ss : List Stmt} (h : FoldedBlock ss) :
    foldBlock ss = pure ss :=
  Edit.mapM_eq_pure fun s hs => Stmt.editOwned_eq_pure _ (h s hs)

lemma foldedBlock_foldBlock (ss : List Stmt) : FoldedBlock (foldBlock ss).value := by
  rw [foldBlock_value]
  intro s' hs' e' he'
  obtain ⟨s, -, rfl⟩ := List.mem_map.mp hs'
  rw [Stmt.owned_editOwned] at he'
  obtain ⟨e, -, rfl⟩ := List.mem_map.mp he'
  exact e.isFolded_fold

lemma blocksList_foldBlock_subset (ss : List Stmt) :
    Stmt.blocksList (foldBlock ss).value ⊆ Stmt.blocksList ss := by
  intro b hb
  rw [foldBlock_value] at hb
  simp only [Stmt.mem_blocksList, List.mem_map] at hb ⊢
  obtain ⟨s', ⟨s, hs, rfl⟩, hb⟩ := hb
  exact ⟨s, hs, (Stmt.blocks_editOwned_subset Expr.blocks_fold_subset s).1 hb⟩

lemma Stmt.editBlocksList_value (g : BlockEdit) (ss : List Stmt) :
    (Stmt.editBlocksList g ss).value = ss.map fun s => (s.editBlocks g).value := by
  induction ss with
  | nil => rfl
  | cons s ss ih => simp [Stmt.editBlocksList, ih]

lemma FoldedBlock.editBlocksList {ss : List Stmt} (h : FoldedBlock ss) (g : BlockEdit) :
    FoldedBlock (Stmt.editBlocksList g ss).value := by
  rw [Stmt.editBlocksList_value]
  intro s' hs' e' he'
  obtain ⟨s, hs, rfl⟩ := List.mem_map.mp hs'
  rw [(Stmt.owned_editBlocks g s).1] at he'
  obtain ⟨e, he, rfl⟩ := List.mem_map.mp he'
  exact (h s hs e he).editBlocks g

lemma FoldedBlock.sublist {ss ts : List Stmt} (h : FoldedBlock ts) (hs : ss.Sublist ts) :
    FoldedBlock ss :=
  fun s hm => h s (hs.subset hm)

/-! ### Pruning -/

lemma Chain.isPruned_prune (ch : Chain) : ch.prune.value.IsPruned := by
  induction ch with
  | done => trivial
  | otherwise block body => trivial
  | elseIf x c body rest ih =>
    simp only [Chain.prune]
    split
    · rename_i hc
      exact Or.inl ⟨hc, ih⟩
    · exact ih
    · rename_i hc
      split
      · exact Or.inr ⟨hc, rfl⟩
      · exact Or.inr ⟨hc, rfl⟩

lemma Chain.IsPruned.prune_eq_pure {ch : Chain} (h : ch.IsPruned) : ch.prune = pure ch := by
  induction ch with
  | done => rfl
  | otherwise block body => rfl
  | elseIf x c body rest ih =>
    rcases h with ⟨hc, hrest⟩ | ⟨hc, rfl⟩
    · simp [Chain.prune, hc, ih hrest]
    · simp [Chain.prune, hc]

lemma pruneIf_isPruned {x : Extent} {c : Expr} {body : List Stmt} {rest : Chain} {s : Stmt}
    (h : (pruneIf x c body rest).value = some s) : s.IsPruned := by
  unfold pruneIf at h
  split at h
  · rename_i hc
    cases h
    exact Or.inl ⟨hc, rest.isPruned_prune⟩
  · rename_i hc
    split at h
    · cases h
      exact Or.inr ⟨hc, rfl⟩
    · cases h
      exact Or.inr ⟨hc, rfl⟩
  · -- the next arm moves up, or the last block under a literal of its own
    have hrest := rest.isPruned_prune
    split at h
    · cases h
    · rename_i heq
      cases h
      rw [heq] at hrest
      exact hrest
    · cases h
      exact Or.inr ⟨rfl, rfl⟩

lemma Stmt.isPruned_prune {s s' : Stmt} (h : s.prune.value = some s') : s'.IsPruned := by
  cases s with
  | ifElse x c body rest => exact pruneIf_isPruned h
  | whileLoop x c body =>
    simp only [Stmt.prune] at h
    split at h
    · cases h
    · rename_i hc
      cases h
      exact fun hf => hc hf
  | _ =>
    cases h
    trivial

lemma Stmt.IsPruned.prune_eq_pure {s : Stmt} (h : s.IsPruned) : s.prune = pure (some s) := by
  cases s with
  | ifElse x c body rest =>
    rcases h with ⟨hc, hrest⟩ | ⟨hc, rfl⟩
    · simp [Stmt.prune, pruneIf, hc, hrest.prune_eq_pure]
    · simp [Stmt.prune, pruneIf, hc]
  | whileLoop x c body =>
    simp only [Stmt.prune]
    split
    · rename_i hc
      exact absurd hc h
    · rfl
  | _ => rfl

lemma pruneBlock_value (ss : List Stmt) :
    (pruneBlock ss).value = ss.filterMap fun s => s.prune.value := by
  induction ss with
  | nil => rfl
  | cons s ss ih =>
    simp only [pruneBlock, Edit.bind_value, Edit.pure_value, ih]
    cases h : s.prune.value <;> simp [h]

lemma PrunedBlock.pruneBlock_eq_pure {ss : List Stmt} (h : PrunedBlock ss) :
    pruneBlock ss = pure ss := by
  induction ss with
  | nil => rfl
  | cons s ss ih =>
    have hs := (h s List.mem_cons_self).prune_eq_pure
    have hss := ih fun t ht => h t (List.mem_cons_of_mem s ht)
    simp [pruneBlock, hs, hss]

lemma prunedBlock_pruneBlock (ss : List Stmt) : PrunedBlock (pruneBlock ss).value := by
  rw [pruneBlock_value]
  intro s' hs'
  obtain ⟨s, -, hs⟩ := List.mem_filterMap.mp hs'
  exact Stmt.isPruned_prune hs

lemma PrunedBlock.sublist {ss ts : List Stmt} (h : PrunedBlock ts) (hs : ss.Sublist ts) :
    PrunedBlock ss :=
  fun s hm => h s (hs.subset hm)

lemma Chain.IsPruned.editBlocks {ch : Chain} (h : ch.IsPruned) (g : BlockEdit) :
    (ch.editBlocks g).value.IsPruned := by
  induction ch with
  | done => trivial
  | otherwise block body => trivial
  | elseIf x c body rest ih =>
    simp only [Chain.editBlocks, Edit.bind_value, Edit.pure_value, Chain.IsPruned,
      Expr.boolean?_editBlocks]
    rcases h with ⟨hc, hrest⟩ | ⟨hc, rfl⟩
    · exact Or.inl ⟨hc, ih hrest⟩
    · exact Or.inr ⟨hc, rfl⟩

lemma Stmt.IsPruned.editBlocks {s : Stmt} (h : s.IsPruned) (g : BlockEdit) :
    (s.editBlocks g).value.IsPruned := by
  cases s with
  | ifElse x c body rest => exact Chain.IsPruned.editBlocks h g
  | whileLoop x c body =>
    simp only [Stmt.editBlocks, Edit.bind_value, Edit.pure_value, Stmt.IsPruned,
      Expr.boolean?_editBlocks]
    exact h
  | forLoop x init c update body =>
    rw [Stmt.editBlocks_forLoop]
    trivial
  | _ => trivial

lemma PrunedBlock.editBlocksList {ss : List Stmt} (h : PrunedBlock ss) (g : BlockEdit) :
    PrunedBlock (Stmt.editBlocksList g ss).value := by
  rw [Stmt.editBlocksList_value]
  intro s' hs'
  obtain ⟨s, hs, rfl⟩ := List.mem_map.mp hs'
  exact (h s hs).editBlocks g

lemma Chain.conds_prune_subset (ch : Chain) : ch.prune.value.conds ⊆ ch.conds := by
  induction ch with
  | done => exact List.Subset.refl _
  | otherwise block body => exact List.Subset.refl _
  | elseIf x c body rest ih =>
    simp only [Chain.prune]
    split
    · exact List.cons_subset_cons c ih
    · exact List.subset_cons_of_subset c ih
    · split <;> exact List.cons_subset_cons c (List.nil_subset _)

lemma Chain.blocks_prune_subset (ch : Chain) : ch.prune.value.blocks ⊆ ch.blocks := by
  induction ch with
  | done => exact List.Subset.refl _
  | otherwise block body => exact List.Subset.refl _
  | elseIf x c body rest ih =>
    simp only [Chain.prune]
    split
    · exact append_subset_append (List.Subset.refl _) ih
    · exact List.subset_append_of_subset_right _ ih
    · split <;> exact append_subset_append (List.Subset.refl _) (List.nil_subset _)

/-- What is left of a statement has no new conditions, apart from the literal over a last
block. -/
lemma Stmt.owned_prune {s s' : Stmt} (h : s.prune.value = some s') {e : Expr}
    (he : e ∈ s'.owned) : e ∈ s.owned ∨ ∃ span, e = .always span := by
  cases s with
  | ifElse x c body rest =>
    have hsub := rest.conds_prune_subset
    simp only [Stmt.prune, pruneIf] at h
    split at h
    · cases h
      exact Or.inl (List.cons_subset_cons c hsub he)
    · split at h <;> cases h <;> exact Or.inl (List.cons_subset_cons c (List.nil_subset _) he)
    · split at h
      · cases h
      · rename_i heq
        cases h
        rw [heq] at hsub
        exact Or.inl (List.mem_cons_of_mem c (hsub he))
      · cases h
        exact Or.inr ⟨_, List.mem_singleton.mp he⟩
  | whileLoop x c body =>
    simp only [Stmt.prune] at h
    split at h <;> cases h
    exact Or.inl he
  | _ =>
    cases h
    exact Or.inl he

lemma Stmt.blocks_prune_subset {s s' : Stmt} (h : s.prune.value = some s') :
    s'.blocks ⊆ s.blocks := by
  cases s with
  | ifElse x c body rest =>
    have hsub := rest.blocks_prune_subset
    simp only [Stmt.prune, pruneIf] at h
    split at h
    · cases h
      exact append_subset_append (List.Subset.refl _) hsub
    · -- always true: the other arms go, with their blocks
      split at h <;> cases h <;>
        exact append_subset_append (List.Subset.refl _) (List.nil_subset _)
    · split at h
      · cases h
      · rename_i heq
        cases h
        rw [heq] at hsub
        exact List.subset_append_of_subset_right _ hsub
      · rename_i heq
        cases h
        rw [heq] at hsub
        refine List.subset_append_of_subset_right _ ?_
        simpa [Stmt.collect, Chain.collect, Expr.always, Expr.collect] using hsub
  | whileLoop x c body =>
    simp only [Stmt.prune] at h
    split at h <;> cases h
    exact List.Subset.refl _
  | _ =>
    cases h
    exact List.Subset.refl _

lemma blocksList_pruneBlock_subset (ss : List Stmt) :
    Stmt.blocksList (pruneBlock ss).value ⊆ Stmt.blocksList ss := by
  intro b hb
  rw [pruneBlock_value] at hb
  simp only [Stmt.mem_blocksList, List.mem_filterMap] at hb ⊢
  obtain ⟨s', ⟨s, hs, h⟩, hb⟩ := hb
  exact ⟨s, hs, Stmt.blocks_prune_subset h hb⟩

/-- Pruning leaves nothing to fold where there was nothing. -/
lemma FoldedBlock.pruneBlock {ss : List Stmt} (h : FoldedBlock ss) :
    FoldedBlock (pruneBlock ss).value := by
  rw [pruneBlock_value]
  intro s' hs' e he
  obtain ⟨s, hs, hprune⟩ := List.mem_filterMap.mp hs'
  rcases Stmt.owned_prune hprune he with he | ⟨span, rfl⟩
  · exact h s hs e he
  · rfl

/-! ### Unreachable statements -/

lemma cutBlock_sublist (ss : List Stmt) : (cutBlock ss).value.Sublist ss := by
  induction ss with
  | nil => exact List.Sublist.refl _
  | cons s ss ih =>
    unfold cutBlock
    split
    · split
      · exact List.Sublist.refl _
      · exact List.Sublist.cons_cons s (List.nil_sublist _)
    · exact List.Sublist.cons_cons s ih

lemma cutBlock_cutBlock (ss : List Stmt) : CutBlock (cutBlock ss).value := by
  induction ss with
  | nil => exact List.Pairwise.nil
  | cons s ss ih =>
    unfold cutBlock
    split
    · split <;> exact List.pairwise_singleton _ _
    · rename_i hs
      exact List.Pairwise.cons (fun _ _ => by simpa using hs) ih

lemma CutBlock.cutBlock_eq_pure {ss : List Stmt} (h : CutBlock ss) : cutBlock ss = pure ss := by
  induction ss with
  | nil => rfl
  | cons s ss ih =>
    obtain ⟨hs, hss⟩ := List.pairwise_cons.mp h
    unfold cutBlock
    split
    · rename_i ht
      cases ss with
      | nil => rfl
      | cons t ts =>
        rw [hs t List.mem_cons_self] at ht
        cases ht
    · simp [ih hss]

lemma Stmt.isTerminator_editBlocks (g : BlockEdit) (s : Stmt) :
    (s.editBlocks g).value.isTerminator = s.isTerminator := by
  cases s with
  | forLoop x init c update body =>
    rw [Stmt.editBlocks_forLoop]
    rfl
  | _ => rfl

lemma Stmt.blocksList_subset_of_sublist {ss ts : List Stmt} (h : ss.Sublist ts) :
    Stmt.blocksList ss ⊆ Stmt.blocksList ts := by
  intro b hb
  rw [Stmt.mem_blocksList] at hb ⊢
  obtain ⟨s, hs, hb⟩ := hb
  exact ⟨s, h.subset hs, hb⟩

end MiddleEnd
