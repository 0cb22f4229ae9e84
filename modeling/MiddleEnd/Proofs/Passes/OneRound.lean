import MiddleEnd.Proofs.Passes.Settled

/-!
One round of passes is enough. A pass settles a program for itself, and each of the passes that
come after it in a configured optimizer keeps the program settled: they only remove statements and
arms, or put a folded literal over a last arm. So a second round finds nothing to do.
-/

namespace MiddleEnd

/-! ### Edits of all blocks -/

/-- The edit of a block brings about a property in whose presence it does nothing, and opens no
new blocks. -/
structure BlockEdit.Settles (f : BlockEdit) (N : List Stmt → Prop) : Prop where
  value : ∀ ss, N (f ss).value
  eq_pure : ∀ ss, N ss → f ss = pure ss
  blocks : ∀ ss, Stmt.blocksList (f ss).value ⊆ Stmt.blocksList ss

lemma foldBlock_settles : BlockEdit.Settles foldBlock FoldedBlock where
  value := foldedBlock_foldBlock
  eq_pure _ h := h.foldBlock_eq_pure
  blocks := blocksList_foldBlock_subset

lemma pruneBlock_settles : BlockEdit.Settles pruneBlock PrunedBlock where
  value := prunedBlock_pruneBlock
  eq_pure _ h := h.pruneBlock_eq_pure
  blocks := blocksList_pruneBlock_subset

lemma cutBlock_settles : BlockEdit.Settles cutBlock CutBlock where
  value := cutBlock_cutBlock
  eq_pure _ h := h.cutBlock_eq_pure
  blocks ss := Stmt.blocksList_subset_of_sublist (cutBlock_sublist ss)

section Everywhere

variable {f g : BlockEdit} {M N : List Stmt → Prop}

lemma forall_blocks_everywhere (hM : ∀ ss, M ss → M (Stmt.editBlocksList g ss).value)
    (hg : ∀ ss, M ss → N (g ss).value)
    (hsub : ∀ ss, Stmt.blocksList (g ss).value ⊆ Stmt.blocksList ss) {ss : List Stmt}
    (h : ∀ b ∈ ss :: Stmt.blocksList ss, M b) :
    ∀ b ∈ (g.everywhere ss).value :: Stmt.blocksList (g.everywhere ss).value, N b :=
  (BlockEdit.carries_blocks hM hg hsub).everywhere ss h

namespace BlockEdit.Settles

variable (hf : f.Settles N)
include hf

lemma everywhere_eq_pure {ss : List Stmt} (h : ∀ b ∈ ss :: Stmt.blocksList ss, N b) :
    f.everywhere ss = pure ss := by
  obtain ⟨hinner, hss⟩ := Stmt.editBlock_eq_pure
    (fun s _ => ((editBlocks_eq_pure f).stmt_holds s).1) fun b hb => hf.eq_pure b (h b hb)
  rw [BlockEdit.everywhere, hinner, pure_bind, hss]

lemma forall_blocks_everywhere (ss : List Stmt) :
    ∀ b ∈ (f.everywhere ss).value :: Stmt.blocksList (f.everywhere ss).value, N b :=
  MiddleEnd.forall_blocks_everywhere (M := fun _ => True) (fun _ h => h) (fun ss _ => hf.value ss)
    hf.blocks fun _ _ => trivial

lemma expr_editBlocks_editBlocks (e : Expr) :
    (e.editBlocks f).value.editBlocks f = pure (e.editBlocks f).value := by
  have htree := (carries_blocks (M := fun _ => True) (fun _ h => h) (fun ss _ => hf.value ss)
    hf.blocks).tree
  exact (editBlocks_eq_pure f).expr_holds _ fun b hb =>
    hf.eq_pure b (htree.expr_holds e (fun _ _ => trivial) b hb)

lemma stmt_editBlocks_editBlocks (s : Stmt) :
    (s.editBlocks f).value.editBlocks f = pure (s.editBlocks f).value := by
  have htree := (carries_blocks (M := fun _ => True) (fun _ h => h) (fun ss _ => hf.value ss)
    hf.blocks).tree
  exact ((editBlocks_eq_pure f).stmt_holds _).1 fun b hb =>
    hf.eq_pure b ((htree.stmt_holds s).1 (fun _ _ => trivial) b hb)

end BlockEdit.Settles

end Everywhere

namespace Pass

/-- The pass has nothing to do on these statements. -/
def Settled : Pass → List Stmt → Prop
  | .foldConstants, ss => ∀ b ∈ ss :: Stmt.blocksList ss, FoldedBlock b
  | .pruneBranches, ss => ∀ b ∈ ss :: Stmt.blocksList ss, PrunedBlock b
  | .cutUnreachable, ss => ∀ b ∈ ss :: Stmt.blocksList ss, CutBlock b
  | .dropUncalled called, ss => ∀ s ∈ ss, s.isUncalled called = false

/-- The place of a pass in a configured optimizer. -/
def rank : Pass → Nat
  | .foldConstants => 0
  | .pruneBranches => 1
  | .cutUnreachable => 2
  | .dropUncalled _ => 3

lemma dropUncalled_sublist (called : List String) (ss : List Stmt) :
    (MiddleEnd.dropUncalled called ss).value.Sublist ss :=
  List.filter_sublist

lemma Settled.edit_eq_pure {pass : Pass} {ss : List Stmt} (h : pass.Settled ss) :
    pass.edit ss = pure ss := by
  cases pass with
  | foldConstants => exact foldBlock_settles.everywhere_eq_pure h
  | pruneBranches => exact pruneBlock_settles.everywhere_eq_pure h
  | cutUnreachable => exact cutBlock_settles.everywhere_eq_pure h
  | dropUncalled called =>
    refine Edit.eq_pure_iff.mpr ⟨?_, ?_⟩
    · exact List.filter_eq_self.mpr fun s hs => by simp [h s hs]
    · exact List.any_eq_false.mpr fun s hs => by simp [h s hs]

lemma settled_edit (pass : Pass) (ss : List Stmt) : pass.Settled (pass.edit ss).value := by
  cases pass with
  | foldConstants => exact foldBlock_settles.forall_blocks_everywhere ss
  | pruneBranches => exact pruneBlock_settles.forall_blocks_everywhere ss
  | cutUnreachable => exact cutBlock_settles.forall_blocks_everywhere ss
  | dropUncalled called =>
    intro s hs
    simpa using (List.mem_filter.mp hs).2

/-- What holds of all blocks and is inherited by parts of a block is kept by cutting. -/
lemma forall_blocks_cut {N : List Stmt → Prop}
    (hN : ∀ ss, N ss → N (Stmt.editBlocksList cutBlock ss).value)
    (hsub : ∀ {ss ts : List Stmt}, N ts → ss.Sublist ts → N ss) {ss : List Stmt}
    (h : ∀ b ∈ ss :: Stmt.blocksList ss, N b) :
    ∀ b ∈ (cutUnreachable.edit ss).value :: Stmt.blocksList (cutUnreachable.edit ss).value, N b :=
  forall_blocks_everywhere hN (fun ss hb => hsub hb (cutBlock_sublist ss)) cutBlock_settles.blocks h

lemma forall_blocks_drop {N : List Stmt → Prop}
    (hsub : ∀ {ss ts : List Stmt}, N ts → ss.Sublist ts → N ss) (called : List String)
    {ss : List Stmt} (h : ∀ b ∈ ss :: Stmt.blocksList ss, N b) :
    ∀ b ∈ ((dropUncalled called).edit ss).value ::
      Stmt.blocksList ((dropUncalled called).edit ss).value, N b := by
  have hss := dropUncalled_sublist called ss
  rw [List.forall_mem_cons] at h ⊢
  exact ⟨hsub h.1 hss, fun b hb => h.2 b (Stmt.blocksList_subset_of_sublist hss hb)⟩

/-- **A later pass leaves nothing to do for an earlier one.** -/
theorem Settled.edit {p q : Pass} {ss : List Stmt} (h : p.Settled ss) (hpq : p.rank < q.rank) :
    p.Settled (q.edit ss).value := by
  cases p with
  | foldConstants =>
    cases q with
    | foldConstants => exact absurd hpq (Nat.lt_irrefl _)
    | pruneBranches =>
      exact forall_blocks_everywhere (fun _ hb => hb.editBlocksList _) (fun _ hb => hb.pruneBlock)
        blocksList_pruneBlock_subset h
    | cutUnreachable =>
      exact forall_blocks_cut (fun _ hb => hb.editBlocksList _) FoldedBlock.sublist h
    | dropUncalled called => exact forall_blocks_drop FoldedBlock.sublist called h
  | pruneBranches =>
    cases q with
    | foldConstants | pruneBranches => exact absurd hpq (by decide)
    | cutUnreachable =>
      exact forall_blocks_cut (fun _ hb => hb.editBlocksList _) PrunedBlock.sublist h
    | dropUncalled called => exact forall_blocks_drop PrunedBlock.sublist called h
  | cutUnreachable =>
    cases q with
    | foldConstants | pruneBranches | cutUnreachable => exact absurd hpq (by decide)
    | dropUncalled called =>
      exact forall_blocks_drop (fun hb hs => List.Pairwise.sublist hs hb) called h
  | dropUncalled called => cases q <;> exact absurd hpq (by simp [rank])

/-! ### A sequence of passes -/

def runAll (passes : List Pass) (p : Program) : Edit Program :=
  passes.foldlM (fun p pass => pass.run p) p

lemma runAll_cons (pass : Pass) (passes : List Pass) (p : Program) :
    runAll (pass :: passes) p = pass.run p >>= runAll passes :=
  List.foldlM_cons

lemma Settled.run_eq_pure {pass : Pass} {p : Program} (h : pass.Settled p.stmts) :
    pass.run p = pure p := by
  rw [run, h.edit_eq_pure, map_pure]

lemma Settled.runAll {pass : Pass} {passes : List Pass} {p : Program}
    (h : pass.Settled p.stmts) (hlater : ∀ q ∈ passes, pass.rank < q.rank) :
    pass.Settled (runAll passes p).value.stmts := by
  induction passes generalizing p with
  | nil => exact h
  | cons q passes ih =>
    rw [List.forall_mem_cons] at hlater
    rw [runAll_cons, Edit.bind_value]
    exact ih (h.edit hlater.1) hlater.2

lemma settled_runAll {passes : List Pass} (h : passes.Pairwise (·.rank < ·.rank)) (p : Program) :
    ∀ pass ∈ passes, pass.Settled (runAll passes p).value.stmts := by
  induction passes generalizing p with
  | nil => simp
  | cons q passes ih =>
    obtain ⟨hq, hpasses⟩ := List.pairwise_cons.mp h
    rw [runAll_cons, Edit.bind_value, List.forall_mem_cons]
    exact ⟨Settled.runAll (q.settled_edit p.stmts) hq, ih hpasses (q.run p).value⟩

lemma runAll_eq_pure {passes : List Pass} {p : Program}
    (h : ∀ pass ∈ passes, pass.Settled p.stmts) :
    runAll passes p = pure p := by
  induction passes with
  | nil => rfl
  | cons q passes ih =>
    rw [List.forall_mem_cons] at h
    rw [runAll_cons, h.1.run_eq_pure, pure_bind, ih h.2]

end Pass

namespace Optimizer

lemma ofSwitches_pairwise (s : Switches) (called : List String) :
    (ofSwitches s called).passes.Pairwise (·.rank < ·.rank) := by
  unfold ofSwitches
  split
  · refine List.Pairwise.filterMap (R := fun a b => a.2.rank < b.2.rank) _ ?_ ?_
    · rintro ⟨on, p⟩ ⟨on', q⟩ hpq p' hp q' hq
      cases on <;> cases on' <;> simp_all
    · simp [Pass.rank]
  · exact List.Pairwise.nil

lemma once_once (s : Switches) (called : List String) (p : Program) :
    (ofSwitches s called).once ((ofSwitches s called).once p).value =
      pure ((ofSwitches s called).once p).value :=
  Pass.runAll_eq_pure (Pass.settled_runAll (ofSwitches_pairwise s called) p)

/-- A round does what its passes do, apart from its log. -/
lemma round_eq_runAll (iteration : Nat) (passes : List Pass) (p : Program) :
    (round iteration passes p).program = (Pass.runAll passes p).value ∧
      (round iteration passes p).changed =
        (Pass.runAll passes p).changed := by
  induction passes generalizing p with
  | nil => exact ⟨rfl, rfl⟩
  | cons pass passes ih =>
    obtain ⟨hprogram, hchanged⟩ := ih (pass.run p).value
    simp only [round, Pass.runAll_cons, Edit.bind_value, Edit.bind_changed]
    exact ⟨hprogram, by rw [hchanged]⟩

/-- Rounds that change nothing end with the program that they start with. -/
lemma rounds_of_once_eq_pure {o : Optimizer} {p : Program} (h : o.once p = pure p)
    (left iteration : Nat) : (o.rounds left iteration p).program = p := by
  cases left with
  | zero => rfl
  | succ left =>
    obtain ⟨hprogram, hchanged⟩ := round_eq_runAll iteration o.passes p
    rw [show Pass.runAll o.passes p = o.once p from rfl, h] at hprogram hchanged
    simp only [rounds, hchanged]
    exact hprogram

lemma optimize_of_once_eq_pure {o : Optimizer} {p : Program} (hmax : 1 ≤ o.maxIterations)
    (h : o.once (o.once p).value = pure (o.once p).value) :
    (o.optimize p).program = (o.once p).value ∧ (o.optimize p).changed = (o.once p).changed := by
  obtain ⟨n, hn⟩ : ∃ n, o.maxIterations = n + 1 := ⟨o.maxIterations - 1, by omega⟩
  obtain ⟨hprogram, hchanged⟩ := round_eq_runAll 1 o.passes p
  rw [show Pass.runAll o.passes p = o.once p from rfl] at hprogram hchanged
  simp only [optimize, hn, rounds]
  split
  · rename_i hc
    rw [hprogram, ← hchanged, hc]
    exact ⟨rounds_of_once_eq_pure h n 2, rfl⟩
  · exact ⟨hprogram, hchanged⟩

/-- **One round is enough.** For every choice of switches with at least one round, every set of
called names and every program, repeating the passes gives the same program and the same report
as running each of them once; another round changes nothing. -/
theorem optimize_eq_once (s : Switches) (called : List String) (h : 1 ≤ s.maxIterations)
    (p : Program) :
    ((ofSwitches s called).optimize p).program = ((ofSwitches s called).once p).value ∧
      ((ofSwitches s called).optimize p).changed = ((ofSwitches s called).once p).changed ∧
      (ofSwitches s called).once ((ofSwitches s called).once p).value =
        pure ((ofSwitches s called).once p).value := by
  have hagain := once_once s called p
  obtain ⟨hprogram, hchanged⟩ := optimize_of_once_eq_pure (o := ofSwitches s called) h hagain
  exact ⟨hprogram, hchanged, hagain⟩

/-- A program with work for every pass: `if (!false) { return; break; } else { break; }`, a
loop under `!true`, and a function that is not called. -/
def leftovers : Program where
  stmts :=
    [.ifElse {} (.unary {} .not (.boolean {} false)) [.ret {} none, .brk {}]
        (.otherwise {} [.brk {}]),
      .whileLoop {} (.unary {} .not (.boolean {} true)) [],
      .func { name := "unused" } []]

/-- The rounds on `leftovers` end with the `return` under the folded condition. -/
theorem optimize_leftovers :
    1 ≤ ({} : Switches).maxIterations ∧
      ((ofSwitches {} []).optimize leftovers).program = ((ofSwitches {} []).once leftovers).value ∧
      ((ofSwitches {} []).once leftovers).changed = true ∧
      ((ofSwitches {} []).once leftovers).value.stmts =
        [.ifElse {} (.always {}) [.ret {} none] .done] :=
  ⟨by decide, (optimize_eq_once {} [] (by decide) leftovers).1, rfl, rfl⟩

end Optimizer
end MiddleEnd
