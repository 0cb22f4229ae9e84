import Mathlib.Logic.Function.Iterate
import MiddleEnd.Proofs.Passes.Reports

/-!
Rounds of any passes in any order. Only folding can make work for another pass, and only for
pruning: a condition that is folded to a literal. So after the first round nothing is left to
fold, to cut or to drop, the second round prunes for good, and a third one changes nothing.
-/

namespace MiddleEnd

/-! ### What a pass keeps of the work of the others -/

lemma Stmt.isTerminator_editOwned (g : Expr → Edit Expr) (s : Stmt) :
    (s.editOwned g).value.isTerminator = s.isTerminator := by
  cases s with
  | forLoop x init c update body =>
    rw [Stmt.editOwned_forLoop]
    rfl
  | _ => rfl

/-- Pruning leaves a statement as it is, or a conditional of it. -/
lemma Stmt.eq_or_ifElse_of_prune {s s' : Stmt} (h : s.prune.value = some s') :
    s' = s ∨ ∃ x c body rest, s' = .ifElse x c body rest := by
  cases s with
  | ifElse x c body rest =>
    simp only [Stmt.prune, pruneIf] at h
    split at h
    · exact Or.inr ⟨_, _, _, _, (Option.some.inj h).symm⟩
    · split at h <;> exact Or.inr ⟨_, _, _, _, (Option.some.inj h).symm⟩
    · split at h
      · cases h
      · exact Or.inr ⟨_, _, _, _, (Option.some.inj h).symm⟩
      · exact Or.inr ⟨_, _, _, _, (Option.some.inj h).symm⟩
  | whileLoop x c body =>
    simp only [Stmt.prune] at h
    split at h
    · cases h
    · exact Or.inl (Option.some.inj h).symm
  | _ => exact Or.inl (Option.some.inj h).symm

namespace CutBlock

variable {ss : List Stmt}

lemma editBlocksList (h : CutBlock ss) (g : BlockEdit) :
    CutBlock (Stmt.editBlocksList g ss).value := by
  rw [Stmt.editBlocksList_value]
  refine List.Pairwise.map _ (fun s t hs => ?_) h
  rw [Stmt.isTerminator_editBlocks]
  exact hs

lemma foldBlock (h : CutBlock ss) : CutBlock (foldBlock ss).value := by
  rw [foldBlock_value]
  refine List.Pairwise.map _ (fun s t hs => ?_) h
  rw [Stmt.isTerminator_editOwned]
  exact hs

lemma pruneBlock (h : CutBlock ss) : CutBlock (pruneBlock ss).value := by
  rw [pruneBlock_value]
  refine List.Pairwise.filterMap _ (fun s t hs s' hprune _ _ => ?_) h
  rcases Stmt.eq_or_ifElse_of_prune hprune with rfl | ⟨x, c, body, rest, rfl⟩
  · exact hs
  · rfl

end CutBlock

section Called

variable {called : List String} {ss : List Stmt}

lemma Stmt.isUncalled_editBlocks (g : BlockEdit) (s : Stmt) :
    (s.editBlocks g).value.isUncalled called = s.isUncalled called := by
  cases s with
  | forLoop x init c update body =>
    rw [Stmt.editBlocks_forLoop]
    rfl
  | _ => rfl

lemma Stmt.isUncalled_editOwned (g : Expr → Edit Expr) (s : Stmt) :
    (s.editOwned g).value.isUncalled called = s.isUncalled called := by
  cases s with
  | forLoop x init c update body =>
    rw [Stmt.editOwned_forLoop]
    rfl
  | _ => rfl

/-- Without a function that is not called, an edit of the blocks inside leaves none. -/
lemma called_editBlocksList (g : BlockEdit) (h : ∀ s ∈ ss, s.isUncalled called = false) :
    ∀ s ∈ (Stmt.editBlocksList g ss).value, s.isUncalled called = false := by
  rw [Stmt.editBlocksList_value, List.forall_mem_map]
  intro s hs
  rw [Stmt.isUncalled_editBlocks]
  exact h s hs

lemma called_foldBlock (h : ∀ s ∈ ss, s.isUncalled called = false) :
    ∀ s ∈ (foldBlock ss).value, s.isUncalled called = false := by
  rw [foldBlock_value, List.forall_mem_map]
  intro s hs
  rw [Stmt.isUncalled_editOwned]
  exact h s hs

lemma called_pruneBlock (h : ∀ s ∈ ss, s.isUncalled called = false) :
    ∀ s ∈ (pruneBlock ss).value, s.isUncalled called = false := by
  rw [pruneBlock_value]
  intro s' hs'
  obtain ⟨s, hs, hprune⟩ := List.mem_filterMap.mp hs'
  rcases Stmt.eq_or_ifElse_of_prune hprune with rfl | ⟨x, c, body, rest, rfl⟩
  · exact h _ hs
  · rfl

end Called

namespace Pass

/-- A pass leaves nothing to do for a pass that had nothing to do, unless it folds and the other
one prunes. -/
theorem Settled.edit_of_undisturbed {p q : Pass} {ss : List Stmt} (h : p.Settled ss)
    (hpq : p = pruneBranches → q ≠ foldConstants) : p.Settled (q.edit ss).value := by
  cases p with
  | foldConstants =>
    cases q with
    | foldConstants => exact settled_edit _ ss
    | pruneBranches | cutUnreachable | dropUncalled => exact h.edit (by simp [rank])
  | pruneBranches =>
    cases q with
    -- folding decides conditions, so it is the one pass that disturbs pruning
    | foldConstants => exact absurd rfl (hpq rfl)
    | pruneBranches => exact settled_edit _ ss
    | cutUnreachable | dropUncalled => exact h.edit (by simp [rank])
  | cutUnreachable =>
    cases q with
    | foldConstants =>
      exact forall_blocks_everywhere (fun _ hb => hb.editBlocksList _) (fun _ hb => hb.foldBlock)
        blocksList_foldBlock_subset h
    | pruneBranches =>
      exact forall_blocks_everywhere (fun _ hb => hb.editBlocksList _) (fun _ hb => hb.pruneBlock)
        blocksList_pruneBlock_subset h
    | cutUnreachable => exact settled_edit _ ss
    | dropUncalled => exact h.edit (by simp [rank])
  | dropUncalled called =>
    cases q with
    | foldConstants => exact called_foldBlock (called_editBlocksList _ h)
    | pruneBranches => exact called_pruneBlock (called_editBlocksList _ h)
    | cutUnreachable =>
      exact fun s hs => called_editBlocksList _ h s ((cutBlock_sublist _).subset hs)
    | dropUncalled other => exact fun s hs => h s ((dropUncalled_sublist other ss).subset hs)

/-! ### Rounds -/

/-- A pass that has nothing to do has nothing to do after further passes. If it is pruning, there
must be nothing to fold. -/
lemma Settled.runAll_of_undisturbed {pass : Pass} {passes : List Pass} {p : Program}
    (h : pass.Settled p.stmts)
    (hfold : pass = pruneBranches → foldConstants ∈ passes → foldConstants.Settled p.stmts) :
    pass.Settled (Pass.runAll passes p).value.stmts := by
  induction passes generalizing p with
  | nil => exact h
  | cons q passes ih =>
    rw [runAll_cons, Edit.bind_value]
    refine ih ?_ fun hp hmem => ?_
    · by_cases hq : pass = pruneBranches ∧ q = foldConstants
      · -- folding changes nothing here
        obtain ⟨rfl, rfl⟩ := hq
        rw [(hfold rfl List.mem_cons_self).run_eq_pure]
        exact h
      · exact h.edit_of_undisturbed fun hp hf => hq ⟨hp, hf⟩
    · exact (hfold hp (List.mem_cons_of_mem q hmem)).edit_of_undisturbed nofun

/-- After a round, each of its passes has nothing to do; for pruning only if there was nothing to
fold before. -/
lemma settled_runAll_of_mem {pass : Pass} {passes : List Pass} {p : Program} (hmem : pass ∈ passes)
    (hfold : pass = pruneBranches → foldConstants ∈ passes → foldConstants.Settled p.stmts) :
    pass.Settled (runAll passes p).value.stmts := by
  induction passes generalizing p with
  | nil => cases hmem
  | cons q passes ih =>
    have hrest (hp : pass = pruneBranches) (hf : foldConstants ∈ passes) :
        foldConstants.Settled (q.run p).value.stmts :=
      (hfold hp (List.mem_cons_of_mem q hf)).edit_of_undisturbed nofun
    rw [runAll_cons, Edit.bind_value]
    rcases List.mem_cons.mp hmem with rfl | hmem
    · exact Settled.runAll_of_undisturbed (pass.settled_edit p.stmts) hrest
    · exact ih hmem hrest

end Pass

namespace Optimizer

variable {o : Optimizer} {p : Program}

def after (o : Optimizer) (n : Nat) (p : Program) : Program := (fun q => (o.once q).value)^[n] p

lemma after_succ (n : Nat) : o.after (n + 1) p = o.after n (o.once p).value := rfl

/-- Two rounds leave nothing to do. -/
lemma settled_after_two (o : Optimizer) (p : Program) {pass : Pass} (h : pass ∈ o.passes) :
    pass.Settled (o.after 2 p).stmts :=
  Pass.settled_runAll_of_mem h fun _ hfold => Pass.settled_runAll_of_mem hfold nofun

lemma after_of_once_eq_pure (h : o.once p = pure p) (n : Nat) : o.after n p = p :=
  Function.iterate_fixed (congrArg Edit.value h) n

lemma once_after (o : Optimizer) (p : Program) {n : Nat} (hn : 2 ≤ n) :
    o.once (o.after n p) = pure (o.after n p) := by
  obtain ⟨k, rfl⟩ := Nat.exists_eq_add_of_le' hn
  have hfix : o.once (o.after 2 p) = pure (o.after 2 p) :=
    Pass.runAll_eq_pure fun pass hpass => settled_after_two o p hpass
  have hafter : o.after (k + 2) p = o.after 2 p := by
    rw [after, Function.iterate_add_apply]
    exact after_of_once_eq_pure hfix k
  rw [hafter, hfix]

/-! ### The log -/

/-- A round tells of changed programs only if it changed its own. -/
lemma passChanged_mem_round {name : String} {i iteration : Nat} {passes : List Pass}
    (h : LogEvent.passChanged name i ∈ (round iteration passes p).log) :
    i = iteration ∧ (round iteration passes p).changed = true := by
  induction passes generalizing p with
  | nil => cases h
  | cons pass passes ih =>
    simp only [round, List.mem_append] at h ⊢
    rcases h with (h | h) | h
    · cases pass <;> simp [Pass.log] at h
    · split at h
      · rename_i hc
        cases List.mem_singleton.mp h
        exact ⟨rfl, by rw [hc, Bool.true_or]⟩
      · cases h
    · obtain ⟨hi, hc⟩ := ih h
      exact ⟨hi, by rw [hc, Bool.or_true]⟩

lemma roundsUsedUp_notMem_round (n iteration : Nat) (passes : List Pass) (p : Program) :
    LogEvent.roundsUsedUp n ∉ (round iteration passes p).log := by
  induction passes generalizing p with
  | nil => exact List.not_mem_nil
  | cons pass passes ih =>
    simp only [round, List.mem_append, not_or]
    refine ⟨⟨?_, ?_⟩, ih _⟩
    · cases pass <;> simp [Pass.log]
    · split <;> simp

/-- Let `d` rounds settle a program. Then the optimizer stops with the round after them, if it is
not stopped before. -/
lemma rounds_of_once_after_eq_pure {d : Nat} (h : o.once (o.after d p) = pure (o.after d p))
    (left iteration : Nat) :
    (o.rounds left iteration p).program = o.after (min d left) p ∧
      (∀ name i, .passChanged name i ∈ (o.rounds left iteration p).log → i < iteration + d) ∧
      (d < left → ∀ n, .roundsUsedUp n ∉ (o.rounds left iteration p).log) := by
  induction left generalizing iteration p d with
  | zero =>
    refine ⟨by rw [Nat.min_zero]; rfl, fun name i hi => ?_, fun hd => absurd hd (Nat.not_lt_zero d)⟩
    cases List.mem_singleton.mp hi
  | succ left ih =>
    have hround := round_edit iteration o.passes p
    have hprogram : (round iteration o.passes p).program = (o.once p).value :=
      congrArg Edit.value hround
    have hchanged : (round iteration o.passes p).changed = (o.once p).changed :=
      congrArg Edit.changed hround
    simp only [rounds]
    split
    · rename_i hc
      -- a round with a change is one of the first `d`
      cases d with
      | zero =>
        have hpure : o.once p = pure p := h
        rw [hchanged, hpure] at hc
        cases hc
      | succ d =>
        obtain ⟨h1, h2, h3⟩ := ih (p := (o.once p).value) (d := d) h (iteration + 1)
        rw [hprogram]
        refine ⟨?_, fun name i hi => ?_, fun hd n hn => ?_⟩
        · rw [h1, Nat.add_min_add_right, after_succ]
        · rcases List.mem_append.mp hi with hi | hi
          · have := (passChanged_mem_round hi).1
            omega
          · have := h2 name i hi
            omega
        · rcases List.mem_append.mp hn with hn | hn
          · exact roundsUsedUp_notMem_round n _ _ _ hn
          · exact h3 (Nat.lt_of_succ_lt_succ hd) n hn
    · rename_i hc
      -- without a change the program is the same after any number of rounds
      have hsame := hc
      rw [hchanged, Bool.not_eq_true] at hc
      have hpure : o.once p = pure p :=
        Edit.eq_pure_iff.mpr ⟨(Pass.runAll_shrinks o.passes p).same hc, hc⟩
      refine ⟨?_, fun name i hi => ?_, fun _ n => roundsUsedUp_notMem_round n _ _ _⟩
      · rw [hprogram, after_of_once_eq_pure hpure, hpure]
        rfl
      · exact absurd (passChanged_mem_round hi).2 hsame

/-- **Two rounds are enough.** For every list of passes and every program, all rounds after the
second leave the program as it is, the optimizer ends with what two rounds give, or fewer if it is
not allowed two, and it tells of changes in no round after the second. Where three rounds are
allowed it stops because nothing changed, not because the rounds are used up, and none of its
passes finds anything to do in the program that it leaves. -/
theorem optimize_converges (o : Optimizer) (p : Program) :
    (∀ n, 2 ≤ n → o.once (o.after n p) = pure (o.after n p)) ∧
      (o.optimize p).program = o.after (min 2 o.maxIterations) p ∧
      (∀ name i, .passChanged name i ∈ (o.optimize p).log → i ≤ 2) ∧
      (3 ≤ o.maxIterations →
        (∀ n, .roundsUsedUp n ∉ (o.optimize p).log) ∧
          ∀ pass ∈ o.passes, pass.run (o.optimize p).program = pure (o.optimize p).program) := by
  obtain ⟨hprogram, hlog, hcap⟩ :=
    rounds_of_once_after_eq_pure (o.once_after p (Nat.le_refl 2)) o.maxIterations 1
  refine ⟨fun n hn => o.once_after p hn, hprogram, fun name i hi => ?_, fun hmax => ⟨?_, ?_⟩⟩
  · rcases List.mem_cons.mp hi with hi | hi
    · cases hi
    · have := hlog name i hi
      omega
  · intro n hn
    rcases List.mem_cons.mp hn with hn | hn
    · cases hn
    · exact hcap hmax n hn
  · intro pass hpass
    have htwo : (o.optimize p).program = o.after 2 p := by
      rw [show (o.optimize p).program = _ from hprogram, Nat.min_eq_left (by omega)]
    rw [htwo]
    exact (settled_after_two o p hpass).run_eq_pure

/-- An optimizer that prunes before it folds. -/
def backwards : Optimizer where
  passes := [.cutUnreachable, .pruneBranches, .dropUncalled [], .foldConstants]
  maxIterations := 3

/-- Both rounds of `backwards` on `leftovers` change something: its conditions are folded in the
first round and used in the second. -/
theorem optimize_converges_backwards :
    (backwards.once leftovers).changed = true ∧
      (backwards.once (backwards.after 1 leftovers)).changed = true ∧
      3 ≤ backwards.maxIterations ∧ (∀ n, .roundsUsedUp n ∉ (backwards.optimize leftovers).log) ∧
      (backwards.optimize leftovers).program.stmts =
        [.ifElse {} (.always {}) [.ret {} none] .done] :=
  ⟨rfl, rfl, by decide, ((optimize_converges backwards leftovers).2.2.2 (by decide)).1, rfl⟩

end Optimizer
end MiddleEnd
