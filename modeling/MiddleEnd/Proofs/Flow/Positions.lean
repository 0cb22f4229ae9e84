import Mathlib.Data.List.Forall2
import MiddleEnd.Proofs.Flow.SameRuns

/-!
The statement lists of a program in the order in which they are written, without those inside of
statements and arms that an edit removes. The lists that pruning and cutting leave behind run like
the ones that stood in their places.
-/

namespace MiddleEnd

namespace Removal

def neverEntered : Stmt → Bool
  | .whileLoop _ c _ => c.boolean? == some false
  | _ => false

/-- Literal conditions decide about loops and arms. -/
def byLiterals : Removal := { gone := neverEntered, arm := Expr.boolean? }

@[simp] lemma byLiterals_arm (e : Expr) : byLiterals.arm e = e.boolean? := rfl

/-- Nothing after a terminator is reached. -/
def afterTerminators : Removal := { stops := Stmt.isTerminator }

end Removal

/-- Statement lists, without those inside of what is removed. Nothing is removed from the blocks of
the update of a loop. -/
def Collector.lists : Collector Removal (List Stmt) where
  block _ ss := [ss]
  removal := id
  updates := .nothing

namespace Collector

@[simp] lemma lists_own (r : Removal) (n : Node) : lists.own r n = [] := rfl

@[simp] lemma lists_add (r : Removal) (n : Node) (parts : List (List Stmt)) :
    lists.add r n parts = parts := rfl

@[simp] lemma lists_removal (a : Removal) : lists.removal a = a := rfl

@[simp] lemma lists_updates : lists.updates = .nothing := rfl

end Collector

/-- The statement lists in the statements of a block, where `a` is removed from the block itself
and `d` from the lists inside. -/
abbrev Stmt.listsBlock (a d : Removal) (ss : List Stmt) : List (List Stmt) :=
  Stmt.collectList .lists a d ss

lemma Stmt.listsBlock_cons (a d : Removal) (s : Stmt) (ss : List Stmt) :
    Stmt.listsBlock a d (s :: ss) =
      if a.gone s then Stmt.listsBlock a d ss
      else if a.stops s then s.collect .lists a d d
      else s.collect .lists a d d ++ Stmt.listsBlock a d ss := rfl

def Program.lists (r : Removal) (p : Program) : List (List Stmt) :=
  Stmt.collectBlock .lists r p.stmts

/-- Of `if (false) { break; } else { return; }` the last block is left. -/
example :
    ({ stmts := [.ifElse {} (.boolean {} false) [.brk {}] (.otherwise {} [.ret {} none])] } :
        Program).lists .byLiterals =
      [[.ifElse {} (.boolean {} false) [.brk {}] (.otherwise {} [.ret {} none])],
        [.ret {} none]] := rfl

/-! ### What the edits of a block remove -/

/-- The edit of a block removes what `R` says, whatever is done inside of the block. -/
structure BlockEdit.Removes (f : BlockEdit) (R : Removal) : Prop where
  gone : ∀ s : Stmt, R.gone (s.editBlocks f).value = R.gone s
  stops : ∀ s : Stmt, R.stops (s.editBlocks f).value = R.stops s
  arm : ∀ c : Expr, R.arm (c.editBlocks f).value = R.arm c
  lists : ∀ ss, Stmt.listsBlock .nothing .nothing (f ss).value = Stmt.listsBlock R .nothing ss

lemma Stmt.listsBlock_byLiterals (d : Removal) (s : Stmt) (ss : List Stmt) :
    Stmt.listsBlock .byLiterals d (s :: ss) =
      if Removal.neverEntered s then Stmt.listsBlock .byLiterals d ss
      else s.collect .lists .byLiterals d d ++ Stmt.listsBlock .byLiterals d ss := rfl

lemma Stmt.listsBlock_afterTerminators (d : Removal) (s : Stmt) (ss : List Stmt) :
    Stmt.listsBlock .afterTerminators d (s :: ss) =
      if s.isTerminator then s.collect .lists .nothing d d
      else s.collect .lists .nothing d d ++ Stmt.listsBlock .afterTerminators d ss := by
  have harm := s.collect_arm (c := .lists) (a := .nothing) (b := .afterTerminators) rfl d d
  rw [harm]
  rfl

lemma Chain.lists_prune (ch : Chain) :
    ch.prune.value.collect .lists .nothing .nothing .nothing =
      ch.collect .lists .byLiterals .nothing .nothing := by
  induction ch with
  | done => rfl
  | otherwise block body => rfl
  | elseIf x c body rest ih =>
    simp only [Chain.prune]
    split <;> rename_i hc
    · simp [Chain.collect, hc, ih]
    · simp [Chain.collect, hc, ih]
    · split <;> simp [Chain.collect, hc]

lemma Stmt.lists_prune {s : Stmt} (h : Removal.neverEntered s = false) :
    Stmt.collectUpdate .lists .nothing s.prune.value =
      s.collect .lists .byLiterals .nothing .nothing := by
  cases s with
  | ifElse x c body rest =>
    have hrest := rest.lists_prune
    simp only [Stmt.prune, pruneIf]
    split <;> rename_i hc
    · simp [Stmt.collectUpdate, Stmt.collect, hc, hrest]
    · split <;> simp [Stmt.collectUpdate, Stmt.collect, Chain.collect, hc]
    · have hif : (Stmt.ifElse x c body rest).collect .lists .byLiterals .nothing .nothing =
          rest.collect .lists .byLiterals .nothing .nothing := by
        simp [Stmt.collect, hc]
      rw [hif, ← hrest]
      split <;> rename_i heq <;> rw [heq]
      · rfl
      · rfl
      · exact List.append_nil _
  | whileLoop x c body =>
    simp only [Stmt.prune]
    split <;> rename_i hc
    · simp [Removal.neverEntered, hc] at h
    · rfl
  | _ => rfl

lemma Stmt.prune_of_neverEntered {s : Stmt} (h : Removal.neverEntered s = true) :
    s.prune.value = none := by
  cases s with
  | whileLoop x c body =>
    have hc : c.boolean? = some false := by simpa [Removal.neverEntered] using h
    simp [Stmt.prune, hc]
  | _ => cases h

lemma Removal.neverEntered_editBlocks (g : BlockEdit) (s : Stmt) :
    neverEntered (s.editBlocks g).value = neverEntered s := by
  cases s with
  | whileLoop x c body =>
    simp only [Stmt.editBlocks, Edit.bind_value, Edit.pure_value, neverEntered,
      Expr.boolean?_editBlocks]
  | forLoop x init c update body =>
    rw [Stmt.editBlocks_forLoop]
    rfl
  | _ => rfl

lemma pruneBlock_removes : BlockEdit.Removes pruneBlock .byLiterals where
  gone := Removal.neverEntered_editBlocks pruneBlock
  stops _ := rfl
  arm c := Expr.boolean?_editBlocks pruneBlock c
  lists ss := by
    induction ss with
    | nil => rfl
    | cons s ss ih =>
      simp only [pruneBlock, Edit.bind_value, Edit.pure_value]
      rw [Stmt.listsBlock_byLiterals]
      split <;> rename_i hs
      · rw [Stmt.prune_of_neverEntered hs]
        exact ih
      · rw [← ih, ← Stmt.lists_prune (eq_false_of_ne_true hs)]
        cases s.prune.value <;> rfl

lemma cutBlock_removes : BlockEdit.Removes cutBlock .afterTerminators where
  gone _ := rfl
  stops := Stmt.isTerminator_editBlocks cutBlock
  arm _ := rfl
  lists ss := by
    induction ss with
    | nil => rfl
    | cons s ss ih =>
      rw [Stmt.listsBlock_afterTerminators]
      unfold cutBlock
      split
      · split <;> exact List.append_nil _
      · simp only [Edit.bind_value, Edit.pure_value, ← ih]
        rfl

/-! ### The lists that are left -/

/-- The edit carries over which runs the lists have. -/
lemma BlockEdit.Removes.carries_lists {f : BlockEdit} {N : List Stmt → Prop} {R : Removal}
    (hR : f.Removes R) (hf : f.Settles N)
    (hruns : ∀ ss, Stmt.runsBlock (f ss).value = Stmt.runsBlock ss) :
    f.Carries .lists .lists R R .nothing (List.Forall₂ (SameRuns f)) where
  nil := List.Forall₂.nil
  append hk hl := List.rel_append hk hl
  own _ _ _ _ := List.Forall₂.nil
  arm := hR.arm
  removal := ⟨rfl, rfl⟩
  hidden _ := List.forall₂_same.mpr fun _ _ => rfl
  visited := by
    intro ss ih
    refine List.Forall₂.cons (sameRuns_everywhere hf hruns ss) ?_
    change List.Forall₂ _ (Stmt.listsBlock R R ss)
      (Stmt.listsBlock .nothing .nothing (f.everywhere ss).value)
    rw [BlockEdit.everywhere, Edit.bind_value, hR.lists]
    induction ss with
    | nil => exact List.Forall₂.nil
    | cons s ss ihss =>
      rw [List.forall_mem_cons] at ih
      simp only [Stmt.editBlocksList, Edit.bind_value, Edit.pure_value, Stmt.listsBlock_cons,
        hR.gone, hR.stops]
      split
      · -- the statement is removed
        exact ihss ih.2
      · split
        · -- the statement is the last that stays
          exact ih.1
        · exact List.rel_append ih.1 (ihss ih.2)

/-- **Pruning and cutting keep the control flow.** For every program, the statement lists that
are not inside of a removed statement or arm stand, in this order, in the places of all statement
lists of the result, and each of them has the same runs with the same outcomes as the list in its
place. Bodies that occur in an event are compared after the same edit. -/
theorem Pass.lists_sameRuns (p : Program) :
    List.Forall₂ (SameRuns pruneBlock) (p.lists .byLiterals)
        ((Pass.pruneBranches.run p).value.lists .nothing) ∧
      List.Forall₂ (SameRuns cutBlock) (p.lists .afterTerminators)
        ((Pass.cutUnreachable.run p).value.lists .nothing) :=
  ⟨(pruneBlock_removes.carries_lists pruneBlock_settles runsBlock_pruneBlock).everywhere p.stmts,
    (cutBlock_removes.carries_lists cutBlock_settles runsBlock_cutBlock).everywhere p.stmts⟩

end MiddleEnd
