import MiddleEnd.Proofs.Flow.Behaviour

/-!
Edits that keep the runs of every block keep the runs of whole statement lists, where the bodies
that occur in events are compared after the same edit. Pruning and cutting are such edits.
-/

namespace MiddleEnd

/-- Edits the bodies that occur in an event. -/
def Event.edit (f : BlockEdit) : Event → Event
  | .executed s => .executed (s.editBlocks f).value
  | .evaluated c holds => .evaluated (c.editBlocks f).value holds

/-- The same runs, once the bodies in their events are edited. -/
def SameRuns (f : BlockEdit) (ss ts : List Stmt) : Prop :=
  (Stmt.runsBlock ss).map (Event.edit f) = (Stmt.runsBlock ts).map (Event.edit f)

/-! ### Pruning -/

lemma Expr.test_of_boolean? {c : Expr} {b : Bool} (h : c.boolean? = some b) :
    c.test = Runs.silent b := by
  rw [Expr.test, h]

lemma Chain.runs_prune (ch : Chain) : ch.prune.value.runs = ch.runs := by
  induction ch with
  | done => rfl
  | otherwise block body => rfl
  | elseIf x c body rest ih =>
    simp only [Chain.prune]
    split
    · simp [Chain.runs, ih]
    · rename_i hc
      simpa [Chain.runs, Expr.test_of_boolean? hc] using ih
    · rename_i hc
      split <;> simp [Chain.runs, Expr.test_of_boolean? hc]

/-- What is left of a statement runs like the statement; one of which nothing is left does
nothing. -/
lemma Stmt.runs_prune (s : Stmt) : Stmt.runsUpdate s.prune.value = s.runs := by
  cases s with
  | ifElse x c body rest =>
    have hrest := rest.runs_prune
    simp only [Stmt.prune, pruneIf]
    split
    · simp [Stmt.runsUpdate, Stmt.runs, hrest]
    · -- always true: the first branch stays
      rename_i hc
      split <;> simp [Stmt.runsUpdate, Stmt.runs, Expr.test_of_boolean? hc]
    · -- always false: what the rest of the chain leaves stays
      rename_i hc
      have hif : (Stmt.ifElse x c body rest).runs = rest.runs := by
        simp [Stmt.runs, Expr.test_of_boolean? hc]
      rw [hif, ← hrest]
      split <;> rename_i heq <;> rw [heq]
      · rfl
      · rfl
      · -- an else alone is put under a condition that always holds
        simp [Edit.replace, Stmt.runsUpdate, Stmt.runs, Chain.runs, Expr.test, Expr.always,
          Expr.boolean?]
  | whileLoop x c body =>
    simp only [Stmt.prune]
    split
    · rename_i hc
      rw [Stmt.runs, Expr.test_of_boolean? hc, Runs.loop_silent_false]
      rfl
    · rfl
  | _ => rfl

lemma runsBlock_pruneBlock (ss : List Stmt) :
    Stmt.runsBlock (pruneBlock ss).value = Stmt.runsBlock ss := by
  induction ss with
  | nil => rfl
  | cons s ss ih =>
    rw [Stmt.runsBlock, ← s.runs_prune, ← ih]
    simp only [pruneBlock, Edit.bind_value, Edit.pure_value]
    cases s.prune.value with
    | none => simp [Stmt.runsUpdate]
    | some s' => rfl

/-! ### Cutting -/

lemma Stmt.runs_seq_of_isTerminator {s : Stmt} (h : s.isTerminator = true) (A : Runs Outcome) :
    s.runs.seq A = s.runs := by
  cases s with
  | ret span v => exact Runs.event_seq (by decide) _ A
  | brk span => exact Runs.event_seq (by decide) _ A
  | _ => cases h

lemma runsBlock_cutBlock (ss : List Stmt) :
    Stmt.runsBlock (cutBlock ss).value = Stmt.runsBlock ss := by
  induction ss with
  | nil => rfl
  | cons s ss ih =>
    unfold cutBlock
    split
    · rename_i hs
      have hone : Stmt.runsBlock [s] = Stmt.runsBlock (s :: ss) := by
        simp only [Stmt.runsBlock, Stmt.runs_seq_of_isTerminator hs]
      split
      · exact hone
      · exact hone
    · simp only [Edit.bind_value, Edit.pure_value, Stmt.runsBlock, ih]

/-! ### All blocks -/

section Everywhere

variable {f : BlockEdit} {N : List Stmt → Prop}

lemma Stmt.map_runs_editBlocksList {ss : List Stmt}
    (ih : ∀ s ∈ ss, s.runs.map (Event.edit f) = (s.editBlocks f).value.runs.map (Event.edit f)) :
    SameRuns f ss (Stmt.editBlocksList f ss).value := by
  induction ss with
  | nil => rfl
  | cons s ss ihss =>
    rw [List.forall_mem_cons] at ih
    have hss : (Stmt.runsBlock ss).map (Event.edit f) = _ := ihss ih.2
    simp only [SameRuns, Stmt.editBlocksList, Edit.bind_value, Edit.pure_value, Stmt.runsBlock,
      Runs.map_seq, ih.1, hss]

lemma Stmt.map_runsUpdate {o : Option Stmt}
    (ih : ∀ s ∈ o,
      s.runs.map (Event.edit f) = (s.editOwnedBlocks f).value.runs.map (Event.edit f)) :
    (Stmt.runsUpdate o).map (Event.edit f) =
      (Stmt.runsUpdate (Stmt.editBlocksUpdate f o).value).map (Event.edit f) := by
  cases o with
  | none => rfl
  | some s => exact ih s rfl

variable (hf : f.Settles N)
include hf

lemma Expr.map_test_editBlocks (c : Expr) :
    c.test.map (Event.edit f) = (c.editBlocks f).value.test.map (Event.edit f) := by
  simp only [Expr.test, Expr.boolean?_editBlocks]
  split
  · rfl
  · simp only [Runs.map_either, Event.edit, hf.expr_editBlocks_editBlocks, Edit.pure_value]

lemma Expr.map_testOption_editBlocks (c : Option Expr) :
    (Expr.testOption c).map (Event.edit f) =
      (Expr.testOption (Expr.editBlocksOption f c).value).map (Event.edit f) := by
  cases c with
  | none => rfl
  | some c => exact c.map_test_editBlocks hf

/-- A simple statement is seen in its edited form. -/
lemma Stmt.map_event_editBlocks (s : Stmt) (o : Outcome) :
    (Runs.event (.executed s) o).map (Event.edit f) =
      (Runs.event (.executed (s.editBlocks f).value) o).map (Event.edit f) := by
  simp only [Runs.map_event, Event.edit, hf.stmt_editBlocks_editBlocks, Edit.pure_value]

lemma Stmt.map_runsInit_editBlocks (init : Option (VarHead × Option Expr)) :
    (Stmt.runsInit init).map (Event.edit f) =
      (Stmt.runsInit (Expr.editBlocksInit f init).value).map (Event.edit f) := by
  rcases init with _ | ⟨head, e⟩
  · rfl
  · exact Stmt.map_event_editBlocks hf (.var head e) .normal

variable (hruns : ∀ ss, Stmt.runsBlock (f ss).value = Stmt.runsBlock ss)
include hruns

omit hf in
lemma Stmt.sameRuns_block {ss : List Stmt}
    (ih : ∀ s ∈ ss, s.runs.map (Event.edit f) = (s.editBlocks f).value.runs.map (Event.edit f)) :
    SameRuns f ss (f.everywhere ss).value := by
  rw [SameRuns, BlockEdit.everywhere, Edit.bind_value, hruns]
  exact Stmt.map_runs_editBlocksList ih

lemma map_runs_editBlocks :
    Tree.Inductive (fun _ => True)
      (fun s => s.runs.map (Event.edit f) = (s.editBlocks f).value.runs.map (Event.edit f) ∧
        s.runs.map (Event.edit f) = (s.editOwnedBlocks f).value.runs.map (Event.edit f))
      (fun ch => ch.runs.map (Event.edit f) = (ch.editBlocks f).value.runs.map (Event.edit f) ∧
        ch.runs.map (Event.edit f) = (ch.editOwnedBlocks f).value.runs.map (Event.edit f)) where
  leaf _ _ := trivial
  binary _ _ _ _ _ _ := trivial
  unary _ _ _ _ := trivial
  step _ _ _ _ := trivial
  ternary _ _ _ _ _ _ _ := trivial
  call _ _ _ _ _ _ := trivial
  member _ _ _ _ := trivial
  subscript _ _ _ _ _ := trivial
  array _ _ _ := trivial
  dictionary _ _ _ := trivial
  blockLambda _ _ _ _ _ := trivial
  exprLambda _ _ _ _ := trivial
  -- what a simple statement owns is edited in both ways alike
  var head init _ := by
    have h := Stmt.map_event_editBlocks hf (.var head init) .normal
    exact ⟨h, h⟩
  assign span t v _ _ := by
    have h := Stmt.map_event_editBlocks hf (.assign span t v) .normal
    exact ⟨h, h⟩
  func head body _ := ⟨Stmt.map_event_editBlocks hf (.func head body) .normal, rfl⟩
  cls head ms _ := ⟨Stmt.map_event_editBlocks hf (.cls head ms) .normal, rfl⟩
  ctor head body _ := ⟨Stmt.map_event_editBlocks hf (.ctor head body) .normal, rfl⟩
  ret span v _ := by
    have h := Stmt.map_event_editBlocks hf (.ret span v) .returned
    exact ⟨h, h⟩
  brk span := ⟨rfl, rfl⟩
  expr e _ := by
    have h := Stmt.map_event_editBlocks hf (.expr e) .normal
    exact ⟨h, h⟩
  ifElse x c body rest _ hbody hrest := by
    have htest := c.map_test_editBlocks hf
    have hblock := Stmt.sameRuns_block hruns fun s hs => (hbody s hs).1
    simp only [Stmt.editBlocks, Stmt.editOwnedBlocks, Edit.bind_value, Edit.pure_value, Stmt.runs,
      Runs.map_branch, htest, ← hrest.1, ← hrest.2]
    exact ⟨congrArg (Runs.branch _ · _) hblock, trivial⟩
  whileLoop x c body _ hbody := by
    have htest := c.map_test_editBlocks hf
    have hblock := Stmt.sameRuns_block hruns fun s hs => (hbody s hs).1
    simp only [Stmt.editBlocks, Stmt.editOwnedBlocks, Edit.bind_value, Edit.pure_value, Stmt.runs,
      Runs.map_loop, htest]
    exact ⟨congrArg (Runs.loop _) hblock, trivial⟩
  forLoop x init c update body _ _ hupdate hbody := by
    have hinit := Stmt.map_runsInit_editBlocks hf init
    have htest := Expr.map_testOption_editBlocks hf c
    have hstep := Stmt.map_runsUpdate fun s hs => (hupdate s hs).2
    have hblock := Stmt.sameRuns_block hruns fun s hs => (hbody s hs).1
    simp only [Stmt.editBlocks_forLoop, Stmt.editOwnedBlocks_forLoop, Edit.bind_value,
      Edit.pure_value, Stmt.runs, Runs.map_seq, Runs.map_loop, hinit, htest, hstep]
    exact ⟨congrArg (fun A => Runs.seq _ (Runs.loop _ (Runs.seq A _))) hblock, trivial⟩
  done := ⟨rfl, rfl⟩
  elseIf x c body rest _ hbody hrest := by
    have htest := c.map_test_editBlocks hf
    have hblock := Stmt.sameRuns_block hruns fun s hs => (hbody s hs).1
    simp only [Chain.editBlocks, Chain.editOwnedBlocks, Edit.bind_value, Edit.pure_value,
      Chain.runs, Runs.map_branch, htest, ← hrest.1, ← hrest.2]
    exact ⟨congrArg (Runs.branch _ · _) hblock, trivial⟩
  otherwise block body hbody :=
    ⟨Stmt.sameRuns_block hruns fun s hs => (hbody s hs).1, rfl⟩

/-- **Edits that keep the runs of a block keep those of all blocks.** -/
theorem sameRuns_everywhere (ss : List Stmt) : SameRuns f ss (f.everywhere ss).value :=
  Stmt.sameRuns_block hruns fun s _ => ((map_runs_editBlocks hf hruns).stmt_holds s).1

end Everywhere

end MiddleEnd
