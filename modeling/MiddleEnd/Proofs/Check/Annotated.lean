import MiddleEnd.Proofs.Check.Opened
import MiddleEnd.Proofs.Tree.Erase

/-!
The analysis only annotates: without the annotations, a program that it gives back is the program
that it was given.
-/

namespace MiddleEnd

variable {σ τ : Session} {scope : ScopeId}

/-! ### Parts that are not trees -/

namespace Check

lemma erase_params {ps ps' : List Param} (h : Gives (params scope ps) σ ps' τ) :
    ps'.map Param.erase = ps.map Param.erase := by
  induction ps generalizing σ τ ps' with
  | nil =>
    rw [params, gives_pure] at h
    obtain ⟨rfl, -⟩ := h
    rfl
  | cons p ps ih =>
    simp only [params, gives_bind, gives_pure] at h
    obtain ⟨_, _, -, _, _, -, rest, _, h3, rfl, -⟩ := h
    rw [List.map_cons, List.map_cons, ih h3]
    rfl

lemma erase_openLambda {head head' : LambdaHead} {id : ScopeId}
    (h : Gives (openLambda scope head) σ (id, head') τ) : head'.erase = head.erase := by
  obtain ⟨_, _, -, _, -, ps, h3, rfl⟩ := h.openLambda
  rw [LambdaHead.erase, LambdaHead.erase, erase_params h3]

lemma erase_declareVar {head head' : VarHead} {declared : Option TypeId} {init : Option Expr}
    (h : Gives (declareVar scope head declared init) σ head' τ) : head'.erase = head.erase := by
  cases declared <;> cases init <;> simp only [declareVar, gives_bind, gives_pure] at h
  case some.some =>
    obtain ⟨_, _, -, _, _, -, _, _, -, rfl, -⟩ := h
    rfl
  all_goals
    obtain ⟨_, _, -, rfl, -⟩ := h
    rfl

lemma erase_closeFunction {head head' : FuncHead}
    (h : Gives (closeFunction head scope) σ head' τ) : head'.erase = head.erase := by
  unfold closeFunction at h
  simp only [gives_bind, gives_pure] at h
  obtain ⟨_, _, -, _, _, -, _, _, -, _, _, -, _, _, -, _, _, -, rfl, -⟩ := h
  rfl

lemma erase_closeClass {head head' : ClassHead} {c : ClassId}
    (h : Gives (closeClass head c scope) σ head' τ) : head'.erase = head.erase := by
  unfold closeClass at h
  simp only [gives_bind, gives_pure] at h
  obtain ⟨_, _, -, _, _, -, _, _, -, _, _, -, _, _, -, _, _, -, rfl, -⟩ := h
  rfl

end Check

/-! ### The walk -/

/-- Looking at the expression only annotates it. -/
def Expr.Kept (e : Expr) : Prop :=
  ∀ {scope σ e' τ}, Gives (Check.expr scope e) σ e' τ → e'.erase = e.erase

def Stmt.Kept (s : Stmt) : Prop :=
  ∀ {scope σ s' τ}, Gives (Check.stmt scope s) σ s' τ → s'.erase = s.erase

def Chain.Kept (ch : Chain) : Prop :=
  ∀ {scope σ ch' τ}, Gives (Check.chain scope ch) σ ch' τ → ch'.erase = ch.erase

namespace Check

lemma erase_exprs {es es' : List Expr} (hes : ∀ e ∈ es, e.Kept)
    (h : Gives (exprs scope es) σ es' τ) : Expr.eraseList es' = Expr.eraseList es := by
  induction es generalizing σ τ es' with
  | nil =>
    obtain ⟨rfl, -⟩ := gives_pure.mp h
    rfl
  | cons e es ih =>
    rw [List.forall_mem_cons] at hes
    obtain ⟨e', _, h1, rest, h2, rfl⟩ := h.exprs_cons
    rw [Expr.eraseList, Expr.eraseList, hes.1 h1, ih hes.2 h2]

lemma erase_entries {es es' : List (Expr × Expr)} (hes : ∀ e ∈ es, e.1.Kept ∧ e.2.Kept)
    (h : Gives (entries scope es) σ es' τ) : Expr.eraseEntries es' = Expr.eraseEntries es := by
  induction es generalizing σ τ es' with
  | nil =>
    obtain ⟨rfl, -⟩ := gives_pure.mp h
    rfl
  | cons e es ih =>
    obtain ⟨k, v⟩ := e
    rw [List.forall_mem_cons] at hes
    obtain ⟨k', _, h1, v', _, h2, rest, h3, rfl⟩ := h.entries_cons
    rw [Expr.eraseEntries, Expr.eraseEntries, hes.1.1 h1, hes.1.2 h2, ih hes.2 h3]

lemma erase_stmts {ss ss' : List Stmt} (hss : ∀ s ∈ ss, s.Kept)
    (h : Gives (stmts scope ss) σ ss' τ) : Stmt.eraseList ss' = Stmt.eraseList ss := by
  induction ss generalizing σ τ ss' with
  | nil =>
    obtain ⟨rfl, -⟩ := gives_pure.mp h
    rfl
  | cons s ss ih =>
    rw [List.forall_mem_cons] at hss
    obtain ⟨s', _, h1, rest, h2, rfl⟩ := h.stmts_cons
    rw [Stmt.eraseList, Stmt.eraseList, hss.1 h1, ih hss.2 h2]

lemma erase_members {ms ms' : List Stmt} (hms : ∀ s ∈ ms, s.Kept)
    (h : Gives (members scope ms) σ ms' τ) : Stmt.eraseList ms' = Stmt.eraseList ms := by
  induction ms generalizing σ τ ms' with
  | nil =>
    obtain ⟨rfl, -⟩ := gives_pure.mp h
    rfl
  | cons s ms ih =>
    rw [List.forall_mem_cons] at hms
    by_cases hvar : s.isVar = true
    · obtain ⟨head, init, rfl⟩ := Stmt.isVar_iff.mp hvar
      obtain ⟨rest, h1, rfl⟩ := h.members_var
      rw [Stmt.eraseList, Stmt.eraseList, ih hms.2 h1]
    · obtain ⟨s', _, h1, rest, h2, rfl⟩ := h.members_cons (Bool.eq_false_iff.mpr hvar)
      rw [Stmt.eraseList, Stmt.eraseList, hms.1 h1, ih hms.2 h2]

lemma erase_var {head head' : VarHead} {init init' : Option Expr} (hinit : ∀ e ∈ init, e.Kept)
    (h : Gives (var scope head init) σ (head', init') τ) :
    head'.erase = head.erase ∧ Expr.eraseOption init' = Expr.eraseOption init := by
  cases init with
  | none =>
    obtain ⟨_, _, -, h2, rfl⟩ := h.var_none
    exact ⟨erase_declareVar h2, rfl⟩
  | some e =>
    obtain ⟨_, _, -, e', _, h2, h3, rfl⟩ := h.var_some
    exact ⟨erase_declareVar h3, by rw [Expr.eraseOption, Expr.eraseOption, hinit e rfl h2]⟩

lemma erase_loopInit {init init' : Option (VarHead × Option Expr)}
    (hinit : ∀ i ∈ init, ∀ e ∈ i.2, e.Kept) (h : Gives (loopInit scope init) σ init' τ) :
    Expr.eraseInit init' = Expr.eraseInit init := by
  rcases init with _ | ⟨head, e⟩
  · obtain ⟨rfl, -⟩ := gives_pure.mp h
    rfl
  · rw [loopInit, gives_map] at h
    obtain ⟨⟨head', e'⟩, h, rfl⟩ := h
    obtain ⟨hhead, he⟩ := erase_var (hinit _ rfl) h
    rw [Expr.eraseInit, Expr.eraseInit, hhead, he]

lemma erase_loopCondition {c c' : Option Expr} (hc : ∀ e ∈ c, e.Kept)
    (h : Gives (loopCondition scope c) σ c' τ) : Expr.eraseOption c' = Expr.eraseOption c := by
  cases c with
  | none =>
    obtain ⟨rfl, -⟩ := gives_pure.mp h
    rfl
  | some e =>
    obtain ⟨e', h1, -, rfl⟩ := h.loopCondition_some
    rw [Expr.eraseOption, Expr.eraseOption, hc e rfl h1]

lemma erase_loopUpdate {update update' : Option Stmt} (hupdate : ∀ s ∈ update, s.Kept)
    (h : Gives (loopUpdate scope update) σ update' τ) :
    Stmt.eraseUpdate update' = Stmt.eraseUpdate update := by
  cases update with
  | none =>
    obtain ⟨rfl, -⟩ := gives_pure.mp h
    rfl
  | some s =>
    obtain ⟨-, s', h1, rfl⟩ := h.loopUpdate_some
    rw [Stmt.eraseUpdate, Stmt.eraseUpdate, hupdate s rfl h1]

end Check

lemma Tree.kept : Tree.Walk Expr.Kept Stmt.Kept Chain.Kept where
  leaf {e} he := by
    intro scope σ e' τ h
    -- names and `this` get the types that are found, literals have their own
    cases e with
    | name m n =>
      obtain ⟨_, -, rfl⟩ := h.name
      rfl
    | self m =>
      obtain ⟨_, -, rfl⟩ := h.self
      rfl
    | number | string | boolean | null =>
      obtain ⟨rfl, -⟩ := gives_pure.mp h
      rfl
    | _ => cases he
  binary hl hr _ _ := by
    intro scope σ e' τ h
    obtain ⟨l', _, h1, r', h2, rfl⟩ := h.binary
    simp [Expr.erase, hl h1, hr h2]
  unary he _ _ := by
    intro scope σ e' τ h
    obtain ⟨e', h1, -, rfl⟩ := h.unary
    simp [Expr.erase, he h1]
  step he _ _ := by
    intro scope σ e' τ h
    obtain ⟨e', h1, -, rfl⟩ := h.step
    simp [Expr.erase, he h1]
  ternary hc hy hn _ := by
    intro scope σ e' τ h
    obtain ⟨c', _, h1, -, y', _, h2, n', h3, rfl⟩ := h.ternary
    simp [Expr.erase, hc h1, hy h2, hn h3]
  call_name hargs m g n target := by
    intro scope σ e' τ h
    obtain ⟨_, -, -, _, _, -, args', h2, _, _, -, rfl⟩ := h.call_name
    simp [Expr.erase, Check.erase_exprs hargs h2]
  call_member ho hargs m g n target := by
    intro scope σ e' τ h
    obtain ⟨o', _, h1, -, args', h2, _, _, -, rfl⟩ := h.call_member
    simp [Expr.erase, ho h1, Check.erase_exprs hargs h2]
  call_computed hname hmember hf hargs m target := by
    intro scope σ e' τ h
    obtain ⟨f', _, h1, -, args', h2, rfl⟩ := h.call_computed hname hmember
    simp [Expr.erase, hf h1, Check.erase_exprs hargs h2]
  member ho _ _ := by
    intro scope σ e' τ h
    obtain ⟨o', h1, -, rfl⟩ := h.member
    simp [Expr.erase, ho h1]
  subscript ho hi _ := by
    intro scope σ e' τ h
    obtain ⟨o', _, h1, -, i', h2, _, -, rfl⟩ := h.subscript
    simp [Expr.erase, ho h1, hi h2]
  array hes _ := by
    intro scope σ e' τ h
    obtain ⟨es', _, h1, _, -, rfl⟩ := h.array
    simp [Expr.erase, Check.erase_exprs hes h1]
  dictionary hes _ := by
    intro scope σ e' τ h
    obtain ⟨es', _, h1, _, -, rfl⟩ := h.dictionary
    simp [Expr.erase, Check.erase_entries hes h1]
  blockLambda hbody _ _ _ := by
    intro scope σ e' τ h
    obtain ⟨_, head', _, h1, -, body', h3, rfl⟩ := h.blockLambda
    simp [Expr.erase, Check.erase_openLambda h1, Check.erase_stmts hbody h3]
  exprLambda hbody _ _ := by
    intro scope σ e' τ h
    obtain ⟨_, head', _, h1, body', h2, rfl⟩ := h.exprLambda
    simp [Expr.erase, Check.erase_openLambda h1, hbody h2]
  var hinit _ := by
    intro scope σ s' τ h
    obtain ⟨head', init', h1, rfl⟩ := h.var
    obtain ⟨hhead, he⟩ := Check.erase_var hinit h1
    rw [Stmt.erase, Stmt.erase, hhead, he]
  assign ht hv _ := by
    intro scope σ s' τ h
    obtain ⟨v', _, h1, -, t', h2, -, rfl⟩ := h.assign
    rw [Stmt.erase, Stmt.erase, hv h1, ht h2]
  func hbody _ := by
    intro scope σ s' τ h
    obtain ⟨_, -, -, body', _, h2, head', h3, rfl⟩ := h.func
    rw [Stmt.erase, Stmt.erase, Check.erase_closeFunction h3, Check.erase_stmts hbody h2]
  cls hms _ := by
    intro scope σ s' τ h
    obtain ⟨_, -, _, -, _, _, -, ms', _, h2, head', h3, rfl⟩ := h.cls
    rw [Stmt.erase, Stmt.erase, Check.erase_closeClass h3, Check.erase_members hms h2]
  ctor hbody _ := by
    intro scope σ s' τ h
    obtain ⟨_, -, -, body', h2, rfl⟩ := h.ctor
    rw [Stmt.erase, Stmt.erase, Check.erase_stmts hbody h2]
  ifElse hc hbody hrest _ := by
    intro scope σ s' τ h
    obtain ⟨c', _, h1, -, _, _, -, -, body', _, h4, rest', h5, rfl⟩ := h.ifElse
    rw [Stmt.erase, Stmt.erase, hc h1, Check.erase_stmts hbody h4, hrest h5]
  whileLoop hc hbody _ := by
    intro scope σ s' τ h
    obtain ⟨c', _, h1, -, _, _, -, -, body', h4, rfl⟩ := h.whileLoop
    rw [Stmt.erase, Stmt.erase, hc h1, Check.erase_stmts hbody h4]
  forLoop hinit hc hupdate hbody _ := by
    intro scope σ s' τ h
    obtain ⟨_, _, -, init', _, h2, c', _, h3, update', _, h4, -, body', h6, rfl⟩ := h.forLoop
    rw [Stmt.erase, Stmt.erase, Check.erase_loopInit hinit h2, Check.erase_loopCondition hc h3,
      Check.erase_loopUpdate hupdate h4, Check.erase_stmts hbody h6]
  ret {v} hv _ := by
    intro scope σ s' τ h
    cases v with
    | none =>
      obtain ⟨_, -, rfl⟩ := h.ret_none
      rfl
    | some e =>
      obtain ⟨_, _, _, -, e', _, h2, _, -, rfl⟩ := h.ret_some
      rw [Stmt.erase, Stmt.erase, Expr.eraseOption, Expr.eraseOption, hv e rfl h2]
  brk _ := by
    intro scope σ s' τ h
    obtain ⟨-, -, rfl⟩ := h.brk
    rfl
  expr he := by
    intro scope σ s' τ h
    obtain ⟨e', h1, rfl⟩ := h.expr
    rw [Stmt.erase, Stmt.erase, he h1]
  done := by
    intro scope σ ch' τ h
    obtain ⟨rfl, -⟩ := gives_pure.mp h
    rfl
  elseIf hc hbody hrest _ := by
    intro scope σ ch' τ h
    obtain ⟨c', _, h1, -, _, _, -, -, body', _, h4, rest', h5, rfl⟩ := h.elseIf
    rw [Chain.erase, Chain.erase, hc h1, Check.erase_stmts hbody h4, hrest h5]
  otherwise hbody _ := by
    intro scope σ ch' τ h
    obtain ⟨_, _, -, -, body', h3, rfl⟩ := h.otherwise
    rw [Chain.erase, Chain.erase, Check.erase_stmts hbody h3]

lemma Stmt.kept (s : Stmt) : s.Kept := Tree.kept.stmt_holds s

lemma Expr.kept (e : Expr) : e.Kept := Tree.kept.expr_holds e

/-! ### Declarations and fields -/

namespace Check

lemma erase_outline {kind : FrameKind} {s s' : Stmt} (h : Gives (outline scope kind s) σ s' τ) :
    s'.erase = s.erase := by
  cases s with
  | func head body =>
    simp only [outline, outlineFunction, gives_bind, gives_pure] at h
    obtain ⟨_, _, ⟨_, _, -, _, _, -, _, _, -, ps, _, h4, rfl, -⟩, rfl, -⟩ := h
    simp [Stmt.erase, FuncHead.erase, erase_params h4]
  | ctor head body =>
    simp only [outline, outlineConstructor, gives_bind, gives_pure] at h
    obtain ⟨_, _, ⟨_, _, -, _, _, -, _, _, -, _, _, -, _, _, -, _, _, -, ps, _, h4, _, _, -, rfl,
      -⟩, rfl, -⟩ := h
    simp [Stmt.erase, CtorHead.erase, erase_params h4]
  | _ =>
    simp only [outline, gives_pure] at h
    obtain ⟨rfl, -⟩ := h
    rfl

/-- What only annotates each of some statements only annotates their list. -/
lemma erase_mapM {f : Stmt → Check Stmt} {ss ss' : List Stmt}
    (hf : ∀ s ∈ ss, ∀ {σ s' τ}, Gives (f s) σ s' τ → s'.erase = s.erase)
    (h : Gives (ss.mapM f) σ ss' τ) : Stmt.eraseList ss' = Stmt.eraseList ss := by
  induction ss generalizing σ ss' with
  | nil =>
    obtain ⟨rfl, -⟩ := gives_pure.mp h
    rfl
  | cons s ss ih =>
    rw [List.forall_mem_cons] at hf
    obtain ⟨s', rest, _, h1, h2, rfl⟩ := gives_mapM_cons.mp h
    rw [Stmt.eraseList, Stmt.eraseList, hf.1 h1, ih hf.2 h2]

lemma erase_bindFunctions {ss ss' : List Stmt} (h : Gives (bindFunctions scope ss) σ ss' τ) :
    Stmt.eraseList ss' = Stmt.eraseList ss := by
  unfold bindFunctions at h
  simp only [gives_bind, gives_pure] at h
  obtain ⟨_, _, -, ss', _, h1, _, _, -, _, _, -, rfl, -⟩ := h
  exact erase_mapM (fun s _ => erase_outline) h1

lemma erase_opening {ss ss' : List Stmt} {cs : List ClassId} (h : Opening scope ss cs σ ss' τ) :
    Stmt.eraseList ss' = Stmt.eraseList ss := by
  induction h with
  | nil => rfl
  | other _ _ ih => rw [Stmt.eraseList, Stmt.eraseList, ih]
  | cls _ _ _ _ _ h6 _ _ ihms ih =>
    rw [Stmt.eraseList, Stmt.eraseList, ih, Stmt.erase, Stmt.erase, erase_bindFunctions h6, ihms]
    rfl

lemma erase_announce {ss ss' : List Stmt} (h : Gives (announce scope ss) σ ss' τ) :
    Stmt.eraseList ss' = Stmt.eraseList ss := by
  obtain ⟨_, _, _, _, _, _, -, hopen, -, h4⟩ := opening_of_announce h
  rw [erase_bindFunctions h4, erase_opening hopen]

lemma erase_memberFields {body : ScopeId} {ms ms' : List Stmt}
    (hms : ∀ s ∈ ms, ∀ {σ s' τ}, Gives (classFields s) σ s' τ → s'.erase = s.erase)
    (h : Gives (memberFields body ms) σ ms' τ) : Stmt.eraseList ms' = Stmt.eraseList ms := by
  induction ms generalizing σ τ ms' with
  | nil =>
    obtain ⟨rfl, -⟩ := gives_pure.mp h
    rfl
  | cons s ms ih =>
    rw [List.forall_mem_cons] at hms
    by_cases hvar : s.isVar = true
    · obtain ⟨head, init, rfl⟩ := Stmt.isVar_iff.mp hvar
      obtain ⟨head', init', _, h1, rest, h2, rfl⟩ := h.memberFields_var
      obtain ⟨hhead, he⟩ := erase_var (fun e _ => e.kept) h1
      rw [Stmt.eraseList, Stmt.eraseList, Stmt.erase, Stmt.erase, hhead, he, ih hms.2 h2]
    · obtain ⟨s', _, h1, rest, h2, rfl⟩ := h.memberFields_cons (Bool.eq_false_iff.mpr hvar)
      rw [Stmt.eraseList, Stmt.eraseList, hms.1 h1, ih hms.2 h2]

lemma erase_classFields (s : Stmt) :
    ∀ {σ s' τ}, Gives (classFields s) σ s' τ → s'.erase = s.erase := by
  induction s using Stmt.members_induction with
  | other s hs =>
    intro σ s' τ h
    rw [classFields_eq_pure hs] at h
    obtain ⟨rfl, -⟩ := gives_pure.mp h
    rfl
  | cls head ms ih =>
    intro σ s' τ h
    obtain ⟨_, -, ms', _, h1, _, -, rfl⟩ := h.classFields_cls
    rw [Stmt.erase, Stmt.erase, erase_memberFields ih h1]

lemma erase_program {p q : Program} (h : Gives (program p) σ q τ) : q.erase = p.erase := by
  obtain ⟨ss1, _, h1, ss2, _, h2, ss3, _, h3, _, -, rfl⟩ := h.program
  rw [Program.erase, Program.erase, erase_stmts (fun s _ => s.kept) h3,
    erase_mapM (fun s _ => erase_classFields s) h2, erase_announce h1]

end Check
end MiddleEnd
