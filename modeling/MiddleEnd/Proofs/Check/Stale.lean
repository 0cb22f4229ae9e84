import MiddleEnd.Proofs.Check.Annotated

/-!
Annotations that stand on a tree from before do not matter: the analysis writes every annotation
before it reads it. So it makes no difference to it whether they are erased first.
-/

namespace MiddleEnd

variable {α β : Type} {scope : ScopeId}

/-! ### Parts that are not trees -/

@[simp] lemma Mark.typed_erase (m : Mark) (t : TypeId) : m.erase.typed t = m.typed t := rfl

@[simp] lemma Mark.span_erase (m : Mark) : m.erase.span = m.span := rfl

@[simp] lemma Expr.mark_erase (e : Expr) : e.erase.mark = e.mark.erase := by
  cases e <;> rfl

@[simp] lemma Expr.span_erase (e : Expr) : e.erase.span = e.span := by
  rw [Expr.span, Expr.mark_erase, Mark.span_erase, Expr.span]

@[simp] lemma Expr.isTarget_erase (e : Expr) : e.erase.isTarget = e.isTarget := by
  cases e <;> rfl

namespace Check

lemma params_erase (ps : List Param) : params scope (ps.map .erase) = params scope ps := by
  induction ps with
  | nil => rfl
  | cons p ps ih =>
    simp only [List.map_cons, params, ih]
    rfl

lemma openLambda_erase (head : LambdaHead) :
    openLambda scope head.erase = openLambda scope head := by
  simp only [openLambda, LambdaHead.erase, params_erase]

lemma outlineFunction_erase (kind : FrameKind) (head : FuncHead) :
    outlineFunction scope kind head.erase = outlineFunction scope kind head := by
  simp only [outlineFunction, FuncHead.erase, params_erase]

lemma outlineConstructor_erase (head : CtorHead) :
    outlineConstructor scope head.erase = outlineConstructor scope head := by
  simp only [outlineConstructor, CtorHead.erase, params_erase]

end Check

/-! ### The walk -/

/-- Declarations of classes, functions and constructors carry the handles of their bodies. -/
def Stmt.isDeclaration (s : Stmt) : Bool := s.isClass || s.isFunction

/-- Erasing the annotations of the expression makes no difference to the walk. -/
def Expr.Ignored (e : Expr) : Prop := ∀ scope, Check.expr scope e.erase = Check.expr scope e

/-- Erasing the annotations of a statement makes no difference to the walk, unless it has to find
the handles of a body on it. -/
def Stmt.Ignored (s : Stmt) : Prop :=
  s.isDeclaration = false → ∀ scope, Check.stmt scope s.erase = Check.stmt scope s

def Chain.Ignored (ch : Chain) : Prop := ∀ scope, Check.chain scope ch.erase = Check.chain scope ch

lemma Rule.blockStmt_erase (s : Stmt) : Rule.blockStmt s.erase = Rule.blockStmt s := by
  cases s <;> simp [blockStmt, notClass, notFunction, Stmt.isClass, Stmt.isFunction, Stmt.span,
    VarHead.erase, FuncHead.erase, ClassHead.erase, CtorHead.erase]

lemma Rule.isDeclaration_of_blockStmt {s : Stmt} {u : Unit} (h : Rule.blockStmt s = .ok u) :
    s.isDeclaration = false := by
  unfold Rule.blockStmt at h
  obtain ⟨_, hclass, hfunction⟩ := Except.bind_eq_ok.mp h
  have hclass := ensure_eq_ok.mp hclass
  have hfunction := ensure_eq_ok.mp hfunction
  simp_all [Stmt.isDeclaration]

namespace Check

lemma exprs_erase {es : List Expr} (hes : ∀ e ∈ es, e.Ignored) :
    exprs scope (Expr.eraseList es) = exprs scope es := by
  induction es with
  | nil => rfl
  | cons e es ih =>
    rw [List.forall_mem_cons] at hes
    rw [Expr.eraseList, exprs, exprs, hes.1 scope, ih hes.2]

lemma entries_erase {es : List (Expr × Expr)} (hes : ∀ e ∈ es, e.1.Ignored ∧ e.2.Ignored) :
    entries scope (Expr.eraseEntries es) = entries scope es := by
  induction es with
  | nil => rfl
  | cons e es ih =>
    obtain ⟨k, v⟩ := e
    rw [List.forall_mem_cons] at hes
    rw [Expr.eraseEntries, entries, entries, hes.1.1 scope, hes.1.2 scope, ih hes.2]

lemma stmts_erase {ss : List Stmt} (hss : ∀ s ∈ ss, s.Ignored)
    (hdecl : ∀ s ∈ ss, s.isDeclaration = false) :
    stmts scope (Stmt.eraseList ss) = stmts scope ss := by
  induction ss with
  | nil => rfl
  | cons s ss ih =>
    rw [List.forall_mem_cons] at hss hdecl
    rw [Stmt.eraseList, stmts, stmts, hss.1 hdecl.1 scope, ih hss.2 hdecl.2]

lemma forM_blockStmt_erase (ss : List Stmt) :
    (Stmt.eraseList ss).forM Rule.blockStmt = ss.forM Rule.blockStmt := by
  induction ss with
  | nil => rfl
  | cons s ss ih =>
    show (Rule.blockStmt s.erase >>= fun _ => (Stmt.eraseList ss).forM Rule.blockStmt) =
      (Rule.blockStmt s >>= fun _ => ss.forM Rule.blockStmt)
    rw [Rule.blockStmt_erase, ih]

/-- A block is walked through only if it holds no declarations. -/
lemma block_erase {ss : List Stmt} (hss : ∀ s ∈ ss, s.Ignored) (k : List Stmt → Check α) :
    (do blockRules (Stmt.eraseList ss); let ss ← stmts scope (Stmt.eraseList ss); k ss) =
      (do blockRules ss; let ss ← stmts scope ss; k ss) := by
  simp only [blockRules, forM_blockStmt_erase]
  rcases h : ss.forM Rule.blockStmt with f | u
  · rfl
  · have hdecl : ∀ s ∈ ss, s.isDeclaration = false := fun s hs =>
      Rule.isDeclaration_of_blockStmt (Except.forM_eq_ok.mp h s hs)
    rw [stmts_erase hss hdecl]

lemma var_erase {init : Option Expr} (hinit : ∀ e ∈ init, e.Ignored) (head : VarHead) :
    var scope head.erase (Expr.eraseOption init) = var scope head init := by
  cases init with
  | none => rfl
  | some e =>
    rw [Expr.eraseOption, var, var, hinit e rfl scope]
    rfl

lemma loopInit_erase {init : Option (VarHead × Option Expr)}
    (hinit : ∀ i ∈ init, ∀ e ∈ i.2, e.Ignored) :
    loopInit scope (Expr.eraseInit init) = loopInit scope init := by
  rcases init with _ | ⟨head, e⟩
  · rfl
  · rw [Expr.eraseInit, loopInit, loopInit, var_erase (hinit _ rfl)]

lemma loopCondition_erase {c : Option Expr} (hc : ∀ e ∈ c, e.Ignored) :
    loopCondition scope (Expr.eraseOption c) = loopCondition scope c := by
  cases c with
  | none => rfl
  | some e => rw [Expr.eraseOption, loopCondition, loopCondition, hc e rfl scope]

lemma loopUpdate_erase {update : Option Stmt} (hupdate : ∀ s ∈ update, s.Ignored) :
    loopUpdate scope (Stmt.eraseUpdate update) = loopUpdate scope update := by
  cases update with
  | none => rfl
  | some s =>
    rw [Stmt.eraseUpdate, loopUpdate, loopUpdate, Rule.blockStmt_erase]
    rcases h : Rule.blockStmt s with f | u
    · rfl
    · rw [hupdate s rfl (Rule.isDeclaration_of_blockStmt h) scope]

end Check

section

open Check

lemma Tree.ignored : Tree.Walk Expr.Ignored Stmt.Ignored Chain.Ignored where
  leaf {e} he := by
    intro scope
    cases e with
    | number | string | boolean | null | name | self => rfl
    | _ => cases he
  binary hl hr _ _ := by
    intro scope
    rw [Expr.erase, expr, expr, hl scope, hr scope]
    rfl
  unary he _ _ := by
    intro scope
    rw [Expr.erase, expr, expr, he scope]
    rfl
  step he _ _ := by
    intro scope
    rw [Expr.erase, expr, expr, he scope]
    rfl
  ternary hc hy hn _ := by
    intro scope
    rw [Expr.erase, expr, expr, hc scope, hy scope, hn scope]
    rfl
  call_name hargs m g n target := by
    intro scope
    simp only [Expr.erase, expr, exprs_erase hargs, Mark.span_erase, Mark.typed_erase]
  call_member ho hargs m g n target := by
    intro scope
    simp only [Expr.erase, expr, exprs_erase hargs, ho scope, Mark.span_erase,
      Mark.typed_erase]
  call_computed {f} {args} hname hmember hf hargs m target := by
    intro scope
    -- forgetting the marks turns nothing into a name or a member
    have hname' : ∀ g n, f.erase ≠ .name g n := by cases f <;> simp_all
    have hmember' : ∀ g o n, f.erase ≠ .member g o n := by cases f <;> simp_all
    rw [Expr.erase, expr_call hname' hmember', expr_call hname hmember,
      exprs_erase hargs, hf scope]
    rfl
  member ho _ _ := by
    intro scope
    rw [Expr.erase, expr, expr, ho scope]
    rfl
  subscript ho hi _ := by
    intro scope
    rw [Expr.erase, expr, expr, ho scope, hi scope]
    rfl
  array hes _ := by
    intro scope
    rw [Expr.erase, expr, expr, exprs_erase hes]
    rfl
  dictionary hes _ := by
    intro scope
    rw [Expr.erase, expr, expr, entries_erase hes]
    rfl
  blockLambda hbody _ _ _ := by
    intro scope
    rw [Expr.erase, expr, expr, openLambda_erase]
    exact bind_congr fun _ => block_erase hbody _
  exprLambda hbody _ _ := by
    intro scope
    rw [Expr.erase, expr, expr, openLambda_erase]
    exact bind_congr fun r => by simp only [hbody r.1, Mark.typed_erase]
  var hinit _ _ scope := by
    rw [Stmt.erase, stmt, stmt, var_erase hinit]
  assign ht hv _ _ scope := by
    rw [Stmt.erase, stmt, stmt, ht scope, hv scope, Expr.isTarget_erase,
      Expr.span_erase]
  -- a declaration is checked by what the first phases have left on it
  func _ _ hdecl := by cases hdecl
  cls _ _ hdecl := by cases hdecl
  ctor _ _ hdecl := by cases hdecl
  ifElse hc hbody hrest _ := by
    intro _ scope
    rw [Stmt.erase, stmt, stmt, hc scope, hrest scope]
    exact bind_congr fun _ => bind_congr fun _ => bind_congr fun _ => block_erase hbody _
  whileLoop hc hbody _ := by
    intro _ scope
    rw [Stmt.erase, stmt, stmt, hc scope]
    exact bind_congr fun _ => bind_congr fun _ => bind_congr fun _ => block_erase hbody _
  forLoop hinit hc hupdate hbody _ := by
    intro _ scope
    rw [Stmt.erase, stmt, stmt]
    refine bind_congr fun inner => ?_
    rw [loopInit_erase hinit, loopCondition_erase hc, loopUpdate_erase hupdate]
    exact bind_congr fun _ => bind_congr fun _ => bind_congr fun _ => block_erase hbody _
  ret {v} hv _ := by
    intro _ scope
    cases v with
    | none => rfl
    | some e =>
      rw [Stmt.erase, Expr.eraseOption, stmt, stmt, hv e rfl scope]
      rfl
  brk _ _ _ := rfl
  expr he _ scope := by rw [Stmt.erase, stmt, stmt, he scope]
  done _ := rfl
  elseIf hc hbody hrest _ := by
    intro scope
    rw [Chain.erase, chain, chain, hc scope, hrest scope]
    exact bind_congr fun _ => bind_congr fun _ => bind_congr fun _ => block_erase hbody _
  otherwise hbody _ := by
    intro scope
    rw [Chain.erase, chain, chain]
    exact bind_congr fun _ => block_erase hbody _

end

lemma Expr.ignored (e : Expr) : e.Ignored := Tree.ignored.expr_holds e

lemma Stmt.ignored (s : Stmt) : s.Ignored := Tree.ignored.stmt_holds s

/-! ### Declarations and fields

Between its phases the analysis leaves annotations on the tree that later phases read. Each of the
following keeps what the phases so far have written, and erases the rest. -/

mutual
/-- Keeps the annotations of classes, functions and constructors, and erases all others. That the
constructors of a class have been compared is found out later. -/
def Stmt.keepHeads : Stmt → Stmt
  | .func head body => .func head (Stmt.eraseList body)
  | .ctor head body => .ctor head (Stmt.eraseList body)
  | .cls head ms => .cls { head with validated := false } (Stmt.keepHeadsList ms)
  | s => s.erase

def Stmt.keepHeadsList : List Stmt → List Stmt
  | [] => []
  | s :: ss => s.keepHeads :: Stmt.keepHeadsList ss
end

/-- Keeps the annotations of declarations in a class, and erases all others. -/
def Stmt.keepClass : Stmt → Stmt
  | .cls head ms => .cls { head with validated := false } (Stmt.keepHeadsList ms)
  | s => s.erase

mutual
/-- Keeps the annotations of declarations and of the fields of classes, and erases all others. -/
def Stmt.keepFields : Stmt → Stmt
  | .func head body => .func head (Stmt.eraseList body)
  | .ctor head body => .ctor head (Stmt.eraseList body)
  | .cls head ms => .cls { head with validated := false } (Stmt.keepFieldsList ms)
  | s => s.erase

def Stmt.keepFieldsList : List Stmt → List Stmt
  | [] => []
  | .var head init :: ss => .var head init :: Stmt.keepFieldsList ss
  | s :: ss => s.keepFields :: Stmt.keepFieldsList ss
end

lemma Stmt.eraseList_eq_map (ss : List Stmt) : Stmt.eraseList ss = ss.map Stmt.erase := by
  induction ss with
  | nil => rfl
  | cons s ss ih => rw [Stmt.eraseList, List.map_cons, ih]

lemma Stmt.keepHeadsList_eq_map (ss : List Stmt) :
    Stmt.keepHeadsList ss = ss.map Stmt.keepHeads := by
  induction ss with
  | nil => rfl
  | cons s ss ih => rw [Stmt.keepHeadsList, List.map_cons, ih]

lemma Stmt.keepFieldsList_cons {s : Stmt} (hs : s.isVar = false) (ss : List Stmt) :
    Stmt.keepFieldsList (s :: ss) = s.keepFields :: Stmt.keepFieldsList ss := by
  cases s with
  | var => cases hs
  | _ => rfl

namespace Check

lemma registerClasses_erase (ss : List Stmt) :
    registerClasses scope (Stmt.eraseList ss) = registerClasses scope ss := by
  have hheads : (Stmt.eraseList ss).filterMap Stmt.classHead? =
      (ss.filterMap Stmt.classHead?).map ClassHead.erase := by
    rw [Stmt.eraseList_eq_map, List.filterMap_map, List.map_filterMap]
    congr 1
    funext s
    cases s <;> rfl
  rw [registerClasses, hheads, List.mapM_map]
  rfl

lemma mapM_map_results {f : α → Check β} {γ : Type} (g : β → γ) (l : List α) :
    l.mapM (fun a => g <$> f a) = List.map g <$> l.mapM f := by
  induction l with
  | nil => simp
  | cons a l ih => simp [List.mapM_cons, ih]

lemma outline_keepClass (kind : FrameKind) (s : Stmt) :
    outline scope kind s.keepClass = Stmt.keepHeads <$> outline scope kind s := by
  cases s with
  | func head body =>
    simp only [Stmt.keepClass, Stmt.erase, outline, outlineFunction_erase, map_bind, map_pure,
      Stmt.keepHeads]
  | ctor head body =>
    simp only [Stmt.keepClass, Stmt.erase, outline, outlineConstructor_erase, map_bind, map_pure,
      Stmt.keepHeads]
  | _ => rfl

lemma outlines_keepClass (kind : FrameKind) (ss : List Stmt) :
    (ss.map Stmt.keepClass).mapM (outline scope kind) =
      List.map Stmt.keepHeads <$> ss.mapM (outline scope kind) := by
  rw [List.mapM_map, ← mapM_map_results]
  congr 1
  exact funext (outline_keepClass kind)

lemma functionBindings_keepHeads (ss : List Stmt) :
    (ss.map Stmt.keepHeads).filterMap functionBinding? = ss.filterMap functionBinding? := by
  rw [List.filterMap_map]
  congr 1
  funext s
  cases s <;> rfl

lemma bindFunctions_keepClass (ss : List Stmt) :
    bindFunctions scope (ss.map Stmt.keepClass) =
      List.map Stmt.keepHeads <$> bindFunctions scope ss := by
  simp only [bindFunctions, outlines_keepClass, map_bind, bind_map_left, map_pure,
    functionBindings_keepHeads]

lemma announceFields_keepHeads (c : ClassId) (ms : List Stmt) :
    (ms.map Stmt.keepHeads).forM (announceField c scope) = ms.forM (announceField c scope) := by
  induction ms with
  | nil => rfl
  | cons s ms ih =>
    have hs : announceField c scope s.keepHeads = announceField c scope s := by cases s <;> rfl
    show (announceField c scope s.keepHeads >>= fun _ => List.forM _ _) = _
    rw [hs, ih]
    rfl

/-- Steps that agree on the values that are given to them may follow each other. -/
lemma bind_congr_of_gives {x : Check α} {k l : α → Check β}
    (h : ∀ {σ a τ}, Gives x σ a τ → k a = l a) : x >>= k = x >>= l := by
  funext σ
  show (x >>= k).run.run σ = (x >>= l).run.run σ
  simp only [ExceptT.run_bind, StateT.run_bind]
  rcases hx : x.run.run σ with ⟨f | a, τ⟩
  · rfl
  · show (k a).run.run τ = (l a).run.run τ
    rw [h hx]

lemma length_of_registerClasses {ss : List Stmt} {cs : List ClassId} {σ τ : Session}
    (h : Gives (registerClasses scope ss) σ cs τ) :
    cs.length = (ss.filterMap Stmt.classHead?).length := by
  unfold registerClasses at h
  generalize ss.filterMap Stmt.classHead? = heads at h ⊢
  induction heads generalizing σ cs with
  | nil =>
    obtain ⟨rfl, -⟩ := gives_pure.mp h
    rfl
  | cons head heads ih =>
    obtain ⟨c, cs, _, -, h2, rfl⟩ := gives_mapM_cons.mp h
    rw [List.length_cons, List.length_cons, ih h2]

/-- Opening a class uses up one of the registered classes. -/
lemma length_of_openClass {s s' : Stmt} {cs others : List ClassId} {σ τ : Session}
    (h : Gives (openClass scope s cs) σ (s', others) τ) :
    cs.length ≤ others.length + s.classHead?.toList.length := by
  cases s with
  | cls head ms =>
    cases cs with
    | nil => simp
    | cons c cs =>
      simp only [openClass, gives_bind, gives_pure] at h
      obtain ⟨_, _, -, _, _, -, _, _, -, _, _, -, _, _, -, _, _, -, _, _, -, heq, -⟩ := h
      cases heq
      simp [Stmt.classHead?]
  | _ =>
    rw [openClass_eq_pure rfl] at h
    cases (gives_pure.mp h).1
    simp [Stmt.classHead?]

lemma openClasses_erase {ss : List Stmt} {cs : List ClassId}
    (hss : ∀ s ∈ ss, ∀ scope cs, s.classHead?.toList.length ≤ cs.length →
      openClass scope s.erase cs = Prod.map Stmt.keepClass id <$> openClass scope s cs)
    (hcs : (ss.filterMap Stmt.classHead?).length ≤ cs.length) :
    openClasses scope (Stmt.eraseList ss) cs =
      List.map Stmt.keepClass <$> openClasses scope ss cs := by
  induction ss generalizing cs with
  | nil => simp only [Stmt.eraseList, openClasses, map_pure, List.map_nil]
  | cons s ss ih =>
    rw [List.forall_mem_cons] at hss
    have hlength : s.classHead?.toList.length + (ss.filterMap Stmt.classHead?).length ≤
        cs.length := by
      rw [List.filterMap_cons] at hcs
      cases hhead : s.classHead? <;> simp [hhead] at hcs ⊢ <;> omega
    simp only [Stmt.eraseList, openClasses, hss.1 scope cs (by omega), bind_map_left, map_bind]
    refine bind_congr_of_gives fun {_ r _} hr => ?_
    obtain ⟨s', others⟩ := r
    have hothers := length_of_openClass hr
    have hrest : (ss.filterMap Stmt.classHead?).length ≤ others.length := by omega
    simp only [Prod.map, id, ih hss.2 hrest, bind_map_left, map_pure, List.map_cons]

lemma openClass_erase (s : Stmt) : ∀ scope cs, s.classHead?.toList.length ≤ cs.length →
    openClass scope s.erase cs = Prod.map Stmt.keepClass id <$> openClass scope s cs := by
  induction s using Stmt.members_induction with
  | other s hs =>
    intro scope cs _
    have hs' : s.erase.isClass = false := by cases s <;> first | rfl | cases hs
    have hkeep : s.keepClass = s.erase := by cases s <;> first | rfl | cases hs
    rw [openClass_eq_pure hs, openClass_eq_pure hs', map_pure, ← hkeep]
    rfl
  | cls head ms ih =>
    intro scope cs hcs
    obtain ⟨c, cs, rfl⟩ := List.exists_cons_of_length_pos hcs
    simp only [Stmt.erase, openClass, registerClasses_erase, map_bind]
    refine bind_congr fun body => bind_congr fun _ => bind_congr_of_gives
      fun {_ inner _} hinner => ?_
    have hlength := length_of_registerClasses hinner
    simp only [openClasses_erase ih (Nat.le_of_eq hlength.symm), bind_map_left,
      bindFunctions_keepClass, announceFields_keepHeads, map_pure, Prod.map, id, Stmt.keepClass,
      Stmt.keepHeadsList_eq_map, ClassHead.erase]

lemma announce_erase (ss : List Stmt) :
    announce scope (Stmt.eraseList ss) = List.map Stmt.keepHeads <$> announce scope ss := by
  simp only [announce, registerClasses_erase, map_bind]
  refine bind_congr_of_gives fun {_ cs _} hcs => ?_
  have hlength := length_of_registerClasses hcs
  simp only [openClasses_erase (fun s _ => openClass_erase s) (Nat.le_of_eq hlength.symm),
    bind_map_left, bindFunctions_keepClass]

lemma memberFields_keepHeads {body : ScopeId} {ms : List Stmt}
    (hms : ∀ s ∈ ms, classFields s.keepHeads = Stmt.keepFields <$> classFields s) :
    memberFields body (ms.map Stmt.keepHeads) = Stmt.keepFieldsList <$> memberFields body ms := by
  induction ms with
  | nil => simp only [List.map_nil, memberFields, map_pure, Stmt.keepFieldsList]
  | cons s ms ih =>
    rw [List.forall_mem_cons] at hms
    by_cases hvar : s.isVar = true
    · obtain ⟨head, init, rfl⟩ := Stmt.isVar_iff.mp hvar
      simp only [List.map_cons, Stmt.keepHeads, Stmt.erase, memberFields,
        var_erase (fun e _ => e.ignored), ih hms.2, map_bind, bind_map_left, map_pure,
        Stmt.keepFieldsList]
    · have hvar := Bool.eq_false_iff.mpr hvar
      have hvar' : s.keepHeads.isVar = false := by cases s <;> first | rfl | cases hvar
      rw [List.map_cons, memberFields_cons hvar, memberFields_cons hvar', hms.1, ih hms.2]
      simp only [map_bind, bind_map_left, map_pure]
      -- what the search leaves is known only from the run that gives it
      refine bind_congr_of_gives fun {_ s' _} hs' => bind_congr fun rest => ?_
      rw [Stmt.keepFieldsList_cons]
      cases s with
      | var => cases hvar
      | cls head ms =>
        simp only [classFields, gives_bind, gives_pure] at hs'
        obtain ⟨_, _, -, _, _, -, _, _, -, rfl, -⟩ := hs'
        rfl
      | _ =>
        rw [classFields_eq_pure rfl] at hs'
        obtain ⟨rfl, -⟩ := gives_pure.mp hs'
        rfl

lemma countP_isVar_keepFieldsList (ms : List Stmt) :
    (Stmt.keepFieldsList ms).countP Stmt.isVar = ms.countP Stmt.isVar := by
  induction ms with
  | nil => rfl
  | cons s ms ih =>
    cases s <;> simp [Stmt.keepFieldsList, Stmt.keepFields, Stmt.isVar, List.countP_cons, ih]

lemma classFields_keepHeads (s : Stmt) :
    classFields s.keepHeads = Stmt.keepFields <$> classFields s := by
  induction s using Stmt.members_induction with
  | other s hs =>
    have hs' : s.keepHeads.isClass = false := by cases s <;> first | rfl | cases hs
    have hkeep : s.keepHeads = s.keepFields := by cases s <;> first | rfl | cases hs
    rw [classFields_eq_pure hs, classFields_eq_pure hs', map_pure, hkeep]
  | cls head ms ih =>
    simp only [Stmt.keepHeads, classFields, Stmt.keepHeadsList_eq_map, memberFields_keepHeads ih,
      map_bind, bind_map_left, map_pure, countP_isVar_keepFieldsList, Stmt.keepFields]

lemma fields_keepHeads (ss : List Stmt) :
    (ss.map Stmt.keepHeads).mapM classFields =
      List.map Stmt.keepFields <$> ss.mapM classFields := by
  rw [List.mapM_map, ← mapM_map_results]
  congr 1
  exact funext classFields_keepHeads

lemma members_keepFields {ms : List Stmt}
    (hms : ∀ s ∈ ms, ∀ scope, stmt scope s.keepFields = stmt scope s) :
    members scope (Stmt.keepFieldsList ms) = members scope ms := by
  induction ms with
  | nil => rfl
  | cons s ms ih =>
    rw [List.forall_mem_cons] at hms
    by_cases hvar : s.isVar = true
    · obtain ⟨head, init, rfl⟩ := Stmt.isVar_iff.mp hvar
      rw [Stmt.keepFieldsList, members, members, ih hms.2]
    · have hvar := Bool.eq_false_iff.mpr hvar
      have hvar' : s.keepFields.isVar = false := by cases s <;> first | rfl | cases hvar
      rw [Stmt.keepFieldsList_cons hvar, members_cons hvar, members_cons hvar', hms.1 scope,
        ih hms.2]

lemma length_keepFieldsList (ms : List Stmt) : (Stmt.keepFieldsList ms).length = ms.length := by
  induction ms with
  | nil => rfl
  | cons s ms ih => cases s <;> simp [Stmt.keepFieldsList, ih]

lemma stmt_keepFields (s : Stmt) : ∀ scope, stmt scope s.keepFields = stmt scope s := by
  induction s using Stmt.members_induction with
  | other s hs =>
    intro scope
    cases s with
    | func head body =>
      simp only [Stmt.keepFields, stmt]
      exact bind_congr fun inner => block_erase (fun s _ => s.ignored) _
    | ctor head body =>
      simp only [Stmt.keepFields, stmt]
      cases head.scope with
      | none => rfl
      | some inner => exact block_erase (fun s _ => s.ignored) _
    | cls => cases hs
    | _ => exact Stmt.ignored _ rfl scope
  | cls head ms ih =>
    intro scope
    simp only [Stmt.keepFields, stmt, members_keepFields ih, length_keepFieldsList]
    rfl

lemma stmts_keepFields (ss : List Stmt) :
    stmts scope (ss.map Stmt.keepFields) = stmts scope ss := by
  induction ss with
  | nil => rfl
  | cons s ss ih => rw [List.map_cons, stmts, stmts, stmt_keepFields, ih]

lemma program_erase (p : Program) : program p.erase = program p := by
  simp only [program, Program.erase, announce_erase, fields_keepHeads, bind_map_left,
    stmts_keepFields]

end Check

lemma analyze_erase (p : Program) : analyze p.erase = analyze p := by
  have hlength : (Stmt.eraseList p.stmts).length = p.stmts.length := by
    rw [Stmt.eraseList_eq_map, List.length_map]
  unfold analyze analyzeLogged
  rw [Check.program_erase, Program.erase, hlength]

/-- **Annotations that stand on a tree do not matter**: two programs that differ only in their
annotations are analyzed with one outcome, be it a fault or a program with annotations and what was
found out about it. A program that was analyzed is analyzed again as itself. -/
theorem analyze_ignores_annotations (p p' : Program) (h : p.erase = p'.erase) :
    analyze p = analyze p' ∧ ∀ q a, analyze p = .ok (q, a) →
      analyze q = .ok (q, a) ∧ q.erase = p.erase := by
  have heq : ∀ {q q' : Program}, q.erase = q'.erase → analyze q = analyze q' := by
    intro q q' h
    rw [← analyze_erase q, h, analyze_erase]
  refine ⟨heq h, fun q a hq => ?_⟩
  obtain ⟨_, hrun, -⟩ := analyze_eq_ok.mp hq
  have herase := Check.erase_program hrun
  exact ⟨by rw [heq herase, hq], herase⟩

/-- A class with a field and a method, and a call of the method. -/
def counter : Program where
  stmts :=
    [.cls { name := "Counter" }
      [.var { name := "count", annotation := some (.named "Number" {}) } (some (.number {} 0)),
        .func { name := "next", result := some (.named "Number" {}) }
          [.ret {} (some (.member {} (.self {}) "count"))]],
      .expr (.call {} (.member {} (.call {} (.name {} "Counter") [] none) "next") [] none)]

def misled : Program where
  stmts :=
    [.cls { name := "Counter", cls := some ⟨7⟩, scope := some .root, validated := true }
      [.var { name := "count", annotation := some (.named "Number" {}), type := some .string }
          (some (.number { type := some .boolean } 0)),
        .func { name := "next", result := some (.named "Number" {}), type := some .null,
                settled := true, scope := some ⟨12⟩ }
          [.ret {}
            (some (.member { type := some ⟨1003⟩ } (.self { type := some .null }) "count"))]],
      .expr (.call { type := some .string }
        (.member {} (.call {} (.name {} "Counter") [] (some .dynamic)) "next") []
        (some (.builtin "print")))]

/-- The wrong annotations are overwritten. -/
theorem analyze_misled : counter.erase = misled.erase ∧ analyze counter = analyze misled ∧
    ∃ q a, analyze misled = .ok (q, a) ∧ analyze q = .ok (q, a) := by
  have herase : counter.erase = misled.erase := rfl
  have haccepted : (analyze misled).toOption.isSome = true := by decide +kernel
  refine ⟨herase, (analyze_ignores_annotations _ _ herase).1, ?_⟩
  cases h : analyze misled with
  | error f => simp [h, Except.toOption] at haccepted
  | ok r => exact ⟨r.1, r.2, rfl, ((analyze_ignores_annotations _ _ rfl).2 r.1 r.2 h).1⟩

end MiddleEnd
