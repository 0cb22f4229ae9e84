import MiddleEnd.Proofs.Check.Places

/-!
The nodes that the walk comes by. A property that each node has right when the walk has given it,
and that lasts, is one of all nodes in the end, as seen from the scope of the statement. Statements
in classes are seen from the bodies of the classes.
-/

namespace MiddleEnd

variable {A σ τ υ : Session} {scope : ScopeId} {Ready : ScopeId → Session → Stmt → Prop}
  {P : ScopeId → Session → Node → Prop} {Q : ScopeId → Session → Stmt → Prop}

/-- The walk has gone on from one session to another. -/
structure Session.Walks (A σ τ : Session) : Prop where
  continues : σ.Continues A.Declared τ
  trace : σ.Trace False True τ

namespace Session.Walks

lemma of_gives {α : Type} {x : Check α} {a : α} [hx : Traced False True x] (h : Gives x σ a τ)
    (hτ : σ.Continues A.Declared τ) : A.Walks σ τ :=
  ⟨hτ, hx.trace h⟩

lemma stay (hσ : A.Continues A.Declared σ) : A.Walks σ σ := ⟨hσ.assembled.stay, .refl⟩

lemma trans (h : A.Walks σ τ) (h' : A.Walks τ υ) : A.Walks σ υ :=
  ⟨h.continues.trans h'.continues, h.trace.trans h'.trace⟩

lemma later (h : A.Walks σ τ) : σ.Later τ := .of_trace h.trace

end Session.Walks

/-- What is to be shown of a property of nodes: that it lasts, that it can be seen from around the
scopes that the walk opens or has been given, and that each node has it when the walk has given it,
a statement if it is ready to be looked at. -/
structure NodeLaw (A : Session) (Ready : ScopeId → Session → Stmt → Prop)
    (P : ScopeId → Session → Node → Prop) : Prop where
  mono : ∀ {scope σ τ n}, P scope σ n → A.Walks σ τ → P scope τ n
  block : ∀ {scope kind inner σ σ1 τ n}, Gives (Check.openIn scope kind) σ inner σ1 →
    A.Walks σ1 τ → P inner τ n → P scope τ n
  lambda : ∀ {scope head inner head' σ σ1 τ n},
    Gives (Check.openLambda scope head) σ (inner, head') σ1 → A.Walks σ1 τ → P inner τ n →
    P scope τ n
  func : ∀ {scope head body inner σ τ n}, Ready scope σ (.func head body) →
    head.scope = some inner → A.Walks σ τ → P inner τ n → P scope τ n
  ctor : ∀ {scope head body inner σ τ n}, Ready scope σ (.ctor head body) →
    head.scope = some inner → A.Walks σ τ → P inner τ n → P scope τ n
  plain : ∀ {scope σ s}, s.isClass = false → s.isFunction = false → Ready scope σ s
  expr : ∀ {scope σ e e' τ}, A.Continues A.Declared σ → Gives (Check.expr scope e) σ e' τ →
    P scope τ (.expr e')
  callee_name : ∀ {scope τ n} (f : Mark), P scope τ (.expr (.name (f.typed .any) n))
  callee_member : ∀ {scope τ o n} (f : Mark), P scope τ (.expr (.member (f.typed .any) o n))
  stmt : ∀ {scope σ s s' τ}, s.isClass = false → A.Continues A.Declared σ → Ready scope σ s →
    Gives (Check.stmt scope s) σ s' τ → P scope τ (.stmt s')
  chain : ∀ {scope τ ch}, P scope τ (.chain ch)

/-- The walk has gone on, and all nodes have the property. -/
structure Session.Visits (A : Session) (P : ScopeId → Session → Node → Prop) (scope : ScopeId)
    (σ τ : Session) (ns : List Node) : Prop where
  walks : A.Walks σ τ
  nodes : ∀ n ∈ ns, P scope τ n

namespace Session.Visits

variable {n : Node} {ns ms : List Node}

lemma none (h : A.Walks σ τ) : A.Visits P scope σ τ [] := ⟨h, List.forall_mem_nil _⟩

lemma node (h : A.Visits P scope σ τ ns) (hn : P scope τ n) : A.Visits P scope σ τ (n :: ns) :=
  ⟨h.walks, List.forall_mem_cons.mpr ⟨hn, h.nodes⟩⟩

lemma before (h : A.Walks σ τ) (h' : A.Visits P scope τ υ ns) : A.Visits P scope σ υ ns :=
  ⟨h.trans h'.walks, h'.nodes⟩

lemma andThen (h : A.Visits P scope σ τ ns) (L : NodeLaw A Ready P) (h' : A.Walks τ υ) :
    A.Visits P scope σ υ ns :=
  ⟨h.walks.trans h', fun n hn => L.mono (h.nodes n hn) h'⟩

lemma trans (h : A.Visits P scope σ τ ns) (L : NodeLaw A Ready P) (h' : A.Visits P scope τ υ ms) :
    A.Visits P scope σ υ (ns ++ ms) :=
  ⟨h.walks.trans h'.walks, List.forall_mem_append.mpr ⟨(h.andThen L h'.walks).nodes, h'.nodes⟩⟩

lemma onward (h : A.Visits P scope σ τ ns) (hσ : A.Continues A.Declared σ) :
    A.Continues A.Declared τ :=
  hσ.trans h.walks.continues

end Session.Visits

namespace Check

open Session (Visits Walks)

lemma later_of_gives {α : Type} {x : Check α} {a : α} [hx : Traced False True x]
    (h : Gives x σ a τ) : σ.Later τ :=
  hx.later h

/-- An expression that has been looked at has a type of its own. -/
lemma mark_of_expr {e e' : Expr} (h : Gives (expr scope e) σ e' τ) :
    e'.mark.type = some e'.type := by
  cases e with
  | call m f args target =>
    cases f <;>
      (simp only [Check.expr, gives_bind, gives_pure] at h
       grind [Expr.mark, Expr.type, Mark.typed])
  | _ =>
    simp only [Check.expr, gives_bind, gives_pure] at h
    grind [Expr.mark, Expr.type, Mark.typed]

lemma plain_of_blockStmt {s : Stmt} {u : Unit} (h : Rule.blockStmt s = .ok u) :
    s.isClass = false ∧ s.isFunction = false := by
  cases s with
  | func | ctor | cls => cases h
  | _ => exact ⟨rfl, rfl⟩

lemma continues_openBlock {kind : ScopeKind} {inner : ScopeId}
    (hkind : kind = .block ∨ kind = .loop) (hσ : A.Continues A.Declared σ)
    (h : Gives (openIn scope kind) σ inner τ) : σ.Continues A.Declared τ := by
  have hpresent : kind.Present σ.types σ.scopes := by
    rcases hkind with rfl | rfl <;> trivial
  exact (leads_openIn hσ.assembled hpresent).changes_of_gives h

/-! ### Parts of expressions and statements -/

section Nodes

variable (A P) in
def ExprVisits (e : Expr) : Prop :=
  ∀ {scope σ e' τ}, A.Continues A.Declared σ → Gives (expr scope e) σ e' τ →
    A.Visits P scope σ τ e'.nodes

variable (A Ready P) in
def StmtVisits (s : Stmt) : Prop :=
  ∀ {scope σ s' τ}, s.isClass = false → A.Continues A.Declared σ → Ready scope σ s →
    Gives (stmt scope s) σ s' τ → A.Visits P scope σ τ s'.nodes

variable (A P) in
def ChainVisits (ch : Chain) : Prop :=
  ∀ {scope σ ch' τ}, A.Continues A.Declared σ → Gives (chain scope ch) σ ch' τ →
    A.Visits P scope σ τ ch'.nodes

variable (L : NodeLaw A Ready P)
include L

lemma visits_exprs {es es' : List Expr} (hes : ∀ e ∈ es, ExprVisits A P e)
    (hσ : A.Continues A.Declared σ) (h : Gives (exprs scope es) σ es' τ) :
    A.Visits P scope σ τ (Expr.nodesList es') := by
  induction es generalizing σ es' with
  | nil =>
    obtain ⟨rfl, rfl⟩ := gives_pure.mp h
    exact .none (.stay hσ)
  | cons e es ih =>
    rw [List.forall_mem_cons] at hes
    obtain ⟨e', σ1, h1, rest, h2, rfl⟩ := h.exprs_cons
    have v1 := hes.1 hσ h1
    exact v1.trans L (ih hes.2 (v1.onward hσ) h2)

lemma visits_entries {es es' : List (Expr × Expr)}
    (hes : ∀ e ∈ es, ExprVisits A P e.1 ∧ ExprVisits A P e.2) (hσ : A.Continues A.Declared σ)
    (h : Gives (entries scope es) σ es' τ) :
    A.Visits P scope σ τ (Expr.collectEntries .nodes () es') := by
  induction es generalizing σ es' with
  | nil =>
    obtain ⟨rfl, rfl⟩ := gives_pure.mp h
    exact .none (.stay hσ)
  | cons e es ih =>
    obtain ⟨k, v⟩ := e
    rw [List.forall_mem_cons] at hes
    obtain ⟨k', σ1, h1, v', σ2, h2, rest, h3, rfl⟩ := h.entries_cons
    have v1 := hes.1.1 hσ h1
    have v2 := v1.trans L (hes.1.2 (v1.onward hσ) h2)
    exact v2.trans L (ih hes.2 (v2.onward hσ) h3)

lemma visits_block {ss ss' : List Stmt} (hss : ∀ s ∈ ss, StmtVisits A Ready P s)
    (hσ : A.Continues A.Declared σ) (hrules : ∀ s ∈ ss, Rule.blockStmt s = .ok ())
    (h : Gives (stmts scope ss) σ ss' τ) : A.Visits P scope σ τ (Stmt.nodesList ss') := by
  induction ss generalizing σ ss' with
  | nil =>
    obtain ⟨rfl, rfl⟩ := gives_pure.mp h
    exact .none (.stay hσ)
  | cons s ss ih =>
    rw [List.forall_mem_cons] at hss hrules
    obtain ⟨s', σ1, h1, rest, h2, rfl⟩ := h.stmts_cons
    obtain ⟨hcls, hfunc⟩ := plain_of_blockStmt hrules.1
    have v1 := hss.1 hcls hσ (L.plain hcls hfunc) h1
    exact v1.trans L (ih hss.2 (v1.onward hσ) hrules.2 h2)

lemma visits_var {head head' : VarHead} {init init' : Option Expr}
    (hinit : ∀ e ∈ init, ExprVisits A P e) (hσ : A.Continues A.Declared σ)
    (h : Gives (var scope head init) σ (head', init') τ) :
    A.Visits P scope σ τ (Expr.collectOption .nodes () init') := by
  have hfree : Cell.Free A.Declared := Session.free_declared
  have hread : Leads (Session.Continues A.Declared) (typeOf? scope head.annotation) σ
      fun t τ => τ.types.Registered (t.getD .any) := leads_typeOf? hσ.assembled
  cases init with
  | none =>
    have hτ := (leads_var (fun e _ => exprLeads e) hσ.assembled hσ.room_declared
      (hfree.declaring _)).changes_of_gives h
    obtain ⟨_, _, h1, h2, rfl⟩ := h.var_none
    exact .none ⟨hτ, (Traced.trace h1).trans (Traced.trace h2)⟩
  | some e =>
    obtain ⟨declared, σ1, h1, e', σ2, h2, h3, rfl⟩ := h.var_some
    have w1 := Walks.of_gives h1 (hread.changes_of_gives h1)
    have hσ1 := hσ.trans w1.continues
    have v2 := hinit e rfl hσ1 h2
    have c3 := (leads_declareVar (v2.onward hσ1).assembled (hfree.declaring _)
      ((hread.result h1).mono v2.walks.continues.forms) (by
        rintro _ ⟨⟩
        exact (exprLeads e hσ1.assembled hσ1.room_declared).result h2)).changes_of_gives h3
    exact (Visits.before w1 v2).andThen L (.of_gives h3 c3)

lemma visits_loopInit {init init' : Option (VarHead × Option Expr)}
    (hinit : ∀ i ∈ init, ∀ e ∈ i.2, ExprVisits A P e) (hσ : A.Continues A.Declared σ)
    (h : Gives (loopInit scope init) σ init' τ) :
    A.Visits P scope σ τ (Expr.collectInit .nodes () init') := by
  cases init with
  | none =>
    obtain ⟨rfl, rfl⟩ := gives_pure.mp h
    exact .none (.stay hσ)
  | some i =>
    rw [loopInit, gives_map] at h
    obtain ⟨⟨head', e'⟩, h, rfl⟩ := h
    exact visits_var L (hinit i rfl) hσ h

omit L in
lemma visits_loopCondition {c c' : Option Expr} (hc : ∀ e ∈ c, ExprVisits A P e)
    (hσ : A.Continues A.Declared σ) (h : Gives (loopCondition scope c) σ c' τ) :
    A.Visits P scope σ τ (Expr.collectOption .nodes () c') := by
  cases c with
  | none =>
    obtain ⟨rfl, rfl⟩ := gives_pure.mp h
    exact .none (.stay hσ)
  | some c =>
    obtain ⟨c', h1, -, rfl⟩ := h.loopCondition_some
    exact hc c rfl hσ h1

lemma visits_loopUpdate {update update' : Option Stmt}
    (hupdate : ∀ s ∈ update, StmtVisits A Ready P s) (hσ : A.Continues A.Declared σ)
    (h : Gives (loopUpdate scope update) σ update' τ) :
    A.Visits P scope σ τ (Stmt.collectUpdate .nodes () update') := by
  cases update with
  | none =>
    obtain ⟨rfl, rfl⟩ := gives_pure.mp h
    exact .none (.stay hσ)
  | some s =>
    obtain ⟨hrule, s', h1, rfl⟩ := h.loopUpdate_some
    obtain ⟨hcls, hfunc⟩ := plain_of_blockStmt hrule
    exact hupdate s rfl hcls hσ (L.plain hcls hfunc) h1

/-- What is in a block can be seen from around it. -/
lemma visits_opened {kind : ScopeKind} {inner : ScopeId} {σ1 : Session} {ns : List Node}
    (hkind : kind = .block ∨ kind = .loop) (hσ : A.Continues A.Declared σ)
    (h1 : Gives (openIn scope kind) σ inner σ1)
    (h : A.Continues A.Declared σ1 → A.Visits P inner σ1 τ ns) : A.Visits P scope σ τ ns := by
  have w1 := Walks.of_gives h1 (continues_openBlock hkind hσ h1)
  have v := h (hσ.trans w1.continues)
  exact ⟨w1.trans v.walks, fun n hn => L.block h1 v.walks (v.nodes n hn)⟩

lemma visits_lambda {head head' : LambdaHead} {inner : ScopeId} {σ1 : Session} {ns : List Node}
    (hσ : A.Continues A.Declared σ) (h1 : Gives (openLambda scope head) σ (inner, head') σ1)
    (h : A.Continues A.Declared σ1 → A.Visits P inner σ1 τ ns) : A.Visits P scope σ τ ns := by
  have htraced : Traced False True (openLambda scope head) :=
    traced_of_follows (follows_openLambda trivial)
  have w1 := Walks.of_gives h1
    ((leads_openLambda hσ.assembled hσ.room_declared).changes_of_gives h1)
  have v := h (hσ.trans w1.continues)
  exact ⟨w1.trans v.walks, fun n hn => L.lambda h1 v.walks (v.nodes n hn)⟩

/-- The condition, the block and the rest of a conditional. -/
lemma visits_arm {c c' : Expr} {inner : ScopeId} {body body' : List Stmt} {rest rest' : Chain}
    {σ1 σ2 σ3 : Session} (hc : ExprVisits A P c) (hbody : ∀ s ∈ body, StmtVisits A Ready P s)
    (hrest : ChainVisits A P rest) (hσ : A.Continues A.Declared σ)
    (h1 : Gives (expr scope c) σ c' σ1) (h2 : Gives (openIn scope .block) σ1 inner σ2)
    (h3 : ∀ s ∈ body, Rule.blockStmt s = .ok ()) (h4 : Gives (stmts inner body) σ2 body' σ3)
    (h5 : Gives (chain scope rest) σ3 rest' τ) :
    A.Visits P scope σ τ (c'.nodes ++ Stmt.nodesList body' ++ rest'.nodes) := by
  have v1 := hc hσ h1
  have v4 := v1.trans L (visits_opened L (Or.inl rfl) (v1.onward hσ) h2 fun hσ2 =>
    visits_block L hbody hσ2 h3 h4)
  exact v4.trans L (hrest (v4.onward hσ) h5)

/-! ### Expressions and statements -/

lemma exprVisits_of {e : Expr} (h : ∀ {scope σ e' τ}, A.Continues A.Declared σ →
    Gives (expr scope e) σ e' τ → A.Visits P scope σ τ e'.nodes.tail) : ExprVisits A P e := by
  intro scope σ e' τ hσ hgives
  have hnodes : e'.nodes = .expr e' :: e'.nodes.tail := by cases e' <;> rfl
  rw [hnodes]
  exact (h hσ hgives).node (L.expr hσ hgives)

lemma stmtVisits_of {s : Stmt} (h : ∀ {scope σ s' τ}, A.Continues A.Declared σ →
    Ready scope σ s → Gives (stmt scope s) σ s' τ → A.Visits P scope σ τ s'.nodes.tail) :
    StmtVisits A Ready P s := by
  intro scope σ s' τ hcls hσ hready hgives
  have hnodes : s'.nodes = .stmt s' :: s'.nodes.tail := by cases s' <;> rfl
  rw [hnodes]
  exact (h hσ hready hgives).node (L.stmt hcls hσ hready hgives)

lemma tree_visits : Tree.Walk (ExprVisits A P) (StmtVisits A Ready P) (ChainVisits A P) where
  leaf {e} he := exprVisits_of L fun hσ h => by
    have hwalks := Walks.of_gives h (continues_expr hσ h)
    cases e with
    | number | string | boolean | null =>
      obtain ⟨rfl, rfl⟩ := gives_pure.mp h
      exact .none hwalks
    | name | self =>
      simp only [Check.expr, gives_bind, gives_pure] at h
      obtain ⟨_, _, -, rfl, rfl⟩ := h
      exact .none hwalks
    | _ => cases he
  binary hl hr _ _ := exprVisits_of L fun hσ h => by
    obtain ⟨l', σ1, h1, r', h2, rfl⟩ := h.binary
    have v1 := hl hσ h1
    exact v1.trans L (hr (v1.onward hσ) h2)
  unary he _ _ := exprVisits_of L fun hσ h => by
    obtain ⟨x, h1, -, rfl⟩ := h.unary
    exact he hσ h1
  step he _ _ := exprVisits_of L fun hσ h => by
    obtain ⟨x, h1, -, rfl⟩ := h.step
    exact he hσ h1
  ternary hc hy hn _ := exprVisits_of L fun hσ h => by
    obtain ⟨c', σ1, h1, -, y', σ2, h2, n', h3, rfl⟩ := h.ternary
    have v1 := hc hσ h1
    have v2 := v1.trans L (hy (v1.onward hσ) h2)
    exact v2.trans L (hn (v2.onward hσ) h3)
  call_name hargs _ f _ _ := exprVisits_of L fun hσ h => by
    obtain ⟨b, -, -, _, σ1, h1, args', h2, g, t, -, rfl⟩ := h.call_name
    have w1 : A.Walks _ σ1 := .of_gives h1 ((leads_recordCall hσ.assembled).changes_of_gives h1)
    exact .node (.before w1 (visits_exprs L hargs (hσ.trans w1.continues) h2)) (L.callee_name f)
  call_member ho hargs _ f _ _ := exprVisits_of L fun hσ h => by
    obtain ⟨o', σ1, h1, -, args', h2, g, t, -, rfl⟩ := h.call_member
    have v1 := ho hσ h1
    exact (v1.trans L (visits_exprs L hargs (v1.onward hσ) h2)).node (L.callee_member f)
  call_computed hname hmember hf hargs _ _ := exprVisits_of L fun hσ h => by
    obtain ⟨f', σ1, h1, hrule, args', h2, rfl⟩ := h.call_computed hname hmember
    -- nothing is known of what is called, so it keeps its type
    have hcallee : f'.typed .any = f' := by
      rw [Expr.typed, ← TypeId.isAny_iff.mp (ensure_eq_ok.mp hrule), Mark.typed, ← mark_of_expr h1]
      exact f'.withMark_mark
    have v1 := hf hσ h1
    rw [hcallee]
    exact v1.trans L (visits_exprs L hargs (v1.onward hσ) h2)
  member ho _ _ := exprVisits_of L fun hσ h => by
    obtain ⟨o', h1, -, rfl⟩ := h.member
    exact ho hσ h1
  subscript ho hi _ := exprVisits_of L fun hσ h => by
    obtain ⟨o', σ1, h1, -, i', h2, t, -, rfl⟩ := h.subscript
    have v1 := ho hσ h1
    exact v1.trans L (hi (v1.onward hσ) h2)
  array hes _ := exprVisits_of L fun hσ h => by
    obtain ⟨es', σ1, h1, t, h2, rfl⟩ := h.array
    have v1 := visits_exprs L hes hσ h1
    have hts := (leads_exprs (fun e _ => exprLeads e) hσ.assembled hσ.room_declared).result h1
    refine v1.andThen L (.of_gives h2
      ((leads_addType (v1.onward hσ).assembled rfl ?_).changes_of_gives h2))
    simpa [TypeForm.parts] using TypeTable.registered_common hts
  dictionary hes _ := exprVisits_of L fun hσ h => by
    obtain ⟨es', σ1, h1, t, h2, rfl⟩ := h.dictionary
    have v1 := visits_entries L hes hσ h1
    have hts := (leads_entries (fun e _ => ⟨exprLeads e.1, exprLeads e.2⟩) hσ.assembled
      hσ.room_declared).result h1
    refine v1.andThen L (.of_gives h2
      ((leads_addType (v1.onward hσ).assembled rfl ?_).changes_of_gives h2))
    simpa [TypeForm.parts] using
      ⟨TypeTable.registered_common hts.1, TypeTable.registered_common hts.2⟩
  blockLambda hbody _ _ _ := exprVisits_of L fun hσ h => by
    obtain ⟨inner, head', σ1, h1, h2, body', h3, rfl⟩ := h.blockLambda
    exact visits_lambda L hσ h1 fun hσ1 => visits_block L hbody hσ1 h2 h3
  exprLambda hbody _ _ := exprVisits_of L fun hσ h => by
    obtain ⟨inner, head', σ1, h1, body', h2, rfl⟩ := h.exprLambda
    exact visits_lambda L hσ h1 fun hσ1 => hbody hσ1 h2
  var hinit _ := stmtVisits_of L fun hσ _ h => by
    obtain ⟨head', init', h1, rfl⟩ := h.var
    exact visits_var L hinit hσ h1
  assign ht hv _ := stmtVisits_of L fun hσ _ h => by
    obtain ⟨v', σ1, h1, -, t', h2, -, rfl⟩ := h.assign
    have v1 := hv hσ h1
    have v2 := ht (v1.onward hσ) h2
    -- the value is visited first but stands after the target in the tree
    exact ⟨v1.walks.trans v2.walks,
      List.forall_mem_append.mpr ⟨v2.nodes, (v1.andThen L v2.walks).nodes⟩⟩
  func hbody _ := stmtVisits_of L fun hσ hready h => by
    obtain ⟨inner, hinner, h1, body', σ2, h2, head', h3, rfl⟩ := h.func
    obtain rfl := session_of_closeFunction h3
    have v2 := visits_block L hbody hσ h1 h2
    exact ⟨v2.walks, fun n hn => L.func hready hinner v2.walks (v2.nodes n hn)⟩
  cls _ _ := by
    intro scope σ s' τ hcls
    -- classes are met by the law of their members, not in this walk
    cases hcls
  ctor hbody head := stmtVisits_of L fun hσ hready h => by
    obtain ⟨inner, hinner, h1, body', h2, rfl⟩ := h.ctor
    have v2 := visits_block L hbody hσ h1 h2
    exact ⟨v2.walks, fun n hn => L.ctor hready hinner v2.walks (v2.nodes n hn)⟩
  ifElse hc hbody hrest _ := stmtVisits_of L fun hσ _ h => by
    obtain ⟨c', σ1, h1, -, inner, σ2, h2, h3, body', σ4, h4, rest', h5, rfl⟩ := h.ifElse
    exact visits_arm L hc hbody hrest hσ h1 h2 h3 h4 h5
  whileLoop hc hbody _ := stmtVisits_of L fun hσ _ h => by
    obtain ⟨c', σ1, h1, -, inner, σ2, h2, h3, body', h4, rfl⟩ := h.whileLoop
    have v1 := hc hσ h1
    exact v1.trans L (visits_opened L (Or.inr rfl) (v1.onward hσ) h2 fun hσ2 =>
      visits_block L hbody hσ2 h3 h4)
  forLoop hinit hc hupdate hbody _ := stmtVisits_of L fun hσ _ h => by
    obtain ⟨inner, σ1, h1, init', σ2, h2, c', σ3, h3, update', σ4, h4, h5, body', h6, rfl⟩ :=
      h.forLoop
    -- everything in the head and in the body is inside one scope
    refine visits_opened L (Or.inr rfl) hσ h1 fun hσ1 => ?_
    have v2 := visits_loopInit L hinit hσ1 h2
    have v3 := v2.trans L (visits_loopCondition hc (v2.onward hσ1) h3)
    have v4 := v3.trans L (visits_loopUpdate L hupdate (v3.onward hσ1) h4)
    exact v4.trans L (visits_block L hbody (v4.onward hσ1) h5 h6)
  ret {v} hv _ := stmtVisits_of L fun hσ _ h => by
    cases v with
    | none =>
      obtain ⟨_, h1, rfl⟩ := h.ret_none
      obtain rfl := session_of_returnFrame h1
      exact .none (.stay hσ)
    | some e =>
      obtain ⟨id, frame, _, h1, e', σ2, h2, _, h3, rfl⟩ := h.ret_some
      obtain rfl := session_of_returnFrame h1
      have v2 := hv e rfl hσ h2
      have hfree : Cell.Free A.Declared := Session.free_declared
      exact v2.andThen L (.of_gives h3
        ((leads_giveBack (v2.onward hσ).assembled (hfree.settled id)).changes_of_gives h3))
  brk _ := stmtVisits_of L fun hσ _ h => by
    obtain ⟨-, rfl, rfl⟩ := h.brk
    exact .none (.stay hσ)
  expr he := stmtVisits_of L fun hσ _ h => by
    obtain ⟨e', h1, rfl⟩ := h.expr
    exact he hσ h1
  done := by
    intro scope σ ch' τ hσ h
    obtain ⟨rfl, rfl⟩ := gives_pure.mp h
    exact .node (.none (.stay hσ)) L.chain
  elseIf hc hbody hrest _ := by
    intro scope σ ch' τ hσ h
    obtain ⟨c', σ1, h1, -, inner, σ2, h2, h3, body', σ4, h4, rest', h5, rfl⟩ := h.elseIf
    exact (visits_arm L hc hbody hrest hσ h1 h2 h3 h4 h5).node L.chain
  otherwise hbody _ := by
    intro scope σ ch' τ hσ h
    obtain ⟨inner, σ1, h1, h2, body', h3, rfl⟩ := h.otherwise
    exact (visits_opened L (Or.inl rfl) hσ h1
      fun hσ1 => visits_block L hbody hσ1 h2 h3).node L.chain

end Nodes

/-! ### Fields -/

/-- All nodes in the fields of the classes have the property, as seen from the classes. -/
def FieldsVisited (P : ScopeId → Session → Node → Prop) (σ : Session)
    (ks : List (ClassHead × List Stmt)) : Prop :=
  ∀ k ∈ ks, ∀ body ∈ k.1.scope, ∀ s ∈ k.2, s.isVar = true → ∀ n ∈ s.nodes, P body σ n

lemma FieldsVisited.mono {ks : List (ClassHead × List Stmt)} (h : FieldsVisited P σ ks)
    (L : NodeLaw A Ready P) (hτ : A.Walks σ τ) : FieldsVisited P τ ks :=
  fun k hk body hbody s hs hvar n hn => L.mono (h k hk body hbody s hs hvar n hn) hτ

lemma visits_memberFields {body : ScopeId} {ms ms' : List Stmt} (L : NodeLaw A Ready P)
    (hms : ∀ s ∈ ms, ∀ {σ s' τ}, A.Continues A.Declared σ → Gives (classFields s) σ s' τ →
      A.Walks σ τ ∧ FieldsVisited P τ s'.classes)
    (hσ : A.Continues A.Declared σ) (h : Gives (memberFields body ms) σ ms' τ) :
    A.Walks σ τ ∧ (∀ s ∈ ms', s.isVar = true → ∀ n ∈ s.nodes, P body τ n) ∧
      FieldsVisited P τ (Stmt.classesList ms') := by
  induction ms generalizing σ ms' with
  | nil =>
    obtain ⟨rfl, rfl⟩ := gives_pure.mp h
    exact ⟨.stay hσ, List.forall_mem_nil _, List.forall_mem_nil _⟩
  | cons s ms ih =>
    rw [List.forall_mem_cons] at hms
    by_cases hvar : s.isVar = true
    · -- a field is visited like a variable, before the walk comes to the class
      obtain ⟨head, init, rfl⟩ := Stmt.isVar_iff.mp hvar
      obtain ⟨head', init', σ1, h1, rest, h2, rfl⟩ := h.memberFields_var
      have hvisit : Gives (stmt body (.var head init)) σ (.var head' init') σ1 := by
        rw [stmt, gives_bind]
        exact ⟨_, _, h1, gives_pure.mpr ⟨rfl, rfl⟩⟩
      have v1 := (tree_visits L).stmt_holds _ rfl hσ (L.plain rfl rfl) hvisit
      obtain ⟨w2, hvars, hclasses⟩ := ih hms.2 (v1.onward hσ) h2
      exact ⟨v1.walks.trans w2,
        List.forall_mem_cons.mpr ⟨fun _ => (v1.andThen L w2).nodes, hvars⟩, hclasses⟩
    · rw [Bool.not_eq_true] at hvar
      obtain ⟨s', σ1, h1, rest, h2, rfl⟩ := h.memberFields_cons hvar
      obtain ⟨w1, hs⟩ := hms.1 hσ h1
      obtain ⟨w2, hvars, hclasses⟩ := ih hms.2 (hσ.trans w1.continues) h2
      have hvar' := (fieldless_classFields s h1).2.trans hvar
      refine ⟨w1.trans w2, List.forall_mem_cons.mpr ⟨by simp [hvar'], hvars⟩, ?_⟩
      rw [FieldsVisited, Stmt.classesList, List.forall_mem_append]
      exact ⟨hs.mono L w2, hclasses⟩

lemma visits_classFields (L : NodeLaw A Ready P) (s : Stmt) : ∀ {σ s' τ},
    A.Continues A.Declared σ → Gives (classFields s) σ s' τ →
      A.Walks σ τ ∧ FieldsVisited P τ s'.classes := by
  induction s using Stmt.members_induction with
  | other s hs =>
    intro σ s' τ hσ h
    rw [classFields_eq_pure hs, gives_pure] at h
    obtain ⟨rfl, rfl⟩ := h
    rw [Stmt.classes_of_not_isClass hs]
    exact ⟨.stay hσ, List.forall_mem_nil _⟩
  | cls head ms ih =>
    intro σ s' τ hσ h
    obtain ⟨body, hbody, ms', σ1, h1, _, h2, rfl⟩ := h.classFields_cls
    obtain ⟨w1, hvars, hclasses⟩ := visits_memberFields L ih hσ h1
    have w2 : A.Walks σ1 _ := .of_gives h2 ((leads_note w1.continues.assembled).changes_of_gives h2)
    refine ⟨w1.trans w2, List.forall_mem_cons.mpr
      ⟨fun body' hbody' s hs hvar n hn => ?_, hclasses.mono L w2⟩⟩
    cases hbody.symm.trans hbody'
    exact L.mono (hvars s hs hvar n hn) w2

lemma visits_fields {ss ss' : List Stmt} (L : NodeLaw A Ready P) (hσ : A.Continues A.Declared σ)
    (h : Gives (ss.mapM classFields) σ ss' τ) :
    A.Walks σ τ ∧ FieldsVisited P τ (Stmt.classesList ss') := by
  induction ss generalizing σ ss' with
  | nil =>
    obtain ⟨rfl, rfl⟩ := gives_pure.mp h
    exact ⟨.stay hσ, List.forall_mem_nil _⟩
  | cons s ss ih =>
    obtain ⟨s', rest, σ1, h1, h2, rfl⟩ := gives_mapM_cons.mp h
    obtain ⟨w1, hs⟩ := visits_classFields L s hσ h1
    obtain ⟨w2, hrest⟩ := ih (hσ.trans w1.continues) h2
    rw [FieldsVisited, Stmt.classesList, List.forall_mem_append]
    exact ⟨w1.trans w2, hs.mono L w2, hrest⟩

end Check

/-! ### Classes -/

/-- What is to be shown of a property of statements besides, to have it for classes from their
members. -/
structure StmtLaw (A : Session) (Ready : ScopeId → Session → Stmt → Prop)
    (P : ScopeId → Session → Node → Prop) (Q : ScopeId → Session → Stmt → Prop) : Prop
    extends NodeLaw A Ready P where
  ready : ∀ {scope σ τ s}, Ready scope σ s → A.Walks σ τ → Ready scope τ s
  members : ∀ {scope σ head ms body}, Ready scope σ (.cls head ms) → head.scope = some body →
    ∀ s ∈ ms, Ready body σ s
  nodes : ∀ {scope σ s}, s.isClass = false → (∀ n ∈ s.nodes, P scope σ n) → Q scope σ s
  lasts : ∀ {scope σ τ s}, Q scope σ s → A.Walks σ τ → Q scope τ s
  cls : ∀ {scope σ head ms body head' ms' τ}, Ready scope σ (.cls head ms) →
    head.scope = some body → Gives (Check.stmt scope (.cls head ms)) σ (.cls head' ms') τ →
    A.Walks σ τ → (∀ s ∈ ms', Q body τ s) → Q scope τ (.cls head' ms')

namespace StmtLaw

variable (L : StmtLaw A Ready P Q)
include L

open Check

lemma holds_members {ms ms' : List Stmt}
    (hms : ∀ s ∈ ms, ∀ {scope σ s' τ}, A.Continues A.Declared σ → Ready scope σ s →
      FieldsVisited P σ s.classes → Gives (stmt scope s) σ s' τ → A.Walks σ τ ∧ Q scope τ s')
    (hσ : A.Continues A.Declared σ) (hready : ∀ s ∈ ms, Ready scope σ s)
    (hvars : ∀ s ∈ ms, s.isVar = true → ∀ n ∈ s.nodes, P scope σ n)
    (hfields : FieldsVisited P σ (Stmt.classesList ms))
    (h : Gives (Check.members scope ms) σ ms' τ) :
    A.Walks σ τ ∧ ∀ s ∈ ms', Q scope τ s := by
  induction ms generalizing σ ms' with
  | nil =>
    obtain ⟨rfl, rfl⟩ := gives_pure.mp h
    exact ⟨.stay hσ, List.forall_mem_nil _⟩
  | cons s ms ih =>
    rw [List.forall_mem_cons] at hms hready hvars
    rw [FieldsVisited, Stmt.classesList, List.forall_mem_append] at hfields
    by_cases hvar : s.isVar = true
    · have hs := hvars.1 hvar
      obtain ⟨head, init, rfl⟩ := Stmt.isVar_iff.mp hvar
      obtain ⟨rest, h1, rfl⟩ := h.members_var
      obtain ⟨w1, hrest⟩ := ih hms.2 hσ hready.2 hvars.2 hfields.2 h1
      exact ⟨w1, List.forall_mem_cons.mpr ⟨L.lasts (L.nodes rfl hs) w1, hrest⟩⟩
    · obtain ⟨s', σ1, h1, rest, h2, rfl⟩ := h.members_cons (Bool.eq_false_iff.mpr hvar)
      obtain ⟨w1, hs⟩ := hms.1 hσ hready.1 hfields.1 h1
      obtain ⟨w2, hrest⟩ := ih hms.2 (hσ.trans w1.continues)
        (fun s hs => L.ready (hready.2 s hs) w1)
        (fun s hs hvar n hn => L.mono (hvars.2 s hs hvar n hn) w1)
        (FieldsVisited.mono hfields.2 L.toNodeLaw w1) h2
      exact ⟨w1.trans w2, List.forall_mem_cons.mpr ⟨L.lasts hs w2, hrest⟩⟩

lemma holds_stmt (s : Stmt) : ∀ {scope σ s' τ}, A.Continues A.Declared σ → Ready scope σ s →
    FieldsVisited P σ s.classes → Gives (stmt scope s) σ s' τ → A.Walks σ τ ∧ Q scope τ s' := by
  induction s using Stmt.members_induction with
  | other s hs =>
    intro scope σ s' τ hσ hready _ h
    have hcls : s'.isClass = s.isClass := by
      rw [← s'.isClass_erase, s.kept h, s.isClass_erase]
    have v := (tree_visits L.toNodeLaw).stmt_holds s hs hσ hready h
    exact ⟨v.walks, L.nodes (hcls.trans hs) v.nodes⟩
  | cls head ms ih =>
    intro scope σ s' τ hσ hready hfields h
    have hgives := h
    rw [Stmt.classes, FieldsVisited, List.forall_mem_cons] at hfields
    obtain ⟨c, -, body, hbody, _, σ1, h1, ms', σ2, h2, head', h3, rfl⟩ := h.cls
    have w1 : A.Walks σ σ1 := .of_gives h1 ((leads_note hσ.assembled).changes_of_gives h1)
    obtain ⟨w2, hms⟩ := L.holds_members ih (hσ.trans w1.continues)
      (fun s hs => L.ready (L.members hready hbody s hs) w1)
      (fun s hs hvar n hn => L.mono (hfields.1 body hbody s hs hvar n hn) w1)
      (FieldsVisited.mono hfields.2 L.toNodeLaw w1) h2
    have hfree : Cell.Free A.Declared := Session.free_declared
    have w3 : A.Walks σ2 _ := .of_gives h3 ((leads_closeClass w2.continues.assembled
      fun n => Or.inl (hfree.member c n)).changes_of_gives h3)
    have w := w1.trans (w2.trans w3)
    exact ⟨w, L.cls hready hbody hgives w fun s hs => L.lasts (hms s hs) w3⟩

/-- All statements have the property when the walk is over, if the fields have been visited. -/
lemma holds_stmts {ss ss' : List Stmt} (hσ : A.Continues A.Declared σ)
    (hready : ∀ s ∈ ss, Ready scope σ s) (hfields : FieldsVisited P σ (Stmt.classesList ss))
    (h : Gives (stmts scope ss) σ ss' τ) : A.Walks σ τ ∧ ∀ s ∈ ss', Q scope τ s := by
  induction ss generalizing σ ss' with
  | nil =>
    obtain ⟨rfl, rfl⟩ := gives_pure.mp h
    exact ⟨.stay hσ, List.forall_mem_nil _⟩
  | cons s ss ih =>
    rw [List.forall_mem_cons] at hready
    rw [FieldsVisited, Stmt.classesList, List.forall_mem_append] at hfields
    obtain ⟨s', σ1, h1, rest, h2, rfl⟩ := h.stmts_cons
    obtain ⟨w1, hs⟩ := L.holds_stmt s hσ hready.1 hfields.1 h1
    obtain ⟨w2, hrest⟩ := ih (hσ.trans w1.continues) (fun s hs => L.ready (hready.2 s hs) w1)
      (FieldsVisited.mono hfields.2 L.toNodeLaw w1) h2
    exact ⟨w1.trans w2, List.forall_mem_cons.mpr ⟨L.lasts hs w2, hrest⟩⟩

end StmtLaw
end MiddleEnd
