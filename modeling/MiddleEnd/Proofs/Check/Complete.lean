import MiddleEnd.Proofs.Check.Returned
import MiddleEnd.Proofs.Check.Visited

/-!
Nothing is left open. When a program has been accepted, each of its nodes carries what later phases
rely on: types that are there, targets of calls, bodies of functions and classes. The declarations
leave a part of this behind, the fields and the walk add the rest.
-/

namespace MiddleEnd

/-- The type has been found, and it is there. -/
def TypeTable.Resolves (t : TypeTable) (ty : Option TypeId) : Prop :=
  ∃ id, ty = some id ∧ t.Registered id

def CallTarget.Present (t : TypeTable) : CallTarget → Prop
  | .method c _ | .instantiate c => ∃ e, t.class? c = some e
  | _ => True

namespace Analysis

variable (a : Analysis)

def HasBody (scope : Option ScopeId) : Prop :=
  ∃ body s, scope = some body ∧ a.scopes.scope? body = some s

/-- The body of the function has a frame of its name and result, and has given back what it
promises. -/
structure HasFunction (head : FuncHead) : Prop where
  params : Param.Typed a.types head.params
  type : a.types.Resolves head.type
  settled : head.settled = true
  scope : ∃ body s f g, head.scope = some body ∧ a.scopes.scope? body = some s ∧
    s.frame = some f ∧ a.scopes.frame? f = some g ∧ g.name = head.name ∧ head.type = some g.result

/-- The body of the class is a scope in the class, and no two constructors of it clash. -/
structure HasClass (head : ClassHead) : Prop where
  validated : head.validated = true
  scope : ∃ c body e s, head.cls = some c ∧ head.scope = some body ∧ a.types.class? c = some e ∧
    a.scopes.scope? body = some s ∧ s.cls = some c

end Analysis

/-- The expression has a type, a call has a target, and a lambda has a body. -/
def Expr.Complete (a : Analysis) (e : Expr) : Prop :=
  a.types.Resolves e.mark.type ∧
    match e with
    | .call _ _ _ target => ∃ g, target = some g ∧ g.Present a.types
    | .blockLambda _ head _ _ | .exprLambda _ head _ =>
      Param.Typed a.types head.params ∧ a.HasBody head.scope
    | _ => True

/-- All that the statement declares has been entered. -/
def Stmt.Complete (a : Analysis) : Stmt → Prop
  | .var head _ => a.types.Resolves head.type
  | .func head _ => a.HasFunction head
  | .cls head _ => a.HasClass head
  | .ctor head _ => Param.Typed a.types head.params ∧ a.HasBody head.scope
  | .forLoop _ init _ _ _ => ∀ i ∈ init, a.types.Resolves i.1.type
  | _ => True

def Node.Complete (a : Analysis) : Node → Prop
  | .expr e => e.Complete a
  | .stmt s => s.Complete a
  | .chain _ => True

def Session.Completes (σ : Session) (ns : List Node) : Prop := ∀ n ∈ ns, n.Complete σ.analysis

variable {Φ : Cell → Prop} {A base σ τ : Session} {scope : ScopeId} {place : Surroundings}

lemma TypeTable.Resolves.mono {t u : TypeTable} {ty : Option TypeId} (h : t.Resolves ty)
    (hforms : t.forms <+: u.forms) : u.Resolves ty := by
  obtain ⟨id, hid, hreg⟩ := h
  exact ⟨id, hid, hreg.mono hforms⟩

namespace Session

lemma Continues.hasBody {body : Option ScopeId} (hτ : σ.Continues Φ τ)
    (h : σ.analysis.HasBody body) : τ.analysis.HasBody body := by
  obtain ⟨id, s, hid, hs⟩ := h
  obtain ⟨s', hs', -⟩ := hτ.scope hs
  exact ⟨id, s', hid, hs'⟩

lemma Continues.hasFunction {head : FuncHead} (hτ : σ.Continues Φ τ)
    (h : σ.analysis.HasFunction head) : τ.analysis.HasFunction head := by
  refine ⟨h.params.mono hτ.forms, h.type.mono hτ.forms, h.settled, ?_⟩
  obtain ⟨body, s, f, g, hbody, hs, hf, hg, hname, hresult⟩ := h.scope
  obtain ⟨s', hs', hkeeps⟩ := hτ.scope hs
  obtain ⟨g', hg', hsame⟩ := hτ.frame hg
  exact ⟨body, s', f, g', hbody, hs', hkeeps.frame.trans hf, hg', hsame.name.trans hname,
    hresult.trans (congrArg some hsame.result.symm)⟩

lemma Continues.hasClass {head : ClassHead} (hτ : σ.Continues Φ τ)
    (h : σ.analysis.HasClass head) : τ.analysis.HasClass head := by
  obtain ⟨c, body, e, s, hc, hbody, he, hs, hcls⟩ := h.scope
  obtain ⟨e', he', -⟩ := hτ.cls he
  obtain ⟨s', hs', hkeeps⟩ := hτ.scope hs
  exact ⟨h.validated, c, body, e', s', hc, hbody, he', hs', hkeeps.cls.trans hcls⟩

lemma Continues.present {g : CallTarget} (hτ : σ.Continues Φ τ) (h : g.Present σ.types) :
    g.Present τ.types := by
  cases g with
  | method c | instantiate c =>
    obtain ⟨e, he⟩ := h
    obtain ⟨e', he', -⟩ := hτ.cls he
    exact ⟨e', he'⟩
  | _ => trivial

lemma Continues.expr_complete {e : Expr} (hτ : σ.Continues Φ τ) (h : e.Complete σ.analysis) :
    e.Complete τ.analysis := by
  refine ⟨h.1.mono hτ.forms, ?_⟩
  cases e with
  | call m f args target =>
    obtain ⟨g, hg, hpresent⟩ := h.2
    exact ⟨g, hg, hτ.present hpresent⟩
  | blockLambda | exprLambda => exact ⟨h.2.1.mono hτ.forms, hτ.hasBody h.2.2⟩
  | _ => trivial

lemma Continues.stmt_complete {s : Stmt} (hτ : σ.Continues Φ τ) (h : s.Complete σ.analysis) :
    s.Complete τ.analysis := by
  cases s with
  | var head init => exact TypeTable.Resolves.mono h hτ.forms
  | func head body => exact hτ.hasFunction h
  | cls head ms => exact hτ.hasClass h
  | ctor head body => exact ⟨h.1.mono hτ.forms, hτ.hasBody h.2⟩
  | forLoop x init c update body => exact fun i hi => (h i hi).mono hτ.forms
  | _ => trivial

lemma Continues.node_complete {n : Node} (hτ : σ.Continues Φ τ) (h : n.Complete σ.analysis) :
    n.Complete τ.analysis := by
  cases n with
  | expr e => exact hτ.expr_complete h
  | stmt s => exact hτ.stmt_complete h
  | chain ch => trivial

end Session

lemma Expr.mem_nodes_self (e : Expr) : .expr e ∈ e.nodes := by
  cases e <;> exact List.mem_cons_self

/-! ### Calls -/

namespace Check

section Targets

variable {t : TypeTable} {args : List Expr} {span : Span} {r : CallTarget × TypeId}

lemma present_instantiate {c : ClassId} (h : Call.instantiate t c args span = .ok r) :
    r.1.Present t := by
  unfold Call.instantiate at h
  obtain ⟨e, he, h⟩ := Except.bind_eq_ok.mp h
  obtain ⟨_, -, h⟩ := Except.bind_eq_ok.mp h
  cases h
  exact ⟨e, TypeTable.classEntry_eq_ok.mp he⟩

lemma present_named {b : Binding} (h : Call.named t b args span = .ok r) : r.1.Present t := by
  unfold Call.named at h
  split at h
  · obtain ⟨_, -, h⟩ := Except.bind_eq_ok.mp h
    cases h
    show CallTarget.Present t (if b.builtin then _ else _)
    split <;> trivial
  · exact present_instantiate h
  · cases h
    trivial

lemma present_method {c : ClassId} {name : String} (h : Call.method t c name args span = .ok r) :
    r.1.Present t := by
  unfold Call.method at h
  obtain ⟨e, he, h⟩ := Except.bind_eq_ok.mp h
  split at h
  · cases h
  · obtain ⟨_, -, h⟩ := Except.bind_eq_ok.mp h
    split at h
    · obtain ⟨_, -, h⟩ := Except.bind_eq_ok.mp h
      cases h
      exact ⟨e, TypeTable.classEntry_eq_ok.mp he⟩
    · exact present_instantiate h
    · cases h
      trivial

lemma present_callMember {object : TypeId} {name : String}
    (h : Call.member t object name args span = .ok r) : r.1.Present t := by
  unfold Call.member at h
  split at h
  · exact present_method h
  · cases h
    trivial
  · obtain ⟨_, -, h⟩ := Except.bind_eq_ok.mp h
    cases h
    trivial

end Targets

/-! ### Expressions and statements -/

/-- A lambda gets a body, and its parameters get types. -/
lemma opened_lambda {head head' : LambdaHead} {inner : ScopeId} (hσ : A.Continues A.Declared σ)
    (h : Gives (openLambda scope head) σ (inner, head') τ) : σ.Continues A.Declared τ ∧
      Param.Typed τ.types head'.params ∧ τ.analysis.HasBody head'.scope := by
  have hτ := (leads_openLambda hσ.assembled hσ.room_declared).changes_of_gives h
  obtain ⟨f, σ1, h1, σ2, h2, ps, h3, rfl⟩ := h.openLambda
  have c2 := (leads_openFunction hσ.assembled hσ.room_declared).changes_of_gives
    (gives_bind.mpr ⟨f, σ1, h1, h2⟩)
  obtain ⟨c3, hps⟩ := typed_params c2.assembled h3
  obtain ⟨-, rfl, -, hopen⟩ := quiet_of_openIn h2
  obtain ⟨s, -, hs⟩ := Scopes.scope?_openIn hopen σ1.scopes.next
  rw [if_pos rfl] at hs
  exact ⟨hτ, hps, c3.hasBody ⟨_, _, rfl, hs⟩⟩

lemma resolves_declareVar {head head' : VarHead} {declared : Option TypeId} {init : Option Expr}
    (hd : σ.types.Registered (declared.getD .any)) (hi : ∀ e ∈ init, σ.types.Registered e.type)
    (h : Gives (declareVar scope head declared init) σ head' τ) : σ.types.Resolves head'.type := by
  cases declared with
  | none =>
    simp only [declareVar, gives_bind, gives_pure] at h
    obtain ⟨_, _, -, rfl, -⟩ := h
    refine ⟨_, rfl, ?_⟩
    cases init with
    | none => exact TypeTable.registered_any
    | some e => exact hi e rfl
  | some t =>
    refine ⟨t, ?_, hd⟩
    cases init with
    | none =>
      simp only [declareVar, gives_bind, gives_pure] at h
      obtain ⟨_, _, -, rfl, -⟩ := h
      rfl
    | some e =>
      simp only [declareVar, gives_bind, gives_pure] at h
      obtain ⟨_, _, -, _, _, -, _, _, -, rfl, -⟩ := h
      rfl

/-- A variable gets the type that is written, or that of its initial value. -/
lemma resolves_var {head head' : VarHead} {init init' : Option Expr}
    (hσ : A.Continues A.Declared σ) (h : Gives (var scope head init) σ (head', init') τ) :
    τ.types.Resolves head'.type := by
  have hread : Leads (Session.Continues A.Declared) (typeOf? scope head.annotation) σ
      fun t τ => τ.types.Registered (t.getD .any) := leads_typeOf? hσ.assembled
  cases init with
  | none =>
    obtain ⟨declared, σ1, h1, h2, rfl⟩ := h.var_none
    exact (resolves_declareVar (hread.result h1) (by simp) h2).mono (later_of_gives h2).forms
  | some e =>
    obtain ⟨declared, σ1, h1, e', σ2, h2, h3, rfl⟩ := h.var_some
    have hσ1 := hσ.trans (hread.changes_of_gives h1)
    have hi : ∀ x ∈ some e', σ2.types.Registered x.type := by
      rintro _ ⟨⟩
      exact (exprLeads e hσ1.assembled hσ1.room_declared).result h2
    exact (resolves_declareVar ((hread.result h1).mono (later_of_gives h2).forms) hi h3).mono
      (later_of_gives h3).forms

lemma gives_closeFunction {head head' : FuncHead} (h : Gives (closeFunction head scope) σ head' τ) :
    head' = { head with settled := true } ∧ ∃ s f g, σ.scopes.scope? scope = some s ∧
      s.frame = some f ∧ σ.scopes.frame? f = some g ∧ g.settled = true := by
  unfold closeFunction at h
  simp only [gives_bind, gives_scopes, gives_types, gives_rule, gives_registered, gives_pure] at h
  obtain ⟨_, _, ⟨rfl, rfl⟩, s, _, ⟨hs, rfl⟩, f, _, ⟨hf, rfl⟩, g, _, ⟨hg, rfl⟩, _, _,
    ⟨rfl, rfl⟩, _, _, ⟨hreturns, rfl⟩, rfl, -⟩ := h
  have hsettled : g.settled = true := ensure_eq_ok.mp hreturns
  refine ⟨by rw [hsettled], s, f, g, Scopes.scope_eq_ok.mp hs, hf, Scopes.frame_eq_ok.mp hg,
    hsettled⟩

lemma head_of_closeClass {head head' : ClassHead} {c : ClassId}
    (h : Gives (closeClass head c scope) σ head' τ) : head' = { head with validated := true } := by
  unfold closeClass at h
  simp only [gives_bind, gives_pure] at h
  obtain ⟨_, _, -, _, _, -, _, _, -, _, _, -, _, _, -, _, _, -, rfl, -⟩ := h
  rfl

lemma complete_expr {e e' : Expr} (hσ : A.Continues A.Declared σ)
    (h : Gives (expr scope e) σ e' τ) : e'.Complete τ.analysis := by
  refine ⟨⟨_, mark_of_expr h, (exprLeads e hσ.assembled hσ.room_declared).result h⟩, ?_⟩
  cases e with
  | call m f args target =>
    cases f with
    | name =>
      -- the class that the target refers to comes from the call itself
      obtain ⟨_, -, -, _, _, -, _, -, g, _, hcall, rfl⟩ := h.call_name
      exact ⟨g, rfl, present_named hcall⟩
    | member =>
      obtain ⟨_, _, -, -, _, -, g, _, hcall, rfl⟩ := h.call_member
      exact ⟨g, rfl, present_callMember hcall⟩
    | _ =>
      obtain ⟨_, _, -, -, _, -, rfl⟩ := h.call_computed (by simp) (by simp)
      exact ⟨.dynamic, rfl, trivial⟩
  | blockLambda =>
    -- the scope of the lambda is there when its body has been looked at
    obtain ⟨inner, head', σ1, h1, -, body', h3, rfl⟩ := h.blockLambda
    obtain ⟨c1, hparams, hscope⟩ := opened_lambda hσ h1
    have c3 := (leads_walk Session.free_declared c1.assembled
      (hσ.trans c1).room_declared).changes_of_gives h3
    exact ⟨hparams.mono c3.forms, c3.hasBody hscope⟩
  | exprLambda =>
    obtain ⟨inner, head', σ1, h1, body', h2, rfl⟩ := h.exprLambda
    obtain ⟨c1, hparams, hscope⟩ := opened_lambda hσ h1
    have c2 := continues_expr (hσ.trans c1) h2
    exact ⟨hparams.mono c2.forms, c2.hasBody hscope⟩
  | _ =>
    simp only [Check.expr, gives_bind, gives_pure] at h
    grind

lemma complete_stmt {s s' : Stmt} (hcls : s.isClass = false) (hσ : A.Continues A.Declared σ)
    (hhoisted : s.Hoisted base σ place) (h : Gives (stmt scope s) σ s' τ) :
    s'.Complete τ.analysis := by
  have hτ := continues_stmt hσ h
  cases s with
  | var =>
    obtain ⟨head', init', h1, rfl⟩ := h.var
    exact resolves_var hσ h1
  -- a function has been seen to give back what it promises
  | func head body =>
    have hhead := FuncHead.Hoisted.mono hhoisted hτ
    obtain ⟨_, -, -, _, _, -, head', h3, rfl⟩ := h.func
    obtain ⟨inner, hinner, -, hscope⟩ := hhead.scope
    obtain ⟨rfl, -⟩ := gives_closeFunction h3
    obtain ⟨s, f, g, hs, hf, hg, hname, hresult⟩ := hscope
    exact ⟨hhead.params, hhead.type, rfl, inner, s, f, g, hinner, hs, hf, hg, hname, hresult⟩
  | cls => cases hcls
  | ctor head body =>
    obtain ⟨hparams, inner, hinner, s, hs, -⟩ := CtorHead.Hoisted.mono hhoisted hτ
    obtain ⟨_, -, -, _, -, rfl⟩ := h.ctor
    exact ⟨hparams, inner, s, hinner, hs⟩
  | forLoop x init =>
    -- of the parts of a loop, only the variable is declared by the statement itself
    obtain ⟨inner, σ1, h1, init', σ2, h2, _, _, h3, _, _, h4, -, _, h5, rfl⟩ := h.forLoop
    have hlater := (later_of_gives h3).trans ((later_of_gives h4).trans (later_of_gives h5))
    intro i hi
    cases init with
    | none =>
      obtain ⟨rfl, -⟩ := gives_pure.mp h2
      cases hi
    | some i =>
      rw [loopInit, gives_map] at h2
      obtain ⟨⟨head', e'⟩, h2, rfl⟩ := h2
      cases hi
      exact (resolves_var (hσ.trans (continues_openBlock (Or.inr rfl) hσ h1)) h2).mono hlater.forms
  | ret _ v =>
    cases v <;> (simp only [stmt, gives_bind, gives_pure] at h; grind [Stmt.Complete])
  | _ =>
    simp only [stmt, gives_bind, gives_pure] at h
    grind [Stmt.Complete]

/-- Nothing is left open at the nodes that the walk comes by. -/
lemma complete_law (A base : Session) : StmtLaw A (fun _ σ s => ∃ place, s.Hoisted base σ place)
    (fun _ σ n => n.Complete σ.analysis) (fun _ σ s => σ.Completes s.nodes) where
  mono h hτ := hτ.continues.node_complete h
  block _ _ h := h
  lambda _ _ h := h
  func _ _ _ h := h
  ctor _ _ _ h := h
  plain hcls hfunc := ⟨{}, Stmt.hoisted_of_plain hcls hfunc⟩
  expr := complete_expr
  callee_name _ := ⟨⟨_, rfl, TypeTable.registered_any⟩, trivial⟩
  callee_member _ := ⟨⟨_, rfl, TypeTable.registered_any⟩, trivial⟩
  stmt hcls hσ hready h := complete_stmt hcls hσ hready.choose_spec h
  chain := trivial
  ready h hτ := h.imp fun _ h => h.mono hτ.continues
  members h _ s hs := ⟨_, Stmt.hoistedList_iff.mp h.choose_spec.2 s hs⟩
  nodes _ h := h
  lasts h hτ := fun n hn => hτ.continues.node_complete (h n hn)
  cls hready hbody h hτ hms := by
    -- the members are complete already, so only the head of the class is left
    obtain ⟨place, hhead, -⟩ := hready
    obtain ⟨c, body, hc, hbody, -, ⟨e, he⟩, -, s, hs, hcls⟩ := hhead.mono hτ.continues
    obtain ⟨_, -, _, -, _, _, -, _, _, -, head', h3, heq⟩ := h.cls
    cases heq
    obtain rfl := head_of_closeClass h3
    refine List.forall_mem_cons.mpr ⟨⟨rfl, c, body, e, s, hc, hbody, he, hs, hcls⟩, fun n hn => ?_⟩
    obtain ⟨s, hs, hn⟩ := Stmt.mem_nodesList.mp hn
    exact hms s hs n hn

end Check

/-! ### Frames -/

/-- All functions have given back what they promise. -/
def Session.Given (σ : Session) (heads : List FuncHead) : Prop :=
  ∀ head ∈ heads, ∃ body s f g, head.scope = some body ∧ σ.scopes.scope? body = some s ∧
    s.frame = some f ∧ σ.scopes.frame? f = some g ∧ g.settled = true

/-- A frame that has been given back from stays so. -/
lemma Session.Given.mono {heads : List FuncHead} (h : σ.Given heads) (hτ : σ.Continues Φ τ)
    (hframes : σ.Outlines (fun _ => False) [] τ) : τ.Given heads := by
  intro head hhead
  obtain ⟨body, s, f, g, hbody, hs, hf, hg, hsettled⟩ := h head hhead
  obtain ⟨s', hs', hkeeps⟩ := hτ.scope hs
  obtain ⟨g', hg', -⟩ := hτ.frame hg
  refine ⟨body, s', f, g', hbody, hs', hkeeps.frame.trans hf, hg', ?_⟩
  cases hg'' : g'.settled with
  | true => rfl
  | false =>
    obtain ⟨g0, hg0, hnot⟩ := (hframes.frame hg' hg'').resolve_right id
    cases hg.symm.trans hg0
    cases hsettled.symm.trans hnot

namespace Check

open Session (Outlines)

lemma functionsList_fields {ss ss' : List Stmt} (h : Gives (ss.mapM classFields) σ ss' τ) :
    Stmt.functionsList ss' = Stmt.functionsList ss := by
  have hflat (ss : List Stmt) : Stmt.functionsList ss = ss.flatMap Stmt.functions := by
    induction ss with
    | nil => rfl
    | cons s ss ih => rw [Stmt.functionsList, List.flatMap_cons, ih]
  rw [hflat ss', hflat ss]
  exact collected_fields (fun _ => []) (fun _ _ => rfl) (fun _ ms => hflat ms) h

def WalkGives (A : Session) (s : Stmt) : Prop :=
  ∀ {scope σ s' τ}, A.Continues A.Declared σ → Gives (stmt scope s) σ s' τ → τ.Given s.functions

lemma given_members {ms ms' : List Stmt} (hms : ∀ s ∈ ms, WalkGives A s)
    (hσ : A.Continues A.Declared σ) (h : Gives (members scope ms) σ ms' τ) :
    σ.Continues A.Declared τ ∧ σ.Outlines (fun _ => False) [] τ ∧
      τ.Given (Stmt.functionsList ms) := by
  induction ms generalizing σ ms' with
  | nil =>
    rw [members, gives_pure] at h
    obtain ⟨-, rfl⟩ := h
    exact ⟨hσ.assembled.stay, .refl _, List.forall_mem_nil _⟩
  | cons s ms ih =>
    rw [List.forall_mem_cons] at hms
    rw [Stmt.functionsList, Session.Given, List.forall_mem_append]
    by_cases hvar : s.isVar = true
    · obtain ⟨head, init, rfl⟩ := Stmt.isVar_iff.mp hvar
      obtain ⟨rest, h1, -⟩ := h.members_var
      obtain ⟨c1, o1, hrest⟩ := ih hms.2 hσ h1
      exact ⟨c1, o1, List.forall_mem_nil _, hrest⟩
    · obtain ⟨s', σ1, h1, rest, h2, -⟩ := h.members_cons (Bool.eq_false_iff.mpr hvar)
      have c1 := continues_stmt hσ h1
      obtain ⟨c2, o2, hrest⟩ := ih hms.2 (hσ.trans c1) h2
      exact ⟨c1.trans c2, (Outlines.of_gives h1).trans o2, (hms.1 hσ h1).mono c2 o2, hrest⟩

lemma walkGives (A : Session) (s : Stmt) : WalkGives A s := by
  induction s using Stmt.members_induction with
  | other s hs =>
    intro scope σ s' τ hσ h
    cases s with
    | func head body =>
      obtain ⟨inner, hinner, h1, body', σ2, h2, head', h3, -⟩ := h.func
      obtain rfl := session_of_closeFunction h3
      obtain ⟨-, s, f, g, hs, hf, hg, hsettled⟩ := gives_closeFunction h3
      exact List.forall_mem_singleton.mpr ⟨inner, s, f, g, hinner, hs, hf, hg, hsettled⟩
    | cls => cases hs
    | _ => exact List.forall_mem_nil _
  | cls head ms ih =>
    intro scope σ s' τ hσ h
    obtain ⟨c, hc, body, -, _, σ1, h1, ms', σ2, h2, head', h3, -⟩ := h.cls
    have hσ1 := hσ.trans ((leads_note hσ.assembled).changes_of_gives h1)
    obtain ⟨c2, -, hgiven⟩ := given_members ih hσ1 h2
    have hfree : Cell.Free A.Declared := Session.free_declared
    have c3 := (leads_closeClass c2.assembled
      fun n => Or.inl (hfree.member c n)).changes_of_gives h3
    exact hgiven.mono c3 (Outlines.of_gives h3)

lemma given_stmts {ss ss' : List Stmt} (hσ : A.Continues A.Declared σ)
    (h : Gives (stmts scope ss) σ ss' τ) :
    σ.Outlines (fun _ => False) [] τ ∧ τ.Given (Stmt.functionsList ss) := by
  induction ss generalizing σ ss' with
  | nil =>
    rw [stmts, gives_pure] at h
    obtain ⟨-, rfl⟩ := h
    exact ⟨.refl _, List.forall_mem_nil _⟩
  | cons s ss ih =>
    obtain ⟨s', σ1, h1, rest, h2, -⟩ := h.stmts_cons
    have c1 := continues_stmt hσ h1
    have c2 := (leads_walk Session.free_declared c1.assembled
      (hσ.trans c1).room_declared).changes_of_gives h2
    obtain ⟨o2, hrest⟩ := ih (hσ.trans c1) h2
    refine ⟨(Outlines.of_gives h1).trans o2, ?_⟩
    rw [Stmt.functionsList, Session.Given, List.forall_mem_append]
    exact ⟨(walkGives A s hσ h1).mono c2 o2, hrest⟩

/-- When a program has been accepted, nothing is left open in it, and all frames are settled. -/
lemma completes_program {p q : Program} {log : List LogEvent} (h : Gives (program p) { log } q τ) :
    τ.Completes q.nodes ∧ ∀ f g, τ.scopes.frame? f = some g → g.settled = true := by
  obtain ⟨ss1, A, h1, ss2, F, h2, ss3, σ3, h3, _, h4, rfl⟩ := h.program
  obtain ⟨hA, hhoisted, houtlines⟩ :=
    hoisted_announce (Session.assembled_new log) (Session.assembled_new log).at_root h1
  rw [Stmt.hoistedList_iff] at hhoisted
  have L := complete_law A { log }
  obtain ⟨⟨hF, -⟩, hfields⟩ := visits_fields L.toNodeLaw hA.assembled.stay h2
  obtain ⟨⟨hwalk, -⟩, hcomplete⟩ := L.holds_stmts hF
    (fun s hs => ⟨_, (hoisted_fields h2 hhoisted s hs).mono hF⟩) hfields h3
  have hend := (leads_note (Φ := A.Declared) hwalk.assembled).changes_of_gives h4
  refine ⟨fun n hn => ?_, fun f g hg => ?_⟩
  · obtain ⟨s, hs, hn⟩ := Stmt.mem_nodesList.mp hn
    exact hend.node_complete (hcomplete s hs n hn)
  -- A frame that is not settled at the end waits for a function since the declarations.
  by_contra hnot
  rw [Bool.not_eq_true] at hnot
  obtain ⟨hframes, hgiven⟩ := given_stmts hF h3
  have hlater : A.Outlines (fun _ => False) [] τ :=
    ((Outlines.of_gives h2).trans hframes).trans (Outlines.of_gives h4)
  obtain ⟨g0, hg0, hnot0⟩ := (hlater.frame hg hnot).resolve_right id
  rcases houtlines.frame hg0 hnot0 with ⟨_, hstart, -⟩ | hawaited
  · cases hstart
  · have hτ : A.Continues A.Declared τ := hF.trans (hwalk.trans hend)
    obtain ⟨head, hhead, body, s, hbody, hs, hf⟩ := hawaited.mono hτ
    rw [← functionsList_fields h2] at hhead
    obtain ⟨body', s', f', g', hbody', hs', hf', hg', hsettled⟩ :=
      hgiven.mono hend (Outlines.of_gives h4) head hhead
    cases hbody.symm.trans hbody'
    cases hs.symm.trans hs'
    cases hf.symm.trans hf'
    cases hg.symm.trans hg'
    cases hsettled.symm.trans hnot

end Check

/-- **Nothing is left open.** When a program is accepted, the same program is given back, in which
all expressions, variables, parameters and functions have types that are there, all calls have
targets and all bodies have scopes, those of functions and classes with the frames and classes that
belong to them. No frame waits for a return any more. -/
theorem analyze_complete (p q : Program) (a : Analysis) (h : analyze p = .ok (q, a)) :
    q.erase = p.erase ∧ (∀ n ∈ q.nodes, n.Complete a) ∧
      ∀ f g, a.scopes.frame? f = some g → g.settled = true := by
  obtain ⟨Ω, hrun, rfl⟩ := analyze_eq_ok.mp h
  exact ⟨Check.erase_program hrun, Check.completes_program hrun⟩

/-- A class inside of a class, a field with a lambda, and a function that calls all kinds of things
from the header and the body of a loop. -/
def furnished : Program where
  stmts :=
    [.func { name := "visit", params := [{ name := "room" }], result := some (.named "Number" {}) }
      [.forLoop {} (some ({ name := "i" }, some (.number {} 0)))
          (some (.binary {} .less (.name {} "i") (.call {} (.name {} "visit") [.null {}] none)))
          (some (.expr (.step {} .increment (.name {} "i"))))
          [.expr (.call {} (.name {} "print") [.name {} "room"] none)],
        .ret {}
          (some (.call {} (.member {} (.call {} (.name {} "House") [] none) "rooms") [] none))],
      .cls { name := "House" }
      [.var { name := "doors" } (some (.exprLambda {} { params := [{ name := "n" }] }
          (.array {} [.name {} "n"]))),
        .ctor { name := "House" }
          [.expr (.call {} (.member {} (.self {}) "doors") [.null {}] none)],
        .cls { name := "Room" }
          [.var { name := "in", annotation := some (.named "House" {}) } none],
        .func { name := "rooms", result := some (.named "Number" {}) }
          [.ret {} (some (.number {} 4))]]]

/-- The analysis accepts `furnished`, and nothing is left open in its 36 nodes. -/
theorem analyze_complete_furnished : ∃ q a, analyze furnished = .ok (q, a) ∧
    q.nodes.length = 36 ∧ q.erase = furnished.erase ∧ (∀ n ∈ q.nodes, n.Complete a) ∧
      ∀ f g, a.scopes.frame? f = some g → g.settled = true := by
  have haccepted : (analyze furnished).toOption.map (·.1.nodes.length) = some 36 := by
    decide +kernel
  obtain ⟨r, h, hlength⟩ := Except.exists_ok_of_map haccepted
  exact ⟨r.1, r.2, h, hlength, analyze_complete furnished r.1 r.2 h⟩

end MiddleEnd
