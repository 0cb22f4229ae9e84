import Mathlib.Data.List.Flatten
import Mathlib.Data.List.Forall2
import MiddleEnd.Proofs.Check.Bodies
import MiddleEnd.Proofs.Check.Complete
import MiddleEnd.Proofs.Check.LambdaReturns
import MiddleEnd.Proofs.Check.Unsettled

/-!
Functions keep their promises. The walk through the body of a function that promises a value
compares every value that is given back with the promise, at whatever depth it stands; and the
function is seen to give back only if one stands there. No other function and no lambda does it in
its place, so a function that promises a value and does not give one back is rejected.
-/

namespace MiddleEnd

variable {σ τ υ : Session} {scope : ScopeId} {f : FrameId} {R : TypeId} {vs ws : List Expr}

/-- All cells but the one that tells whether a value has been given back from the function. -/
def Cell.Besides (f : FrameId) (c : Cell) : Prop := c ≠ .settled f

namespace Session

def GaveBack (σ : Session) (f : FrameId) : Prop :=
  ∃ g, σ.scopes.frame? f = some g ∧ g.settled = true

/-- The scope is in a function that promises a value of the type. -/
structure Promises (σ : Session) (scope : ScopeId) (f : FrameId) (R : TypeId) : Prop where
  type : σ.types.Registered R
  scope : ∃ s, σ.scopes.scope? scope = some s ∧ s.frame = some f
  frame : ∃ g, σ.scopes.frame? f = some g ∧ g.result = R

lemma Promises.mono {Φ : Cell → Prop} (h : σ.Promises scope f R) (hτ : σ.Continues Φ τ) :
    τ.Promises scope f R := by
  obtain ⟨s, hs, hf⟩ := h.scope
  obtain ⟨g, hg, hresult⟩ := h.frame
  obtain ⟨s', hs', hkeeps⟩ := hτ.scope hs
  obtain ⟨g', hg', hsame⟩ := hτ.frame hg
  exact ⟨h.type.mono hτ.forms, ⟨s', hs', hkeeps.frame.trans hf⟩, g', hg',
    hsame.result.trans hresult⟩

/-- A function that is there is not given back from by what is new. -/
lemma room_besides (h : ∃ g, σ.scopes.frame? f = some g) : σ.Room (Cell.Besides f) where
  settled hid := by
    obtain ⟨g, hg⟩ := h
    rintro ⟨⟩
    cases hg.symm.trans hid
  name _ _ := by rintro ⟨⟩
  member _ _ := by rintro ⟨⟩
  constructors _ := by rintro ⟨⟩
  body _ := by rintro ⟨⟩
  tidy _ _ := by rintro ⟨⟩

lemma HasBody.room_besides {id : ScopeId} {s : Scope} (h : σ.HasBody id)
    (hs : σ.scopes.scope? id = some s) (hf : s.frame = some f) : σ.Room (Cell.Besides f) := by
  obtain ⟨s', f', g, hs', hf', hg⟩ := h
  cases hs.symm.trans hs'
  cases hf.symm.trans hf'
  exact Session.room_besides ⟨g, hg⟩

lemma Promises.room (h : σ.Promises scope f R) : σ.Room (Cell.Besides f) := by
  obtain ⟨g, hg, -⟩ := h.frame
  exact room_besides ⟨g, hg⟩

lemma declaring_besides (n : String) : σ.Declaring (Cell.Besides f) scope n :=
  ⟨by rintro ⟨⟩, fun c => Or.inl (by rintro ⟨⟩)⟩

/-- A value that the type takes is taken as the session goes on. -/
lemma Continues.fits {Φ : Cell → Prop} {v : Expr} (h : σ.Continues Φ τ) (hσ : σ.Assembled)
    (hR : σ.types.Registered R)
    (hv : σ.types.Registered v.type ∧ σ.types.assignable R v.type = true) :
    τ.types.Registered v.type ∧ τ.types.assignable R v.type = true := by
  refine ⟨hv.1.mono h.forms, ?_⟩
  rw [hσ.types.wellFormed.assignable_mono h.assembled.types.wellFormed h.forms hR hv.1]
  exact hv.2

/-- The session has gone on and the values have been given back from the function: all of them are
what is promised, and the function is not seen to give back without one. -/
structure Delivers (f : FrameId) (R : TypeId) (vs : List Expr) (σ τ : Session) : Prop where
  continues : σ.Continues (fun _ => True) τ
  fits : ∀ v ∈ vs, τ.types.Registered v.type ∧ τ.types.assignable R v.type = true
  settled : τ.GaveBack f → σ.GaveBack f ∨ vs ≠ []

namespace Delivers

lemma trans (h : Delivers f R vs σ τ) (hR : τ.types.Registered R) (h' : Delivers f R ws τ υ) :
    Delivers f R (vs ++ ws) σ υ where
  continues := h.continues.trans h'.continues
  fits := List.forall_mem_append.mpr
    ⟨fun v hv => h'.continues.fits h.continues.assembled hR (h.fits v hv), h'.fits⟩
  settled hυ := by
    rw [ne_eq, List.append_eq_nil_iff, not_and_or]
    rcases h'.settled hυ with hτ | hws
    · exact (h.settled hτ).imp_right Or.inl
    · exact Or.inr (Or.inr hws)

lemma stay (hσ : σ.Assembled) : Delivers f R [] σ σ :=
  ⟨hσ.stay, List.forall_mem_nil _, Or.inl⟩

/-- Nothing has been given back. -/
lemma of_continues (hf : ∃ g, σ.scopes.frame? f = some g) (h : σ.Continues (Cell.Besides f) τ) :
    Delivers f R [] σ τ where
  continues := h.imp fun _ _ => trivial
  fits := List.forall_mem_nil _
  settled := by
    rintro ⟨g', hg', hsettled⟩
    obtain ⟨g, hg⟩ := hf
    obtain ⟨g'', hg'', hsame⟩ := h.frame hg
    cases hg'.symm.trans hg''
    exact Or.inl ⟨g, hg, (hsame.settled fun hne => hne rfl) ▸ hsettled⟩

end Delivers

/-- What leads on without giving back from the function. -/
lemma Promises.quiet {α : Type} {x : Check α} {a : α} {post : α → Session → Prop}
    (h : σ.Promises scope f R) (hx : Leads (Session.Continues (Cell.Besides f)) x σ post)
    (hgives : Gives x σ a τ) : Delivers f R [] σ τ ∧ τ.Promises scope f R ∧ post a τ := by
  obtain ⟨hτ, ha⟩ := hx.gives hgives
  obtain ⟨g, hg, -⟩ := h.frame
  exact ⟨.of_continues ⟨g, hg⟩ hτ, h.mono hτ, ha⟩

end Session

/-! ### The body of a function -/

namespace Check

open Session (Delivers Promises)

lemma delivers_expr {e e' : Expr} (hσ : σ.Assembled) (hscope : σ.Promises scope f R)
    (h : Gives (expr scope e) σ e' τ) :
    Delivers f R [] σ τ ∧ τ.Promises scope f R ∧ τ.types.Registered e'.type :=
  hscope.quiet (exprLeads e hσ hscope.room) h

lemma delivers_var {head : VarHead} {init : Option Expr} {r : VarHead × Option Expr}
    (hσ : σ.Assembled) (hscope : σ.Promises scope f R) (h : Gives (var scope head init) σ r τ) :
    Delivers f R [] σ τ ∧ τ.Promises scope f R := by
  obtain ⟨hτ, hscope', -⟩ := hscope.quiet
    (leads_var (fun e _ => exprLeads e) hσ hscope.room (Session.declaring_besides _)) h
  exact ⟨hτ, hscope'⟩

lemma delivers_loopInit {init init' : Option (VarHead × Option Expr)} (hσ : σ.Assembled)
    (hscope : σ.Promises scope f R) (h : Gives (loopInit scope init) σ init' τ) :
    Delivers f R [] σ τ ∧ τ.Promises scope f R := by
  cases init with
  | none =>
    obtain ⟨rfl, rfl⟩ := gives_pure.mp h
    exact ⟨.stay hσ, hscope⟩
  | some i =>
    rw [loopInit, gives_map] at h
    obtain ⟨_, h, rfl⟩ := h
    exact delivers_var hσ hscope h

lemma delivers_openIn {kind : ScopeKind} {inner : ScopeId} (hkind : kind = .block ∨ kind = .loop)
    (hσ : σ.Assembled) (hscope : σ.Promises scope f R) (h : Gives (openIn scope kind) σ inner τ) :
    Delivers f R [] σ τ ∧ τ.Promises scope f R ∧ τ.Promises inner f R := by
  have hpresent : kind.Present σ.types σ.scopes := by
    rcases hkind with rfl | rfl <;> trivial
  obtain ⟨hτ, hscope', -, s, hs, hinner⟩ := hscope.quiet (leads_openIn hσ hpresent) h
  refine ⟨hτ, hscope', hscope'.type, ⟨_, hinner, ?_⟩, hscope'.frame⟩
  obtain ⟨s', hs', hf⟩ := hscope.scope
  cases hs.symm.trans hs'
  rcases hkind with rfl | rfl <;> exact hf

/-- What is given back is given back from the function around the scope. -/
lemma frame_around {value : Option Expr} {span : Span} {r : FrameId × Frame}
    (hscope : σ.Promises scope f R) (h : Gives (returnFrame scope value span) σ r τ) :
    r.1 = f ∧ τ = σ ∧ r.2.result = R := by
  obtain ⟨s, hs, hf⟩ := hscope.scope
  obtain ⟨g, hg, hresult⟩ := hscope.frame
  simp only [returnFrame, gives_bind, gives_scopes, gives_rule, gives_pure] at h
  obtain ⟨_, _, ⟨rfl, rfl⟩, id, _, ⟨hid, rfl⟩, frame, _, ⟨hframe, rfl⟩, _, _, ⟨-, rfl⟩, rfl,
    rfl⟩ := h
  obtain ⟨s', hs', hf'⟩ := Rule.inFunction_eq_ok.mp hid
  cases hs.symm.trans hs'
  cases hf.symm.trans hf'
  cases hg.symm.trans (Scopes.frame_eq_ok.mp hframe)
  exact ⟨rfl, rfl, hresult⟩

lemma delivers_ret {e : Expr} {span : Span} {s' : Stmt} (hR : R ≠ .any) (hσ : σ.Assembled)
    (hscope : σ.Promises scope f R) (h : Gives (stmt scope (.ret span (some e))) σ s' τ) :
    Delivers f R s'.returned σ τ := by
  obtain ⟨id, frame, σ1, h1, e', σ2, h2, _, h3, rfl⟩ := h.ret_some
  obtain ⟨rfl, rfl, hresult⟩ := frame_around hscope h1
  obtain ⟨d2, hscope2, hreg⟩ := delivers_expr hσ hscope h2
  have hσ2 := d2.continues.assembled
  -- nothing would be compared if the function promised `Any`
  unfold giveBack at h3
  rw [hresult, if_neg (by simpa [TypeId.isAny] using hR)] at h3
  simp only [gives_bind, gives_types, gives_scopes, gives_rule, gives_updateScopes] at h3
  obtain ⟨_, _, ⟨rfl, rfl⟩, _, _, ⟨hfits, rfl⟩, _, _, ⟨rfl, rfl⟩, _, _, ⟨-, rfl⟩, rfl⟩ := h3
  have s3 : σ2.Continues (fun _ => True) { σ2 with scopes := σ2.scopes.settle id true } :=
    continues_settle hσ2 trivial
  refine ⟨d2.continues.trans s3, List.forall_mem_singleton.mpr ⟨hreg, ?_⟩, fun _ => Or.inr ?_⟩
  · exact ensure_eq_ok.mp hfits
  · simp [Stmt.returned]

/-- In a function that promises a value, the statement gives back as promised. -/
def StmtDelivers (f : FrameId) (R : TypeId) (s : Stmt) : Prop :=
  ∀ ⦃scope σ s' τ u⦄, σ.Assembled → σ.Promises scope f R → Rule.blockStmt s = .ok u →
    Gives (stmt scope s) σ s' τ → Delivers f R s'.returned σ τ

def ChainDelivers (f : FrameId) (R : TypeId) (ch : Chain) : Prop :=
  ∀ ⦃scope σ ch' τ⦄, σ.Assembled → σ.Promises scope f R → Gives (chain scope ch) σ ch' τ →
    Delivers f R ch'.returned σ τ

lemma delivers_stmts {ss ss' : List Stmt} (hss : ∀ s ∈ ss, StmtDelivers f R s)
    (hσ : σ.Assembled) (hscope : σ.Promises scope f R)
    (hrules : ∀ s ∈ ss, Rule.blockStmt s = .ok ()) (h : Gives (stmts scope ss) σ ss' τ) :
    Delivers f R (Stmt.returnedList ss') σ τ := by
  induction ss generalizing σ ss' with
  | nil =>
    obtain ⟨rfl, rfl⟩ := gives_pure.mp h
    exact .stay hσ
  | cons s ss ih =>
    rw [List.forall_mem_cons] at hss hrules
    obtain ⟨s', σ1, h1, rest, h2, rfl⟩ := h.stmts_cons
    have d1 := hss.1 hσ hscope hrules.1 h1
    have hscope1 := hscope.mono d1.continues
    exact d1.trans hscope1.type (ih hss.2 d1.continues.assembled hscope1 hrules.2 h2)

lemma delivers_block {kind : ScopeKind} {inner : ScopeId} {ss ss' : List Stmt} {σ1 : Session}
    (hkind : kind = .block ∨ kind = .loop) (hss : ∀ s ∈ ss, StmtDelivers f R s)
    (hσ : σ.Assembled) (hscope : σ.Promises scope f R)
    (hopen : Gives (openIn scope kind) σ inner σ1) (hrules : ∀ s ∈ ss, Rule.blockStmt s = .ok ())
    (h : Gives (stmts inner ss) σ1 ss' τ) : Delivers f R (Stmt.returnedList ss') σ τ := by
  obtain ⟨d1, hscope1, hinner⟩ := delivers_openIn hkind hσ hscope hopen
  exact d1.trans hscope1.type (delivers_stmts hss d1.continues.assembled hinner hrules h)

/-- An arm of a conditional gives back, and the arms that follow do. -/
lemma delivers_arm {c c' : Expr} {inner : ScopeId} {body body' : List Stmt} {rest rest' : Chain}
    {σ1 σ2 σ3 : Session} (hbody : ∀ s ∈ body, StmtDelivers f R s)
    (hrest : ChainDelivers f R rest) (hσ : σ.Assembled) (hscope : σ.Promises scope f R)
    (h1 : Gives (expr scope c) σ c' σ1) (h2 : Gives (openIn scope .block) σ1 inner σ2)
    (h3 : ∀ s ∈ body, Rule.blockStmt s = .ok ()) (h4 : Gives (stmts inner body) σ2 body' σ3)
    (h5 : Gives (chain scope rest) σ3 rest' τ) :
    Delivers f R (Stmt.returnedList body' ++ rest'.returned) σ τ := by
  obtain ⟨d1, hscope1, -⟩ := delivers_expr hσ hscope h1
  have d4 := d1.trans hscope1.type
    (delivers_block (Or.inl rfl) hbody d1.continues.assembled hscope1 h2 h3 h4)
  have hscope4 := hscope.mono d4.continues
  exact d4.trans hscope4.type (hrest d4.continues.assembled hscope4 h5)

lemma delivers_loopUpdate {update update' : Option Stmt}
    (hupdate : ∀ s ∈ update, StmtDelivers f R s) (hσ : σ.Assembled) (hscope : σ.Promises scope f R)
    (h : Gives (loopUpdate scope update) σ update' τ) :
    Delivers f R (Stmt.returnedUpdate update') σ τ := by
  cases update with
  | none =>
    obtain ⟨rfl, rfl⟩ := gives_pure.mp h
    exact .stay hσ
  | some s =>
    obtain ⟨hrule, s', h1, rfl⟩ := h.loopUpdate_some
    exact hupdate s rfl hσ hscope hrule h1

/-- Functions and classes do not stand in bodies, and what an expression gives back it gives back
for a lambda. -/
lemma tree_delivers (hR : R ≠ .any) :
    Tree.Inductive (fun _ => True) (StmtDelivers f R) (ChainDelivers f R) := by
  constructor
  case var =>
    intro _ _ _ scope σ s' τ _ hσ hscope _ h
    obtain ⟨_, _, h1, rfl⟩ := h.var
    exact (delivers_var hσ hscope h1).1
  case assign =>
    intro _ _ _ _ _ scope σ s' τ _ hσ hscope _ h
    obtain ⟨_, _, h1, -, _, h2, -, rfl⟩ := h.assign
    obtain ⟨d1, hscope1, -⟩ := delivers_expr hσ hscope h1
    obtain ⟨d2, -, -⟩ := delivers_expr d1.continues.assembled hscope1 h2
    exact d1.trans hscope1.type d2
  case func | cls | ctor =>
    intro _ _ _ _ _ _ _ _ _ _ hrule
    -- no declaration stands in a block
    cases hrule
  case ifElse =>
    intro _ _ _ _ _ hbody hrest scope σ s' τ _ hσ hscope _ h
    obtain ⟨_, _, h1, -, _, _, h2, h3, _, _, h4, _, h5, rfl⟩ := h.ifElse
    exact delivers_arm hbody hrest hσ hscope h1 h2 h3 h4 h5
  case whileLoop =>
    intro _ _ _ _ hbody scope σ s' τ _ hσ hscope _ h
    obtain ⟨_, _, h1, -, _, _, h2, h3, _, h4, rfl⟩ := h.whileLoop
    obtain ⟨d1, hscope1, -⟩ := delivers_expr hσ hscope h1
    exact d1.trans hscope1.type
      (delivers_block (Or.inr rfl) hbody d1.continues.assembled hscope1 h2 h3 h4)
  case forLoop =>
    intro _ _ _ _ _ _ _ hupdate hbody scope σ s' τ _ hσ hscope _ h
    obtain ⟨inner, σ1, h1, _, σ2, h2, _, σ3, h3, _, σ4, h4, h5, _, h6, rfl⟩ := h.forLoop
    -- the head of the loop is in a scope of its own, which has the frame of the function
    obtain ⟨d1, -, hinner1⟩ := delivers_openIn (Or.inr rfl) hσ hscope h1
    obtain ⟨d2, hinner2⟩ := delivers_loopInit d1.continues.assembled hinner1 h2
    obtain ⟨d3, hinner3, -⟩ := hinner2.quiet (leads_loopCondition (fun e _ => exprLeads e)
      d2.continues.assembled hinner2.room) h3
    have d4 := delivers_loopUpdate hupdate d3.continues.assembled hinner3 h4
    have hinner4 := hinner3.mono d4.continues
    have d6 := delivers_stmts hbody d4.continues.assembled hinner4 h5 h6
    exact d1.trans hinner1.type
      (d2.trans hinner2.type (d3.trans hinner3.type (d4.trans hinner4.type d6)))
  case ret =>
    intro _ v _ scope σ s' τ _ hσ hscope _ h
    cases v with
    | none =>
      obtain ⟨_, h1, rfl⟩ := h.ret_none
      obtain ⟨-, rfl, -⟩ := frame_around hscope h1
      exact .stay hσ
    | some e => exact delivers_ret hR hσ hscope h
  case brk =>
    intro _ scope σ s' τ _ hσ _ _ h
    obtain ⟨-, rfl, rfl⟩ := h.brk
    exact .stay hσ
  case expr =>
    intro _ _ scope σ s' τ _ hσ hscope _ h
    obtain ⟨_, h1, rfl⟩ := h.expr
    exact (delivers_expr hσ hscope h1).1
  case done =>
    intro scope σ ch' τ hσ _ h
    obtain ⟨rfl, rfl⟩ := gives_pure.mp h
    exact .stay hσ
  case elseIf =>
    intro _ _ _ _ _ hbody hrest scope σ ch' τ hσ hscope h
    obtain ⟨_, _, h1, -, _, _, h2, h3, _, _, h4, _, h5, rfl⟩ := h.elseIf
    exact delivers_arm hbody hrest hσ hscope h1 h2 h3 h4 h5
  case otherwise =>
    intro _ _ hbody scope σ ch' τ hσ hscope h
    obtain ⟨_, _, h1, h2, _, h3, rfl⟩ := h.otherwise
    exact delivers_block (Or.inl rfl) hbody hσ hscope h1 h2 h3
  all_goals intros; trivial

end Check

/-! ### Functions -/

/-- The function has a type for its result, and if that is not `Any`, then the body gives back, and
gives back nothing but values that the type takes. -/
def TypeTable.Honours (t : TypeTable) (head : FuncHead) (body : List Stmt) : Prop :=
  ∃ R, head.type = some R ∧ t.Registered R ∧ (R ≠ .any → Stmt.returnedList body ≠ [] ∧
    ∀ v ∈ Stmt.returnedList body, t.Registered v.type ∧ t.assignable R v.type = true)

/-- What becomes of a function when its body has been looked at. -/
structure TypeTable.Fulfils (t : TypeTable) (r r' : FuncHead × List Stmt) : Prop where
  type : r'.1.type = r.1.type
  body : Stmt.eraseList r'.2 = Stmt.eraseList r.2
  honours : t.Honours r'.1 r'.2

lemma TypeTable.Fulfils.mono {Φ : Cell → Prop} {r r' : FuncHead × List Stmt}
    (h : σ.types.Fulfils r r') (hσ : σ.Assembled) (hτ : σ.Continues Φ τ) :
    τ.types.Fulfils r r' := by
  obtain ⟨R, hR, hreg, hvalues⟩ := h.honours
  refine ⟨h.type, h.body, R, hR, hreg.mono hτ.forms, fun hany => ?_⟩
  obtain ⟨hsome, hfits⟩ := hvalues hany
  exact ⟨hsome, fun v hv => hτ.fits hσ hreg (hfits v hv)⟩

namespace Check

/-- A function for which nobody has given back yet does it itself, as it has promised. -/
lemma fulfils_func {place : Surroundings} {head : FuncHead} {body : List Stmt} {s' : Stmt}
    (hσ : σ.Assembled) (hhoisted : head.Hoisted σ place) (hwaits : head.Waits σ)
    (h : Gives (stmt scope (.func head body)) σ s' τ) :
    ∃ r, s'.routines = [r] ∧ τ.types.Fulfils (head, body) r := by
  obtain ⟨inner, hinner, hrules, body', σ2, h2, head', h3, rfl⟩ := h.func
  obtain rfl := session_of_closeFunction h3
  obtain ⟨rfl, s2, f2, g2, hs2, hf2, hg2, hsettled2⟩ := gives_closeFunction h3
  obtain ⟨inner', s, f, g, hinner', hs, hf, hg, htype, hsettled⟩ := hwaits
  obtain ⟨R, hR, hreg⟩ := hhoisted.type
  cases hinner.symm.trans hinner'
  cases hR.symm.trans htype
  have hτ := (leads_walk Cell.free_all hσ Session.room_all).changes_of_gives h2
  refine ⟨_, rfl, rfl, erase_stmts (fun s _ => s.kept) h2, _, hR, hreg.mono hτ.forms,
    fun hany => ?_⟩
  have hscope : σ.Promises inner f g.result := ⟨hreg, ⟨s, hs, hf⟩, g, hg, rfl⟩
  have d := delivers_stmts (fun s _ => (tree_delivers hany).stmt_holds s) hσ hscope hrules h2
  -- closing looks at the frame that the body has had from the beginning
  have hgave : σ2.GaveBack f := by
    obtain ⟨s', hs', hf'⟩ := (hscope.mono hτ).scope
    cases hs'.symm.trans hs2
    cases hf'.symm.trans hf2
    exact ⟨g2, hg2, hsettled2⟩
  -- nothing had been given back when the function was announced
  have hnot : ¬σ.GaveBack f := by
    rintro ⟨g', hg', hsettled'⟩
    cases hg.symm.trans hg'
    exact hany (by simpa [TypeId.isAny] using hsettled.symm.trans hsettled')
  exact ⟨(d.settled hgave).resolve_left hnot, d.fits⟩

end Check

/-! ### Functions that are looked at one after the other -/

/-- The statements have been announced, and no function of theirs has been given back from. -/
structure Session.Awaits (base σ : Session) (place : Surroundings) (ss : List Stmt) : Prop where
  hoisted : ∀ s ∈ ss, s.Hoisted base σ place
  waits : ∀ r ∈ Stmt.routinesList ss, r.1.Waits σ
  bodies : ∀ id ∈ Stmt.bodiesList ss, σ.HasBody id
  apart : (Stmt.bodiesList ss).Pairwise σ.Apart

lemma FuncHead.Waits.mono {head : FuncHead} (h : head.Waits σ)
    (hτ : ∀ {id s f}, head.scope = some id → σ.scopes.scope? id = some s → s.frame = some f →
      σ.Continues (Cell.Besides f) τ) : head.Waits τ := by
  obtain ⟨id, s, f, g, hid, hs, hf, hg, htype, hsettled⟩ := h
  have hkeeps := hτ hid hs hf
  obtain ⟨s', hs', hscope⟩ := hkeeps.scope hs
  obtain ⟨g', hg', hframe⟩ := hkeeps.frame hg
  refine ⟨id, s', f, g', hid, hs', hscope.frame.trans hf, hg', ?_, ?_⟩
  · rw [hframe.result, htype]
  · rw [hframe.settled fun hne => hne rfl, hframe.result, hsettled]

lemma Stmt.mem_bodies_of_routines {s : Stmt} {r : FuncHead × List Stmt} {id : ScopeId}
    (hr : r ∈ s.routines) (hid : r.1.scope = some id) : id ∈ s.bodies := by
  induction s using members_induction with
  | other s hs =>
    cases s with
    | func head body =>
      rw [List.mem_singleton.mp hr] at hid
      rw [bodies, Option.mem_toList]
      exact hid
    | cls => cases hs
    | _ => cases hr
  | cls head ms ih =>
    obtain ⟨s, hs, hr⟩ := mem_routinesList.mp hr
    exact mem_bodiesList.mpr ⟨s, hs, ih s hs hr⟩

namespace Session

variable {base : Session} {place : Surroundings} {ss ts : List Stmt}

lemma Awaits.sublist (h : base.Awaits σ place ss) (hts : ts.Sublist ss) :
    base.Awaits σ place ts := by
  have hbodies : (Stmt.bodiesList ts).Sublist (Stmt.bodiesList ss) := by
    simp only [Stmt.bodiesList_eq_flatMap]
    exact hts.flatMap _
  have hroutines : (Stmt.routinesList ts).Sublist (Stmt.routinesList ss) := by
    simp only [Stmt.routinesList_eq_flatMap]
    exact hts.flatMap _
  exact ⟨fun s hs => h.hoisted s (hts.subset hs), fun r hr => h.waits r (hroutines.subset hr),
    fun id hid => h.bodies id (hbodies.subset hid), h.apart.sublist hbodies⟩

lemma Awaits.mono (h : base.Awaits σ place ss) (hlater : σ.Later τ)
    (hτ : σ.Continues (fun _ => True) τ)
    (hkeeps : ∀ id ∈ Stmt.bodiesList ss, ∀ {s f}, σ.scopes.scope? id = some s → s.frame = some f →
      σ.Continues (Cell.Besides f) τ) : base.Awaits τ place ss where
  hoisted s hs := (h.hoisted s hs).mono hτ
  waits r hr := by
    obtain ⟨s, hs, hr'⟩ := Stmt.mem_routinesList.mp hr
    exact (h.waits r hr).mono fun hid =>
      hkeeps _ (Stmt.mem_bodiesList.mpr ⟨s, hs, Stmt.mem_bodies_of_routines hr' hid⟩)
  bodies id hid := (h.bodies id hid).mono hlater
  apart := h.apart.imp_of_mem fun hi hj hij => hij.mono (h.bodies _ hi) (h.bodies _ hj) hlater

lemma returning_besides (h : ∃ s, σ.scopes.scope? scope = some s ∧ s.frame ≠ some f) :
    σ.Returning (Cell.Besides f) scope := by
  intro f'
  by_cases hf : f' = f
  · subst hf
    exact Or.inr h
  · refine Or.inl ?_
    rintro ⟨⟩
    exact hf rfl

lemma At.returning_besides (h : σ.At scope place) (hplace : place.inFunction = false) :
    σ.Returning (Cell.Besides f) scope := by
  obtain ⟨s, hs, hstands⟩ := h
  refine Session.returning_besides ⟨s, hs, fun hf => ?_⟩
  have hin := hstands.inFunction
  rw [hf, hplace] at hin
  cases hin

/-- The body of another function does not give back from this one. -/
lemma Apart.returning_besides {i j : ScopeId} {s : Scope} (h : σ.Apart i j) (hi : σ.HasBody i)
    (hs : σ.scopes.scope? j = some s) (hf : s.frame = some f) :
    σ.Returning (Cell.Besides f) i := by
  obtain ⟨s', -, -, hs', -⟩ := hi
  exact Session.returning_besides ⟨s', hs', hf ▸ h.2 s' s hs' hs⟩

end Session

/-- A statement outside of all functions does not give back from the function if none of its bodies
does. -/
lemma Stmt.Hoisted.claims_besides {base : Session} {place : Surroundings} {s : Stmt}
    (h : s.Hoisted base σ place) (hplace : place.inFunction = false)
    (hbodies : ∀ id ∈ s.bodies, σ.Returning (Cell.Besides f) id) : s.Claims (Cell.Besides f) σ := by
  induction s using members_induction generalizing place with
  | other s hs =>
    cases s with
    | func head body | ctor head body =>
      exact fun id hid => ⟨Session.declaring_besides, hbodies id (Option.mem_toList.mpr hid)⟩
    | cls => cases hs
    | _ => trivial
  | cls head ms ih =>
    obtain ⟨⟨c, body, -, hbody, -, -, hat, -⟩, hms⟩ := h
    refine ⟨fun c _ body _ n => Or.inl (by rintro ⟨⟩), fun id hid => ?_,
      claimsList_iff.mpr fun s hs => ?_⟩
    · cases hid.symm.trans hbody
      exact hat.returning_besides hplace
    · exact ih s hs (hoistedList_iff.mp hms s hs) hplace fun id hid =>
        hbodies id (mem_bodiesList.mpr ⟨s, hs, hid⟩)

namespace Check

open Session (Awaits)

variable {base : Session} {place : Surroundings}

/-- **Step.** When a statement has been looked at, the functions after it still wait. -/
lemma awaits_stmt {s s' : Stmt} {ss : List Stmt} (hσ : σ.Assembled) (hat : σ.At scope place)
    (hplace : place.inFunction = false) (hss : base.Awaits σ place (s :: ss))
    (h : Gives (stmt scope s) σ s' τ) :
    σ.Continues (fun _ => True) τ ∧ base.Awaits τ place ss := by
  have hτ := (stmtLeads s hσ Session.room_all Cell.free_all.opens.returning
    (fun n _ => Cell.free_all.declaring n) (Cell.free_all.claims s)).changes_of_gives h
  refine ⟨hτ, (hss.sublist (List.sublist_cons_self s ss)).mono (.of_gives h) hτ
    fun j hj sj f hsj hf => ?_⟩
  -- `f` belongs to a function that follows, and the bodies in `s` are apart from its body
  obtain ⟨-, -, hapart⟩ := List.pairwise_append.mp hss.apart
  have hbodies := List.forall_mem_append.mp hss.bodies
  have hroom := (hbodies.2 j hj).room_besides hsj hf
  have hclaims := (hss.hoisted s List.mem_cons_self).claims_besides hplace fun i hi =>
    (hapart i hi j hj).returning_besides (hbodies.1 i hi) hsj hf
  exact (stmtLeads s hσ hroom (hat.returning_besides hplace)
    (fun n _ => Session.declaring_besides n) hclaims).changes_of_gives h

/-- The functions of the statement come to give back what they promise. -/
def StmtFulfils (s : Stmt) : Prop :=
  ∀ ⦃base σ : Session⦄ ⦃place scope s' τ⦄, σ.Assembled → σ.At scope place →
    place.inFunction = false → base.Awaits σ place [s] → Gives (stmt scope s) σ s' τ →
      List.Forall₂ τ.types.Fulfils s.routines s'.routines

/-- **Run.** All functions of a list of statements come to give back what they promise. -/
lemma fulfils_stmts {ss ss' : List Stmt} (hss : ∀ s ∈ ss, StmtFulfils s) (hσ : σ.Assembled)
    (hat : σ.At scope place) (hplace : place.inFunction = false) (hawaits : base.Awaits σ place ss)
    (h : Gives (stmts scope ss) σ ss' τ) : σ.Continues (fun _ => True) τ ∧
      List.Forall₂ τ.types.Fulfils (Stmt.routinesList ss) (Stmt.routinesList ss') := by
  induction ss generalizing σ ss' with
  | nil =>
    obtain ⟨rfl, rfl⟩ := gives_pure.mp h
    exact ⟨hσ.stay, .nil⟩
  | cons s ss ih =>
    rw [List.forall_mem_cons] at hss
    obtain ⟨s', σ1, h1, rest, h2, rfl⟩ := h.stmts_cons
    obtain ⟨c1, hawaits1⟩ := awaits_stmt hσ hat hplace hawaits h1
    have hs := hss.1 hσ hat hplace (hawaits.sublist (by simp)) h1
    obtain ⟨c2, hrest⟩ := ih hss.2 c1.assembled (hat.mono c1) hawaits1 h2
    exact ⟨c1.trans c2, List.rel_append (hs.imp fun _ _ hr => hr.mono c1.assembled c2) hrest⟩

lemma fulfils_members {ms ms' : List Stmt} (hms : ∀ s ∈ ms, StmtFulfils s) (hσ : σ.Assembled)
    (hat : σ.At scope place) (hplace : place.inFunction = false) (hawaits : base.Awaits σ place ms)
    (h : Gives (members scope ms) σ ms' τ) : σ.Continues (fun _ => True) τ ∧
      List.Forall₂ τ.types.Fulfils (Stmt.routinesList ms) (Stmt.routinesList ms') := by
  induction ms generalizing σ ms' with
  | nil =>
    obtain ⟨rfl, rfl⟩ := gives_pure.mp h
    exact ⟨hσ.stay, .nil⟩
  | cons s ms ih =>
    rw [List.forall_mem_cons] at hms
    by_cases hvar : s.isVar = true
    · obtain ⟨head, init, rfl⟩ := Stmt.isVar_iff.mp hvar
      obtain ⟨rest, h1, rfl⟩ := h.members_var
      obtain ⟨c1, hrest⟩ := ih hms.2 hσ hat (hawaits.sublist (List.sublist_cons_self _ ms)) h1
      exact ⟨c1, hrest⟩
    · obtain ⟨s', σ1, h1, rest, h2, rfl⟩ := h.members_cons (Bool.eq_false_iff.mpr hvar)
      obtain ⟨c1, hawaits1⟩ := awaits_stmt hσ hat hplace hawaits h1
      have hs := hms.1 hσ hat hplace (hawaits.sublist (by simp)) h1
      obtain ⟨c2, hrest⟩ := ih hms.2 c1.assembled (hat.mono c1) hawaits1 h2
      exact ⟨c1.trans c2, List.rel_append (hs.imp fun _ _ hr => hr.mono c1.assembled c2) hrest⟩

lemma stmtFulfils (s : Stmt) : StmtFulfils s := by
  induction s using Stmt.members_induction with
  | other s hs =>
    intro base σ place scope s' τ hσ _ _ hawaits h
    cases s with
    | func head body =>
      obtain ⟨r, hr, hfulfils⟩ := fulfils_func hσ (hawaits.hoisted _ List.mem_cons_self)
        (hawaits.waits (head, body) List.mem_cons_self) h
      rw [hr]
      exact .cons hfulfils .nil
    | cls => cases hs
    | _ =>
      rw [(Stmt.routines_eq_nil_congr (Stmt.kept _ h)).mpr rfl]
      exact .nil
  | cls head ms ih =>
    intro base σ place scope s' τ hσ _ hplace hawaits h
    obtain ⟨⟨c, body, hcls, hbody, -, -, hat, -⟩, hms⟩ := hawaits.hoisted _ List.mem_cons_self
    obtain ⟨c', hc', inner, hinner, _, σ1, h1, ms', σ2, h2, head', h3, rfl⟩ := h.cls
    cases hbody.symm.trans hinner
    have hnote {Φ : Cell → Prop} : σ.Continues Φ σ1 := (leads_note hσ).changes_of_gives h1
    have c1 : σ.Continues (fun _ => True) σ1 := hnote
    -- the members wait in the body of the class as the class did around it
    have hinside : base.Awaits σ place.body ms :=
      ⟨Stmt.hoistedList_iff.mp hms, fun r hr => hawaits.waits r (List.mem_append_left _ hr),
        fun id hid => hawaits.bodies id (List.mem_append_left _ hid),
        (List.pairwise_append.mp hawaits.apart).1⟩
    obtain ⟨c2, hfulfils⟩ := fulfils_members ih c1.assembled (hat.mono c1) hplace
      (hinside.mono (.of_gives h1) c1 fun _ _ _ _ _ _ => hnote) h2
    have c3 : σ2.Continues (fun _ => True) _ :=
      (leads_closeClass c2.assembled fun n => Or.inl trivial).changes_of_gives h3
    exact hfulfils.imp fun _ _ hr => hr.mono c2.assembled c3

/-! ### Programs -/

lemma fieldClaims_besides (s : Stmt) : FieldClaims (Cell.Besides f) σ s := by
  induction s using Stmt.members_induction with
  | other s hs =>
    cases s with
    | cls => cases hs
    | _ => trivial
  | cls head ms ih =>
    exact ⟨fun _ _ _ _ n _ => Session.declaring_besides n, fieldClaimsList_iff.mpr ih⟩

/-- Nothing is given back by the values of fields. -/
lemma awaits_fields {ss ss' : List Stmt} (hσ : σ.Assembled) (hawaits : base.Awaits σ place ss)
    (h : Gives (ss.mapM classFields) σ ss' τ) :
    base.Awaits τ place ss' ∧ Stmt.routinesList ss' = Stmt.routinesList ss := by
  have hτ := (leads_fields Cell.free_all hσ Session.room_all).changes_of_gives h
  have hafter := hawaits.mono (.of_gives h) hτ fun id hid s f hs hf => by
    have hroom := (hawaits.bodies id hid).room_besides hs hf
    exact (Leads.mapM hσ.stay (fun _ _ => trivial) fun s _ _ hυ =>
      fieldsLead s hυ.assembled (hroom.mono hυ) (fieldClaims_besides s)).changes_of_gives h
  have hroutines : Stmt.routinesList ss' = Stmt.routinesList ss := by
    simp only [Stmt.routinesList_eq_flatMap]
    exact collected_fields (fun _ => []) (fun _ _ => rfl)
      (fun _ ms => Stmt.routinesList_eq_flatMap ms) h
  have hbodies := bodiesList_fields h
  exact ⟨⟨hoisted_fields h hafter.hoisted, hroutines ▸ hafter.waits, hbodies ▸ hafter.bodies,
    hbodies ▸ hafter.apart⟩, hroutines⟩

/-- When a program is accepted, each function that has been announced has come to give back what it
promises. -/
lemma fulfils_program {p q : Program} {log : List LogEvent} {Ω : Session}
    (h : Gives (program p) { log } q Ω) : ∃ ss A, Gives (announce .root p.stmts) { log } ss A ∧
      List.Forall₂ Ω.types.Fulfils (Stmt.routinesList ss) (Stmt.routinesList q.stmts) := by
  obtain ⟨ss, A, h1, ss2, σ2, h2, ss3, σ3, h3, _, h4, rfl⟩ := h.program
  have hσ := Session.assembled_new log
  obtain ⟨c1, hhoisted, -⟩ := hoisted_announce hσ hσ.at_root h1
  have hrooms := rooms_announce hσ h1
  have hA : Session.Awaits _ A {} ss := ⟨Stmt.hoistedList_iff.mp hhoisted, waits_announce h1,
    fun id hid => (hrooms.lodges id hid).body, hrooms.apart⟩
  obtain ⟨hawaits, hroutines⟩ := awaits_fields c1.assembled hA h2
  have c2 := (leads_fields Cell.free_all c1.assembled Session.room_all).changes_of_gives h2
  obtain ⟨c3, hfulfils⟩ := fulfils_stmts (fun s _ => stmtFulfils s) c2.assembled
    (hσ.at_root.mono (c1.trans c2)) rfl hawaits h3
  have c4 : σ3.Continues (fun _ => True) _ := (leads_note c3.assembled).changes_of_gives h4
  refine ⟨ss, A, h1, ?_⟩
  rw [← hroutines]
  exact hfulfils.imp fun _ _ hr => hr.mono c3.assembled c4

end Check

/-- In a program that keeps the rules on places, functions are where they are announced. -/
lemma Program.routines_of_placed {p : Program} {ss : List Stmt} {head : FuncHead} {body : List Stmt}
    (hplaced : p.placed = true) (herase : Stmt.eraseList ss = Stmt.eraseList p.stmts)
    (h : Node.stmt (.func head body) ∈ Stmt.nodesList ss) :
    (head, body) ∈ Stmt.routinesList ss := by
  have herased (ss : List Stmt) : Stmt.placedList none {} (Stmt.eraseList ss) =
      Stmt.placedList none {} ss := Stmt.placedList_erase fun s _ => s.placed_erase _
  have hss : Stmt.placedList none {} ss = true := by
    rw [← herased, herase, herased]
    exact hplaced
  exact Stmt.routines_of_placedList hss h

/-- **Returns.** In an accepted program every function and method that promises a value gives back,
and all that it gives back, in whatever branch or loop, is what it promises. Returns in lambdas do
not matter: without them the outcome is the same. And when the declarations are known, a function
that promises a value and does not give back itself dooms the program. -/
theorem returns_as_promised (p : Program) :
    (∀ q a, analyze p = .ok (q, a) → ∀ head body, Node.stmt (.func head body) ∈ q.nodes →
      ∃ R, head.type = some R ∧ (R ≠ .any → Stmt.returnedList body ≠ [] ∧
        ∀ v ∈ Stmt.returnedList body, a.types.assignable R v.type = true)) ∧
    analyze p.hushed = (analyze p).map (fun r => (r.1.hushed, r.2)) ∧
    ∀ ss A, Gives (Check.announce .root p.stmts) { log := [.analyzing p.stmts.length] } ss A →
      ∀ head body, Node.stmt (.func head body) ∈ Stmt.nodesList ss → head.type ≠ some .any →
        Stmt.returnedList body = [] → ∃ f, analyze p = .error f := by
  have hjudged := Check.judges_program (p := p) (Session.assembled_new [.analyzing p.stmts.length])
  refine ⟨fun q a h head body hnode => ?_, analyze_hushed p,
    fun ss A hA head body hnode htype hnone => ?_⟩
  · obtain ⟨Ω, hrun, rfl⟩ := analyze_eq_ok.mp h
    obtain ⟨ss, A, -, hfulfils⟩ := Check.fulfils_program hrun
    have hroutine := Program.routines_of_placed (hjudged.accepts hrun)
      (congrArg Program.stmts (Check.erase_program hrun)) hnode
    obtain ⟨r, -, hr⟩ := exists_of_forall₂ hfulfils.flip hroutine
    obtain ⟨R, hR, -, hvalues⟩ := hr.honours
    exact ⟨R, hR, fun hany => ⟨(hvalues hany).1, fun v hv => ((hvalues hany).2 v hv).2⟩⟩
  · cases h : analyze p with
    | error f => exact ⟨f, rfl⟩
    | ok r =>
      obtain ⟨Ω, hrun, -⟩ := analyze_eq_ok.mp h
      obtain ⟨ss', A', hA', hfulfils⟩ := Check.fulfils_program hrun
      cases hA.symm.trans hA'
      have hroutine := Program.routines_of_placed (hjudged.accepts hrun)
        (Check.erase_announce hA) hnode
      obtain ⟨r', -, hr⟩ := exists_of_forall₂ hfulfils hroutine
      obtain ⟨R, hR, -, hvalues⟩ := hr.honours
      have hany : R ≠ .any := by
        rintro rfl
        exact htype (hr.type ▸ hR)
      -- a promise that is kept has a value, and the body has no return to give one
      exact absurd ((Stmt.returnedList_eq_nil_congr hr.body).mpr hnone) (hvalues hany).1

/-- A method that gives back from a branch in a loop, past a lambda that gives back a text. -/
def pledged : Program where
  stmts :=
    [.cls { name := "Die" }
      [.func { name := "roll", result := some (.named "Number" {}) }
        [.whileLoop {} (.boolean {} true)
          [.ifElse {} (.boolean {} false)
            [.expr (.blockLambda {} {} {} [.ret {} (some (.string {} "six"))])]
            (.otherwise {} [.ret {} (some (.number {} 6))])]]]]

/-- A function that leaves it to a lambda to give back. -/
def forsworn : Program where
  stmts :=
    [.func { name := "roll", result := some (.named "Number" {}) }
      [.expr (.blockLambda {} {} {} [.ret {} (some (.number {} 6))])]]

/-- `pledged` is accepted with a method that gives back numbers, and `forsworn` is rejected. -/
theorem returns_as_promised_pledged :
    (∃ q a head body, analyze pledged = .ok (q, a) ∧ Node.stmt (.func head body) ∈ q.nodes ∧
      head.type = some .number ∧ Stmt.returnedList body ≠ [] ∧
        ∀ v ∈ Stmt.returnedList body, a.types.assignable .number v.type = true) ∧
    ∃ f, analyze forsworn = .error f := by
  constructor
  · have haccepted : (analyze pledged).toOption.map (fun r =>
        (Stmt.routinesList r.1.stmts).map (·.1.type)) = some [some .number] := by decide +kernel
    obtain ⟨r, h, hr⟩ := Except.exists_ok_of_map haccepted
    obtain ⟨⟨head, body⟩, hroutine, htype⟩ := List.mem_map.mp (hr ▸ List.mem_singleton_self _)
    have hnode := Stmt.mem_nodesList_of_routines hroutine
    obtain ⟨R, hR, hvalues⟩ := (returns_as_promised pledged).1 r.1 r.2 h head body hnode
    cases hR.symm.trans htype
    obtain ⟨hsome, hfits⟩ := hvalues (by decide)
    exact ⟨r.1, r.2, head, body, h, hnode, hR, hsome, hfits⟩
  · have hannounced : ((Check.announce .root forsworn.stmts).run.run
        { log := [.analyzing 1] }).1.toOption.map (fun ss => (Stmt.routinesList ss).map fun r =>
          (r.1.type, (Stmt.returnedList r.2).isEmpty)) = some [(some .number, true)] := by
      decide +kernel
    rcases h : (Check.announce .root forsworn.stmts).run.run { log := [.analyzing 1] } with
      ⟨f | ss, A⟩
    · simp [h, Except.toOption] at hannounced
    · simp only [h, Except.toOption, Option.map_some, Option.some.injEq] at hannounced
      obtain ⟨⟨head, body⟩, hroutine, heq⟩ :=
        List.mem_map.mp (hannounced ▸ List.mem_singleton_self _)
      obtain ⟨htype, hnone⟩ := Prod.mk.inj heq
      exact (returns_as_promised forsworn).2.2 ss A h head body
        (Stmt.mem_nodesList_of_routines hroutine) (by rw [htype]; decide)
        (List.isEmpty_iff.mp hnone)

end MiddleEnd
