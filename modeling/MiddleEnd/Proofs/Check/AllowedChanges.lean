import MiddleEnd.Proofs.Check.MayFail

/-!
The walk, once for all. Whatever is to be said of how the walk changes sessions is said of single
changes: a name is declared, a scope is opened, a type is added. All steps are made of these; so
what holds of the changes holds of the walk through any expression or statement, however it ends.
-/

namespace MiddleEnd

variable {α β : Type} {scope : ScopeId}

/-! ### Steps -/

/-- Wherever it is taken, the step changes the session as `rel` says, also when it fails, and if it
succeeds then its result is as `post` says. -/
structure Follows (rel : Session → Session → Prop) (step : Check α) (post : α → Prop) : Prop where
  leads : ∀ {σ}, rel σ σ → Leads rel step σ fun a _ => post a

namespace Follows

variable {rel : Session → Session → Prop} {x : Check α} {k : α → Check β} {post : α → Prop}
  {goal : β → Prop}

lemma pure {a : α} (h : post a) : Follows rel (Pure.pure a) post := ⟨fun hσ => .pure hσ h⟩

lemma throw {f : Fault} : Follows rel (MonadExcept.throw f : Check α) post := ⟨fun hσ => .throw hσ⟩

lemma bind_rule {r : Except Fault α} (hk : ∀ a, r = .ok a → Follows rel (k a) goal) :
    Follows rel (Check.rule r >>= k) goal :=
  ⟨fun hσ => .bind_rule hσ fun a ha => (hk a ha).leads hσ⟩

lemma bind_types {k : TypeTable → Check β} (hk : ∀ t, Follows rel (k t) goal) :
    Follows rel (Check.types >>= k) goal :=
  ⟨fun hσ => .bind_types ((hk _).leads hσ)⟩

lemma bind_scopes {k : Scopes → Check β} (hk : ∀ t, Follows rel (k t) goal) :
    Follows rel (Check.scopes >>= k) goal :=
  ⟨fun hσ => .bind_scopes ((hk _).leads hσ)⟩

lemma bind_registered {handle : Option α} {name : String} {span : Span}
    (hk : ∀ a ∈ handle, Follows rel (k a) goal) :
    Follows rel (Check.registered handle name span >>= k) goal :=
  ⟨fun hσ => .bind_registered hσ fun a ha => (hk a ha).leads hσ⟩

lemma classEntry {c : ClassId} : Follows rel (Check.classEntry c) fun _ => True :=
  ⟨fun hσ => (Leads.classEntry hσ).mono fun _ _ _ _ => trivial⟩

variable [Lasting rel]

lemma bind (hx : Follows rel x post) (hk : ∀ a, post a → Follows rel (k a) goal) :
    Follows rel (x >>= k) goal :=
  ⟨fun hσ => (hx.leads hσ).bind fun a _ hτ ha => (hk a ha).leads (Lasting.stay hτ)⟩

lemma bind_pure {f : α → β} (hx : Follows rel x post) (hf : ∀ a, post a → goal (f a)) :
    Follows rel (x >>= fun a => Pure.pure (f a)) goal :=
  hx.bind fun a ha => .pure (hf a ha)

lemma mapM {f : α → Check β} {l : List α} (h : ∀ a ∈ l, Follows rel (f a) goal) :
    Follows rel (l.mapM f) fun bs => bs.length = l.length ∧ ∀ b ∈ bs, goal b := by
  induction l with
  | nil => exact .pure ⟨rfl, List.forall_mem_nil _⟩
  | cons a l ih =>
    rw [List.forall_mem_cons] at h
    rw [List.mapM_cons]
    refine h.1.bind fun b hb => (ih h.2).bind_pure fun bs hbs => ?_
    exact ⟨congrArg (· + 1) hbs.1, List.forall_mem_cons.mpr ⟨hb, hbs.2⟩⟩

lemma forM {f : α → Check Unit} {l : List α} (h : ∀ a ∈ l, Follows rel (f a) fun _ => True) :
    Follows rel (l.forM f) fun _ => True :=
  ⟨fun hσ => .forM hσ fun a ha _ hτ => (h a ha).leads (Lasting.stay hτ)⟩

end Follows

/-! ### Written types -/

namespace Check

/-- Reading a written type touches nothing but the types. -/
lemma run_typeOf (scope : ScopeId) (e : TypeExpr) (σ : Session) :
    (typeOf scope e).run.run σ = (((σ.scopes.typeOf scope e).run.run σ.types).1,
      { σ with types := ((σ.scopes.typeOf scope e).run.run σ.types).2 }) :=
  rfl

lemma run_typeOf_bind {σ : Session} {e : TypeExpr} {k : TypeId → TypeStep α} {l : TypeId → Check α}
    (hl : ∀ t types, (l t).run.run { σ with types } =
      (((k t).run.run types).1, { σ with types := ((k t).run.run types).2 })) :
    (typeOf scope e >>= l).run.run σ =
      (((σ.scopes.typeOf scope e >>= k).run.run σ.types).1,
        { σ with types := ((σ.scopes.typeOf scope e >>= k).run.run σ.types).2 }) := by
  simp only [ExceptT.run_bind, StateT.run_bind, run_typeOf]
  rcases (σ.scopes.typeOf scope e).run.run σ.types with ⟨_ | t, table⟩
  · rfl
  · exact hl t table

lemma typeOf_named (scope : ScopeId) (name : String) (span : Span) :
    typeOf scope (.named name span) = (scopes >>= fun t => rule (t.namedType scope name span)) :=
  rfl

lemma typeOf_array (scope : ScopeId) (e : TypeExpr) :
    typeOf scope (.array e) = (typeOf scope e >>= fun t => addType (.array t)) :=
  ExceptT.ext (StateT.ext fun _ =>
    (run_typeOf_bind (k := fun t => TypeStep.add (.array t)) fun _ _ => rfl).symm)

lemma typeOf_dictionary (scope : ScopeId) (k v : TypeExpr) :
    typeOf scope (.dictionary k v) =
      (typeOf scope k >>= fun t => typeOf scope v >>= fun u => addType (.dictionary t u)) := by
  refine ExceptT.ext (StateT.ext fun σ => ?_)
  refine (run_typeOf_bind (k := fun t => σ.scopes.typeOf scope v >>= fun u =>
    TypeStep.add (.dictionary t u)) fun t types => ?_).symm
  exact run_typeOf_bind (k := fun u => TypeStep.add (.dictionary t u)) fun _ _ => rfl

end Check

/-! ### Single changes -/

/-- How sessions may change on the way. Scopes are opened inside of those that `sees` allows and
names that `binds` allows are declared in those that `works` allows; functions with frames that
`opens` allows may be opened, and those that `holds` allows are given back from. What the
declarations have given to a statement is as `given` says. -/
structure AllowedChanges where
  rel : Session → Session → Prop
  sees : ScopeId → Prop
  works : ScopeId → Prop
  holds : FrameId → Prop
  owns : ClassId → Prop
  binds : Binding → Prop
  opens : Frame → Prop
  given : Stmt → Prop
  lasting : Lasting rel
  seen : ∀ {id}, works id → sees id
  value : ∀ {b : Binding}, b.isValue = true → binds b
  settled : ∀ {f : Frame}, f.settled = true → opens f
  event : ∀ {σ}, rel σ σ → ∀ e, rel σ { σ with log := σ.log ++ [e] }
  call : ∀ {σ}, rel σ σ → ∀ name, rel σ { σ with callSites := σ.callSites.insert name }
  type : ∀ {σ}, rel σ σ → ∀ f, rel σ { σ with types := σ.types.add f }
  frame : ∀ {σ f}, rel σ σ → opens f →
    rel σ { σ with scopes := σ.scopes.addFrame f } ∧ holds σ.scopes.nextFrame
  inner : ∀ {σ id kind larger}, rel σ σ → sees id → (∀ f, kind = .function f → holds f) →
    (∀ c, kind = .cls c → owns c) → σ.scopes.openIn id kind = .ok larger →
    rel σ { σ with scopes := larger } ∧ works σ.scopes.next
  around : ∀ {σ id s f}, rel σ σ → sees id → σ.scopes.scope? id = some s →
    s.frame = some f → holds f
  settle : ∀ {σ f}, rel σ σ → holds f → rel σ { σ with scopes := σ.scopes.settle f true }
  name : ∀ {σ id b span larger}, rel σ σ → works id → binds b →
    σ.scopes.declare id b span = .ok larger → rel σ { σ with scopes := larger }
  member : ∀ {σ id s c} b, rel σ σ → works id → σ.scopes.scope? id = some s → s.cls = some c →
    rel σ { σ with types := σ.types.addMember c b }
  close : ∀ {σ c}, rel σ σ → owns c → ∀ members, rel σ (σ.updateClass c (.close members))
  plain : ∀ {s u}, Rule.blockStmt s = .ok u → given s
  func : ∀ {head body}, given (.func head body) → ∀ id ∈ head.scope, works id
  ctor : ∀ {head body}, given (.ctor head body) → ∀ id ∈ head.scope, works id
  body : ∀ {head ms}, given (.cls head ms) → ∀ id ∈ head.scope, works id
  members : ∀ {head ms}, given (.cls head ms) → ∀ s ∈ ms, given s
  cls : ∀ {head ms}, given (.cls head ms) → ∀ c ∈ head.cls, owns c
  renew : ∀ {head ms ms'}, given (.cls head ms) → (∀ s ∈ ms', given s) → given (.cls head ms')

instance (C : AllowedChanges) : Lasting C.rel := C.lasting

namespace Check

variable {C : AllowedChanges}

lemma follows_note {e : LogEvent} : Follows C.rel (note e) fun _ => True :=
  ⟨fun hσ => ⟨C.event hσ e, fun _ => trivial⟩⟩

lemma follows_recordCall {name : String} :
    Follows C.rel (recordCall scope name) fun _ => True := by
  refine .bind_scopes fun t => ?_
  split
  · exact ⟨fun hσ => ⟨C.call hσ name, fun _ => trivial⟩⟩
  · exact .pure trivial

lemma follows_addType {f : TypeForm} : Follows C.rel (addType f) fun _ => True := by
  have hupdate : Follows C.rel (updateTypes (·.add f)) fun _ => True :=
    ⟨fun hσ => ⟨C.type hσ f, fun _ => trivial⟩⟩
  exact .bind_types fun _ => hupdate.bind_pure fun _ _ => trivial

lemma follows_typeOf {e : TypeExpr} : Follows C.rel (typeOf scope e) fun _ => True := by
  induction e with
  | named name span =>
    rw [typeOf_named]
    exact .bind_scopes fun _ => ⟨fun hσ => .rule hσ fun _ _ => trivial⟩
  | array e ih =>
    rw [typeOf_array]
    exact ih.bind fun _ _ => follows_addType
  | dictionary k v ihk ihv =>
    rw [typeOf_dictionary]
    exact ihk.bind fun _ _ => ihv.bind fun _ _ => follows_addType

lemma follows_typeOf? {e : Option TypeExpr} : Follows C.rel (typeOf? scope e) fun _ => True := by
  cases e with
  | none => exact .pure trivial
  | some e =>
    rw [typeOf?, map_eq_pure_bind]
    exact follows_typeOf.bind_pure fun _ _ => trivial

lemma follows_openIn {kind : ScopeKind} (hscope : C.sees scope)
    (hframe : ∀ f, kind = .function f → C.holds f) (hcls : ∀ c, kind = .cls c → C.owns c) :
    Follows C.rel (openIn scope kind) C.works := by
  refine ⟨fun {σ} hσ => .bind_scopes (.bind_rule hσ fun larger hlarger => ?_)⟩
  obtain ⟨hrel, hnew⟩ := C.inner hσ hscope hframe hcls hlarger
  have hupdate : Leads C.rel (updateScopes fun _ => larger) σ fun _ _ => True :=
    ⟨hrel, fun _ => trivial⟩
  exact hupdate.bind_pure fun _ _ _ _ => hnew

lemma follows_openBlock {kind : ScopeKind} (hscope : C.sees scope)
    (hkind : kind = .block ∨ kind = .loop) : Follows C.rel (openIn scope kind) C.works := by
  rcases hkind with rfl | rfl <;> exact follows_openIn hscope (by simp) (by simp)

lemma follows_openFunction {f : Frame} (hscope : C.sees scope) (hf : C.opens f) :
    Follows C.rel (do
      let frame ← addFrame f
      openIn scope (.function frame)) C.works := by
  have hframe : Follows C.rel (addFrame f) C.holds := by
    refine ⟨fun hσ => ⟨(C.frame hσ hf).1, fun h => ?_⟩⟩
    obtain ⟨rfl, -⟩ := gives_addFrame.mp h
    exact (C.frame hσ hf).2
  exact hframe.bind fun _ hid => follows_openIn hscope (by rintro _ ⟨⟩; exact hid) (by simp)

/-- A name that is declared in a class body becomes a member of the class. -/
lemma follows_declare {b : Binding} {span : Span} (hscope : C.works scope) (hb : C.binds b) :
    Follows C.rel (declare scope b span) fun _ => True := by
  refine ⟨fun {σ} hσ => ?_⟩
  unfold declare owner?
  simp only [bind_assoc, pure_bind]
  refine .bind_scopes (.bind_rule hσ fun s hs => .bind_types (.bind_scopes ?_))
  refine .bind_rule hσ fun larger hlarger => ?_
  have hupdate : Leads C.rel (updateScopes fun _ => larger) σ
      fun _ τ => { σ with scopes := larger } = τ :=
    ⟨C.name hσ hscope hb hlarger, fun h => gives_updateScopes.mp h⟩
  refine hupdate.bind fun _ τ hτ heq => ?_
  split
  · rename_i c hc
    have hcls := (Option.filter_eq_some_iff.mp hc).1
    obtain ⟨s', hs', hext⟩ := (Scopes.extends_declare hlarger).scope? (Scopes.scope_eq_ok.mp hs)
    have hmember : Leads C.rel (updateTypes (·.addMember c b)) τ fun _ _ => True := by
      subst heq
      exact ⟨C.member b (Lasting.stay hτ) hscope hs' (hext.cls.trans hcls), fun _ => trivial⟩
    refine (Leads.classEntry (Lasting.stay hτ)).bind ?_
    rintro _ _ - ⟨rfl, -⟩
    exact hmember
  · exact .pure (Lasting.stay hτ) trivial

lemma follows_params {ps : List Param} (hscope : C.works scope) :
    Follows C.rel (params scope ps) fun _ => True := by
  induction ps with
  | nil => exact .pure trivial
  | cons p ps ih =>
    rw [params]
    exact follows_typeOf?.bind fun _ _ => (follows_declare hscope (C.value rfl)).bind fun _ _ =>
      ih.bind_pure fun _ _ => trivial

/-! ### The walk -/

lemma follows_nameType {name : String} {span : Span} :
    Follows C.rel (nameType scope name span) fun _ => True := by
  refine .bind_scopes fun _ => .bind_rule fun b _ => ?_
  split
  · exact .pure trivial
  · exact .pure trivial
  · exact follows_recordCall.bind_pure fun _ _ => trivial
  · exact .pure trivial
  · exact .throw

lemma follows_selfType {span : Span} : Follows C.rel (selfType scope span) fun _ => True :=
  .bind_scopes fun _ => .bind_rule fun _ _ => Follows.classEntry.bind_pure fun _ _ => trivial

lemma follows_giveBack {id : FrameId} {frame : Frame} {value : Expr} (hid : C.holds id) :
    Follows C.rel (giveBack id frame value) fun _ => True := by
  unfold giveBack
  split
  · exact .pure trivial
  · refine .bind_types fun _ => .bind_rule fun _ _ => .bind_scopes fun _ => .bind_rule fun _ _ => ?_
    exact ⟨fun hσ => ⟨C.settle hσ hid, fun _ => trivial⟩⟩

lemma follows_closeFunction {head : FuncHead} :
    Follows C.rel (closeFunction head scope) fun _ => True :=
  .bind_scopes fun _ => .bind_rule fun _ _ => .bind_registered fun _ _ => .bind_rule fun _ _ =>
    .bind_types fun _ => .bind_rule fun _ _ => .pure trivial

lemma follows_closeClass {head : ClassHead} {c : ClassId} (hc : C.owns c) :
    Follows C.rel (closeClass head c scope) fun _ => True := by
  have hclose (members : Bindings) : Follows C.rel (changeClass c
      (·.updateClass · fun e => { e with members, finalized := true })) fun _ => True :=
    Follows.classEntry.bind fun _ _ => ⟨fun hσ => ⟨C.close hσ hc members, fun _ => trivial⟩⟩
  exact .bind_scopes fun _ => .bind_rule fun _ _ => (hclose _).bind fun _ _ => .bind_types fun _ =>
    Follows.classEntry.bind fun _ _ => .bind_rule fun _ _ => .pure trivial

def ExprFollows (C : AllowedChanges) (e : Expr) : Prop :=
  ∀ {scope}, C.sees scope → Follows C.rel (expr scope e) fun _ => True

/-- Looking at the statement makes only allowed changes, if the declarations have given it what it
needs. -/
def StmtFollows (C : AllowedChanges) (s : Stmt) : Prop :=
  ∀ {scope}, C.sees scope → (s.isVar = true → C.works scope) → C.given s →
    Follows C.rel (stmt scope s) fun _ => True

def ChainFollows (C : AllowedChanges) (ch : Chain) : Prop :=
  ∀ {scope}, C.sees scope → Follows C.rel (chain scope ch) fun _ => True

lemma follows_stmts {ss : List Stmt} (hscope : C.works scope) (hss : ∀ s ∈ ss, StmtFollows C s)
    (hgiven : ∀ s ∈ ss, C.given s) : Follows C.rel (stmts scope ss) fun _ => True := by
  induction ss with
  | nil => exact .pure trivial
  | cons s ss ih =>
    rw [List.forall_mem_cons] at hss hgiven
    rw [stmts]
    exact (hss.1 (C.seen hscope) (fun _ => hscope) hgiven.1).bind fun _ _ =>
      (ih hss.2 hgiven.2).bind_pure fun _ _ => trivial

/-- The statements of a block, after the rules for blocks: none of them is a declaration of a class
or function. -/
lemma follows_block {ss : List Stmt} {k : List Stmt → Check β} {goal : β → Prop}
    (hscope : C.works scope) (hss : ∀ s ∈ ss, StmtFollows C s)
    (hk : ∀ ss', Follows C.rel (k ss') goal) :
    Follows C.rel (blockRules ss >>= fun _ => stmts scope ss >>= k) goal :=
  .bind_rule fun _ hrules => (follows_stmts hscope hss fun s hs =>
    C.plain (Except.forM_eq_ok.mp hrules s hs)).bind fun ss' _ => hk ss'

lemma follows_var {head : VarHead} {init : Option Expr} (hscope : C.works scope)
    (hinit : ∀ e ∈ init, ExprFollows C e) : Follows C.rel (var scope head init) fun _ => True := by
  have declares (t : TypeId) : Follows C.rel (do
      declare scope (.ofVariable head.name t) head.span
      return { head with type := some t }) fun _ => True :=
    (follows_declare hscope (C.value rfl)).bind_pure fun _ _ => trivial
  have hdeclare (declared : Option TypeId) (init : Option Expr) :
      Follows C.rel (declareVar scope head declared init) fun _ => True := by
    cases declared with
    | none => exact declares _
    | some t =>
      cases init with
      | none => exact declares _
      | some e => exact .bind_types fun _ => .bind_rule fun _ _ => declares _
  cases init with
  | none =>
    rw [var]
    exact follows_typeOf?.bind fun _ _ => (hdeclare _ _).bind_pure fun _ _ => trivial
  | some e =>
    rw [var]
    exact follows_typeOf?.bind fun _ _ => (hinit e rfl (C.seen hscope)).bind fun _ _ =>
      (hdeclare _ _).bind_pure fun _ _ => trivial

section Scope

variable (hscope : C.sees scope)
include hscope

lemma follows_exprs {es : List Expr} (hes : ∀ e ∈ es, ExprFollows C e) :
    Follows C.rel (exprs scope es) fun _ => True := by
  induction es with
  | nil => exact .pure trivial
  | cons e es ih =>
    rw [List.forall_mem_cons] at hes
    rw [exprs]
    exact (hes.1 hscope).bind fun _ _ => (ih hes.2).bind_pure fun _ _ => trivial

lemma follows_entries {es : List (Expr × Expr)}
    (hes : ∀ e ∈ es, ExprFollows C e.1 ∧ ExprFollows C e.2) :
    Follows C.rel (entries scope es) fun _ => True := by
  induction es with
  | nil => exact .pure trivial
  | cons e es ih =>
    rw [List.forall_mem_cons] at hes
    rw [entries]
    exact (hes.1.1 hscope).bind fun _ _ => (hes.1.2 hscope).bind fun _ _ =>
      (ih hes.2).bind_pure fun _ _ => trivial

lemma follows_members {ms : List Stmt} (hms : ∀ s ∈ ms, StmtFollows C s)
    (hgiven : ∀ s ∈ ms, C.given s) : Follows C.rel (members scope ms) fun _ => True := by
  induction ms with
  | nil => exact .pure trivial
  | cons s ms ih =>
    rw [List.forall_mem_cons] at hms hgiven
    have hrest := ih hms.2 hgiven.2
    by_cases hvar : s.isVar = true
    · obtain ⟨head, init, rfl⟩ := Stmt.isVar_iff.mp hvar
      exact hrest.bind_pure fun _ _ => trivial
    · rw [members_cons (Bool.eq_false_iff.mpr hvar)]
      exact (hms.1 hscope (fun h => absurd h hvar) hgiven.1).bind fun _ _ =>
        hrest.bind_pure fun _ _ => trivial

lemma follows_openLambda {head : LambdaHead} :
    Follows C.rel (openLambda scope head) fun r => C.works r.1 := by
  unfold openLambda
  rw [← bind_assoc]
  exact (follows_openFunction hscope (C.settled rfl)).bind fun _ hbody =>
    (follows_params hbody).bind_pure fun _ _ => hbody

lemma follows_returnFrame {value : Option Expr} {span : Span} :
    Follows C.rel (returnFrame scope value span) fun r => C.holds r.1 := by
  refine ⟨fun {σ} hσ => .bind_scopes (.bind_rule hσ fun f hf => .bind_rule hσ fun _ _ =>
    .bind_rule hσ fun _ _ => .pure hσ ?_)⟩
  obtain ⟨s, hs, hf⟩ := Rule.inFunction_eq_ok.mp hf
  exact C.around hσ hscope hs hf

/-- The variable, the condition and the update of a loop belong to the scope of its body. -/
lemma follows_forLoop {init : Option (VarHead × Option Expr)} {c : Option Expr}
    {update : Option Stmt} {body : List Stmt} (hinit : ∀ i ∈ init, ∀ e ∈ i.2, ExprFollows C e)
    (hc : ∀ e ∈ c, ExprFollows C e) (hupdate : ∀ s ∈ update, StmtFollows C s)
    (hbody : ∀ s ∈ body, StmtFollows C s) (x : Extent) :
    Follows C.rel (stmt scope (.forLoop x init c update body)) fun _ => True := by
  rw [stmt]
  refine (follows_openBlock hscope (Or.inr rfl)).bind fun inner hinner => ?_
  have hloopInit : Follows C.rel (loopInit inner init) fun _ => True := by
    cases init with
    | none => exact .pure trivial
    | some i =>
      rw [loopInit, map_eq_pure_bind]
      exact (follows_var hinner (hinit i rfl)).bind_pure fun _ _ => trivial
  have hcondition : Follows C.rel (loopCondition inner c) fun _ => True := by
    cases c with
    | none => exact .pure trivial
    | some c =>
      rw [loopCondition]
      exact (hc c rfl (C.seen hinner)).bind fun _ _ => .bind_rule fun _ _ => .pure trivial
  have hloopUpdate : Follows C.rel (loopUpdate inner update) fun _ => True := by
    cases update with
    | none => exact .pure trivial
    | some s =>
      rw [loopUpdate, map_eq_pure_bind]
      exact .bind_rule fun _ hrule => (hupdate s rfl (C.seen hinner) (fun _ => hinner)
        (C.plain hrule)).bind_pure fun _ _ => trivial
  exact hloopInit.bind fun _ _ => hcondition.bind fun _ _ => hloopUpdate.bind fun _ _ =>
    follows_block hinner hbody fun _ => .pure trivial

end Scope

lemma tree_follows (C : AllowedChanges) :
    Tree.Walk (ExprFollows C) (StmtFollows C) (ChainFollows C) where
  leaf {e} he := by
    intro scope hscope
    cases e with
    | number | string | boolean | null => exact .pure trivial
    | name m n => exact follows_nameType.bind_pure fun _ _ => trivial
    | self m => exact follows_selfType.bind_pure fun _ _ => trivial
    | _ => cases he
  binary hl hr m op := by
    intro scope hscope
    rw [expr]
    exact (hl hscope).bind fun _ _ => (hr hscope).bind_pure fun _ _ => trivial
  unary he m op := by
    intro scope hscope
    rw [expr]
    exact (he hscope).bind fun _ _ => .bind_rule fun _ _ => .pure trivial
  step he m op := by
    intro scope hscope
    rw [expr]
    exact (he hscope).bind fun _ _ => .bind_rule fun _ _ => .pure trivial
  ternary hc hy hn m := by
    intro scope hscope
    rw [expr]
    exact (hc hscope).bind fun _ _ => .bind_rule fun _ _ => (hy hscope).bind fun _ _ =>
      (hn hscope).bind fun _ _ => .bind_types fun _ => .pure trivial
  call_name hargs m f n target := by
    intro scope hscope
    rw [expr]
    exact .bind_scopes fun _ => .bind_rule fun _ _ => .bind_rule fun _ _ =>
      follows_recordCall.bind fun _ _ => (follows_exprs hscope hargs).bind fun _ _ =>
        .bind_types fun _ => .bind_rule fun _ _ => .pure trivial
  call_member ho hargs m f n target := by
    intro scope hscope
    rw [expr]
    exact (ho hscope).bind fun _ _ => .bind_types fun _ => .bind_rule fun _ _ =>
      (follows_exprs hscope hargs).bind fun _ _ => .bind_types fun _ => .bind_rule fun _ _ =>
        .pure trivial
  call_computed hname hmember hf hargs m target := by
    intro scope hscope
    rw [expr_call hname hmember]
    exact (hf hscope).bind fun _ _ => .bind_types fun _ => .bind_rule fun _ _ =>
      (follows_exprs hscope hargs).bind_pure fun _ _ => trivial
  member ho m n := by
    intro scope hscope
    rw [expr]
    exact (ho hscope).bind fun _ _ => .bind_types fun _ => .bind_rule fun _ _ =>
      .bind_types fun _ => .pure trivial
  subscript ho hi m := by
    intro scope hscope
    rw [expr]
    exact (ho hscope).bind fun _ _ => .bind_types fun _ => .bind_rule fun _ _ =>
      (hi hscope).bind fun _ _ => .bind_types fun _ => .bind_rule fun _ _ => .pure trivial
  array hes m := by
    intro scope hscope
    rw [expr]
    exact (follows_exprs hscope hes).bind fun _ _ =>
      follows_addType.bind_pure fun _ _ => trivial
  dictionary hes m := by
    intro scope hscope
    rw [expr]
    exact (follows_entries hscope hes).bind fun _ _ =>
      follows_addType.bind_pure fun _ _ => trivial
  blockLambda hbody m head block := by
    intro scope hscope
    rw [expr]
    exact (follows_openLambda hscope).bind fun _ hinner =>
      follows_block hinner hbody fun _ => .pure trivial
  exprLambda hbody m head := by
    intro scope hscope
    rw [expr]
    exact (follows_openLambda hscope).bind fun _ hinner =>
      (hbody (C.seen hinner)).bind_pure fun _ _ => trivial
  var hinit head := by
    intro scope _ hscope _
    rw [stmt]
    exact (follows_var (hscope rfl) hinit).bind_pure fun _ _ => trivial
  assign ht hv span := by
    intro scope hscope _ _
    rw [stmt]
    exact (hv hscope).bind fun _ _ => .bind_rule fun _ _ => (ht hscope).bind fun _ _ =>
      .bind_types fun _ => .bind_rule fun _ _ => .pure trivial
  func hbody head := by
    intro scope _ _ hgiven
    rw [stmt]
    -- the declarations have given the function the scope of its body
    exact .bind_registered fun inner hinner => follows_block (C.func hgiven inner hinner) hbody
      fun _ => follows_closeFunction.bind_pure fun _ _ => trivial
  cls hms head := by
    intro scope _ _ hgiven
    rw [stmt]
    -- the members are looked at in the body that the declarations have opened
    refine .bind_registered fun c hc => .bind_registered fun inner hinner => ?_
    refine follows_note.bind fun _ _ => ?_
    exact (follows_members (C.seen (C.body hgiven inner hinner)) hms (C.members hgiven)).bind
      fun _ _ => (follows_closeClass (C.cls hgiven c hc)).bind_pure fun _ _ => trivial
  ctor hbody head := by
    intro scope _ _ hgiven
    rw [stmt]
    split
    · exact .throw
    · rename_i inner hinner
      exact follows_block (C.ctor hgiven inner hinner) hbody fun _ => .pure trivial
  ifElse hc hbody hrest x := by
    intro scope hscope _ _
    rw [stmt]
    exact (hc hscope).bind fun _ _ => .bind_rule fun _ _ =>
      (follows_openBlock hscope (Or.inl rfl)).bind fun _ hinner => follows_block hinner hbody
        fun _ => (hrest hscope).bind_pure fun _ _ => trivial
  whileLoop hc hbody x := by
    intro scope hscope _ _
    rw [stmt]
    exact (hc hscope).bind fun _ _ => .bind_rule fun _ _ =>
      (follows_openBlock hscope (Or.inr rfl)).bind fun _ hinner => follows_block hinner hbody
        fun _ => .pure trivial
  forLoop hinit hc hupdate hbody x := by
    intro scope hscope _ _
    exact follows_forLoop hscope hinit hc hupdate hbody x
  ret {v} hv span := by
    intro scope hscope _ _
    cases v with
    | none =>
      rw [stmt]
      exact (follows_returnFrame hscope).bind_pure fun _ _ => trivial
    | some e =>
      -- the value settles the frame around the scope of the return
      rw [stmt]
      exact (follows_returnFrame hscope).bind fun _ hid =>
        (hv e rfl hscope).bind fun _ _ => (follows_giveBack hid).bind_pure fun _ _ => trivial
  brk span := by
    intro scope _ _ _
    rw [stmt]
    exact .bind_scopes fun _ => .bind_rule fun _ _ => .pure trivial
  expr he := by
    intro scope hscope _ _
    rw [stmt]
    exact (he hscope).bind_pure fun _ _ => trivial
  done _ := .pure trivial
  elseIf hc hbody hrest x := by
    intro scope hscope
    rw [chain]
    exact (hc hscope).bind fun _ _ => .bind_rule fun _ _ =>
      (follows_openBlock hscope (Or.inl rfl)).bind fun _ hinner => follows_block hinner hbody
        fun _ => (hrest hscope).bind_pure fun _ _ => trivial
  otherwise hbody block := by
    intro scope hscope
    rw [chain]
    exact (follows_openBlock hscope (Or.inl rfl)).bind fun _ hinner =>
      follows_block hinner hbody fun _ => .pure trivial

lemma exprFollows (e : Expr) : ExprFollows C e := (tree_follows C).expr_holds e

lemma stmtFollows (s : Stmt) : StmtFollows C s := (tree_follows C).stmt_holds s

/-! ### Fields -/

lemma follows_memberFields {body : ScopeId} {ms : List Stmt} (hbody : C.works body)
    (hms : ∀ s ∈ ms, C.given s → Follows C.rel (classFields s) C.given)
    (hgiven : ∀ s ∈ ms, C.given s) :
    Follows C.rel (memberFields body ms) fun ms' => ∀ s ∈ ms', C.given s := by
  induction ms with
  | nil => exact .pure (List.forall_mem_nil _)
  | cons s ms ih =>
    rw [List.forall_mem_cons] at hms hgiven
    have hrest := ih hms.2 hgiven.2
    by_cases hs : s.isVar = true
    · obtain ⟨head, init, rfl⟩ := Stmt.isVar_iff.mp hs
      rw [memberFields]
      exact (follows_var hbody fun e _ => exprFollows e).bind fun _ _ => hrest.bind_pure fun _ h =>
        List.forall_mem_cons.mpr ⟨C.plain (u := ()) rfl, h⟩
    · rw [memberFields_cons (Bool.eq_false_iff.mpr hs)]
      exact (hms.1 hgiven.1).bind fun _ hs' =>
        hrest.bind_pure fun _ h => List.forall_mem_cons.mpr ⟨hs', h⟩

/-- The fields of a class are declared in its body. -/
lemma follows_classFields (s : Stmt) (hgiven : C.given s) :
    Follows C.rel (classFields s) C.given := by
  induction s using Stmt.members_induction with
  | other s hs =>
    rw [classFields_eq_pure hs]
    exact .pure hgiven
  | cls head ms ih =>
    rw [classFields]
    refine .bind_registered fun body hscope => ?_
    refine (follows_memberFields (C.body hgiven body hscope) ih (C.members hgiven)).bind
      fun ms' hms' => ?_
    exact follows_note.bind_pure fun _ _ => C.renew hgiven hms'

end Check

end MiddleEnd
