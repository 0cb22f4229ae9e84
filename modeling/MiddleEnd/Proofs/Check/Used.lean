import MiddleEnd.Proofs.Check.StepsMayFail

/-!
The walk through a program leads on, whether it succeeds or not; so all sessions in which programs
have been looked at one after another are in order.
-/

namespace MiddleEnd

variable {β : Type} {Φ : Cell → Prop} {σ τ : Session} {scope : ScopeId}

/-! ### What statements may change -/

def Stmt.varName? : Stmt → Option String
  | .var head _ => some head.name
  | _ => none

/-- The members of the class may be taken from its body: they may change, or they are the names of
the body already. -/
def Session.Closing (Φ : Cell → Prop) (σ : Session) (c : ClassId) (body : ScopeId) : Prop :=
  ∀ n, Φ (.member c n) ∨ ¬Φ (.name body n) ∧ ∃ e s, σ.types.class? c = some e ∧
    σ.scopes.scope? body = some s ∧ s.bindings.find? n = e.members.find? n

lemma Session.Closing.mono {c : ClassId} {body : ScopeId} (h : σ.Closing Φ c body)
    (hτ : σ.Continues Φ τ) : τ.Closing Φ c body := by
  intro n
  by_cases hn : Φ (.member c n)
  · exact Or.inl hn
  · obtain ⟨hname, e, s, he, hs, heq⟩ := (h n).resolve_left hn
    obtain ⟨e', he', hkeeps⟩ := hτ.cls he
    obtain ⟨s', hs', hkeeps'⟩ := hτ.scope hs
    refine Or.inr ⟨hname, e', s', he', hs', ?_⟩
    rw [hkeeps'.names n hname, heq, hkeeps.members n hn]

mutual
/-- What a statement has been given by the declarations may change: the bodies of functions, and the
members of classes. -/
def Stmt.Claims (Φ : Cell → Prop) (σ : Session) : Stmt → Prop
  | .func head _ => ∀ body ∈ head.scope, σ.Open Φ body
  | .ctor head _ => ∀ body ∈ head.scope, σ.Open Φ body
  | .cls head ms => (∀ c ∈ head.cls, ∀ body ∈ head.scope, σ.Closing Φ c body) ∧
    (∀ body ∈ head.scope, σ.Returning Φ body) ∧ Stmt.ClaimsList Φ σ ms
  | _ => True

def Stmt.ClaimsList (Φ : Cell → Prop) (σ : Session) : List Stmt → Prop
  | [] => True
  | s :: ss => s.Claims Φ σ ∧ Stmt.ClaimsList Φ σ ss
end

namespace Stmt

lemma claimsList_iff {ss : List Stmt} : ClaimsList Φ σ ss ↔ ∀ s ∈ ss, s.Claims Φ σ := by
  induction ss with
  | nil => exact ⟨fun _ => nofun, fun _ => trivial⟩
  | cons s ss ih => rw [ClaimsList, ih, List.forall_mem_cons]

lemma Claims.mono {s : Stmt} (h : s.Claims Φ σ) (hτ : σ.Continues Φ τ) : s.Claims Φ τ := by
  induction s using Stmt.members_induction with
  | other s hs =>
    cases s with
    | func head body => exact fun body hbody => (h body hbody).mono hτ
    | ctor head body => exact fun body hbody => (h body hbody).mono hτ
    | cls head ms => cases hs
    | _ => trivial
  | cls head ms ih =>
    obtain ⟨hclosing, hreturning, hms⟩ := h
    refine ⟨fun c hc body hbody => (hclosing c hc body hbody).mono hτ,
      fun body hbody => (hreturning body hbody).mono hτ, ?_⟩
    rw [claimsList_iff] at hms ⊢
    exact fun s hs => ih s hs (hms s hs)

lemma claimsList_mono {ss : List Stmt} (h : ClaimsList Φ σ ss) (hτ : σ.Continues Φ τ) :
    ClaimsList Φ τ ss := by
  rw [claimsList_iff] at h ⊢
  exact fun s hs => (h s hs).mono hτ

/-- What may stand in a block has been given nothing. -/
lemma claims_of_blockStmt {s : Stmt} {u : Unit} (h : Rule.blockStmt s = .ok u) : s.Claims Φ σ := by
  cases s with
  | func | ctor | cls => cases h
  | _ => trivial

end Stmt

namespace Check

open TypeTable (registered_any)

/-! ### Calls and members -/

section Registered

variable {t : TypeTable} {args : List Expr} {span : Span} {name : String} {r : CallTarget × TypeId}

lemma registered_instantiate (ht : t.Assembled) {c : ClassId}
    (h : Call.instantiate t c args span = .ok r) : t.Registered r.2 := by
  unfold Call.instantiate at h
  obtain ⟨e, he, h⟩ := Except.bind_eq_ok.mp h
  obtain ⟨_, -, h⟩ := Except.bind_eq_ok.mp h
  cases h
  exact (ht.known (TypeTable.classEntry_eq_ok.mp he)).type

lemma registered_named (ht : t.Assembled) {b : Binding} (hb : b.Valid t)
    (h : Call.named t b args span = .ok r) : t.Registered r.2 := by
  unfold Call.named at h
  split at h
  · rename_i sig hk
    obtain ⟨_, -, h⟩ := Except.bind_eq_ok.mp h
    cases h
    exact (hb.signature hk).1
  · exact registered_instantiate ht h
  · cases h
    exact registered_any

lemma registered_method (ht : t.Assembled) {c : ClassId}
    (h : Call.method t c name args span = .ok r) : t.Registered r.2 := by
  unfold Call.method at h
  obtain ⟨e, he, h⟩ := Except.bind_eq_ok.mp h
  have hknown := ht.known (TypeTable.classEntry_eq_ok.mp he)
  split at h
  · cases h
  · rename_i b hb
    obtain ⟨_, -, h⟩ := Except.bind_eq_ok.mp h
    split at h
    · rename_i sig hk
      obtain ⟨_, -, h⟩ := Except.bind_eq_ok.mp h
      cases h
      exact ((hknown.members hb).signature hk).1
    · exact registered_instantiate ht h
    · cases h
      exact registered_any

lemma registered_callMember (ht : t.Assembled) {object : TypeId}
    (h : Call.member t object name args span = .ok r) : t.Registered r.2 := by
  unfold Call.member at h
  split at h
  · exact registered_method ht h
  · cases h
    exact registered_any
  · obtain ⟨_, -, h⟩ := Except.bind_eq_ok.mp h
    cases h
    exact registered_any

lemma registered_memberType (ht : t.Assembled) {object : TypeId} :
    t.Registered (t.memberType object name) := by
  unfold TypeTable.memberType
  split
  · split
    · rename_i b hb
      obtain ⟨e, he, hb⟩ := Option.bind_eq_some_iff.mp hb
      split
      · exact ((ht.known he).members hb).type
      · exact registered_any
    · exact registered_any
  · exact TypeTable.registered_builtinMember?

lemma registered_subscriptType (ht : t.Assembled) {o i : Expr} {ty : TypeId}
    (h : subscriptType t o i = .ok ty) : t.Registered ty := by
  unfold subscriptType at h
  split at h
  · rename_i element hf
    obtain ⟨_, -, h⟩ := Except.bind_eq_ok.mp h
    cases h
    exact (ht.wellFormed.part_lt hf (by simp [TypeForm.parts])).1
  · rename_i key value hf
    obtain ⟨_, -, h⟩ := Except.bind_eq_ok.mp h
    cases h
    exact (ht.wellFormed.part_lt hf (by simp [TypeForm.parts])).1
  · cases h
    exact registered_any

end Registered

/-! ### The walk -/

/-- Looking at an expression leads on and gives it a type that is there. It changes nothing that was
there. -/
def ExprLeads (Φ : Cell → Prop) (e : Expr) : Prop :=
  ∀ {scope σ}, σ.Assembled → σ.Room Φ → Leads (Session.Continues Φ) (expr scope e) σ
    fun e' τ => τ.types.Registered e'.type

/-- Looking at a statement leads on. It may declare a name in its scope, give back from the function
around it, and change the bodies that it has been given. -/
def StmtLeads (Φ : Cell → Prop) (s : Stmt) : Prop :=
  ∀ {scope σ}, σ.Assembled → σ.Room Φ → σ.Returning Φ scope →
    (∀ n ∈ s.varName?, σ.Declaring Φ scope n) → s.Claims Φ σ →
    Leads (Session.Continues Φ) (stmt scope s) σ fun _ _ => True

def ChainLeads (Φ : Cell → Prop) (ch : Chain) : Prop :=
  ∀ {scope σ}, σ.Assembled → σ.Room Φ → σ.Returning Φ scope →
    Leads (Session.Continues Φ) (chain scope ch) σ fun _ _ => True

lemma leads_nameType {name : String} {span : Span} (hσ : σ.Assembled) :
    Leads (Session.Continues Φ) (nameType scope name span) σ fun t τ => τ.types.Registered t := by
  refine .bind_scopes (.bind_rule hσ.stay fun b hb => ?_)
  obtain ⟨id, hid⟩ := Scopes.exists_of_resolve hb
  split
  · exact .pure hσ.stay (hσ.bindings hid).type
  · exact .pure hσ.stay (hσ.bindings hid).type
  · exact (leads_recordCall hσ).bind_pure fun _ _ _ _ => registered_any
  · exact .pure hσ.stay registered_any
  · exact .throw hσ.stay

lemma leads_selfType {span : Span} (hσ : σ.Assembled) :
    Leads (Session.Continues Φ) (selfType scope span) σ fun t τ => τ.types.Registered t := by
  refine .bind_scopes (.bind_rule hσ.stay fun c _ => ?_)
  refine (Leads.classEntry hσ.stay).bind_pure ?_
  rintro e _ - ⟨rfl, he⟩
  exact (hσ.types.known he).type

lemma leads_exprs {es : List Expr} (hes : ∀ e ∈ es, ExprLeads Φ e) (hσ : σ.Assembled)
    (hroom : σ.Room Φ) : Leads (Session.Continues Φ) (exprs scope es) σ
      fun es' τ => ∀ t ∈ es'.map Expr.type, τ.types.Registered t := by
  induction es generalizing σ with
  | nil => exact .pure hσ.stay nofun
  | cons e es ih =>
    rw [List.forall_mem_cons] at hes
    rw [exprs]
    refine (hes.1 hσ hroom).bind fun e' σ1 h1 he => ?_
    refine (ih hes.2 h1.assembled (hroom.mono h1)).bind_pure fun rest σ2 h2 hrest => ?_
    rw [List.map_cons, List.forall_mem_cons]
    exact ⟨he.mono h2.forms, hrest⟩

lemma leads_entries {es : List (Expr × Expr)}
    (hes : ∀ e ∈ es, ExprLeads Φ e.1 ∧ ExprLeads Φ e.2) (hσ : σ.Assembled) (hroom : σ.Room Φ) :
    Leads (Session.Continues Φ) (entries scope es) σ fun es' τ =>
      (∀ t ∈ es'.map (·.1.type), τ.types.Registered t) ∧
        ∀ t ∈ es'.map (·.2.type), τ.types.Registered t := by
  induction es generalizing σ with
  | nil => exact .pure hσ.stay ⟨nofun, nofun⟩
  | cons e es ih =>
    rw [List.forall_mem_cons] at hes
    rw [entries]
    refine (hes.1.1 hσ hroom).bind fun k σ1 h1 hk => ?_
    refine (hes.1.2 h1.assembled (hroom.mono h1)).bind fun v σ2 h2 hv => ?_
    refine (ih hes.2 h2.assembled (hroom.mono (h1.trans h2))).bind_pure fun rest σ3 h3 hrest => ?_
    rw [List.map_cons, List.map_cons, List.forall_mem_cons, List.forall_mem_cons]
    exact ⟨⟨hk.mono (h2.forms.trans h3.forms), hrest.1⟩, hv.mono h3.forms, hrest.2⟩

lemma leads_openLambda {head : LambdaHead} (hσ : σ.Assembled) (hroom : σ.Room Φ) :
    Leads (Session.Continues Φ) (openLambda scope head) σ fun r τ => τ.Open Φ r.1 := by
  unfold openLambda
  rw [← bind_assoc]
  refine (leads_openFunction hσ hroom).bind fun body σ1 h1 hbody => ?_
  exact (leads_params h1.assembled hbody.declaring).bind_pure fun _ _ h2 _ => hbody.mono h2

lemma leads_stmts {ss : List Stmt} (hss : ∀ s ∈ ss, StmtLeads Φ s) (hσ : σ.Assembled)
    (hroom : σ.Room Φ) (hscope : σ.Open Φ scope) (hclaims : Stmt.ClaimsList Φ σ ss) :
    Leads (Session.Continues Φ) (stmts scope ss) σ fun _ _ => True := by
  induction ss generalizing σ with
  | nil => exact .pure hσ.stay trivial
  | cons s ss ih =>
    rw [List.forall_mem_cons] at hss
    obtain ⟨hs, hrest⟩ := hclaims
    rw [stmts]
    exact (hss.1 hσ hroom hscope.returning (fun n _ => hscope.declaring n) hs).bind
      fun s' σ1 h1 _ => (ih hss.2 h1.assembled (hroom.mono h1) (hscope.mono h1)
        (Stmt.claimsList_mono hrest h1)).bind_pure fun _ _ _ _ => trivial

/-- The statements of a block, after the rules for blocks: none of them is a declaration of a class
or function. -/
lemma leads_block {ss : List Stmt} (hss : ∀ s ∈ ss, StmtLeads Φ s) (hσ : σ.Assembled)
    (hroom : σ.Room Φ) (hscope : σ.Open Φ scope) :
    Leads (Session.Continues Φ) (block scope ss) σ fun _ _ => True :=
  .bind_rule hσ.stay fun _ hrules => leads_stmts hss hσ hroom hscope
    (Stmt.claimsList_iff.mpr fun s hs =>
      Stmt.claims_of_blockStmt (Except.forM_eq_ok.mp hrules s hs))

lemma leads_inner {kind : ScopeKind} {ss : List Stmt} (hss : ∀ s ∈ ss, StmtLeads Φ s)
    (hσ : σ.Assembled) (hroom : σ.Room Φ) (hreturning : σ.Returning Φ scope)
    (hkind : kind = .block ∨ kind = .loop) :
    Leads (Session.Continues Φ) (inner scope kind ss) σ fun _ _ => True :=
  (leads_openBlock hσ hroom hreturning hkind).bind fun _ _ h1 hid =>
    leads_block hss h1.assembled (hroom.mono h1) hid

lemma leads_arm {role : String} {kind : ScopeKind} {c : Expr} {ss : List Stmt}
    (hc : ExprLeads Φ c) (hss : ∀ s ∈ ss, StmtLeads Φ s) (hσ : σ.Assembled) (hroom : σ.Room Φ)
    (hreturning : σ.Returning Φ scope) (hkind : kind = .block ∨ kind = .loop) :
    Leads (Session.Continues Φ) (arm scope role kind c ss) σ fun _ _ => True := by
  refine (hc hσ hroom).bind fun c' σ1 h1 _ => .bind_rule h1.assembled.stay fun _ _ => ?_
  exact (leads_inner hss h1.assembled (hroom.mono h1) (hreturning.mono h1) hkind).bind_pure
    fun _ _ _ _ => trivial

lemma leads_members {ms : List Stmt} (hms : ∀ s ∈ ms, StmtLeads Φ s) (hσ : σ.Assembled)
    (hroom : σ.Room Φ) (hreturning : σ.Returning Φ scope) (hclaims : Stmt.ClaimsList Φ σ ms) :
    Leads (Session.Continues Φ) (members scope ms) σ fun _ _ => True := by
  induction ms generalizing σ with
  | nil => exact .pure hσ.stay trivial
  | cons s ms ih =>
    rw [List.forall_mem_cons] at hms
    obtain ⟨hs, hrest⟩ := hclaims
    by_cases hvar : s.isVar = true
    · obtain ⟨head, init, rfl⟩ := Stmt.isVar_iff.mp hvar
      exact (ih hms.2 hσ hroom hreturning hrest).bind_pure fun _ _ _ _ => trivial
    · rw [members_cons (Bool.eq_false_iff.mpr hvar)]
      have hnone : s.varName? = none := by
        cases s with
        | var => exact absurd rfl hvar
        | _ => rfl
      exact (hms.1 hσ hroom hreturning (by simp [hnone]) hs).bind fun s' σ1 h1 _ =>
        (ih hms.2 h1.assembled (hroom.mono h1) (hreturning.mono h1)
          (Stmt.claimsList_mono hrest h1)).bind_pure fun _ _ _ _ => trivial

/-! ### Parts of statements -/

lemma leads_declareVar {head : VarHead} {declared : Option TypeId} {init : Option Expr}
    (hσ : σ.Assembled) (hdeclaring : σ.Declaring Φ scope head.name)
    (hd : σ.types.Registered (declared.getD .any)) (hi : ∀ e ∈ init, σ.types.Registered e.type) :
    Leads (Session.Continues Φ) (declareVar scope head declared init) σ fun _ _ => True := by
  have declares {t : TypeId} (ht : σ.types.Registered t) : Leads (Session.Continues Φ) (do
      declare scope (.ofVariable head.name t) head.span
      return { head with type := some t }) σ fun _ _ => True :=
    (leads_declare hσ (Binding.valid_of_isValue ht rfl) (Binding.present_of_isValue rfl)
      hdeclaring).bind_pure
      fun _ _ _ _ => trivial
  cases declared with
  | none =>
    refine declares ?_
    cases init with
    | none => exact registered_any
    | some e => exact hi e rfl
  | some t =>
    cases init with
    | none => exact declares hd
    | some e => exact .bind_types (.bind_rule hσ.stay fun _ _ => declares hd)

lemma leads_var {head : VarHead} {init : Option Expr} (hinit : ∀ e ∈ init, ExprLeads Φ e)
    (hσ : σ.Assembled) (hroom : σ.Room Φ) (hdeclaring : σ.Declaring Φ scope head.name) :
    Leads (Session.Continues Φ) (var scope head init) σ fun _ _ => True := by
  cases init with
  | none =>
    rw [var]
    refine (leads_typeOf? hσ).bind fun t σ1 h1 ht => ?_
    exact (leads_declareVar h1.assembled (hdeclaring.mono h1) ht (by simp)).bind_pure
      fun _ _ _ _ => trivial
  | some e =>
    rw [var]
    refine (leads_typeOf? hσ).bind fun t σ1 h1 ht => ?_
    refine (hinit e rfl h1.assembled (hroom.mono h1)).bind fun e' σ2 h2 he => ?_
    exact (leads_declareVar h2.assembled (hdeclaring.mono (h1.trans h2)) (ht.mono h2.forms)
      (by rintro _ ⟨⟩; exact he)).bind_pure fun _ _ _ _ => trivial

lemma leads_loopInit {init : Option (VarHead × Option Expr)}
    (hinit : ∀ i ∈ init, ∀ e ∈ i.2, ExprLeads Φ e) (hσ : σ.Assembled) (hroom : σ.Room Φ)
    (hscope : σ.Open Φ scope) :
    Leads (Session.Continues Φ) (loopInit scope init) σ fun _ _ => True := by
  cases init with
  | none => exact .pure hσ.stay trivial
  | some i =>
    rw [loopInit, map_eq_pure_bind]
    exact (leads_var (hinit i rfl) hσ hroom (hscope.declaring _)).bind_pure fun _ _ _ _ => trivial

lemma leads_loopCondition {c : Option Expr} (hc : ∀ e ∈ c, ExprLeads Φ e) (hσ : σ.Assembled)
    (hroom : σ.Room Φ) :
    Leads (Session.Continues Φ) (loopCondition scope c) σ fun _ _ => True := by
  cases c with
  | none => exact .pure hσ.stay trivial
  | some c =>
    rw [loopCondition]
    exact (hc c rfl hσ hroom).bind fun c' σ1 h1 _ =>
      .bind_rule h1.assembled.stay fun _ _ => .pure h1.assembled.stay trivial

lemma leads_loopUpdate {update : Option Stmt} (hupdate : ∀ s ∈ update, StmtLeads Φ s)
    (hσ : σ.Assembled) (hroom : σ.Room Φ) (hscope : σ.Open Φ scope) :
    Leads (Session.Continues Φ) (loopUpdate scope update) σ fun _ _ => True := by
  cases update with
  | none => exact .pure hσ.stay trivial
  | some s =>
    rw [loopUpdate, map_eq_pure_bind]
    exact .bind_rule hσ.stay fun _ hrule => (hupdate s rfl hσ hroom hscope.returning
      (fun n _ => hscope.declaring n) (Stmt.claims_of_blockStmt hrule)).bind_pure
        fun _ _ _ _ => trivial

/-- The frame that is returned from is the one around the scope. -/
lemma leads_returnFrame {value : Option Expr} {span : Span} (hσ : σ.Assembled)
    (hreturning : σ.Returning Φ scope) :
    Leads (Session.Continues Φ) (returnFrame scope value span) σ
      fun r _ => Φ (.settled r.1) := by
  refine .bind_scopes (.bind_rule hσ.stay fun f hf => .bind_rule hσ.stay fun _ _ =>
    .bind_rule hσ.stay fun _ _ => .pure hσ.stay ?_)
  obtain ⟨s, hs, hf⟩ := Rule.inFunction_eq_ok.mp hf
  refine (hreturning f).resolve_right fun ⟨s', hs', hframe⟩ => hframe ?_
  cases hs.symm.trans hs'
  exact hf

lemma continues_settle {id : FrameId} (hσ : σ.Assembled) (hid : Φ (.settled id)) :
    σ.Continues Φ { σ with scopes := σ.scopes.settle id true } := by
  have hframe {f : FrameId} {g : Frame} (hg : σ.scopes.frame? f = some g) :
      ∃ g', (σ.scopes.settle id true).frame? f = some g' ∧ g.Keeps Φ f g' := by
    rw [Scopes.frame?_settle, hg]
    refine ⟨_, rfl, ?_⟩
    split
    · rename_i hf
      exact ⟨rfl, rfl, rfl, fun hn => absurd (hf ▸ hid) hn⟩
    · exact .refl _ _
  refine hσ.withScopes (hσ.scopes.withFrames rfl fun hg => ?_) (fun hs => ⟨_, hs, .refl _ _⟩) hframe
  obtain ⟨g', hg', -⟩ := hframe hg
  exact ⟨g', hg'⟩

lemma leads_giveBack {id : FrameId} {frame : Frame} {value : Expr} (hσ : σ.Assembled)
    (hid : Φ (.settled id)) :
    Leads (Session.Continues Φ) (giveBack id frame value) σ fun _ _ => True := by
  unfold giveBack
  split
  · exact .pure hσ.stay trivial
  · refine .bind_types (.bind_rule hσ.stay fun _ _ => .bind_scopes
      (.bind_rule hσ.stay fun _ _ => ?_))
    exact (leads_updateScopes (continues_settle hσ hid)).mono fun _ _ _ _ => trivial

lemma leads_closeFunction {head : FuncHead} (hσ : σ.Assembled) :
    Leads (Session.Continues Φ) (closeFunction head scope) σ fun _ _ => True :=
  .bind_scopes (.bind_rule hσ.stay fun _ _ => .bind_registered hσ.stay fun _ _ =>
    .bind_rule hσ.stay fun _ _ => .bind_types (.bind_rule hσ.stay fun _ _ => .pure hσ.stay trivial))

/-- The members of a class that is closed are the names of its body. -/
lemma leads_closeClass {head : ClassHead} {c : ClassId} (hσ : σ.Assembled)
    (hclosing : σ.Closing Φ c scope) :
    Leads (Session.Continues Φ) (closeClass head c scope) σ fun _ _ => True := by
  refine .bind_scopes (.bind_rule hσ.stay fun s hs => ?_)
  have hs' := Scopes.scope_eq_ok.mp hs
  have hbinding {n : String} {b : Binding} (hb : s.bindings.find? n = some b) :
      σ.scopes.bindingAt? n scope = some b := Scopes.bindingAt?_eq_some.mpr ⟨s, hs', hb⟩
  refine (leads_changeClass hσ (.close hσ.types c fun hb => hσ.bindings (hbinding hb))
    (fun e he => ⟨rfl, rfl, fun n hn => ?_, fun _ => rfl, fun _ => rfl, fun _ => rfl⟩) hσ.bodies
    fun _ hb => hσ.scopes.present (hbinding hb)).bind fun _ σ1 h1 _ => .bind_types ?_
  · obtain ⟨-, e', s', he', hs'', heq⟩ := (hclosing n).resolve_left hn
    cases he.symm.trans he'
    cases hs'.symm.trans hs''
    exact heq
  · exact (Leads.classEntry h1.assembled.stay).bind fun e σ2 h2 _ =>
      .bind_rule h2.assembled.stay fun _ _ => .pure h2.assembled.stay trivial

/-! ### Expressions and statements -/

lemma ExprLeads.leaf {e : Expr} (h : e.isLeaf = true) : ExprLeads Φ e := by
  intro scope σ hσ hroom
  cases e with
  | number m v => exact .pure hσ.stay ⟨.number, rfl⟩
  | string m v => exact .pure hσ.stay ⟨.string, rfl⟩
  | boolean m v => exact .pure hσ.stay ⟨.boolean, rfl⟩
  | null m => exact .pure hσ.stay ⟨.null, rfl⟩
  | name m n => exact (leads_nameType hσ).bind_pure fun t τ _ ht => ht
  | self m => exact (leads_selfType hσ).bind_pure fun t τ _ ht => ht
  | _ => cases h

lemma ExprLeads.ternary {c y n : Expr} (hc : ExprLeads Φ c) (hy : ExprLeads Φ y)
    (hn : ExprLeads Φ n) (m : Mark) : ExprLeads Φ (.ternary m c y n) := by
  intro scope σ hσ hroom
  rw [Check.expr]
  refine (hc hσ hroom).bind fun c' σ1 h1 _ => .bind_rule h1.assembled.stay fun _ _ => ?_
  refine (hy h1.assembled (hroom.mono h1)).bind fun y' σ2 h2 hty => ?_
  refine (hn h2.assembled (hroom.mono (h1.trans h2))).bind fun n' σ3 h3 _ =>
    .bind_types (.pure h3.assembled.stay ?_)
  show σ3.types.Registered (if σ3.types.sameType y'.type n'.type then y'.type else .any)
  split
  · exact hty.mono h3.forms
  · exact registered_any

lemma ExprLeads.call_name {args : List Expr} (hargs : ∀ e ∈ args, ExprLeads Φ e) (m f : Mark)
    (n : String) (target : Option CallTarget) : ExprLeads Φ (.call m (.name f n) args target) := by
  intro scope σ hσ hroom
  rw [Check.expr]
  refine .bind_scopes (.bind_rule hσ.stay fun b hb => .bind_rule hσ.stay fun _ _ => ?_)
  obtain ⟨id, hid⟩ := Scopes.exists_of_resolve hb
  refine (leads_recordCall hσ).bind fun _ σ1 h1 _ => ?_
  refine (leads_exprs hargs h1.assembled (hroom.mono h1)).bind fun args' σ2 h2 _ => .bind_types ?_
  refine .bind_rule h2.assembled.stay fun r hcall => ?_
  obtain ⟨g, t⟩ := r
  refine .pure h2.assembled.stay ?_
  exact registered_named h2.assembled.types
    ((hσ.bindings hid).mono (h1.forms.trans h2.forms)) hcall

lemma StmtLeads.cls {ms : List Stmt} (hms : ∀ s ∈ ms, StmtLeads Φ s) (head : ClassHead) :
    StmtLeads Φ (.cls head ms) := by
  intro scope σ hσ hroom _ _ hclaims
  obtain ⟨hclosing, hreturning, hmembers⟩ := hclaims
  rw [stmt]
  refine .bind_registered hσ.stay fun c hc => .bind_registered hσ.stay fun inner hinner => ?_
  refine (leads_note hσ).bind fun _ σ1 h1 _ => ?_
  refine (leads_members hms h1.assembled (hroom.mono h1) ((hreturning inner hinner).mono h1)
    (Stmt.claimsList_mono hmembers h1)).bind fun ms' σ2 h2 _ => ?_
  exact (leads_closeClass h2.assembled ((hclosing c hc inner hinner).mono (h1.trans h2))).bind_pure
    fun _ _ _ _ => trivial

lemma StmtLeads.forLoop {init : Option (VarHead × Option Expr)} {c : Option Expr}
    {update : Option Stmt} {body : List Stmt} (hinit : ∀ i ∈ init, ∀ e ∈ i.2, ExprLeads Φ e)
    (hc : ∀ e ∈ c, ExprLeads Φ e) (hupdate : ∀ s ∈ update, StmtLeads Φ s)
    (hbody : ∀ s ∈ body, StmtLeads Φ s) (x : Extent) :
    StmtLeads Φ (.forLoop x init c update body) := by
  intro scope σ hσ hroom hreturning _ _
  rw [stmt_forLoop]
  refine (leads_openBlock hσ hroom hreturning (Or.inr rfl)).bind fun id σ1 h1 hinner => ?_
  have hroom1 := hroom.mono h1
  refine (leads_loopInit hinit h1.assembled hroom1 hinner).bind fun init' σ2 h2 _ => ?_
  refine (leads_loopCondition hc h2.assembled (hroom1.mono h2)).bind fun c' σ3 h3 _ => ?_
  have h13 := h2.trans h3
  refine (leads_loopUpdate hupdate h3.assembled (hroom1.mono h13) (hinner.mono h13)).bind
    fun update' σ4 h4 _ => ?_
  have h14 := h13.trans h4
  exact (leads_block hbody h4.assembled (hroom1.mono h14) (hinner.mono h14)).bind_pure
    fun _ _ _ _ => trivial

lemma StmtLeads.ret {v : Option Expr} (hv : ∀ e ∈ v, ExprLeads Φ e) (span : Span) :
    StmtLeads Φ (.ret span v) := by
  intro scope σ hσ hroom hreturning _ _
  cases v with
  | none =>
    rw [stmt]
    exact (leads_returnFrame hσ hreturning).bind_pure fun _ _ _ _ => trivial
  | some e =>
    rw [stmt]
    refine (leads_returnFrame hσ hreturning).bind fun r σ1 h1 hid => ?_
    obtain ⟨id, frame⟩ := r
    refine (hv e rfl h1.assembled (hroom.mono h1)).bind fun e' σ2 h2 _ => ?_
    exact (leads_giveBack h2.assembled hid).bind_pure fun _ _ _ _ => trivial

lemma tree_leads (Φ : Cell → Prop) : Tree.Walk (ExprLeads Φ) (StmtLeads Φ) (ChainLeads Φ) where
  leaf := ExprLeads.leaf
  binary hl hr _ op := by
    intro scope σ hσ hroom
    rw [Check.expr]
    refine (hl hσ hroom).bind fun l' σ1 h1 htl => ?_
    refine (hr h1.assembled (hroom.mono h1)).bind_pure fun r' σ2 h2 htr => ?_
    show σ2.types.Registered (if op.isArithmetic then l'.type else .boolean)
    split
    · exact htl.mono h2.forms
    · exact ⟨.boolean, rfl⟩
  unary he _ _ := by
    intro scope σ hσ hroom
    rw [Check.expr]
    exact (he hσ hroom).bind fun e' σ1 h1 ht =>
      .bind_rule h1.assembled.stay fun _ _ => .pure h1.assembled.stay ht
  step he _ _ := by
    intro scope σ hσ hroom
    rw [Check.expr]
    exact (he hσ hroom).bind fun e' σ1 h1 ht =>
      .bind_rule h1.assembled.stay fun _ _ => .pure h1.assembled.stay ht
  ternary := ExprLeads.ternary
  call_name := ExprLeads.call_name
  call_member ho hargs _ _ _ _ := by
    intro scope σ hσ hroom
    rw [Check.expr]
    refine (ho hσ hroom).bind fun o' σ1 h1 _ => .bind_types
      (.bind_rule h1.assembled.stay fun _ _ => ?_)
    refine (leads_exprs hargs h1.assembled (hroom.mono h1)).bind fun args' σ2 h2 _ => .bind_types ?_
    refine .bind_rule h2.assembled.stay fun r hcall => ?_
    obtain ⟨g, t⟩ := r
    exact .pure h2.assembled.stay (registered_callMember h2.assembled.types hcall)
  call_computed hname hmember hf hargs _ _ := by
    intro scope σ hσ hroom
    rw [Check.expr_call hname hmember]
    refine (hf hσ hroom).bind fun f' σ1 h1 _ => .bind_types
      (.bind_rule h1.assembled.stay fun _ _ => ?_)
    exact (leads_exprs hargs h1.assembled (hroom.mono h1)).bind_pure fun _ _ _ _ => registered_any
  member ho _ _ := by
    intro scope σ hσ hroom
    rw [Check.expr]
    refine (ho hσ hroom).bind fun o' σ1 h1 _ => .bind_types
      (.bind_rule h1.assembled.stay fun _ _ => ?_)
    exact .bind_types (.pure h1.assembled.stay (registered_memberType h1.assembled.types))
  subscript ho hi _ := by
    intro scope σ hσ hroom
    rw [Check.expr]
    refine (ho hσ hroom).bind fun o' σ1 h1 _ => .bind_types
      (.bind_rule h1.assembled.stay fun _ _ => ?_)
    refine (hi h1.assembled (hroom.mono h1)).bind fun i' σ2 h2 _ => .bind_types ?_
    exact .bind_rule h2.assembled.stay fun t ht => .pure h2.assembled.stay
      (registered_subscriptType h2.assembled.types ht)
  array hes _ := by
    intro scope σ hσ hroom
    rw [Check.expr]
    refine (leads_exprs hes hσ hroom).bind fun es' σ1 h1 hts => ?_
    refine (leads_addType h1.assembled rfl ?_).bind_pure fun t τ _ ht => ht
    simpa [TypeForm.parts] using TypeTable.registered_common hts
  dictionary hes _ := by
    intro scope σ hσ hroom
    rw [Check.expr]
    refine (leads_entries hes hσ hroom).bind fun es' σ1 h1 hts => ?_
    refine (leads_addType h1.assembled rfl ?_).bind_pure fun t τ _ ht => ht
    simpa [TypeForm.parts] using
      ⟨TypeTable.registered_common hts.1, TypeTable.registered_common hts.2⟩
  blockLambda hbody _ _ _ := by
    intro scope σ hσ hroom
    rw [expr_blockLambda]
    refine (leads_openLambda hσ hroom).bind fun r σ1 h1 hid => ?_
    exact (leads_block hbody h1.assembled (hroom.mono h1) hid).bind_pure
      fun _ _ _ _ => registered_any
  exprLambda hbody _ _ := by
    intro scope σ hσ hroom
    rw [Check.expr]
    refine (leads_openLambda hσ hroom).bind fun r σ1 h1 _ => ?_
    obtain ⟨inner, head'⟩ := r
    exact (hbody h1.assembled (hroom.mono h1)).bind_pure fun _ _ _ _ => registered_any
  var hinit _ := by
    intro scope σ hσ hroom _ hdeclaring _
    rw [stmt]
    exact (leads_var hinit hσ hroom (hdeclaring _ rfl)).bind_pure fun _ _ _ _ => trivial
  assign ht hv _ := by
    intro scope σ hσ hroom _ _ _
    rw [stmt]
    refine (hv hσ hroom).bind fun v' σ1 h1 _ => .bind_rule h1.assembled.stay fun _ _ => ?_
    refine (ht h1.assembled (hroom.mono h1)).bind fun t' σ2 h2 _ => .bind_types ?_
    exact .bind_rule h2.assembled.stay fun _ _ => .pure h2.assembled.stay trivial
  func hbody _ := by
    intro scope σ hσ hroom _ _ hclaims
    rw [stmt_func]
    refine .bind_registered hσ.stay fun id hid => ?_
    refine (leads_block hbody hσ hroom (hclaims id hid)).bind fun body' τ hτ _ => ?_
    exact (leads_closeFunction hτ.assembled).bind_pure fun _ _ _ _ => trivial
  cls := StmtLeads.cls
  ctor hbody head := by
    intro scope σ hσ hroom _ _ hclaims
    cases hscope : head.scope with
    | none =>
      -- a constructor without a scope is outside every class
      rw [stmt, hscope]
      exact .throw hσ.stay
    | some id =>
      rw [stmt_ctor hscope]
      exact (leads_block hbody hσ hroom (hclaims id hscope)).bind_pure fun _ _ _ _ => trivial
  ifElse hc hbody hrest _ := by
    intro scope σ hσ hroom hreturning _ _
    rw [stmt_ifElse]
    refine (leads_arm hc hbody hσ hroom hreturning (Or.inl rfl)).bind fun r σ1 h1 _ => ?_
    exact (hrest h1.assembled (hroom.mono h1) (hreturning.mono h1)).bind_pure fun _ _ _ _ => trivial
  whileLoop hc hbody _ := by
    intro scope σ hσ hroom hreturning _ _
    rw [stmt_whileLoop]
    exact (leads_arm hc hbody hσ hroom hreturning (Or.inr rfl)).bind_pure fun _ _ _ _ => trivial
  forLoop := StmtLeads.forLoop
  ret := StmtLeads.ret
  brk _ := by
    intro scope σ hσ _ _ _ _
    rw [stmt]
    exact .bind_scopes (.bind_rule hσ.stay fun _ _ => .pure hσ.stay trivial)
  expr he := by
    intro scope σ hσ hroom _ _ _
    rw [stmt]
    exact (he hσ hroom).bind_pure fun _ _ _ _ => trivial
  done := fun hσ _ _ => .pure hσ.stay trivial
  elseIf hc hbody hrest _ := by
    intro scope σ hσ hroom hreturning
    rw [chain_elseIf]
    refine (leads_arm hc hbody hσ hroom hreturning (Or.inl rfl)).bind fun r σ1 h1 _ => ?_
    exact (hrest h1.assembled (hroom.mono h1) (hreturning.mono h1)).bind_pure fun _ _ _ _ => trivial
  otherwise hbody _ := by
    intro scope σ hσ hroom hreturning
    rw [chain_otherwise]
    exact (leads_inner hbody hσ hroom hreturning (Or.inl rfl)).bind_pure fun _ _ _ _ => trivial

lemma exprLeads (e : Expr) : ExprLeads Φ e := (tree_leads Φ).expr_holds e

lemma stmtLeads (s : Stmt) : StmtLeads Φ s := (tree_leads Φ).stmt_holds s

/-! ### Fields -/

mutual
/-- The fields of a class and of the classes in it may be declared. -/
def FieldClaims (Φ : Cell → Prop) (σ : Session) : Stmt → Prop
  | .cls head ms => (∀ body ∈ head.scope, ∀ s ∈ ms, ∀ n ∈ s.varName?, σ.Declaring Φ body n) ∧
    FieldClaimsList Φ σ ms
  | _ => True

def FieldClaimsList (Φ : Cell → Prop) (σ : Session) : List Stmt → Prop
  | [] => True
  | s :: ss => FieldClaims Φ σ s ∧ FieldClaimsList Φ σ ss
end

lemma fieldClaimsList_iff {ss : List Stmt} :
    FieldClaimsList Φ σ ss ↔ ∀ s ∈ ss, FieldClaims Φ σ s := by
  induction ss with
  | nil => exact ⟨fun _ => nofun, fun _ => trivial⟩
  | cons s ss ih => rw [FieldClaimsList, ih, List.forall_mem_cons]

lemma fieldClaims_mono {s : Stmt} (h : FieldClaims Φ σ s) (hτ : σ.Continues Φ τ) :
    FieldClaims Φ τ s := by
  induction s using Stmt.members_induction with
  | other s hs =>
    cases s with
    | cls head ms => cases hs
    | _ => trivial
  | cls head ms ih =>
    obtain ⟨hdeclaring, hms⟩ := h
    refine ⟨fun body hbody s hs n hn => (hdeclaring body hbody s hs n hn).mono hτ, ?_⟩
    rw [fieldClaimsList_iff] at hms ⊢
    exact fun s hs => ih s hs (hms s hs)

def FieldsLead (Φ : Cell → Prop) (s : Stmt) : Prop :=
  ∀ {σ}, σ.Assembled → σ.Room Φ → FieldClaims Φ σ s →
    Leads (Session.Continues Φ) (classFields s) σ fun _ _ => True

lemma leads_memberFields {body : ScopeId} {ms : List Stmt} (hms : ∀ s ∈ ms, FieldsLead Φ s)
    (hσ : σ.Assembled) (hroom : σ.Room Φ)
    (hdeclaring : ∀ s ∈ ms, ∀ n ∈ s.varName?, σ.Declaring Φ body n)
    (hclaims : ∀ s ∈ ms, FieldClaims Φ σ s) :
    Leads (Session.Continues Φ) (memberFields body ms) σ fun _ _ => True := by
  induction ms generalizing σ with
  | nil => exact .pure hσ.stay trivial
  | cons s ms ih =>
    rw [List.forall_mem_cons] at hms hdeclaring hclaims
    have rest {τ : Session} (hτ : σ.Continues Φ τ) :=
      ih hms.2 hτ.assembled (hroom.mono hτ)
        (fun s hs n hn => (hdeclaring.2 s hs n hn).mono hτ)
        fun s hs => fieldClaims_mono (hclaims.2 s hs) hτ
    by_cases hs : s.isVar = true
    · obtain ⟨head, init, rfl⟩ := Stmt.isVar_iff.mp hs
      rw [memberFields]
      refine (leads_var (fun e _ => exprLeads e) hσ hroom (hdeclaring.1 _ rfl)).bind
        fun r σ1 h1 _ => ?_
      exact (rest h1).bind_pure fun _ _ _ _ => trivial
    · rw [memberFields_cons (Bool.eq_false_iff.mpr hs)]
      refine (hms.1 hσ hroom hclaims.1).bind fun s' σ1 h1 _ => ?_
      exact (rest h1).bind_pure fun _ _ _ _ => trivial

lemma fieldsLead (s : Stmt) : FieldsLead Φ s := by
  induction s using Stmt.members_induction with
  | other s hs =>
    intro σ hσ _ _
    rw [classFields_eq_pure hs]
    exact .pure hσ.stay trivial
  | cls head ms ih =>
    intro σ hσ hroom hclaims
    rw [classFields]
    refine .bind_registered hσ.stay fun body hbody => ?_
    refine (leads_memberFields ih hσ hroom (hclaims.1 body hbody)
      (fieldClaimsList_iff.mp hclaims.2)).bind fun ms' σ1 h1 _ => ?_
    exact (leads_note h1.assembled).bind_pure fun _ _ _ _ => trivial

end Check

/-! ### Where names are free -/

/-- What names and members stand for may change everywhere, and all functions may give back. -/
structure Cell.Free (Φ : Cell → Prop) : Prop where
  name : ∀ id n, Φ (.name id n)
  member : ∀ c n, Φ (.member c n)
  settled : ∀ f, Φ (.settled f)

namespace Cell.Free

lemma room (h : Cell.Free Φ)
    (hctor : ∀ {c}, σ.types.class? c = none → Φ (.constructors c))
    (hbody : ∀ {c}, σ.types.class? c = none → Φ (.body c)) : σ.Room Φ where
  settled _ := h.settled _
  name n _ := h.name _ n
  member n _ := h.member _ n
  constructors := hctor
  body := hbody
  tidy n _ := h.member _ n

lemma declaring (h : Cell.Free Φ) (n : String) : σ.Declaring Φ scope n :=
  ⟨h.name scope n, fun c => Or.inl (h.member c n)⟩

lemma opens (h : Cell.Free Φ) : σ.Open Φ scope :=
  ⟨h.declaring, fun f => Or.inl (h.settled f)⟩

lemma claims (h : Cell.Free Φ) (s : Stmt) : s.Claims Φ σ := by
  induction s using Stmt.members_induction with
  | other s hs =>
    cases s with
    | func head body => exact fun body _ => h.opens
    | ctor head body => exact fun body _ => h.opens
    | cls head ms => cases hs
    | _ => trivial
  | cls head ms ih =>
    exact ⟨fun c _ body _ n => Or.inl (h.member c n), fun body _ f => Or.inl (h.settled f),
      Stmt.claimsList_iff.mpr ih⟩

lemma fieldClaims (h : Cell.Free Φ) (s : Stmt) : Check.FieldClaims Φ σ s := by
  induction s using Stmt.members_induction with
  | other s hs =>
    cases s with
    | cls head ms => cases hs
    | _ => trivial
  | cls head ms ih =>
    exact ⟨fun body _ s _ n _ => h.declaring n, Check.fieldClaimsList_iff.mpr ih⟩

end Cell.Free

lemma Cell.free_all : Cell.Free fun _ => True :=
  ⟨fun _ _ => trivial, fun _ _ => trivial, fun _ => trivial⟩

lemma Session.room_all : σ.Room fun _ => True :=
  Cell.free_all.room (fun _ => trivial) fun _ => trivial

namespace Check

lemma leads_fields {ss : List Stmt} (hfree : Cell.Free Φ) (hσ : σ.Assembled) (hroom : σ.Room Φ) :
    Leads (Session.Continues Φ) (ss.mapM classFields) σ fun _ _ => True :=
  (Leads.mapM hσ.stay (fun _ _ => trivial) fun s _ _ hτ =>
    fieldsLead s hτ.assembled (hroom.mono hτ) (hfree.fieldClaims s)).mono fun _ _ _ _ => trivial

lemma leads_walk {ss : List Stmt} (hfree : Cell.Free Φ) (hσ : σ.Assembled) (hroom : σ.Room Φ) :
    Leads (Session.Continues Φ) (stmts scope ss) σ fun _ _ => True :=
  leads_stmts (fun s _ => stmtLeads s) hσ hroom hfree.opens
    (Stmt.claimsList_iff.mpr fun s _ => hfree.claims s)

/-! ### Programs -/

/-- Looking at a program leads on, whether the program is accepted or not. -/
lemma leads_program {p : Program} (hσ : σ.Assembled) :
    Leads (Session.Continues fun _ => True) (program p) σ fun _ _ => True := by
  refine (leads_announce hσ Session.room_all (fun _ => trivial) (fun _ => Or.inl trivial)
    Cell.free_all.declaring).bind fun ss1 σ1 h1 _ => ?_
  refine (leads_fields Cell.free_all h1.assembled Session.room_all).bind fun ss2 σ2 h2 _ => ?_
  refine (leads_walk Cell.free_all h2.assembled Session.room_all).bind fun ss3 σ3 h3 _ => ?_
  exact (leads_note h3.assembled).bind_pure fun _ _ _ _ => trivial

end Check

lemma Bindings.present_builtins (t : TypeTable) {b : Binding} (h : b ∈ builtins.entries) :
    b.Present t := by
  rcases mem_foldl_insert h with h | h
  · cases h
  rcases List.mem_append.mp h with h | h
  · obtain ⟨_, -, rfl⟩ := List.mem_map.mp h
    exact fun c hc => nomatch hc
  · simp only [Binding.builtinFunctions, List.mem_cons, List.not_mem_nil, or_false] at h
    rcases h with rfl | rfl | rfl | rfl | rfl <;> exact Binding.present_of_function rfl

lemma Scopes.scope?_withBuiltins {id : ScopeId} {s : Scope}
    (hs : Scopes.withBuiltins.scope? id = some s) : s = { bindings := .builtins } :=
  List.mem_singleton.mp (List.mem_of_getElem? hs)

lemma Session.assembled_new (log : List LogEvent) : ({ log } : Session).Assembled := by
  refine ⟨.empty, ⟨(consistent_start log).valid.bindings, fun hb => ?_, fun hs hp => ?_,
    fun hs hf => ?_, fun hs hc => ?_, ⟨_, rfl, rfl, rfl, rfl⟩⟩, fun he => (nomatch he),
    fun he => (nomatch he)⟩
  · obtain ⟨s, hs, hb⟩ := Scopes.bindingAt?_eq_some.mp hb
    rw [Scopes.scope?_withBuiltins hs] at hb
    exact Bindings.present_builtins _ (List.mem_of_find?_eq_some hb)
  · rw [Scopes.scope?_withBuiltins hs] at hp
    cases hp
  · rw [Scopes.scope?_withBuiltins hs] at hf
    cases hf
  · rw [Scopes.scope?_withBuiltins hs] at hc
    cases hc

/-- The sessions in which programs have been looked at one after another, in whatever way this
ended. -/
inductive Session.Used : Session → Prop where
  | new (log : List LogEvent) : Used { log }
  | program {σ : Session} (hσ : Used σ) (p : Program) : Used ((Check.program p).on σ).2

lemma Session.Used.assembled (h : σ.Used) : σ.Assembled := by
  induction h with
  | new log => exact assembled_new log
  | program _ p ih => exact (Check.leads_program ih).changes.assembled

end MiddleEnd
