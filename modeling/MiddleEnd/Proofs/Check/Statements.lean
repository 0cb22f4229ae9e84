import MiddleEnd.Proofs.Check.Expressions

/-!
The walk through statements. A class is looked at only when its body has been opened and its fields
have been declared; everything else is looked at as it comes.
-/

namespace MiddleEnd

variable {A σ τ : Session} {scope : ScopeId}

/-! ### Classes -/

mutual
/-- The classes that a statement declares with their members, those inside of classes included. -/
def Stmt.classes : Stmt → List (ClassHead × List Stmt)
  | .cls head ms => (head, ms) :: Stmt.classesList ms
  | _ => []

def Stmt.classesList : List Stmt → List (ClassHead × List Stmt)
  | [] => []
  | s :: ss => s.classes ++ Stmt.classesList ss
end

lemma Stmt.classes_of_not_isClass {s : Stmt} (h : s.isClass = false) : s.classes = [] := by
  cases s with
  | cls head ms => cases h
  | _ => rfl

lemma Stmt.mem_classesList {ss : List Stmt} {k : ClassHead × List Stmt} :
    k ∈ Stmt.classesList ss ↔ ∃ s ∈ ss, k ∈ s.classes := by
  induction ss with
  | nil => simp [Stmt.classesList]
  | cons s ss ih => simp [Stmt.classesList, ih]

def Session.IsBody (σ : Session) (c : ClassId) (body : ScopeId) : Prop :=
  ∃ e, σ.types.class? c = some e ∧ e.body = some body

def Session.Opened (σ : Session) (head : ClassHead) : Prop :=
  ∃ c body, head.cls = some c ∧ head.scope = some body ∧ σ.IsBody c body

lemma Session.Opened.mono {head : ClassHead} (h : σ.Opened head) (hστ : σ.Grows τ) :
    τ.Opened head := by
  obtain ⟨c, body, hc, hscope, e, he, hbody⟩ := h
  obtain ⟨e', he', hagree⟩ := hστ.cls he
  exact ⟨c, body, hc, hscope, e', he', hagree.body.trans hbody⟩

/-- The body of the class is open, and its fields have been looked at. -/
structure Session.Prepared (A σ : Session) (k : ClassHead × List Stmt) : Prop where
  opened : σ.Opened k.1
  fields : ∀ s ∈ k.2, s.isVar = true → A.Settled σ s.nodes

lemma Session.Prepared.mono {k : ClassHead × List Stmt} (h : A.Prepared σ k) (hστ : σ.Grows τ) :
    A.Prepared τ k :=
  ⟨h.opened.mono hστ, fun s hs hvar => (h.fields s hs hvar).mono hστ⟩

/-- Looking at the statement leads to a valid session, and to a statement whose nodes pass their
checks. -/
def Stmt.Sound (A : Session) (s : Stmt) : Prop :=
  ∀ {scope σ s' τ}, A.Reaches σ → (∀ k ∈ s.classes, A.Prepared σ k) →
    Gives (Check.stmt scope s) σ s' τ → A.Annotates σ τ s'.nodes []

def Chain.Sound (A : Session) (ch : Chain) : Prop :=
  ∀ {scope σ ch' τ}, A.Reaches σ → Gives (Check.chain scope ch) σ ch' τ →
    A.Annotates σ τ ch'.nodes []

/-! ### Variables -/

/-- A variable has been declared, with the type that is written for it if there is one. -/
structure Session.DeclaresVar (σ : Session) (scope : ScopeId) (head : VarHead) (τ : Session) :
    Prop where
  fresh : σ.scopes.bindingAt? head.name scope = none
  bound : ∃ t, τ.scopes.bindingAt? head.name scope = some (.ofVariable head.name t) ∧
    ∀ written ∈ head.annotation, ∃ x, σ.scopes.Denotes scope written x ∧ τ.types.Unfolds t x

namespace Check

lemma gives_declareVar {head head' : VarHead} {declared : Option TypeId} {init : Option Expr}
    (hσ : σ.Valid) (hd : ∀ t ∈ declared, σ.types.Registered t)
    (hi : ∀ e ∈ init, σ.types.Registered e.type)
    (h : Gives (declareVar scope head declared init) σ head' τ) :
    ∃ t, t = (declared.or (init.map Expr.type)).getD .any ∧
      head' = { head with type := some t } ∧ σ.Declares scope (.ofVariable head.name t) τ ∧
      σ.types.Registered t ∧ ∀ e ∈ init, σ.types.assignable t e.type = true := by
  cases declared with
  | none =>
    simp only [declareVar, gives_bind, gives_pure] at h
    obtain ⟨_, _, hdeclare, rfl, rfl⟩ := h
    refine ⟨_, rfl, rfl, declares_of_declare hσ.housed hdeclare, ?_, ?_⟩
    · -- the type is that of the value, or any
      cases init with
      | none => exact TypeTable.registered_any
      | some e => exact hi e rfl
    · -- so the value fits
      rintro e ⟨rfl⟩
      simp [TypeTable.assignable, TypeTable.sameType_refl]
  | some t =>
    cases init with
    | none =>
      simp only [declareVar, gives_bind, gives_pure] at h
      obtain ⟨_, _, hdeclare, rfl, rfl⟩ := h
      exact ⟨t, rfl, rfl, declares_of_declare hσ.housed hdeclare, hd t rfl, by simp⟩
    | some e =>
      simp only [declareVar, gives_bind, gives_types, gives_rule, gives_pure] at h
      obtain ⟨_, _, ⟨rfl, rfl⟩, _, _, ⟨hrule, rfl⟩, _, _, hdeclare, rfl, rfl⟩ := h
      refine ⟨t, rfl, rfl, declares_of_declare hσ.housed hdeclare, hd t rfl, ?_⟩
      rintro e ⟨rfl⟩
      exact Rule.assignable_of_ok hrule

/-- The written type is read first, then the initial value is looked at. -/
lemma gives_var {head head' : VarHead} {init init' : Option Expr}
    (hinit : ∀ e ∈ init, e.Sound A) (hσ : A.Reaches σ)
    (h : Gives (var scope head init) σ (head', init') τ) :
    ∃ declared σ1 σ2, Gives (typeOf? scope head.annotation) σ declared σ1 ∧
      A.Annotates σ1 σ2 (Expr.collectOption .nodes () init') init'.toList ∧
      Gives (declareVar scope head declared init') σ2 head' τ := by
  cases init with
  | none =>
    obtain ⟨declared, σ1, h1, h2, rfl⟩ := h.var_none
    have r1 := (quiet_of_typeOf? hσ.valid h1).1.reaches hσ.valid
    exact ⟨declared, σ1, σ1, h1, .of_reaches (.refl r1.valid), h2⟩
  | some e =>
    obtain ⟨declared, σ1, h1, e', σ2, h2, h3, rfl⟩ := h.var_some
    have r1 := (quiet_of_typeOf? hσ.valid h1).1.reaches hσ.valid
    exact ⟨declared, σ1, σ2, h1, hinit e rfl (hσ.trans r1) h2, h3⟩

lemma annotates_var {head head' : VarHead} {init init' : Option Expr}
    (hinit : ∀ e ∈ init, e.Sound A) (hσ : A.Reaches σ)
    (h : Gives (var scope head init) σ (head', init') τ) :
    A.Annotates σ τ (Expr.collectOption .nodes () init') [] ∧
      (∀ Ω, A.Final Ω → τ.Grows Ω → Ω.analysis.VarChecks head' init') ∧
      σ.DeclaresVar scope head τ := by
  obtain ⟨declared, σ1, σ2, h1, s2, h3⟩ := gives_var hinit hσ h
  obtain ⟨hquiet, hscopes, hwritten, hdenotes⟩ := quiet_of_typeOf? hσ.valid h1
  have r1 := hquiet.reaches hσ.valid
  have r2 := r1.trans s2.reaches
  have hdeclared : ∀ t ∈ declared, σ2.types.Registered t := by
    intro t ht
    obtain ⟨-, -, x, -, hx⟩ := hdenotes t ht
    exact s2.reaches.grows.registered hx.registered
  have htyped : ∀ e ∈ init', σ2.types.Registered e.type := fun e he =>
    (s2.typed e (Option.mem_toList.mpr he)).registered
  obtain ⟨t, ht, rfl, hdecl, hreg, hassign⟩ := gives_declareVar r2.valid hdeclared htyped h3
  have r3 : σ2.Reaches τ :=
    ⟨hdecl.valid r2.valid (Binding.valid_of_isValue hreg rfl) (by simp [Binding.ofVariable]),
      hdecl.grows rfl⟩
  refine ⟨?_, fun Ω hΩ hgrows => ⟨t, rfl, fun e he => ?_, fun hnone => ?_⟩, ?_, t, ?_, ?_⟩
  · exact .of_settled (r2.trans r3) (s2.settled.mono r3.grows)
  · -- the value fits still when everything is declared
    exact (r2.valid.types.assignable_mono hΩ.valid.types (r3.grows.trans hgrows).forms hreg
      (htyped e he)).trans (hassign e he)
  · -- nothing is written, so nothing has been read
    rw [hnone, Option.isSome_none, Option.isSome_eq_false_iff, Option.isNone_iff_eq_none]
      at hwritten
    rw [ht, hwritten, Option.none_or]
  · -- the name was not there before the value was checked either
    cases hb : σ.scopes.bindingAt? head.name scope with
    | none => rfl
    | some b =>
      cases hdecl.fresh.symm.trans (r2.grows.scopes.bindingAt? hb)
  · exact hdecl.bindingAt?_self
  · -- what is written has been read as the type of the name
    intro written hmem
    rw [hmem, Option.isSome_some, Option.isSome_iff_exists] at hwritten
    obtain ⟨d, rfl⟩ := hwritten
    obtain ⟨w, hw, x, hx, hux⟩ := hdenotes d rfl
    rw [Option.mem_def.mp hmem] at hw
    cases hw
    exact ⟨x, hx, by rw [ht]; exact hux.mono (s2.reaches.trans r3).grows.forms⟩

/-! ### Lists of statements -/

lemma annotates_stmts {ss ss' : List Stmt} (hss : ∀ s ∈ ss, s.Sound A) (hσ : A.Reaches σ)
    (hclasses : ∀ k ∈ Stmt.classesList ss, A.Prepared σ k) (h : Gives (stmts scope ss) σ ss' τ) :
    A.Annotates σ τ (Stmt.nodesList ss') [] := by
  induction ss generalizing σ ss' with
  | nil =>
    obtain ⟨rfl, rfl⟩ := gives_pure.mp h
    exact .of_reaches (.refl hσ.valid)
  | cons s ss ih =>
    rw [List.forall_mem_cons] at hss
    rw [Stmt.classesList, List.forall_mem_append] at hclasses
    obtain ⟨s', σ1, h1, rest, h2, rfl⟩ := h.stmts_cons
    have s1 := hss.1 hσ hclasses.1 h1
    have s2 := ih hss.2 (hσ.trans s1.reaches)
      (fun k hk => (hclasses.2 k hk).mono s1.reaches.grows) h2
    exact s1.trans s2

lemma isClass_of_blockStmt {s : Stmt} {u : Unit} (h : Rule.blockStmt s = .ok u) :
    s.isClass = false := by
  unfold Rule.blockStmt at h
  obtain ⟨_, h, -⟩ := Except.bind_eq_ok.mp h
  simpa using ensure_eq_ok.mp h

lemma annotates_block {ss ss' : List Stmt} (hss : ∀ s ∈ ss, s.Sound A) (hσ : A.Reaches σ)
    (hrules : ∀ s ∈ ss, Rule.blockStmt s = .ok ()) (h : Gives (stmts scope ss) σ ss' τ) :
    A.Annotates σ τ (Stmt.nodesList ss') [] := by
  refine annotates_stmts hss hσ (fun k hk => ?_) h
  obtain ⟨s, hs, hk⟩ := Stmt.mem_classesList.mp hk
  have hclass := isClass_of_blockStmt (hrules s hs)
  rw [Stmt.classes_of_not_isClass hclass] at hk
  cases hk

/-- A condition and its block, which has a scope of its own. -/
lemma annotates_arm {c c' : Expr} {body body' : List Stmt} {kind : ScopeKind} {inner : ScopeId}
    {σ1 σ2 : Session} (hc : c.Sound A) (hbody : ∀ s ∈ body, s.Sound A) (hσ : A.Reaches σ)
    (h1 : Gives (expr scope c) σ c' σ1) (h2 : Gives (openIn scope kind) σ1 inner σ2)
    (hrules : ∀ s ∈ body, Rule.blockStmt s = .ok ()) (h3 : Gives (stmts inner body) σ2 body' τ) :
    A.Annotates σ τ (c'.nodes ++ Stmt.nodesList body') [c'] := by
  have s1 := hc hσ h1
  have s2 := s1.andThen ((quiet_of_openIn h2).1.reaches s1.reaches.valid)
  exact s2.trans (annotates_block hbody (hσ.trans s2.reaches) hrules h3)

/-- The fields of a class have been looked at before its other members. -/
lemma annotates_members {ms ms' : List Stmt} (hms : ∀ s ∈ ms, s.Sound A) (hσ : A.Reaches σ)
    (hfields : ∀ s ∈ ms, s.isVar = true → A.Settled σ s.nodes)
    (hclasses : ∀ k ∈ Stmt.classesList ms, A.Prepared σ k) (h : Gives (members scope ms) σ ms' τ) :
    A.Annotates σ τ (Stmt.nodesList ms') [] := by
  induction ms generalizing σ ms' with
  | nil =>
    obtain ⟨rfl, rfl⟩ := gives_pure.mp h
    exact .of_reaches (.refl hσ.valid)
  | cons s ms ih =>
    rw [List.forall_mem_cons] at hms hfields
    rw [Stmt.classesList, List.forall_mem_append] at hclasses
    by_cases hvar : s.isVar = true
    · obtain ⟨head, init, rfl⟩ := Stmt.isVar_iff.mp hvar
      obtain ⟨rest, h1, rfl⟩ := h.members_var
      have s0 : A.Annotates σ σ _ [] := .of_settled (.refl hσ.valid) (hfields.1 hvar)
      exact s0.trans (ih hms.2 hσ hfields.2 hclasses.2 h1)
    · obtain ⟨s', σ1, h1, rest, h2, rfl⟩ := h.members_cons (Bool.eq_false_iff.mpr hvar)
      have s1 := hms.1 hσ hclasses.1 h1
      have s2 := ih hms.2 (hσ.trans s1.reaches)
        (fun s hs hvar => (hfields.2 s hs hvar).mono s1.reaches.grows)
        (fun k hk => (hclasses.2 k hk).mono s1.reaches.grows) h2
      exact s1.trans s2

/-! ### Parts of loops -/

lemma annotates_loopInit {init init' : Option (VarHead × Option Expr)}
    (hinit : ∀ i ∈ init, ∀ e ∈ i.2, e.Sound A) (hσ : A.Reaches σ)
    (h : Gives (loopInit scope init) σ init' τ) :
    A.Annotates σ τ (Expr.collectInit .nodes () init') [] ∧
      ∀ Ω, A.Final Ω → τ.Grows Ω → ∀ i ∈ init', Ω.analysis.VarChecks i.1 i.2 := by
  rcases init with _ | ⟨head, e⟩
  · obtain ⟨rfl, rfl⟩ := gives_pure.mp h
    exact ⟨.of_reaches (.refl hσ.valid), by simp⟩
  · rw [loopInit, gives_map] at h
    obtain ⟨⟨head', e'⟩, h, rfl⟩ := h
    obtain ⟨s1, hchecks, -⟩ := annotates_var (hinit _ rfl) hσ h
    refine ⟨s1, ?_⟩
    rintro Ω hΩ hgrows i ⟨rfl⟩
    exact hchecks Ω hΩ hgrows

lemma annotates_loopCondition {c c' : Option Expr} (hc : ∀ e ∈ c, e.Sound A) (hσ : A.Reaches σ)
    (h : Gives (loopCondition scope c) σ c' τ) :
    A.Annotates σ τ (Expr.collectOption .nodes () c') [] ∧ ∀ e ∈ c', e.IsCondition := by
  cases c with
  | none =>
    obtain ⟨rfl, rfl⟩ := gives_pure.mp h
    exact ⟨.of_reaches (.refl hσ.valid), by simp⟩
  | some e =>
    obtain ⟨e', h1, hrule, rfl⟩ := h.loopCondition_some
    have s1 := hc e rfl hσ h1
    refine ⟨.of_settled s1.reaches s1.settled, ?_⟩
    rintro _ ⟨rfl⟩
    exact Rule.isCondition_of_boolean hrule

lemma annotates_loopUpdate {update update' : Option Stmt} (hupdate : ∀ s ∈ update, s.Sound A)
    (hσ : A.Reaches σ) (h : Gives (loopUpdate scope update) σ update' τ) :
    A.Annotates σ τ (Stmt.collectUpdate .nodes () update') [] := by
  cases update with
  | none =>
    obtain ⟨rfl, rfl⟩ := gives_pure.mp h
    exact .of_reaches (.refl hσ.valid)
  | some s =>
    obtain ⟨hrule, s', h1, rfl⟩ := h.loopUpdate_some
    refine hupdate s rfl hσ ?_ h1
    rw [Stmt.classes_of_not_isClass (isClass_of_blockStmt hrule)]
    exact List.forall_mem_nil _

lemma isTarget_of_expr {e e' : Expr} (he : e.isTarget = true) (h : Gives (expr scope e) σ e' τ) :
    e'.isTarget = true := by
  cases e with
  | name m n =>
    obtain ⟨_, -, rfl⟩ := h.name
    rfl
  | member m o n =>
    obtain ⟨_, -, -, rfl⟩ := h.member
    rfl
  | subscript m o i =>
    obtain ⟨_, _, -, -, _, -, _, -, rfl⟩ := h.subscript
    rfl
  | _ => cases he

end Check

/-! ### Expressions and statements -/

section Kinds

open Check

lemma Expr.Sound.leaf {e : Expr} (h : e.isLeaf = true) : e.Sound A := by
  intro scope σ e' τ hσ hgives
  have hrefl : A.Annotates σ σ [] [] := .of_reaches (.refl hσ.valid)
  cases e with
  | number m w =>
    obtain ⟨rfl, rfl⟩ := gives_pure.mp hgives
    exact hrefl.expr rfl ⟨.number, rfl⟩ fun _ _ _ => rfl
  | string m w =>
    obtain ⟨rfl, rfl⟩ := gives_pure.mp hgives
    exact hrefl.expr rfl ⟨.string, rfl⟩ fun _ _ _ => rfl
  | boolean m w =>
    obtain ⟨rfl, rfl⟩ := gives_pure.mp hgives
    exact hrefl.expr rfl ⟨.boolean, rfl⟩ fun _ _ _ => rfl
  | null m =>
    obtain ⟨rfl, rfl⟩ := gives_pure.mp hgives
    exact hrefl.expr rfl ⟨.null, rfl⟩ fun _ _ _ => rfl
  | name m n =>
    obtain ⟨t, h1, rfl⟩ := hgives.name
    obtain ⟨hreaches, hreg, b, id, hb, hkind, rfl⟩ := annotates_nameType hσ h1
    exact (Session.Annotates.of_reaches hreaches).expr rfl hreg fun Ω _ hgrows =>
      ⟨b, ⟨id, hgrows.scopes.bindingAt? hb⟩, hkind, rfl⟩
  | self m =>
    obtain ⟨t, h1, rfl⟩ := hgives.self
    obtain ⟨rfl, c, e, he, rfl⟩ := session_of_selfType h1
    refine hrefl.expr rfl (hσ.valid.registered_type he) fun Ω _ hgrows => ?_
    obtain ⟨e', he', hagree⟩ := hgrows.cls he
    exact ⟨c, e', he', by rw [hagree.type]; rfl⟩
  | _ => cases h

lemma Expr.Sound.unary {e : Expr} (he : e.Sound A) (m : Mark) (op : UnaryOp) :
    Expr.Sound A (.unary m op e) := by
  intro scope σ e' τ hσ h
  obtain ⟨e', h1, hrule, rfl⟩ := h.unary
  have s1 := he hσ h1
  refine s1.expr rfl (s1.typed e' (by simp)).registered fun _ _ _ => ⟨rfl, ?_⟩
  split at hrule
  · rename_i hop
    rw [if_pos hop]
    exact Rule.isCondition_of_boolean hrule
  · rename_i hop
    rw [if_neg hop]
    exact Rule.type_of_number hrule

lemma Expr.Sound.ternary {c y n : Expr} (hc : c.Sound A) (hy : y.Sound A) (hn : n.Sound A)
    (m : Mark) : Expr.Sound A (.ternary m c y n) := by
  intro scope σ e' τ hσ h
  obtain ⟨c', σ1, h1, hrule, y', σ2, h2, n', h3, rfl⟩ := h.ternary
  have s1 := hc hσ h1
  have s2 := s1.trans (hy (hσ.trans s1.reaches) h2)
  have s3 := s2.trans (hn (hσ.trans s2.reaches) h3)
  have hty := (s3.typed y' (by simp)).registered
  have htn := (s3.typed n' (by simp)).registered
  refine s3.expr rfl ?_ fun Ω hΩ hgrows => ⟨Rule.isCondition_of_boolean hrule, ?_⟩
  · split
    · exact hty
    · exact TypeTable.registered_any
  · have hsame : Ω.analysis.types.sameType y'.type n'.type = _ :=
      s3.reaches.valid.types.sameType_mono hΩ.valid.types hgrows.forms hty htn
    rw [hsame]
    rfl

lemma Expr.Sound.call_name {args : List Expr} (hargs : ∀ e ∈ args, e.Sound A) (m f : Mark)
    (n : String) (target : Option CallTarget) : Expr.Sound A (.call m (.name f n) args target) := by
  intro scope σ e' τ hσ h
  obtain ⟨b, hb, hcallable, _, σ1, h1, args', h2, g, t, hcall, rfl⟩ := h.call_name
  obtain ⟨htypes, hscopes⟩ := gives_recordCall h1
  have r1 : σ.Reaches σ1 := (Session.Quiet.of_eq htypes hscopes).reaches hσ.valid
  obtain ⟨id, hid⟩ := Scopes.exists_of_resolve hb
  obtain ⟨hkind, hany⟩ := Binding.type_of_isCallable (ensure_eq_ok.mp hcallable)
  have s1 : A.Annotates σ σ1 (Expr.name (f.typed .any) n).nodes [.name (f.typed .any) n] :=
    (Session.Annotates.of_reaches r1).expr rfl TypeTable.registered_any fun Ω _ hgrows =>
      ⟨b, ⟨id, (r1.grows.trans hgrows).scopes.bindingAt? hid⟩, hkind, by rw [hany]; rfl⟩
  have s2 := annotates_exprs hargs (hσ.trans r1) h2
  have s := s1.trans s2
  -- the name still stands for the same when the arguments have been looked at
  obtain ⟨hreg, hchecks⟩ := Call.checks_named s.reaches.valid
    (s.reaches.grows.scopes.bindingAt? hid) (fun a ha => (s2.typed a ha).registered) hcall
  exact s.expr rfl hreg fun Ω hΩ hgrows => ⟨rfl, t, rfl, g, rfl, hchecks Ω hΩ hgrows _⟩

lemma Expr.Sound.call_member {o : Expr} {args : List Expr} (ho : o.Sound A)
    (hargs : ∀ e ∈ args, e.Sound A) (m f : Mark) (n : String) (target : Option CallTarget) :
    Expr.Sound A (.call m (.member f o n) args target) := by
  intro scope σ e' τ hσ h
  obtain ⟨o', σ1, h1, hrule, args', h2, g, t, hcall, rfl⟩ := h.call_member
  have s1 := ho hσ h1
  have s2 := annotates_exprs hargs (hσ.trans s1.reaches) h2
  have s := s1.trans s2
  obtain ⟨hreg, hchecks⟩ := Call.checks_member (hσ.trans s.reaches) s2.reaches.grows
    (s1.typed o' (by simp)).registered hrule (fun a ha => (s2.typed a ha).registered) hcall
  have hcallee : A.Annotates σ τ _ [Expr.member (f.typed .any) o' n] :=
    s.expr rfl TypeTable.registered_any fun Ω hΩ hgrows =>
      ⟨.any, rfl, (hchecks Ω hΩ hgrows).1⟩
  exact hcallee.expr rfl hreg fun Ω hΩ hgrows =>
    ⟨rfl, t, rfl, g, rfl, (hchecks Ω hΩ hgrows).2 _⟩

lemma Expr.Sound.array {es : List Expr} (hes : ∀ e ∈ es, e.Sound A) (m : Mark) :
    Expr.Sound A (.array m es) := by
  intro scope σ e' τ hσ h
  obtain ⟨es', σ1, h1, t, h2, rfl⟩ := h.array
  have s1 := annotates_exprs hes hσ h1
  have hcommon : σ1.types.Registered (.common (es'.map Expr.type)) := by
    refine TypeTable.registered_common fun id hid => ?_
    obtain ⟨e, he, rfl⟩ := List.mem_map.mp hid
    exact (s1.typed e he).registered
  obtain ⟨r2, hform⟩ := reaches_of_addType s1.reaches.valid rfl
    (by simpa [TypeForm.parts] using hcommon) h2
  exact (s1.andThen r2).expr rfl ⟨_, hform⟩ fun Ω _ hgrows =>
    ⟨t, rfl, TypeTable.form?_mono hgrows.forms hform⟩

lemma Expr.Sound.dictionary {es : List (Expr × Expr)} (hes : ∀ e ∈ es, e.1.Sound A ∧ e.2.Sound A)
    (m : Mark) : Expr.Sound A (.dictionary m es) := by
  intro scope σ e' τ hσ h
  obtain ⟨es', σ1, h1, t, h2, rfl⟩ := h.dictionary
  have s1 := annotates_entries hes hσ h1
  have htyped : ∀ e ∈ es', σ1.Typed e.1 ∧ σ1.Typed e.2 := fun e he =>
    ⟨s1.typed e.1 (List.mem_flatMap.mpr ⟨e, he, by simp⟩),
      s1.typed e.2 (List.mem_flatMap.mpr ⟨e, he, by simp⟩)⟩
  have hkeys : σ1.types.Registered (.common (es'.map (·.1.type))) := by
    refine TypeTable.registered_common fun id hid => ?_
    obtain ⟨e, he, rfl⟩ := List.mem_map.mp hid
    exact (htyped e he).1.registered
  have hvalues : σ1.types.Registered (.common (es'.map (·.2.type))) := by
    refine TypeTable.registered_common fun id hid => ?_
    obtain ⟨e, he, rfl⟩ := List.mem_map.mp hid
    exact (htyped e he).2.registered
  obtain ⟨r2, hform⟩ := reaches_of_addType s1.reaches.valid rfl
    (by simpa [TypeForm.parts] using ⟨hkeys, hvalues⟩) h2
  exact (s1.andThen r2).expr rfl ⟨_, hform⟩ fun Ω _ hgrows =>
    ⟨t, rfl, TypeTable.form?_mono hgrows.forms hform⟩

lemma Stmt.Sound.assign {t v : Expr} (htarget : t.Sound A) (hvalue : v.Sound A) (span : Span) :
    Stmt.Sound A (.assign span t v) := by
  intro scope σ s' τ hσ _ h
  obtain ⟨value', σ1, h1, hplace, target', h2, hassign, rfl⟩ := h.assign
  have s1 := hvalue hσ h1
  have s2 := htarget (hσ.trans s1.reaches) h2
  have hvtype := ((s1.typed value' (by simp)).mono s2.reaches.grows).registered
  have httype := (s2.typed target' (by simp)).registered
  have s : A.Annotates σ τ (target'.nodes ++ value'.nodes) [] :=
    .of_settled (s1.reaches.trans s2.reaches) (s2.settled.append (s1.settled.mono s2.reaches.grows))
  refine s.node fun Ω hΩ hgrows => ⟨?_, ?_⟩
  · exact isTarget_of_expr (ensure_eq_ok.mp hplace) h2
  · exact (s2.reaches.valid.types.assignable_mono hΩ.valid.types hgrows.forms httype
      hvtype).trans (Rule.assignable_of_ok hassign)

lemma Stmt.Sound.cls {ms : List Stmt} (hms : ∀ s ∈ ms, s.Sound A) (head : ClassHead) :
    Stmt.Sound A (.cls head ms) := by
  intro scope σ s' τ hσ hclasses h
  rw [Stmt.classes, List.forall_mem_cons] at hclasses
  obtain ⟨c, hc, inner, hinner, _, σ1, h1, ms', σ2, h2, head', h3, rfl⟩ := h.cls
  have r1 := (quiet_of_note h1).reaches hσ.valid
  have s2 := annotates_members hms (hσ.trans r1)
    (fun s hs hvar => (hclasses.1.fields s hs hvar).mono r1.grows)
    (fun k hk => (hclasses.2 k hk).mono r1.grows) h2
  -- the members of the class are closed with those of its body
  obtain ⟨c', body, hc', hscope, e, he, hbody⟩ := hclasses.1.opened.mono (r1.trans s2.reaches).grows
  cases hc.symm.trans hc'
  cases hinner.symm.trans hscope
  have r3 := reaches_of_closeClass s2.reaches.valid he hbody h3
  exact (Session.Annotates.before r1 (s2.andThen r3)).node fun _ _ _ => trivial

lemma Stmt.Sound.forLoop {init : Option (VarHead × Option Expr)} {c : Option Expr}
    {update : Option Stmt} {body : List Stmt} (hinit : ∀ i ∈ init, ∀ e ∈ i.2, e.Sound A)
    (hc : ∀ e ∈ c, e.Sound A) (hupdate : ∀ s ∈ update, s.Sound A) (hbody : ∀ s ∈ body, s.Sound A)
    (x : Extent) : Stmt.Sound A (.forLoop x init c update body) := by
  intro scope σ s' τ hσ _ h
  obtain ⟨inner, σ1, h1, init', σ2, h2, c', σ3, h3, update', σ4, h4, h5, body', h6, rfl⟩ :=
    h.forLoop
  have r1 := (quiet_of_openIn h1).1.reaches hσ.valid
  obtain ⟨s2, hvar⟩ := annotates_loopInit hinit (hσ.trans r1) h2
  have r2 := r1.trans s2.reaches
  obtain ⟨s3, hcond⟩ := annotates_loopCondition hc (hσ.trans r2) h3
  have r3 := r2.trans s3.reaches
  have s4 := annotates_loopUpdate hupdate (hσ.trans r3) h4
  have s6 := annotates_block hbody ((hσ.trans r3).trans s4.reaches) h5 h6
  have s := ((Session.Annotates.before r1 s2).trans s3).trans s4 |>.trans s6
  refine s.node fun Ω hΩ hgrows => ⟨hvar Ω hΩ ?_, hcond⟩
  exact ((s3.reaches.trans s4.reaches).trans s6.reaches).grows.trans hgrows

lemma Stmt.Sound.ret {value : Option Expr} (hvalue : ∀ e ∈ value, e.Sound A) (span : Span) :
    Stmt.Sound A (.ret span value) := by
  intro scope σ s' τ hσ _ h
  cases value with
  | none =>
    obtain ⟨_, h1, rfl⟩ := h.ret_none
    obtain rfl := session_of_returnFrame h1
    exact (Session.Annotates.of_reaches (.refl hσ.valid)).node fun _ _ _ => trivial
  | some e =>
    obtain ⟨id, frame, _, h1, e', σ2, h2, _, h3, rfl⟩ := h.ret_some
    obtain rfl := session_of_returnFrame h1
    have s2 := hvalue e rfl hσ h2
    exact (s2.andThen ((quiet_of_giveBack h3).reaches s2.reaches.valid)).node fun _ _ _ => trivial

lemma Tree.sound (A : Session) :
    Tree.Walk (fun e => e.Sound A) (fun s => s.Sound A) (fun ch => ch.Sound A) where
  leaf := Expr.Sound.leaf
  binary hl hr _ _ := by
    intro scope σ e' τ hσ h
    obtain ⟨l', σ1, h1, r', h2, rfl⟩ := h.binary
    have s1 := hl hσ h1
    have s2 := s1.trans (hr (hσ.trans s1.reaches) h2)
    refine s2.expr rfl ?_ fun _ _ _ => rfl
    split
    · exact (s2.typed l' (by simp)).registered
    · exact ⟨.boolean, rfl⟩
  unary := Expr.Sound.unary
  step he _ _ := by
    intro scope σ e' τ hσ h
    obtain ⟨e', h1, hrule, rfl⟩ := h.step
    have s1 := he hσ h1
    exact s1.expr rfl (s1.typed e' (by simp)).registered fun _ _ _ =>
      ⟨rfl, Rule.type_of_number hrule⟩
  ternary := Expr.Sound.ternary
  call_name := Expr.Sound.call_name
  call_member := Expr.Sound.call_member
  call_computed hname hmember hf hargs _ _ := by
    intro scope σ e' τ hσ h
    obtain ⟨f', σ1, h1, hrule, args', h2, rfl⟩ := h.call_computed hname hmember
    have s1 := hf hσ h1
    have s := s1.trans (annotates_exprs hargs (hσ.trans s1.reaches) h2)
    have hany : f'.type = .any := TypeId.isAny_iff.mp (ensure_eq_ok.mp hrule)
    -- what is called is of type any, and so is what comes back
    rw [(s1.typed f' (by simp)).typed_any hany]
    exact s.expr rfl TypeTable.registered_any fun _ _ _ => ⟨hany, .any, rfl, .dynamic, rfl, rfl⟩
  member ho _ _ := by
    intro scope σ e' τ hσ h
    obtain ⟨o', h1, hrule, rfl⟩ := h.member
    have s1 := ho hσ h1
    obtain ⟨hreg, hchecks⟩ := TypeTable.checks_memberType (hσ.trans s1.reaches)
      (s1.typed o' (by simp)).registered hrule
    exact s1.expr rfl hreg fun Ω hΩ hgrows => ⟨_, rfl, hchecks Ω hΩ hgrows⟩
  subscript ho hi _ := by
    intro scope σ e' τ hσ h
    obtain ⟨o', σ1, h1, hrule, i', h2, t, htype, rfl⟩ := h.subscript
    have s1 := ho hσ h1
    have s2 := hi (hσ.trans s1.reaches) h2
    obtain ⟨hreg, hchecks⟩ := checks_subscriptType s2.reaches.valid s2.reaches.grows
      (s1.typed o' (by simp)).registered hrule (s2.typed i' (by simp)).registered htype
    exact (s1.trans s2).expr rfl hreg fun Ω hΩ hgrows => ⟨t, rfl, hchecks Ω hΩ hgrows⟩
  array := Expr.Sound.array
  dictionary := Expr.Sound.dictionary
  blockLambda hbody _ _ _ := by
    intro scope σ e' τ hσ h
    obtain ⟨inner, head', σ1, h1, h2, body', h3, rfl⟩ := h.blockLambda
    have r1 := Check.reaches_of_openLambda hσ.valid h1
    have s3 := Session.Annotates.before r1 (Check.annotates_block hbody (hσ.trans r1) h2 h3)
    exact s3.expr rfl TypeTable.registered_any fun _ _ _ => rfl
  exprLambda hbody _ _ := by
    intro scope σ e' τ hσ h
    obtain ⟨inner, head', σ1, h1, body', h2, rfl⟩ := h.exprLambda
    have r1 := reaches_of_openLambda hσ.valid h1
    have s := Session.Annotates.before r1 (hbody (hσ.trans r1) h2)
    exact s.expr rfl TypeTable.registered_any fun _ _ _ => rfl
  var hinit _ := by
    intro scope σ s' τ hσ _ h
    obtain ⟨head', init', h1, rfl⟩ := h.var
    obtain ⟨s1, hchecks, -⟩ := annotates_var hinit hσ h1
    exact s1.node hchecks
  assign := Stmt.Sound.assign
  func hbody _ := by
    intro scope σ s' τ hσ _ h
    obtain ⟨inner, -, h1, body', σ2, h2, head', h3, rfl⟩ := h.func
    obtain rfl := session_of_closeFunction h3
    exact (annotates_block hbody hσ h1 h2).node fun _ _ _ => trivial
  cls := Stmt.Sound.cls
  ctor hbody _ := by
    intro scope σ s' τ hσ _ h
    obtain ⟨_, -, h1, body', h2, rfl⟩ := h.ctor
    exact (annotates_block hbody hσ h1 h2).node fun _ _ _ => trivial
  ifElse hc hbody hrest _ := by
    intro scope σ s' τ hσ _ h
    obtain ⟨c', σ1, h1, hrule, inner, σ2, h2, h3, body', σ4, h4, rest', h5, rfl⟩ := h.ifElse
    have s4 := annotates_arm hc hbody hσ h1 h2 h3 h4
    have s5 := s4.trans (hrest (hσ.trans s4.reaches) h5)
    exact s5.node fun _ _ _ => Rule.isCondition_of_boolean hrule
  whileLoop hc hbody _ := by
    intro scope σ s' τ hσ _ h
    obtain ⟨c', σ1, h1, hrule, inner, σ2, h2, h3, body', h4, rfl⟩ := h.whileLoop
    exact (annotates_arm hc hbody hσ h1 h2 h3 h4).node fun _ _ _ =>
      Rule.isCondition_of_boolean hrule
  forLoop := Stmt.Sound.forLoop
  ret := Stmt.Sound.ret
  brk _ := by
    intro scope σ s' τ hσ _ h
    obtain ⟨-, rfl, rfl⟩ := h.brk
    exact (Session.Annotates.of_reaches (.refl hσ.valid)).node fun _ _ _ => trivial
  expr he := by
    intro scope σ s' τ hσ _ h
    obtain ⟨e', h1, rfl⟩ := h.expr
    exact (he hσ h1).node fun _ _ _ => trivial
  done := by
    intro scope σ ch' τ hσ h
    obtain ⟨rfl, rfl⟩ := gives_pure.mp h
    exact (Session.Annotates.of_reaches (.refl hσ.valid)).node fun _ _ _ => trivial
  elseIf hc hbody hrest _ := by
    intro scope σ ch' τ hσ h
    obtain ⟨c', σ1, h1, hrule, inner, σ2, h2, h3, body', σ4, h4, rest', h5, rfl⟩ := h.elseIf
    have s4 := annotates_arm hc hbody hσ h1 h2 h3 h4
    have s5 := s4.trans (hrest (hσ.trans s4.reaches) h5)
    exact s5.node fun _ _ _ => Rule.isCondition_of_boolean hrule
  otherwise hbody _ := by
    intro scope σ ch' τ hσ h
    obtain ⟨inner, σ1, h1, h2, body', h3, rfl⟩ := h.otherwise
    have r1 := (quiet_of_openIn h1).1.reaches hσ.valid
    have s3 := Session.Annotates.before r1 (annotates_block hbody (hσ.trans r1) h2 h3)
    exact s3.node fun _ _ _ => trivial

end Kinds

lemma Expr.sound (A : Session) (e : Expr) : e.Sound A := (Tree.sound A).expr_holds e

lemma Stmt.sound (A : Session) (s : Stmt) : s.Sound A := (Tree.sound A).stmt_holds s

end MiddleEnd
