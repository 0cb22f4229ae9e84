import MiddleEnd.Proofs.Check.Fits
import MiddleEnd.Proofs.Check.Overloads

/-!
The walk judges fairly. When the declarations of a program are known, looking at its statements
finds out whether all of it stands where it may stand; and whenever the walk fails, the program is
to blame.
-/

namespace MiddleEnd

variable {β : Type} {hoisted : Bool} {P Q : Prop} {S : List Span} {A base σ τ : Session}
  {scope : ScopeId} {place : Surroundings}

/-! ### What expressions leave as it is -/

/-- The cells that are not there yet. -/
def Session.Novel (σ : Session) : Cell → Prop
  | .cls c | .member c _ | .constructors c | .body c => σ.types.class? c = none
  | .name id _ => σ.scopes.scope? id = none
  | .settled f => σ.scopes.frame? f = none
  | _ => True

lemma Session.room_novel : σ.Room σ.Novel :=
  ⟨id, fun _ => id, fun _ => id, id, id, fun _ => id⟩

/-- The constructors of the classes that were not there in `base` are declared at these places. -/
def Session.Sited (base : Session) (S : List Span) (A : Session) : Prop :=
  ∀ {c e k}, A.types.class? c = some e → base.types.class? c = none → k ∈ e.constructors →
    k.span ∈ S

/-- No constructors are added when the declarations are known. -/
lemma Session.Sited.of_continues {c : ClassId} {e : ClassEntry} (h : base.Sited S A)
    (hσ : A.Continues A.Declared σ) (hnew : base.types.class? c = none)
    (he : σ.types.class? c = some e) : ∀ k ∈ e.constructors, k.span ∈ S := by
  obtain ⟨e0, he0⟩ := hσ.known id he
  obtain ⟨e', he', hkeeps⟩ := hσ.cls he0
  cases he.symm.trans he'
  rw [hkeeps.constructors fun hnone => by cases he0.symm.trans hnone]
  exact fun k hk => h he0 hnew hk

namespace Check

/-- Reading the type of a variable and its initial value declares no names around them. -/
lemma bindingAt?_of_continues {name : String} (hat : σ.At scope place)
    (hτ : σ.Continues σ.Novel τ) :
    τ.scopes.bindingAt? name scope = σ.scopes.bindingAt? name scope := by
  obtain ⟨s, hs, -⟩ := hat
  obtain ⟨s', hs', hkeeps⟩ := hτ.scope hs
  rw [Scopes.bindingAt?, Scopes.bindingAt?, hs, hs']
  exact hkeeps.names name fun hnone => by cases hs.symm.trans hnone

/-! ### Calls and single rules -/

section Rules

variable {t : TypeTable} {args : List Expr} {span : Span}

lemma fair_callMember {object : TypeId} {name : String} (hσ : σ.Assembled)
    (hargs : ∀ a ∈ args, a.span ∈ S) (hspan : span ∈ S) :
    Verdict hoisted True S (Call.member σ.types object name args span) := by
  unfold Call.member
  split
  · rename_i c _ hform
    obtain ⟨e, he, -⟩ := hσ.types.wellFormed.object_form hform
    exact Call.fair_method ⟨e, he⟩ (fun he hb => hσ.members he hb) hargs hspan
  · exact .ok trivial
  · exact (Rule.fair_callable hspan).bind_plain fun _ _ => .ok trivial

lemma fair_subscriptType {o i : Expr} (hspan : i.span ∈ S) :
    Verdict hoisted True S (subscriptType t o i) := by
  unfold subscriptType
  split
  · exact (Rule.fair_assignable hspan (by rintro _ ⟨⟩; rfl)).bind_plain fun _ _ => .ok trivial
  · exact (Rule.fair_assignable hspan (by rintro _ ⟨⟩; rfl)).bind_plain fun _ _ => .ok trivial
  · exact .ok trivial

end Rules

lemma judges_registered {α : Type} {handle : Option α} {a : α} {name : String} {span : Span}
    {k : α → Check β} (h : handle = some a) (hk : Judges hoisted P S (k a) σ) :
    Judges hoisted P S (registered handle name span >>= k) σ := by
  rw [h]
  exact hk

lemma judges_nameType {name : String} {span : Span} (hat : σ.At scope place) (hspan : span ∈ S) :
    Judges hoisted True S (nameType scope name span) σ := by
  refine .bind_scopes (.bind_plain_rule (fair_resolve hat hspan) fun b _ => ?_)
  split
  · exact .pure trivial
  · exact .pure trivial
  · exact judges_recordCall.bind_pure
  · exact .pure trivial
  · exact Verdict.error (Fault.blames_of_plain hspan rfl)

lemma judges_selfType {span : Span} (hσ : σ.Assembled) (hat : σ.At scope place)
    (hspan : span ∈ S) : Judges hoisted (place.inClass = true) S (selfType scope span) σ := by
  obtain ⟨s, hs, hstands⟩ := hat
  rw [← hstands.inClass]
  refine .bind_scopes ((Judges.rule (Rule.fair_inClass hs hspan (Or.inr rfl))).bind_left
    fun c τ h => ?_)
  obtain ⟨hc, rfl⟩ := gives_rule.mp h
  obtain ⟨s', hs', hc⟩ := Rule.inClass_eq_ok.mp hc
  exact (judges_classEntry (hσ.scopes.classes hs' hc)).bind_pure

lemma judges_returnFrame {value : Option Expr} {span : Span} (hat : σ.At scope place)
    (hspan : span ∈ S) :
    Judges hoisted (place.inFunction = true ∧ (!(place.inConstructor && value.isSome)) = true) S
      (returnFrame scope value span) σ := by
  obtain ⟨s, hs, hstands⟩ := hat
  rw [← hstands.inFunction]
  refine .bind_scopes (.bind_rule (Rule.fair_inFunction hs hspan) fun f hf => ?_)
  obtain ⟨s', hs', hf⟩ := Rule.inFunction_eq_ok.mp hf
  cases hs.symm.trans hs'
  obtain ⟨g, hg, hkind⟩ := hstands.inConstructor f hf
  refine .bind_ok (Scopes.frame_eq_ok.mpr hg)
    ((Judges.rule (Verdict.ensure hspan rfl)).bind_pure.congr ?_)
  by_cases hc : g.kind = .constructor
  · simp [hc, hkind.mp hc]
  · simp [hc, Bool.eq_false_iff.mpr fun h => hc (hkind.mpr h)]

lemma frame_of_returnFrame {value : Option Expr} {span : Span} {r : FrameId × Frame}
    (h : Gives (returnFrame scope value span) σ r τ) : σ.scopes.frame? r.1 = some r.2 := by
  unfold returnFrame at h
  simp only [gives_bind, gives_scopes, gives_rule, gives_pure] at h
  obtain ⟨_, _, ⟨rfl, rfl⟩, id, _, ⟨-, rfl⟩, frame, _, ⟨hframe, rfl⟩, _, _, -, rfl, -⟩ := h
  exact Scopes.frame_eq_ok.mp hframe

lemma judges_giveBack {id : FrameId} {frame : Frame} {value : Expr}
    (hframe : ∃ g, σ.scopes.frame? id = some g) (hspan : value.span ∈ S) :
    Judges hoisted True S (giveBack id frame value) σ := by
  unfold giveBack
  split
  · exact .pure trivial
  · obtain ⟨g, hg⟩ := hframe
    exact .bind_types (.bind_plain_rule (Rule.fair_assignable hspan (by rintro _ ⟨⟩; rfl))
      fun _ _ => .bind_scopes (.bind_ok (Scopes.frame_eq_ok.mpr hg)
        (.of_gives (a := ()) (gives_updateScopes.mpr rfl) trivial)))

/-- A function is blamed if it does not give back what it promises. -/
lemma judges_closeFunction {head : FuncHead} {body : ScopeId} (hσ : head.Hoisted σ place)
    (hbody : head.scope = some body) (hspan : head.extent.span ∈ S) :
    Judges hoisted True S (closeFunction head body) σ := by
  obtain ⟨body', hbody', -, s, f, g, hs, hf, hg, -⟩ := hσ.scope
  cases hbody.symm.trans hbody'
  exact .bind_scopes (.bind_ok (Scopes.scope_eq_ok.mpr hs) (judges_registered hf
    (.bind_ok (Scopes.frame_eq_ok.mpr hg) (.bind_types (Judges.rule
      (.ensure_plain hspan rfl)).bind_pure))))

/-- A class is blamed for constructors that clash. -/
lemma judges_closeClass {head : ClassHead} {c : ClassId} {body : ScopeId} {e : ClassEntry}
    (he : σ.types.class? c = some e) (hat : σ.At body place)
    (hctors : ∀ k ∈ e.constructors, k.span ∈ S) :
    Judges hoisted True S (closeClass head c body) σ := by
  obtain ⟨s, hs, -⟩ := hat
  refine .bind_scopes (.bind_ok (Scopes.scope_eq_ok.mpr hs)
    ((judges_changeClass ⟨e, he⟩).bind_plain fun _ σ1 h1 => .bind_types ?_))
  obtain ⟨-, rfl⟩ := gives_changeClass.mp h1
  have he1 : (σ.updateClass c (ClassEntry.close s.bindings)).types.class? c =
      some (e.close s.bindings) := by
    rw [Session.class?_updateClass, he]
    simp
  refine (Judges.of_gives (gives_classEntry.mpr ⟨he1, rfl⟩) trivial).bind_plain fun e' σ2 h2 => ?_
  obtain ⟨he', rfl⟩ := gives_classEntry.mp h2
  cases he1.symm.trans he'
  exact (Judges.rule (Rule.fair_clashFree hctors)).bind_pure

lemma opened_block {Φ : Cell → Prop} {inner : ScopeId} (hσ : σ.Assembled) (hat : σ.At scope place)
    (h : Gives (openIn scope .block) σ inner τ) : σ.Continues Φ τ ∧ τ.At inner place := by
  have hkind : ScopeKind.block.Present σ.types σ.scopes := trivial
  exact ⟨(leads_openIn hσ hkind).changes_of_gives h, (at_openIn hat (fun s hs => hs.block) h).1⟩

/-- Nothing is declared in the scope of a loop when it is opened. -/
lemma opened_loop {Φ : Cell → Prop} {inner : ScopeId} (hσ : σ.Assembled) (hat : σ.At scope place)
    (h : Gives (openIn scope .loop) σ inner τ) : σ.Continues Φ τ ∧ τ.At inner place.loop ∧
      ∀ n, τ.scopes.bindingAt? n inner = none := by
  have hkind : ScopeKind.loop.Present σ.types σ.scopes := trivial
  obtain ⟨hinner, s, -, hs⟩ := at_openIn hat (fun s hs => hs.loop) h
  refine ⟨(leads_openIn hσ hkind).changes_of_gives h, hinner, fun n => ?_⟩
  rw [Scopes.bindingAt?, hs]
  rfl

/-! ### Expressions -/

lemma continues_expr {e e' : Expr} (hσ : A.Continues A.Declared σ)
    (h : Gives (expr scope e) σ e' τ) : σ.Continues A.Declared τ :=
  (exprLeads e hσ.assembled hσ.room_declared).changes_of_gives h

lemma span_of_expr {e e' : Expr} (hspans : e.spans ⊆ S) (h : Gives (expr scope e) σ e' τ) :
    e'.span ∈ S := by
  rw [← Expr.spans_congr (e.kept h)] at hspans
  exact hspans e'.span_mem_spans

lemma span_of_exprs {es es' : List Expr} (hspans : Expr.spansList es ⊆ S)
    (h : Gives (exprs scope es) σ es' τ) : ∀ e ∈ es', e.span ∈ S := by
  rw [← Expr.spansList_congr (erase_exprs (fun e _ => e.kept) h)] at hspans
  exact fun e he => hspans (Expr.spans_subset_spansList he e.span_mem_spans)

/-- Looking at an expression finds out whether all of it stands where it may stand. -/
def ExprJudged (A : Session) (S : List Span) (e : Expr) : Prop :=
  ∀ {scope : ScopeId} {σ : Session} {place : Surroundings}, e.spans ⊆ S →
    A.Continues A.Declared σ → σ.At scope place →
    Judges true (e.placed place = true) S (expr scope e) σ

/-- All that the statement declares is known, its constructors fit, and its fields have been looked
at. -/
structure Prepared (base σ : Session) (place : Surroundings) (s : Stmt) : Prop where
  hoisted : s.Hoisted base σ place
  fit : s.fit = true
  fields : s.fieldsPlaced place = true

lemma Prepared.mono {Φ : Cell → Prop} {s : Stmt} (h : Prepared base σ place s)
    (hτ : σ.Continues Φ τ) : Prepared base τ place s :=
  ⟨h.hoisted.mono hτ, h.fit, h.fields⟩

/-- There is nothing to prepare in a statement that declares nothing. -/
lemma prepared_of_plain {s : Stmt} (h : (!s.isClass) = true ∧ (!s.isFunction) = true) :
    Prepared base σ place s := by
  rw [Bool.not_eq_true', Bool.not_eq_true'] at h
  refine ⟨Stmt.hoisted_of_plain h.1 h.2, ?_, ?_⟩
  all_goals
    cases s with
    | cls => cases h.1
    | _ => rfl

/-- Looking at a statement finds out whether all of it stands where it may stand. -/
def StmtJudged (A base : Session) (S : List Span) (s : Stmt) : Prop :=
  ∀ {scope : ScopeId} {σ : Session} {place : Surroundings}, s.spans ⊆ S →
    A.Continues A.Declared σ → σ.At scope place → Prepared base σ place s →
    Judges true (s.placed place = true) S (stmt scope s) σ

def ChainJudged (A : Session) (S : List Span) (ch : Chain) : Prop :=
  ∀ {scope : ScopeId} {σ : Session} {place : Surroundings}, ch.spans ⊆ S →
    A.Continues A.Declared σ → σ.At scope place →
    Judges true (ch.placed place = true) S (chain scope ch) σ

lemma judges_exprs {es : List Expr} (hes : ∀ e ∈ es, ExprJudged A S e)
    (hspans : Expr.spansList es ⊆ S) (hσ : A.Continues A.Declared σ) (hat : σ.At scope place) :
    Judges true (Expr.placedList place es = true) S (exprs scope es) σ := by
  induction es generalizing σ with
  | nil => exact .pure rfl
  | cons e es ih =>
    rw [List.forall_mem_cons] at hes
    rw [Expr.spansList, Expr.collectList, List.append_subset] at hspans
    rw [exprs, Expr.placedList, Bool.and_eq_true]
    refine (hes.1 hspans.1 hσ hat).bind fun e' σ1 h1 => ?_
    have c1 := continues_expr hσ h1
    exact (ih hes.2 hspans.2 (hσ.trans c1) (hat.mono c1)).bind_pure

lemma judges_entries {es : List (Expr × Expr)}
    (hes : ∀ e ∈ es, ExprJudged A S e.1 ∧ ExprJudged A S e.2)
    (hspans : Expr.collectEntries .spans () es ⊆ S) (hσ : A.Continues A.Declared σ)
    (hat : σ.At scope place) :
    Judges true (Expr.placedEntries place es = true) S (entries scope es) σ := by
  induction es generalizing σ with
  | nil => exact .pure rfl
  | cons e es ih =>
    rw [List.forall_mem_cons] at hes
    rw [Expr.collectEntries, List.append_subset, List.append_subset] at hspans
    rw [entries, Expr.placedEntries, Bool.and_eq_true, Bool.and_eq_true, and_assoc]
    refine (hes.1.1 hspans.1.1 hσ hat).bind fun k σ1 h1 => ?_
    have c1 := continues_expr hσ h1
    refine (hes.1.2 hspans.1.2 (hσ.trans c1) (hat.mono c1)).bind fun v σ2 h2 => ?_
    have c2 := c1.trans (continues_expr (hσ.trans c1) h2)
    exact (ih hes.2 hspans.2 (hσ.trans c2) (hat.mono c2)).bind_pure

lemma judges_stmts {ss : List Stmt} (hss : ∀ s ∈ ss, StmtJudged A base S s)
    (hspans : Stmt.spansList ss ⊆ S) (hσ : A.Continues A.Declared σ) (hat : σ.At scope place)
    (hprepared : ∀ s ∈ ss, Prepared base σ place s) :
    Judges true (∀ s ∈ ss, s.placed place = true) S (stmts scope ss) σ := by
  induction ss generalizing σ with
  | nil => exact .pure (List.forall_mem_nil _)
  | cons s ss ih =>
    rw [List.forall_mem_cons] at hss hprepared
    rw [Stmt.spansList_cons, List.append_subset] at hspans
    rw [stmts, List.forall_mem_cons]
    refine (hss.1 hspans.1 hσ hat hprepared.1).bind fun s' σ1 h1 => ?_
    have c1 := continues_stmt hσ h1
    exact (ih hss.2 hspans.2 (hσ.trans c1) (hat.mono c1)
      fun s hs => (hprepared.2 s hs).mono c1).bind_pure

lemma continues_block {ss ss' : List Stmt} (hσ : A.Continues A.Declared σ)
    (h : Gives (block scope ss) σ ss' τ) : σ.Continues A.Declared τ :=
  (leads_block (fun s _ => stmtLeads s) hσ.assembled hσ.room_declared
    Session.free_declared.opens).changes_of_gives h

lemma judges_block {ss : List Stmt} (hss : ∀ s ∈ ss, StmtJudged A base S s)
    (hspans : Stmt.spansList ss ⊆ S) (hσ : A.Continues A.Declared σ) (hat : σ.At scope place) :
    Judges true (Stmt.placedBlock place ss = true) S (block scope ss) σ := by
  have hrules : Verdict true (∀ s ∈ ss, (!s.isClass) = true ∧ (!s.isFunction) = true) S
      (ss.forM Rule.blockStmt) :=
    .forM fun s hs => Rule.fair_blockStmt
      (hspans (Stmt.spans_subset_spansList hs s.span_mem_spans))
  have hiff : Stmt.placedBlock place ss = true ↔
      (∀ s ∈ ss, (!s.isClass) = true ∧ (!s.isFunction) = true) ∧
        ∀ s ∈ ss, s.placed place = true := by
    rw [Stmt.placedBlock_iff, ← forall₂_and]
    simp only [Bool.not_eq_true']
  refine (Judges.bind_rule hrules fun _ hok => ?_).congr hiff.symm
  exact judges_stmts hss hspans hσ hat fun s hs => prepared_of_plain (hrules.accepts hok s hs)

lemma continues_arm {role : String} {kind : ScopeKind} {c : Expr} {ss : List Stmt}
    {r : Expr × List Stmt} (hσ : A.Continues A.Declared σ) (hkind : kind = .block ∨ kind = .loop)
    (h : Gives (arm scope role kind c ss) σ r τ) : σ.Continues A.Declared τ :=
  (leads_arm (exprLeads c) (fun s _ => stmtLeads s) hσ.assembled hσ.room_declared
    Session.free_declared.opens.returning hkind).changes_of_gives h

/-- A condition and its block, in whose scope the surroundings are the inner ones. -/
lemma judges_arm {role : String} {kind : ScopeKind} {inside : Surroundings} {c : Expr}
    {ss : List Stmt} (hc : ExprJudged A S c) (hss : ∀ s ∈ ss, StmtJudged A base S s)
    (hspan : c.spans ⊆ S) (hspans : Stmt.spansList ss ⊆ S) (hσ : A.Continues A.Declared σ)
    (hat : σ.At scope place)
    (hopens : ∀ {υ id τ}, υ.Assembled → υ.At scope place → Gives (openIn scope kind) υ id τ →
      υ.Continues A.Declared τ ∧ τ.At id inside) :
    Judges true (c.placed place = true ∧ Stmt.placedBlock inside ss = true) S
      (arm scope role kind c ss) σ := by
  refine (hc hspan hσ hat).bind fun c' σ1 h1 => .bind_plain_rule
    (Rule.fair_boolean (span_of_expr hspan h1)) fun _ _ => ?_
  have c1 := continues_expr hσ h1
  rw [inner, bind_assoc]
  refine (judges_openIn (hat.mono c1)).bind_plain fun id σ2 h2 => ?_
  obtain ⟨c2, hid⟩ := hopens c1.assembled (hat.mono c1) h2
  exact (judges_block hss hspans (hσ.trans (c1.trans c2)) hid).bind_pure

lemma judges_members {ms : List Stmt} (hms : ∀ s ∈ ms, StmtJudged A base S s)
    (hspans : Stmt.spansList ms ⊆ S) (hσ : A.Continues A.Declared σ) (hat : σ.At scope place)
    (hprepared : ∀ s ∈ ms, Prepared base σ place s)
    (hfields : ∀ s ∈ ms, s.isVar = true → s.placed place = true) :
    Judges true (∀ s ∈ ms, s.placed place = true) S (members scope ms) σ := by
  induction ms generalizing σ with
  | nil => exact .pure (List.forall_mem_nil _)
  | cons s ms ih =>
    rw [List.forall_mem_cons] at hms hprepared hfields
    rw [Stmt.spansList_cons, List.append_subset] at hspans
    rw [List.forall_mem_cons]
    by_cases hvar : s.isVar = true
    · have hplaced := hfields.1 hvar
      obtain ⟨head, init, rfl⟩ := Stmt.isVar_iff.mp hvar
      exact (ih hms.2 hspans.2 hσ hat hprepared.2 hfields.2).bind_pure.congr
        (and_iff_right hplaced).symm
    · rw [members_cons (Bool.eq_false_iff.mpr hvar)]
      refine (hms.1 hspans.1 hσ hat hprepared.1).bind fun s' σ1 h1 => ?_
      have c1 := continues_stmt hσ h1
      exact (ih hms.2 hspans.2 (hσ.trans c1) (hat.mono c1)
        (fun s hs => (hprepared.2 s hs).mono c1) hfields.2).bind_pure

lemma judges_openLambda {head : LambdaHead} (hσ : σ.Assembled) (hat : σ.At scope place)
    (hspans : Param.spansList head.params ⊆ S) :
    Judges hoisted True S (openLambda scope head) σ :=
  judges_openFunction hσ hat hspans fun _ _ _ _ _ _ _ _ _ => .pure trivial

lemma at_openLambda {head head' : LambdaHead} {inner : ScopeId} (hσ : σ.Assembled)
    (hat : σ.At scope place) (h : Gives (openLambda scope head) σ (inner, head') τ) :
    τ.At inner place.function := by
  obtain ⟨f, σ1, h1, σ2, h2, ps, h3, rfl⟩ := h.openLambda
  obtain ⟨c2, hat2, -⟩ := opened_function (Φ := fun _ => True) hσ hat h1 h2
  exact hat2.mono (typed_params c2.assembled h3).1

/-! ### Parts of statements -/

lemma judges_declareVar {head : VarHead} {declared : Option TypeId} {init : Option Expr}
    (hat : σ.At scope place)
    (hspan : σ.scopes.bindingAt? head.name scope ≠ none → head.span ∈ S)
    (hinit : ∀ e ∈ init, e.span ∈ S) :
    Judges hoisted True S (declareVar scope head declared init) σ := by
  have declares {t : TypeId} : Judges hoisted True S (do
      declare scope (.ofVariable head.name t) head.span
      return { head with type := some t }) σ := (judges_declare hat hspan).bind_pure
  cases declared with
  | none => exact declares
  | some t =>
    cases init with
    | none => exact declares
    | some e =>
      refine .bind_types (.bind_plain_rule (Rule.fair_assignable (hinit e rfl) ?_)
        fun _ _ => declares)
      exact fun _ h => (Option.not_mem_none _ h).elim

/-- A variable is blamed if its scope declares the name already. -/
lemma judges_var {head : VarHead} {init : Option Expr} (hinit : ∀ e ∈ init, ExprJudged A S e)
    (hwritten : TypeExpr.spansOption head.annotation ⊆ S)
    (hspans : Expr.collectOption .spans () init ⊆ S)
    (hspan : σ.scopes.bindingAt? head.name scope ≠ none → head.span ∈ S)
    (hσ : A.Continues A.Declared σ) (hat : σ.At scope place) :
    Judges true (Expr.placedOption place init = true) S (var scope head init) σ := by
  -- reading the written type declares no names
  have hread {ty : Option TypeId} {σ1 : Session}
      (h1 : Gives (typeOf? scope head.annotation) σ ty σ1) :
      σ.Continues A.Declared σ1 ∧
        (σ1.scopes.bindingAt? head.name scope ≠ none → head.span ∈ S) := by
    have c1 := (leads_typeOf? (Φ := σ.Novel) hσ.assembled).changes_of_gives h1
    rw [bindingAt?_of_continues hat c1]
    exact ⟨(leads_typeOf? hσ.assembled).changes_of_gives h1, hspan⟩
  cases init with
  | none =>
    rw [var, Expr.placedOption, eq_self_iff_true]
    refine (judges_typeOf? hσ.assembled hat hwritten).bind_plain fun ty σ1 h1 => ?_
    obtain ⟨c1, hspan1⟩ := hread h1
    exact (judges_declareVar (hat.mono c1) hspan1 fun _ h =>
      (Option.not_mem_none _ h).elim).bind_pure
  | some e =>
    rw [var, Expr.placedOption]
    refine (judges_typeOf? hσ.assembled hat hwritten).bind_plain fun ty σ1 h1 => ?_
    obtain ⟨c1, hspan1⟩ := hread h1
    refine (hinit e rfl hspans (hσ.trans c1) (hat.mono c1)).bind_left fun e' σ2 h2 => ?_
    -- the initial value declares none in the scope of the variable
    have hnovel := (exprLeads (Φ := σ1.Novel) e c1.assembled Session.room_novel).changes_of_gives h2
    rw [← bindingAt?_of_continues (hat.mono c1) hnovel] at hspan1
    refine (judges_declareVar ((hat.mono c1).mono hnovel) hspan1 ?_).bind_pure
    rintro _ ⟨⟩
    exact span_of_expr hspans h2

/-- The variable of a loop has its scope for itself. -/
lemma judges_loopInit {init : Option (VarHead × Option Expr)}
    (hinit : ∀ i ∈ init, ∀ e ∈ i.2, ExprJudged A S e)
    (hwritten : TypeExpr.spansOption (init.bind fun i => VarHead.annotation i.1) ⊆ S)
    (hspans : Expr.collectInit .spans () init ⊆ S)
    (hfresh : ∀ n, σ.scopes.bindingAt? n scope = none) (hσ : A.Continues A.Declared σ)
    (hat : σ.At scope place) :
    Judges true (Expr.placedInit place init = true) S (loopInit scope init) σ := by
  cases init with
  | none => exact .pure rfl
  | some i =>
    rw [loopInit, map_eq_pure_bind]
    exact (judges_var (hinit i rfl) hwritten hspans (fun h => absurd (hfresh _) h) hσ hat).bind_pure

lemma judges_loopCondition {c : Option Expr} (hc : ∀ e ∈ c, ExprJudged A S e)
    (hspans : Expr.collectOption .spans () c ⊆ S) (hσ : A.Continues A.Declared σ)
    (hat : σ.At scope place) :
    Judges true (Expr.placedOption place c = true) S (loopCondition scope c) σ := by
  cases c with
  | none => exact .pure rfl
  | some c =>
    rw [loopCondition]
    exact (hc c rfl hspans hσ hat).bind_left fun c' σ1 h1 =>
      .bind_plain_rule (Rule.fair_boolean (span_of_expr hspans h1)) fun _ _ => .pure trivial

lemma judges_loopUpdate {update : Option Stmt} (hupdate : ∀ s ∈ update, StmtJudged A base S s)
    (hspans : Stmt.collectUpdate .spans () update ⊆ S) (hσ : A.Continues A.Declared σ)
    (hat : σ.At scope place) :
    Judges true (Stmt.placedUpdate place update = true) S (loopUpdate scope update) σ := by
  cases update with
  | none => exact .pure rfl
  | some s =>
    rw [loopUpdate, map_eq_pure_bind, Stmt.placedUpdate, Bool.and_eq_true, Bool.and_eq_true]
    have hrule : Verdict true ((!s.isClass) = true ∧ (!s.isFunction) = true) S
        (Rule.blockStmt s) := Rule.fair_blockStmt (hspans s.span_mem_spans)
    exact .bind_rule hrule fun _ hok => (hupdate s rfl hspans hσ hat
      (prepared_of_plain (hrule.accepts hok))).bind_pure

/-- The members of a class have been prepared; its constructors have all been declared in it. -/
lemma StmtJudged.cls {ms : List Stmt} (hsited : base.Sited S A)
    (hms : ∀ s ∈ ms, StmtJudged A base S s) (head : ClassHead) :
    StmtJudged A base S (.cls head ms) := by
  intro scope σ place hspans hσ _ hprepared
  obtain ⟨⟨c, body, hc, hbody, hnew, ⟨e, he⟩, hat, -⟩, hhoisted⟩ := hprepared.hoisted
  rw [Stmt.hoistedList_iff] at hhoisted
  have hfit := Stmt.fitList_iff.mp hprepared.fit
  have hfields := Stmt.fieldsPlacedList_iff.mp hprepared.fields
  replace hspans := Collector.add_subset.mp hspans
  have hiff : (Stmt.cls head ms).placed place = true ↔ ∀ s ∈ ms, s.placed place.body = true := by
    rw [Stmt.placed, Stmt.placedList_iff, forall₂_and]
    exact and_iff_right hfit.2
  rw [stmt]
  refine (judges_registered hc (judges_registered hbody (judges_note.bind_plain
    fun _ σ1 h1 => ?_))).congr hiff.symm
  have c1 := (leads_note (Φ := A.Declared) hσ.assembled).changes_of_gives h1
  refine (judges_members hms hspans.2 (hσ.trans c1) (hat.mono c1)
    (fun s hs => Prepared.mono ⟨hhoisted s hs, hfit.1 s hs, (hfields s hs).2⟩ c1)
    fun s hs => (hfields s hs).1).bind_left fun ms' σ2 h2 => ?_
  have c2 := c1.trans (closed_members (fun s _ => walkCloses A s) (hσ.trans c1) h2).1
  obtain ⟨e2, he2, -⟩ := c2.cls he
  exact (judges_closeClass he2 (hat.mono c2) (hsited.of_continues (hσ.trans c2) hnew he2)).bind_pure

/-! ### Expressions and statements -/

lemma ExprJudged.ternary {c y n : Expr} (hc : ExprJudged A S c) (hy : ExprJudged A S y)
    (hn : ExprJudged A S n) (m : Mark) : ExprJudged A S (.ternary m c y n) := by
  intro scope σ place hspans hσ hat
  rw [Expr.spans, Expr.collect, Collector.add_subset, List.append_subset,
    List.append_subset] at hspans
  rw [Check.expr, Expr.placed, Bool.and_eq_true, Bool.and_eq_true, and_assoc]
  refine (hc hspans.2.1.1 hσ hat).bind fun c' σ1 h1 =>
    .bind_plain_rule (Rule.fair_boolean (span_of_expr hspans.2.1.1 h1)) fun _ _ => ?_
  have c1 := continues_expr hσ h1
  refine (hy hspans.2.1.2 (hσ.trans c1) (hat.mono c1)).bind fun y' σ2 h2 => ?_
  have c2 := c1.trans (continues_expr (hσ.trans c1) h2)
  refine (hn hspans.2.2 (hσ.trans c2) (hat.mono c2)).bind_left fun n' σ3 _ => ?_
  exact .bind_types (.pure trivial)

lemma ExprJudged.call_name {args : List Expr} (hargs : ∀ e ∈ args, ExprJudged A S e) (m f : Mark)
    (n : String) (target : Option CallTarget) :
    ExprJudged A S (.call m (.name f n) args target) := by
  intro scope σ place hspans hσ hat
  rw [Expr.spans, Expr.collect, Collector.add_subset, List.append_subset] at hspans
  have hf : f.span ∈ S := hspans.2.1 List.mem_cons_self
  rw [Check.expr, Expr.placed, Expr.placed, Bool.true_and]
  refine .bind_scopes (.bind_plain_rule (fair_resolve hat hf) fun b hb =>
    .bind_plain_rule (Rule.fair_callable hf) fun _ _ => judges_recordCall.bind_plain
      fun _ σ1 h1 => ?_)
  have c1 := (leads_recordCall (Φ := A.Declared) hσ.assembled).changes_of_gives h1
  refine (judges_exprs hargs hspans.2.2 (hσ.trans c1) (hat.mono c1)).bind_left
    fun args' σ2 h2 => .bind_types ?_
  have c2 := (leads_exprs (fun e _ => exprLeads e) c1.assembled
    (hσ.trans c1).room_declared).changes_of_gives h2
  obtain ⟨id, hid⟩ := Scopes.exists_of_resolve hb
  have hpresent : b.Present σ2.types := (hσ.assembled.scopes.present hid).mono fun he => by
    obtain ⟨e', he', -⟩ := (c1.trans c2).cls he
    exact ⟨e', he'⟩
  exact .bind_plain_rule (Call.fair_named hpresent (span_of_exprs hspans.2.2 h2)
    (hspans.1 List.mem_cons_self))
    fun _ _ => .pure trivial

lemma ExprJudged.call_member {o : Expr} {args : List Expr} (ho : ExprJudged A S o)
    (hargs : ∀ e ∈ args, ExprJudged A S e) (m f : Mark) (n : String) (target : Option CallTarget) :
    ExprJudged A S (.call m (.member f o n) args target) := by
  intro scope σ place hspans hσ hat
  rw [Expr.spans, Expr.collect, Collector.add_subset, List.append_subset, Expr.collect,
    Collector.add_subset] at hspans
  rw [Check.expr, Expr.placed, Expr.placed, Bool.and_eq_true]
  refine (ho hspans.2.1.2 hσ hat).bind fun o' σ1 h1 => .bind_types (.bind_plain_rule
    (Rule.fair_member (hspans.2.1.1 List.mem_cons_self)) fun _ _ => ?_)
  have c1 := continues_expr hσ h1
  refine (judges_exprs hargs hspans.2.2 (hσ.trans c1) (hat.mono c1)).bind_left
    fun args' σ2 h2 => .bind_types ?_
  have c2 := (leads_exprs (fun e _ => exprLeads e) c1.assembled
    (hσ.trans c1).room_declared).changes_of_gives h2
  exact .bind_plain_rule (fair_callMember c2.assembled (span_of_exprs hspans.2.2 h2)
    (hspans.1 List.mem_cons_self))
    fun _ _ => .pure trivial

lemma StmtJudged.assign {target v : Expr} (ht : ExprJudged A S target) (hv : ExprJudged A S v)
    (span : Span) : StmtJudged A base S (.assign span target v) := by
  intro scope σ place hspans hσ hat _
  rw [Stmt.spans, Stmt.collect, Collector.add_subset, List.append_subset] at hspans
  rw [stmt, Stmt.placed, Bool.and_eq_true, and_comm]
  refine (hv hspans.2.2 hσ hat).bind fun v' σ1 h1 => .bind_plain_rule
    (.ensure_plain (hspans.2.1 target.span_mem_spans) rfl) fun _ _ => ?_
  have c1 := continues_expr hσ h1
  refine (ht hspans.2.1 (hσ.trans c1) (hat.mono c1)).bind_left fun t' σ2 h2 => .bind_types ?_
  refine .bind_plain_rule (Rule.fair_assignable (span_of_expr hspans.2.2 h1) ?_)
    fun _ _ => .pure trivial
  exact fun _ h => (Option.not_mem_none _ h).elim

lemma StmtJudged.forLoop {init : Option (VarHead × Option Expr)} {c : Option Expr}
    {update : Option Stmt} {body : List Stmt} (hinit : ∀ i ∈ init, ∀ e ∈ i.2, ExprJudged A S e)
    (hc : ∀ e ∈ c, ExprJudged A S e) (hupdate : ∀ s ∈ update, StmtJudged A base S s)
    (hbody : ∀ s ∈ body, StmtJudged A base S s) (x : Extent) :
    StmtJudged A base S (.forLoop x init c update body) := by
  intro scope σ place hspans hσ hat _
  rw [Stmt.spans, Stmt.collect, Collector.add_subset, List.append_subset, List.append_subset,
    List.append_subset] at hspans
  obtain ⟨hown, ⟨⟨hsinit, hsc⟩, hsupdate⟩, hsbody⟩ := hspans
  rw [stmt_forLoop, Stmt.placed, Bool.and_eq_true, Bool.and_eq_true, Bool.and_eq_true, and_assoc,
    and_assoc]
  -- variable, condition and update are looked at in the scope of the body
  refine (judges_openIn hat).bind_plain fun id σ1 h1 => ?_
  obtain ⟨c1, hinner, hfresh⟩ := opened_loop (Φ := A.Declared) hσ.assembled hat h1
  have hfree : Cell.Free A.Declared := Session.free_declared
  have hσ1 := hσ.trans c1
  refine (judges_loopInit hinit (List.cons_subset.mp hown).2 hsinit hfresh hσ1 hinner).bind
    fun init' σ2 h2 => ?_
  have c2 := (leads_loopInit (fun _ _ e _ => exprLeads e) hσ1.assembled hσ1.room_declared
    hfree.opens).changes_of_gives h2
  have hσ2 := hσ1.trans c2
  refine (judges_loopCondition hc hsc hσ2 (hinner.mono c2)).bind fun c' σ3 h3 => ?_
  have c3 := c2.trans ((leads_loopCondition (fun e _ => exprLeads e) hσ2.assembled
    hσ2.room_declared).changes_of_gives h3)
  have hσ3 := hσ1.trans c3
  refine (judges_loopUpdate hupdate hsupdate hσ3 (hinner.mono c3)).bind fun update' σ4 h4 => ?_
  have c4 := c3.trans ((leads_loopUpdate (fun s _ => stmtLeads s) hσ3.assembled hσ3.room_declared
    hfree.opens).changes_of_gives h4)
  exact (judges_block hbody hsbody (hσ1.trans c4) (hinner.mono c4)).bind_pure

lemma StmtJudged.ret {v : Option Expr} (hv : ∀ e ∈ v, ExprJudged A S e) (span : Span) :
    StmtJudged A base S (.ret span v) := by
  intro scope σ place hspans hσ hat _
  replace hspans := Collector.add_subset.mp hspans
  have hspan := hspans.1 List.mem_cons_self
  rw [Stmt.placed, Bool.and_eq_true, Bool.and_eq_true]
  cases v with
  | none =>
    rw [stmt]
    exact (judges_returnFrame hat hspan).bind fun _ _ _ => .pure rfl
  | some e =>
    rw [stmt]
    refine (judges_returnFrame hat hspan).bind fun r σ1 h1 => ?_
    have hframe := frame_of_returnFrame h1
    obtain rfl := session_of_returnFrame h1
    refine (hv e rfl hspans.2 hσ hat).bind_left fun e' σ2 h2 => ?_
    obtain ⟨g, hg, -⟩ := (continues_expr hσ h2).frame hframe
    exact (judges_giveBack ⟨g, hg⟩ (span_of_expr hspans.2 h2)).bind_pure

lemma tree_judged (hsited : base.Sited S A) :
    Tree.Walk (ExprJudged A S) (StmtJudged A base S) (ChainJudged A S) where
  leaf {e} h := by
    intro scope σ place hspans hσ hat
    cases e with
    | number | string | boolean | null => exact .pure rfl
    | name m n =>
      rw [Expr.placed, eq_self_iff_true]
      exact (judges_nameType hat (hspans List.mem_cons_self)).bind_pure
    | self m => exact (judges_selfType hσ.assembled hat (hspans List.mem_cons_self)).bind_pure
    | _ => cases h
  binary hl hr _ _ := by
    intro scope σ place hspans hσ hat
    rw [Expr.spans, Expr.collect, Collector.add_subset, List.append_subset] at hspans
    rw [Check.expr, Expr.placed, Bool.and_eq_true]
    refine (hl hspans.2.1 hσ hat).bind fun l' σ1 h1 => ?_
    have c1 := continues_expr hσ h1
    exact (hr hspans.2.2 (hσ.trans c1) (hat.mono c1)).bind_pure
  unary he _ _ := by
    intro scope σ place hspans hσ hat
    rw [Expr.spans, Expr.collect, Collector.add_subset] at hspans
    rw [Check.expr, Expr.placed]
    refine (he hspans.2 hσ hat).bind_left fun e' σ1 h1 => ?_
    have hspan := span_of_expr hspans.2 h1
    refine .bind_plain_rule ?_ fun _ _ => .pure trivial
    split
    · exact Rule.fair_boolean hspan
    · exact Rule.fair_number hspan
  step he _ _ := by
    intro scope σ place hspans hσ hat
    rw [Expr.spans, Expr.collect, Collector.add_subset] at hspans
    rw [Check.expr, Expr.placed]
    refine (he hspans.2 hσ hat).bind_left fun e' σ1 h1 => ?_
    exact .bind_plain_rule (Rule.fair_number (span_of_expr hspans.2 h1)) fun _ _ => .pure trivial
  ternary := ExprJudged.ternary
  call_name := ExprJudged.call_name
  call_member := ExprJudged.call_member
  call_computed hname hmember hf hargs _ _ := by
    intro scope σ place hspans hσ hat
    rw [Expr.spans, Expr.collect, Collector.add_subset, List.append_subset] at hspans
    rw [Check.expr_call hname hmember, Expr.placed, Bool.and_eq_true]
    refine (hf hspans.2.1 hσ hat).bind fun f' σ1 h1 => .bind_types (.bind_plain_rule
      (.ensure_plain (span_of_expr hspans.2.1 h1) rfl) fun _ _ => ?_)
    have c1 := continues_expr hσ h1
    exact (judges_exprs hargs hspans.2.2 (hσ.trans c1) (hat.mono c1)).bind_pure
  member ho _ _ := by
    intro scope σ place hspans hσ hat
    rw [Expr.spans, Expr.collect, Collector.add_subset] at hspans
    rw [Check.expr, Expr.placed]
    refine (ho hspans.2 hσ hat).bind_left fun o' σ1 _ => .bind_types (.bind_plain_rule
      (Rule.fair_member (hspans.1 List.mem_cons_self)) fun _ _ => ?_)
    exact .bind_types (.pure trivial)
  subscript ho hi _ := by
    intro scope σ place hspans hσ hat
    rw [Expr.spans, Expr.collect, Collector.add_subset, List.append_subset] at hspans
    rw [Check.expr, Expr.placed, Bool.and_eq_true]
    refine (ho hspans.2.1 hσ hat).bind fun o' σ1 h1 => .bind_types (.bind_plain_rule
      (Rule.fair_collection (span_of_expr hspans.2.1 h1)) fun _ _ => ?_)
    have c1 := continues_expr hσ h1
    refine (hi hspans.2.2 (hσ.trans c1) (hat.mono c1)).bind_left fun i' σ2 h2 => ?_
    exact .bind_types (.bind_plain_rule (fair_subscriptType (span_of_expr hspans.2.2 h2))
      fun _ _ => .pure trivial)
  array hes _ := by
    intro scope σ place hspans hσ hat
    rw [Expr.spans, Expr.collect, Collector.add_subset] at hspans
    rw [Check.expr, Expr.placed]
    exact (judges_exprs hes hspans.2 hσ hat).bind_left fun _ _ _ => judges_addType.bind_pure
  dictionary hes _ := by
    intro scope σ place hspans hσ hat
    rw [Expr.spans, Expr.collect, Collector.add_subset] at hspans
    rw [Check.expr, Expr.placed]
    exact (judges_entries hes hspans.2 hσ hat).bind_left fun _ _ _ => judges_addType.bind_pure
  blockLambda hbody _ _ _ := by
    intro scope σ place hspans hσ hat
    obtain ⟨hown, hinside⟩ := Collector.add_subset.mp hspans
    -- a lambda is a function of its own, so the loop around it is not around its body
    rw [expr_blockLambda, Expr.placed]
    refine (judges_openLambda hσ.assembled hat (List.cons_subset.mp hown).2).bind_plain
      fun r σ1 h1 => ?_
    have c1 := (leads_openLambda hσ.assembled hσ.room_declared).changes_of_gives h1
    exact (judges_block hbody hinside (hσ.trans c1) (at_openLambda hσ.assembled hat h1)).bind_pure
  exprLambda hbody _ _ := by
    intro scope σ place hspans hσ hat
    obtain ⟨hown, hinside⟩ := Collector.add_subset.mp hspans
    rw [Check.expr, Expr.placed]
    refine (judges_openLambda hσ.assembled hat (List.cons_subset.mp hown).2).bind_plain
      fun r σ1 h1 => ?_
    have c1 := (leads_openLambda hσ.assembled hσ.room_declared).changes_of_gives h1
    exact (hbody hinside (hσ.trans c1) (at_openLambda hσ.assembled hat h1)).bind_pure
  var hinit _ := by
    intro scope σ place hspans hσ hat _
    obtain ⟨hown, hinside⟩ := Collector.add_subset.mp hspans
    obtain ⟨hspan, hwritten⟩ := List.cons_subset.mp hown
    rw [stmt, Stmt.placed]
    exact (judges_var hinit hwritten hinside (fun _ => hspan) hσ hat).bind_pure
  assign := StmtJudged.assign
  func hbody head := by
    intro scope σ place hspans hσ _ hprepared
    -- the declarations have left the body of the function on its head
    have hhoisted : head.Hoisted σ place := hprepared.hoisted
    obtain ⟨id, hid, hat, -⟩ := hhoisted.scope
    replace hspans := Collector.add_subset.mp hspans
    rw [stmt_func, Stmt.placed]
    refine judges_registered hid ((judges_block hbody hspans.2 hσ hat).bind_left
      fun body' τ hτ => ?_)
    exact (judges_closeFunction (hhoisted.mono (continues_block hσ hτ)) hid
      (hspans.1 List.mem_cons_self)).bind_pure
  cls := .cls hsited
  ctor hbody head := by
    intro scope σ place hspans hσ _ hprepared
    have hhoisted : head.Hoisted σ place := hprepared.hoisted
    obtain ⟨id, hid, hat⟩ := hhoisted.scope
    replace hspans := Collector.add_subset.mp hspans
    rw [stmt_ctor hid, Stmt.placed]
    exact (judges_block hbody hspans.2 hσ hat).bind_pure
  ifElse hc hbody hrest _ := by
    intro scope σ place hspans hσ hat _
    rw [Stmt.spans, Stmt.collect, Collector.add_subset, Collector.spans_removal,
      Removal.select_nothing, List.append_subset, List.append_subset] at hspans
    rw [stmt_ifElse, Stmt.placed, Bool.and_eq_true, Bool.and_eq_true]
    refine (judges_arm hc hbody hspans.2.1.1 hspans.2.1.2 hσ hat opened_block).bind fun r τ hτ => ?_
    have c1 := continues_arm hσ (Or.inl rfl) hτ
    exact (hrest hspans.2.2 (hσ.trans c1) (hat.mono c1)).bind_pure
  whileLoop hc hbody _ := by
    intro scope σ place hspans hσ hat _
    rw [Stmt.spans, Stmt.collect, Collector.add_subset, List.append_subset] at hspans
    rw [stmt_whileLoop, Stmt.placed, Bool.and_eq_true]
    exact (judges_arm hc hbody hspans.2.1 hspans.2.2 hσ hat fun hυ hat h1 =>
      ⟨(opened_loop hυ hat h1).1, (opened_loop (Φ := A.Declared) hυ hat h1).2.1⟩).bind_pure
  forLoop := StmtJudged.forLoop
  ret := StmtJudged.ret
  brk _ := by
    intro scope σ place hspans _ hat _
    obtain ⟨s, hs, hstands⟩ := hat
    -- the scope knows whether it is in a loop
    rw [stmt, Stmt.placed, ← hstands.inLoop]
    exact .bind_scopes (Judges.rule (Rule.fair_inLoop hs (hspans List.mem_cons_self))).bind_pure
  expr he := by
    intro scope σ place hspans hσ hat _
    rw [stmt, Stmt.placed]
    exact (he hspans hσ hat).bind_pure
  done _ _ _ := .pure rfl
  elseIf hc hbody hrest _ := by
    intro scope σ place hspans hσ hat
    rw [Chain.spans, Chain.collect, Collector.add_subset, Collector.spans_removal,
      Removal.select_nothing, List.append_subset, List.append_subset] at hspans
    rw [chain_elseIf, Chain.placed, Bool.and_eq_true, Bool.and_eq_true]
    refine (judges_arm hc hbody hspans.2.1.1 hspans.2.1.2 hσ hat opened_block).bind fun r τ hτ => ?_
    have c1 := continues_arm hσ (Or.inl rfl) hτ
    exact (hrest hspans.2.2 (hσ.trans c1) (hat.mono c1)).bind_pure
  otherwise hbody _ := by
    intro scope σ place hspans hσ hat
    rw [chain_otherwise, Chain.placed, inner, bind_assoc]
    refine (judges_openIn hat).bind_plain fun id σ1 h1 => ?_
    obtain ⟨c1, hid⟩ := opened_block (Φ := A.Declared) hσ.assembled hat h1
    exact (judges_block hbody hspans (hσ.trans c1) hid).bind_pure

end Check

end MiddleEnd
