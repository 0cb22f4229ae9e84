import MiddleEnd.Proofs.Check.Hoisted

/-!
Who is to blame. A rule or a step that fails complains at a place of the program, and about
something that is wrong there; no handle leads nowhere. Rules on places are told apart from all
others: one of them is broken exactly if a declaration or a keyword stands where it may not stand.
-/

namespace MiddleEnd

variable {α β : Type} {hoisted : Bool} {P Q : Prop} {S : List Span}

/-- Something stands where it may not stand. -/
def Cause.misplaced : Cause → Bool
  | .outsideLoop _ | .outsideFunction _ | .outsideClass _ | .constructorReturns
  | .constructorName .. | .nestedClass | .nestedFunction => true
  | _ => false

/-- What can be wrong: never that a declaration is looked at before it has been made known. When
the declarations are known, nothing but `this` can be outside of a class. -/
def Cause.expected (hoisted : Bool) : Cause → Bool
  | .notRegistered _ => false
  | .outsideClass keyword => !hoisted || keyword = "this"
  | _ => true

def Cause.plain (cause : Cause) : Bool := cause.expected true && !cause.misplaced

lemma Cause.plain_iff {cause : Cause} (h : cause.plain = true) :
    cause.expected hoisted = true ∧ cause.misplaced = false := by
  cases cause <;> first | exact ⟨rfl, rfl⟩ | simp [plain, expected, misplaced] at h

/-- The program is to blame, at one of these places; and if something is misplaced then `P` does
not hold. -/
def Fault.Blames (hoisted : Bool) (P : Prop) (S : List Span) (f : Fault) : Prop :=
  ∃ cause span, f = .user cause span ∧ span ∈ S ∧ cause.expected hoisted = true ∧
    (cause.misplaced = true → ¬P)

lemma Fault.blames_of_plain {cause : Cause} {span : Span} (hspan : span ∈ S)
    (hcause : cause.plain = true) : (Fault.user cause span).Blames hoisted P S := by
  obtain ⟨hexpected, hplain⟩ := Cause.plain_iff hcause
  refine ⟨cause, span, rfl, hspan, hexpected, fun hmisplaced => ?_⟩
  cases hplain.symm.trans hmisplaced

lemma Fault.Blames.mono {f : Fault} (h : f.Blames hoisted P S) (himp : Q → P) :
    f.Blames hoisted Q S := by
  obtain ⟨cause, span, hf, hspan, hexpected, hplace⟩ := h
  exact ⟨cause, span, hf, hspan, hexpected, fun hmisplaced hQ => hplace hmisplaced (himp hQ)⟩

/-- The outcome is fair: success means that `P` holds, and in case of failure the program is to
blame. -/
structure Verdict (hoisted : Bool) (P : Prop) (S : List Span) (r : Except Fault α) : Prop where
  accepts : ∀ {a}, r = .ok a → P
  blames : ∀ {f}, r = .error f → f.Blames hoisted P S

/-! ### Rules -/

namespace Verdict

lemma ok {a : α} (h : P) : Verdict hoisted P S (.ok a : Except Fault α) :=
  ⟨fun _ => h, nofun⟩

lemma error {f : Fault} (h : f.Blames hoisted P S) :
    Verdict hoisted P S (.error f : Except Fault α) :=
  ⟨nofun, by rintro _ ⟨⟩; exact h⟩

lemma congr {r : Except Fault α} (h : Verdict hoisted P S r) (hiff : P ↔ Q) :
    Verdict hoisted Q S r :=
  propext hiff ▸ h

lemma bind {r : Except Fault α} {k : α → Except Fault β} (h : Verdict hoisted P S r)
    (hk : ∀ a, r = .ok a → Verdict hoisted Q S (k a)) : Verdict hoisted (P ∧ Q) S (r >>= k) := by
  cases r with
  | error f => exact .error ((h.blames rfl).mono And.left)
  | ok a =>
    have hP := h.accepts rfl
    exact (hk a rfl).congr ⟨fun hQ => ⟨hP, hQ⟩, And.right⟩

lemma bind_plain {r : Except Fault α} {k : α → Except Fault β} (h : Verdict hoisted True S r)
    (hk : ∀ a, r = .ok a → Verdict hoisted Q S (k a)) : Verdict hoisted Q S (r >>= k) :=
  (h.bind hk).congr (iff_of_eq (true_and Q))

lemma forM {f : α → Except Fault Unit} {l : List α} {P : α → Prop}
    (h : ∀ a ∈ l, Verdict hoisted (P a) S (f a)) :
    Verdict hoisted (∀ a ∈ l, P a) S (l.forM f) := by
  induction l with
  | nil => exact .ok nofun
  | cons a l ih =>
    rw [List.forall_mem_cons] at h
    show Verdict hoisted _ S (f a >>= fun _ => l.forM f)
    exact (h.1.bind fun _ _ => ih h.2).congr List.forall_mem_cons.symm

lemma ensure {ok : Bool} {cause : Cause} {span : Span} (hspan : span ∈ S)
    (hcause : cause.expected hoisted = true) :
    Verdict hoisted (ok = true) S (MiddleEnd.ensure ok cause span) := by
  cases ok with
  | true => exact .ok rfl
  | false => exact .error ⟨cause, span, rfl, hspan, hcause, fun _ => nofun⟩

lemma ensure_plain {ok : Bool} {cause : Cause} {span : Span} (hspan : span ∈ S)
    (hcause : cause.plain = true) :
    Verdict hoisted True S (MiddleEnd.ensure ok cause span) := by
  cases ok with
  | true => exact .ok trivial
  | false => exact .error (Fault.blames_of_plain hspan hcause)

lemma scope {t : Scopes} {id : ScopeId} {s : Scope} (hs : t.scope? id = some s) :
    Verdict hoisted True S (t.scope id) := by
  rw [Scopes.scope_eq_ok.mpr hs]
  exact .ok trivial

end Verdict

namespace Rule

variable {t : TypeTable} {s : Scopes} {id : ScopeId} {sc : Scope} {e : Expr} {span : Span}

lemma fair_assignable {target : TypeId} {cause : Option Cause} (hspan : e.span ∈ S)
    (hcause : ∀ c ∈ cause, c.plain = true) :
    Verdict hoisted True S (assignable t e target cause) := by
  refine .ensure_plain hspan ?_
  cases cause with
  | none => rfl
  | some c => exact hcause c rfl

lemma fair_inLoop {keyword : String} (hs : s.scope? id = some sc) (hspan : span ∈ S) :
    Verdict hoisted (sc.inLoop = true) S (inLoop s id keyword span) := by
  unfold inLoop
  rw [Scopes.scope_eq_ok.mpr hs]
  exact .ensure hspan rfl

lemma fair_inFunction {keyword : String} (hs : s.scope? id = some sc) (hspan : span ∈ S) :
    Verdict hoisted (sc.frame.isSome = true) S (inFunction s id keyword span) := by
  cases hf : sc.frame with
  | some f =>
    rw [inFunction_eq_ok.mpr ⟨sc, hs, hf⟩]
    exact .ok rfl
  | none =>
    simp only [inFunction, Scopes.scope_eq_ok.mpr hs, bind, Except.bind, hf]
    exact .error ⟨_, span, rfl, hspan, rfl, fun _ => nofun⟩

lemma fair_inClass {keyword : String} (hs : s.scope? id = some sc) (hspan : span ∈ S)
    (hkeyword : hoisted = false ∨ keyword = "this") :
    Verdict hoisted (sc.cls.isSome = true) S (inClass s id keyword span) := by
  cases hc : sc.cls with
  | some c =>
    rw [inClass_eq_ok.mpr ⟨sc, hs, hc⟩]
    exact .ok rfl
  | none =>
    simp only [inClass, Scopes.scope_eq_ok.mpr hs, bind, Except.bind, hc]
    refine .error ⟨_, span, rfl, hspan, ?_, fun _ => nofun⟩
    rcases hkeyword with rfl | rfl
    · rfl
    · simp [Cause.expected]

lemma fair_arguments {args : List Expr} {params : List TypeId} (hargs : ∀ a ∈ args, a.span ∈ S)
    (hspan : span ∈ S) : Verdict hoisted True S (arguments t args params span) := by
  refine (Verdict.ensure_plain hspan rfl).bind_plain fun _ _ => ?_
  refine (Verdict.forM (P := fun _ => True) fun ap hap => ?_).congr (by simp)
  exact fair_assignable (hargs _ (List.of_mem_zip hap).1) nofun

lemma fair_overload {args : List Expr} {overloads : List (List TypeId)} {cls : String}
    (hspan : span ∈ S) : Verdict hoisted True S (overload t args overloads cls span) :=
  (Verdict.ensure_plain hspan rfl).bind_plain fun _ _ => .ensure_plain hspan rfl

lemma fair_member {object : TypeId} {name : String} (hspan : span ∈ S) :
    Verdict hoisted True S (member t object name span) := by
  unfold member
  split
  · exact .ok trivial
  · exact .ensure_plain hspan rfl
  · exact .ensure_plain hspan rfl

/-- Of two constructors that clash one is blamed. -/
lemma fair_clashFree {cls : String} {ks : List Constructor} (hks : ∀ k ∈ ks, k.span ∈ S) :
    Verdict hoisted True S (clashFree t cls ks) := by
  induction ks with
  | nil => exact .ok trivial
  | cons k ks ih =>
    rw [List.forall_mem_cons] at hks
    refine ((Verdict.forM (P := fun _ => True) fun k' hk' => ?_).congr (by simp)).bind_plain
      fun _ _ => ih hks.2
    exact .ensure_plain (hks.2 k' hk') rfl

lemma fair_blockStmt {st : Stmt} (hspan : st.span ∈ S) :
    Verdict hoisted ((!st.isClass) = true ∧ (!st.isFunction) = true) S (blockStmt st) :=
  (Verdict.ensure hspan rfl).bind fun _ _ => .ensure hspan rfl

lemma fair_number (hspan : e.span ∈ S) : Verdict hoisted True S (number e) :=
  .ensure_plain hspan rfl

lemma fair_boolean {role : String} (hspan : e.span ∈ S) :
    Verdict hoisted True S (boolean e role) :=
  .ensure_plain hspan rfl

lemma fair_collection (hspan : e.span ∈ S) : Verdict hoisted True S (collection t e) :=
  .ensure_plain hspan rfl

lemma fair_callable {b : Binding} (hspan : span ∈ S) :
    Verdict hoisted True S (callable b span) :=
  .ensure_plain hspan rfl

end Rule

/-! ### Calls and names -/

section Calls

variable {t : TypeTable} {args : List Expr} {span : Span}

lemma fair_classEntry {c : ClassId} (hc : ∃ e, t.class? c = some e) :
    Verdict hoisted True S (t.classEntry c) := by
  obtain ⟨e, he⟩ := hc
  rw [TypeTable.classEntry_eq_ok.mpr he]
  exact .ok trivial

namespace Call

lemma fair_instantiate {c : ClassId} (hc : ∃ e, t.class? c = some e) (hspan : span ∈ S) :
    Verdict hoisted True S (instantiate t c args span) :=
  (fair_classEntry hc).bind_plain fun _ _ =>
    (Rule.fair_overload hspan).bind_plain fun _ _ => .ok trivial

lemma fair_named {b : Binding} (hb : b.Present t) (hargs : ∀ a ∈ args, a.span ∈ S)
    (hspan : span ∈ S) : Verdict hoisted True S (named t b args span) := by
  unfold named
  split
  · exact (Rule.fair_arguments hargs hspan).bind_plain fun _ _ => .ok trivial
  · exact fair_instantiate (hb _ ‹_›) hspan
  · exact .ok trivial

lemma fair_method {c : ClassId} {name : String} (hc : ∃ e, t.class? c = some e)
    (hmembers : ∀ {e b}, t.class? c = some e → e.members.find? name = some b → b.Present t)
    (hargs : ∀ a ∈ args, a.span ∈ S) (hspan : span ∈ S) :
    Verdict hoisted True S (method t c name args span) := by
  refine (fair_classEntry hc).bind_plain fun e he => ?_
  split
  · exact .error (Fault.blames_of_plain hspan rfl)
  · rename_i b hb
    refine (Rule.fair_callable hspan).bind_plain fun _ _ => ?_
    split
    · exact (Rule.fair_arguments hargs hspan).bind_plain fun _ _ => .ok trivial
    · exact fair_instantiate (hmembers (TypeTable.classEntry_eq_ok.mp he) hb _ ‹_›) hspan
    · exact .ok trivial

end Call

end Calls

/-! ### Steps -/

variable {σ τ : Session} {scope : ScopeId} {place : Surroundings}

/-- The step is fair in this session. -/
def Judges (hoisted : Bool) (P : Prop) (S : List Span) (step : Check α) (σ : Session) : Prop :=
  Verdict hoisted P S (step.run.run σ).1

namespace Judges

variable {x : Check α} {k : α → Check β}

lemma congr (h : Judges hoisted P S x σ) (hiff : P ↔ Q) : Judges hoisted Q S x σ :=
  Verdict.congr h hiff

lemma accepts (h : Judges hoisted P S x σ) {a : α} (ha : Gives x σ a τ) : P :=
  Verdict.accepts h (congrArg Prod.fst ha)

lemma relax (h : Judges true P S x σ) : Judges hoisted P S x σ := by
  refine ⟨h.1, fun hf => ?_⟩
  obtain ⟨cause, span, rfl, hspan, hexpected, hplace⟩ := h.2 hf
  refine ⟨cause, span, rfl, hspan, ?_, hplace⟩
  cases cause <;> first | rfl | simp_all [Cause.expected]

lemma of_gives {a : α} (h : Gives x σ a τ) (hP : P) : Judges hoisted P S x σ := by
  rw [Judges, h]
  exact .ok hP

lemma pure {a : α} (hP : P) : Judges hoisted P S (Pure.pure a) σ := Verdict.ok hP

lemma bind (h : Judges hoisted P S x σ) (hk : ∀ a τ, Gives x σ a τ → Judges hoisted Q S (k a) τ) :
    Judges hoisted (P ∧ Q) S (x >>= k) σ := by
  rw [Judges, run_bind]
  rcases hx : x.run.run σ with ⟨f | a, τ⟩
  · rw [Judges, hx] at h
    exact .error ((h.blames rfl).mono And.left)
  · exact (hk a τ hx).congr ⟨fun hQ => ⟨h.accepts hx, hQ⟩, And.right⟩

lemma bind_plain (h : Judges hoisted True S x σ)
    (hk : ∀ a τ, Gives x σ a τ → Judges hoisted Q S (k a) τ) : Judges hoisted Q S (x >>= k) σ :=
  (h.bind hk).congr (iff_of_eq (true_and Q))

/-- What follows has nothing to do with places. -/
lemma bind_left (h : Judges hoisted P S x σ)
    (hk : ∀ a τ, Gives x σ a τ → Judges hoisted True S (k a) τ) : Judges hoisted P S (x >>= k) σ :=
  (h.bind hk).congr (iff_of_eq (and_true P))

lemma bind_pure {f : α → β} (h : Judges hoisted P S x σ) :
    Judges hoisted P S (x >>= fun a => Pure.pure (f a)) σ :=
  h.bind_left fun _ _ _ => .pure trivial

lemma rule {r : Except Fault α} (h : Verdict hoisted P S r) : Judges hoisted P S (Check.rule r) σ :=
  h

lemma bind_rule {r : Except Fault α} (h : Verdict hoisted P S r)
    (hk : ∀ a, r = .ok a → Judges hoisted Q S (k a) σ) :
    Judges hoisted (P ∧ Q) S (Check.rule r >>= k) σ := by
  refine (rule h).bind fun a τ ha => ?_
  obtain ⟨hr, rfl⟩ := Check.gives_rule.mp ha
  exact hk a hr

lemma bind_plain_rule {r : Except Fault α} (h : Verdict hoisted True S r)
    (hk : ∀ a, r = .ok a → Judges hoisted Q S (k a) σ) :
    Judges hoisted Q S (Check.rule r >>= k) σ :=
  (bind_rule h hk).congr (iff_of_eq (true_and Q))

lemma bind_ok {r : Except Fault α} {a : α} (hr : r = .ok a) (hk : Judges hoisted P S (k a) σ) :
    Judges hoisted P S (Check.rule r >>= k) σ := by
  rw [hr]
  exact hk

lemma bind_types {k : TypeTable → Check β} (h : Judges hoisted P S (k σ.types) σ) :
    Judges hoisted P S (Check.types >>= k) σ := h

lemma bind_scopes {k : Scopes → Check β} (h : Judges hoisted P S (k σ.scopes) σ) :
    Judges hoisted P S (Check.scopes >>= k) σ := h

end Judges

namespace Check

lemma judges_note {e : LogEvent} : Judges hoisted True S (note e) σ :=
  .of_gives (a := ()) (gives_note.mpr rfl) trivial

lemma judges_addType {f : TypeForm} : Judges hoisted True S (addType f) σ :=
  .of_gives (gives_addType.mpr ⟨rfl, rfl⟩) trivial

lemma judges_addFrame {f : Frame} : Judges hoisted True S (addFrame f) σ :=
  .of_gives (gives_addFrame.mpr ⟨rfl, rfl⟩) trivial

lemma judges_recordCall {name : String} : Judges hoisted True S (recordCall scope name) σ := by
  refine .bind_scopes ?_
  split
  · exact Verdict.ok trivial
  · exact .pure trivial

lemma judges_changeClass {c : ClassId} {f : TypeTable → ClassId → TypeTable}
    (hc : ∃ e, σ.types.class? c = some e) : Judges hoisted True S (changeClass c f) σ :=
  .of_gives (a := ()) (gives_changeClass.mpr ⟨hc, rfl⟩) trivial

lemma judges_classEntry {c : ClassId} (hc : ∃ e, σ.types.class? c = some e) :
    Judges hoisted True S (classEntry c) σ := by
  obtain ⟨e, he⟩ := hc
  exact .of_gives (gives_classEntry.mpr ⟨he, rfl⟩) trivial

lemma judges_openIn {kind : ScopeKind} (hat : σ.At scope place) :
    Judges hoisted True S (openIn scope kind) σ := by
  obtain ⟨s, hs, -⟩ := hat
  refine .bind_scopes (.bind_plain_rule ?_ fun larger _ => Verdict.ok trivial)
  exact (Verdict.scope hs).bind_plain fun _ _ => .ok trivial

lemma fair_resolve {name : String} {span : Span} (hat : σ.At scope place) (hspan : span ∈ S) :
    Verdict hoisted True S (σ.scopes.resolve scope name span) := by
  obtain ⟨s, hs, -⟩ := hat
  refine (Verdict.scope hs).bind_plain fun _ _ => ?_
  split
  · exact .ok trivial
  · exact .error (Fault.blames_of_plain hspan rfl)

lemma judges_typeOf {e : TypeExpr} (hσ : σ.Assembled) (hat : σ.At scope place)
    (hspans : e.spans ⊆ S) : Judges hoisted True S (typeOf scope e) σ := by
  induction e generalizing σ with
  | named name span =>
    have hspan : span ∈ S := hspans (List.mem_singleton_self _)
    rw [typeOf_named]
    refine .bind_scopes (.rule ?_)
    exact (fair_resolve hat hspan).bind_plain fun b _ =>
      (Verdict.ensure_plain hspan rfl).bind_plain fun _ _ => .ok trivial
  | array e ih =>
    rw [typeOf_array]
    exact (ih hσ hat hspans).bind_plain fun t τ _ => judges_addType
  | dictionary k v ihk ihv =>
    rw [TypeExpr.spans, List.append_subset] at hspans
    rw [typeOf_dictionary]
    refine (ihk hσ hat hspans.1).bind_plain fun t σ1 h1 => ?_
    have c1 := (leads_typeOf (Φ := fun _ => True) hσ).changes_of_gives h1
    exact (ihv c1.assembled (hat.mono c1) hspans.2).bind_plain fun u τ _ => judges_addType

lemma judges_typeOf? {e : Option TypeExpr} (hσ : σ.Assembled) (hat : σ.At scope place)
    (hspans : TypeExpr.spansOption e ⊆ S) : Judges hoisted True S (typeOf? scope e) σ := by
  cases e with
  | none => exact .pure trivial
  | some e =>
    rw [typeOf?, map_eq_pure_bind]
    exact (judges_typeOf hσ hat hspans).bind_pure

/-- A name is new in its scope, or its declaration is blamed. -/
lemma judges_declare {b : Binding} {span : Span} (hat : σ.At scope place)
    (hspan : σ.scopes.bindingAt? b.name scope ≠ none → span ∈ S) :
    Judges hoisted True S (declare scope b span) σ := by
  obtain ⟨s, hs, -⟩ := hat
  have hfresh : Verdict hoisted True S
      (ensure (!s.bindings.contains b.name) (.alreadyDeclared b.name) span) := by
    -- a second declaration of the name is blamed
    cases hb : s.bindings.find? b.name with
    | none =>
      rw [Bindings.contains, hb]
      exact .ok trivial
    | some b' =>
      refine .ensure_plain (hspan fun hnone => ?_) rfl
      rw [Scopes.bindingAt?_eq_some.mpr ⟨s, hs, hb⟩] at hnone
      cases hnone
  unfold declare owner?
  simp only [bind_assoc, pure_bind]
  refine .bind_scopes (.bind_plain_rule (.scope hs) fun s' hs' => .bind_types (.bind_scopes ?_))
  refine .bind_plain_rule ?_ fun larger hlarger => ?_
  · rw [Scopes.declare, Scopes.scope_eq_ok.mpr hs]
    exact hfresh.bind_plain fun _ _ => .ok trivial
  · refine (Judges.of_gives (a := ()) (gives_updateScopes.mpr rfl) trivial).bind_plain
      fun _ τ hτ => ?_
    obtain rfl := gives_updateScopes.mp hτ
    split
    · rename_i c hc
      -- the class whose body the scope is is there
      obtain ⟨-, hbody⟩ := Option.filter_eq_some_iff.mp hc
      obtain ⟨e, he, -⟩ := (Option.any_eq_true _ _).mp hbody
      exact judges_changeClass ⟨e, he⟩
    · exact .pure trivial

lemma judges_params {ps : List Param} (hσ : σ.Assembled) (hat : σ.At scope place)
    (hspans : Param.spansList ps ⊆ S) : Judges hoisted True S (params scope ps) σ := by
  induction ps generalizing σ with
  | nil => exact .pure trivial
  | cons p ps ih =>
    rw [Param.spansList, List.flatMap_cons, List.append_subset, Param.spans,
      List.cons_subset] at hspans
    rw [params]
    refine (judges_typeOf? hσ hat hspans.1.2).bind_plain fun t σ1 h1 => ?_
    have hread : Leads (Session.Continues fun _ => True) (typeOf? scope p.annotation) σ
      fun t τ => τ.types.Registered (t.getD .any) := leads_typeOf? hσ
    have c1 := hread.changes_of_gives h1
    refine (judges_declare (hat.mono c1) fun _ => hspans.1.1).bind_plain fun _ σ2 h2 => ?_
    have c2 := (leads_declare c1.assembled (Binding.valid_of_isValue (hread.result h1) rfl)
      (Binding.present_of_isValue rfl) (Cell.free_all.declaring p.name)).changes_of_gives h2
    exact (ih c2.assembled (hat.mono (c1.trans c2)) hspans.2).bind_pure

end Check

end MiddleEnd
