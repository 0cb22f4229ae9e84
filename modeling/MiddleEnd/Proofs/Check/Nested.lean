import MiddleEnd.Passes.Optimizer
import MiddleEnd.Proofs.Check.Places

/-!
Where functions are declared. Scopes are inside of each other as the declarations of the program
are, and functions are in the root scope and in the bodies of classes only, under the names that are
declared there.
-/

namespace MiddleEnd

def Stmt.functionNames (ss : List Stmt) : List String := ss.filterMap Stmt.functionName?

/-- What annotations do not change is the same for statements that differ in annotations only. -/
lemma Stmt.filterMap_congr {κ : Type} {f : Stmt → Option κ} (hf : ∀ s, f s.erase = f s)
    {ss ts : List Stmt} (h : Stmt.eraseList ss = Stmt.eraseList ts) :
    ss.filterMap f = ts.filterMap f := by
  have hlist (ss : List Stmt) : (Stmt.eraseList ss).filterMap f = ss.filterMap f := by
    induction ss with
    | nil => rfl
    | cons s ss ih => rw [eraseList, List.filterMap_cons, hf, ih, List.filterMap_cons]
  rw [← hlist ss, h, hlist]

lemma Stmt.functionNames_congr {ss ts : List Stmt} (h : Stmt.eraseList ss = Stmt.eraseList ts) :
    functionNames ss = functionNames ts :=
  filterMap_congr (fun s => by cases s <;> rfl) h

variable {σ τ υ : Session} {scope outer id : ScopeId} {names names' : List String} {n : String}
  {closing : Prop} {α : Type}

/-! ### Functions in scopes -/

/-- A function of the program is declared in the scope. -/
def Scopes.Function (t : Scopes) (id : ScopeId) (n : String) : Prop :=
  ∃ b, t.bindingAt? n id = some b ∧ b.IsFunction ∧ b.builtin = false

lemma Scopes.Function.mono {t u : Scopes} (h : t.Function id n) (hu : t.Extends u) :
    u.Function id n := by
  obtain ⟨b, hb, hfunction⟩ := h
  exact ⟨b, hu.bindingAt? hb, hfunction⟩

namespace Session

/-- Among the scopes that were there before, functions are new only in one, and have these names. -/
structure Introduces (scope : ScopeId) (names : List String) (σ τ : Session) : Prop where
  later : σ.Later τ
  functions : ∀ {id n}, τ.scopes.Function id n → σ.scopes.Function id n ∨
    σ.scopes.scope? id = none ∨ id = scope ∧ n ∈ names

namespace Introduces

lemma refl (σ : Session) : σ.Introduces scope names σ := ⟨.refl σ, fun h => Or.inl h⟩

lemma trans (h : Introduces scope names σ τ) (h' : Introduces scope names τ υ) :
    Introduces scope names σ υ where
  later := h.later.trans h'.later
  functions hf := by
    rcases h'.functions hf with hf | hnone | hnew
    · exact h.functions hf
    · exact Or.inr (Or.inl (h.later.scope?_eq_none hnone))
    · exact Or.inr (Or.inr hnew)

/-- Where no functions are new, it does not matter which ones may be. -/
lemma any (h : Introduces outer [] σ τ) : Introduces scope names σ τ :=
  ⟨h.later, fun hf => (h.functions hf).imp_right fun hnew =>
    hnew.imp_right fun hnone => absurd hnone.2 List.not_mem_nil⟩

lemma inner (h : Introduces outer [] σ τ) (hid : σ.scopes.scope? id = none)
    (h' : Introduces id names τ υ) : Introduces outer [] σ υ where
  later := h.later.trans h'.later
  functions hf := by
    rcases h'.functions hf with hf | hnone | ⟨rfl, -⟩
    · exact h.functions hf
    · exact Or.inr (Or.inl (h.later.scope?_eq_none hnone))
    · exact Or.inr (Or.inl hid)

lemma of_bindings (hlater : σ.Later τ)
    (h : ∀ n id, τ.scopes.bindingAt? n id = σ.scopes.bindingAt? n id) :
    Introduces scope names σ τ := by
  refine ⟨hlater, fun {id n} hf => Or.inl ?_⟩
  rwa [Scopes.Function, h] at hf

lemma of_change (h : Change False closing σ τ) : Introduces scope names σ τ := by
  have hlater := Later.of_change h
  cases h with
  | scope hopen | body hopen => exact .of_bindings hlater (Scopes.bindingAt?_openIn hopen)
  | name hdeclare hb =>
    refine ⟨hlater, fun {id n} ⟨b', hb', hfunction, hown⟩ => ?_⟩
    rw [Scopes.bindingAt?_declare hdeclare] at hb'
    split at hb'
    · cases hb'
      exact (hb hfunction).elim
    · exact Or.inl ⟨b', hb', hfunction, hown⟩
  | _ => exact .of_bindings hlater fun _ _ => rfl

lemma of_trace (h : Trace False closing σ τ) : Introduces scope names σ τ := by
  induction h with
  | refl => exact .refl _
  | tail _ hchange ih => exact ih.trans (.of_change hchange)

lemma of_gives {x : Check α} {a : α} [hx : Traced False True x] (h : Gives x σ a τ) :
    Introduces scope names σ τ :=
  .of_trace (hx.trace h)

/-- Functions of the program are declared in one scope. -/
lemma of_declares {bs : List (Binding × Span)} {u : Unit}
    (hbs : ∀ b ∈ bs, b.1.name ∈ names)
    (h : Gives (bs.forM fun (b, span) => Check.declare scope b span) σ u τ) :
    Introduces scope names σ τ := by
  induction bs generalizing σ with
  | nil =>
    obtain ⟨-, rfl⟩ := gives_pure.mp h
    exact .refl _
  | cons b bs ih =>
    rw [List.forall_mem_cons] at hbs
    obtain ⟨σ1, h1, h2⟩ := Check.gives_forM_cons.mp h
    have htraced : Traced True True (Check.declare scope b.1 b.2) := inferInstance
    refine .trans ⟨htraced.later h1, ?_⟩ (ih hbs.2 h2)
    rintro id n ⟨b', hb', hfunction⟩
    obtain ⟨larger, hlarger, hσ1⟩ := Check.session_of_declare h1
    have hscopes : σ1.scopes = larger := by rcases hσ1 with rfl | ⟨c, rfl⟩ <;> rfl
    rw [hscopes, Scopes.bindingAt?_declare hlarger] at hb'
    split at hb'
    · rename_i hnew
      exact Or.inr (Or.inr ⟨hnew.1, hnew.2 ▸ hbs.1⟩)
    · exact Or.inl ⟨b', hb', hfunction⟩

end Introduces

/-- A scope right inside of another one, in which these functions are declared. -/
structure Inside (σ : Session) (outer : ScopeId) (names : List String) (id : ScopeId) : Prop where
  scope : ∃ s, σ.scopes.scope? id = some s ∧ s.parent = some outer
  older : outer.index < id.index
  functions : ∀ {n}, σ.scopes.Function id n ↔ n ∈ names

lemma Inside.mono (h : σ.Inside outer names id) (hscope : scope.index ≤ outer.index)
    (hτ : Introduces scope names' σ τ) : τ.Inside outer names id := by
  obtain ⟨s, hs, hp⟩ := h.scope
  obtain ⟨s', hs', hext⟩ := hτ.later.scopes.scope? hs
  refine ⟨⟨s', hs', hext.parent.trans hp⟩, h.older, fun {n} => ⟨fun hf => ?_, fun hn => ?_⟩⟩
  · rcases hτ.functions hf with hf | hnone | ⟨rfl, -⟩
    · exact h.functions.mp hf
    · cases hs.symm.trans hnone
    · exact absurd h.older (Nat.not_lt.mpr hscope)
  · exact (h.functions.mpr hn).mono hτ.later.scopes

lemma Inside.introduces (h : σ.Inside outer [] id) (hτ : Introduces id names σ τ)
    (hnames : ∀ n ∈ names, τ.scopes.Function id n) : τ.Inside outer names id := by
  obtain ⟨s, hs, hp⟩ := h.scope
  obtain ⟨s', hs', hext⟩ := hτ.later.scopes.scope? hs
  refine ⟨⟨s', hs', hext.parent.trans hp⟩, h.older, fun {n} => ⟨fun hf => ?_, hnames n⟩⟩
  rcases hτ.functions hf with hf | hnone | ⟨-, hn⟩
  · exact absurd (h.functions.mp hf) List.not_mem_nil
  · cases hs.symm.trans hnone
  · exact hn

/-- Where nothing is outlined, no functions are declared. -/
lemma Inside.of_trace (h : σ.Inside outer names id) (hτ : Trace False closing σ τ) :
    τ.Inside outer names id :=
  h.mono (Nat.zero_le _) (.of_trace hτ : Introduces .root [] σ τ)

end Session

mutual
/-- The bodies of what a statement declares are right inside of the scope of the statement, and the
functions in the body of a class are its methods. -/
def Stmt.Nested (σ : Session) (outer : ScopeId) : Stmt → Prop
  | .func head _ => ∀ body ∈ head.scope, σ.Inside outer [] body
  | .ctor head _ => ∀ body ∈ head.scope, σ.Inside outer [] body
  | .cls head ms => ∀ body ∈ head.scope,
    σ.Inside outer (Stmt.functionNames ms) body ∧ Stmt.NestedList σ body ms
  | _ => True

def Stmt.NestedList (σ : Session) (outer : ScopeId) : List Stmt → Prop
  | [] => True
  | s :: ss => s.Nested σ outer ∧ Stmt.NestedList σ outer ss
end

lemma Stmt.nestedList_iff {ss : List Stmt} :
    NestedList σ outer ss ↔ ∀ s ∈ ss, s.Nested σ outer := by
  induction ss with
  | nil => exact ⟨fun _ => nofun, fun _ => trivial⟩
  | cons s ss ih => rw [NestedList, ih, List.forall_mem_cons]

lemma Stmt.Nested.mono {s : Stmt} (h : s.Nested σ outer) (hscope : scope.index ≤ outer.index)
    (hτ : σ.Introduces scope names τ) : s.Nested τ outer := by
  induction s using Stmt.members_induction generalizing outer with
  | other s hs =>
    cases s with
    | func | ctor => exact fun body hbody => (h body hbody).mono hscope hτ
    | cls => cases hs
    | _ => trivial
  | cls head ms ih =>
    intro body hbody
    obtain ⟨hinside, hms⟩ := h body hbody
    refine ⟨hinside.mono hscope hτ, ?_⟩
    rw [nestedList_iff] at hms ⊢
    exact fun s hs => ih s hs (hms s hs) (Nat.le_of_lt (Nat.lt_of_le_of_lt hscope hinside.older))

lemma Stmt.Nested.of_trace {s : Stmt} (h : s.Nested σ outer)
    (hτ : Session.Trace False closing σ τ) : s.Nested τ outer :=
  h.mono (Nat.zero_le _) (.of_trace hτ : Session.Introduces .root [] σ τ)

lemma Stmt.nested_of_plain {s : Stmt} (hcls : s.isClass = false) (hfunc : s.isFunction = false) :
    s.Nested σ outer := by
  cases s with
  | func | ctor => cases hfunc
  | cls => cases hcls
  | _ => trivial

/-! ### Declarations -/

namespace Check

open Session (Introduces Inside Trace)
open Traced (trace)

/-- A scope that is opened is right inside of its parent, and nothing is declared in it. -/
lemma inside_openIn {kind : ScopeKind} (h : Gives (openIn scope kind) σ id τ) :
    τ.Inside scope [] id := by
  obtain ⟨-, rfl, -, hopen⟩ := quiet_of_openIn h
  obtain ⟨s, hs, hnew⟩ := Scopes.scope?_openIn hopen σ.scopes.next
  rw [if_pos rfl] at hnew
  refine ⟨⟨_, hnew, Scopes.inner_parent s⟩, Scopes.lt_size hs,
    fun {n} => ⟨fun ⟨b, hb, _⟩ => ?_, ?_⟩⟩
  · rw [Scopes.bindingAt?, hnew, Option.bind_some, Scopes.inner_bindings] at hb
    cases hb
  · exact fun hn => (List.not_mem_nil hn).elim

/-- The body of a function is opened with its frame and its parameters. -/
lemma inside_openFunction {f : Frame} {frame : FrameId} {body : ScopeId} {ps ps' : List Param}
    {σ1 σ2 : Session} (h1 : Gives (addFrame f) σ frame σ1)
    (h2 : Gives (openIn scope (.function frame)) σ1 body σ2)
    (h3 : Gives (params body ps) σ2 ps' τ) :
    τ.Inside scope [] body ∧ Introduces .root [] σ τ := by
  have htraced : Traced True True (addFrame f) := inferInstance
  have hframe : Introduces .root [] σ σ1 := by
    refine .of_bindings (htraced.later h1) fun n id => ?_
    obtain ⟨-, rfl⟩ := gives_addFrame.mp h1
    rfl
  have h3' : Trace False True σ2 τ := trace h3
  exact ⟨(inside_openIn h2).of_trace h3',
    hframe.trans ((Introduces.of_gives h2).trans (.of_trace h3'))⟩

lemma nested_outline {kind : FrameKind} {s s' : Stmt} (hcls : s.isClass = true → s.Nested σ scope)
    (h : Gives (outline scope kind s) σ s' τ) :
    s'.Nested τ scope ∧ Introduces .root [] σ τ := by
  cases s with
  | func head body =>
    simp only [outline, outlineFunction, gives_bind, gives_pure] at h
    obtain ⟨_, _, ⟨ty, σ1, h1, frame, σ2, h2, inner, σ3, h3, ps, σ4, h4, rfl, rfl⟩, rfl, rfl⟩ := h
    obtain ⟨hinside, hnew⟩ := inside_openFunction h2 h3 h4
    exact ⟨by rintro _ ⟨⟩; exact hinside, (Introduces.of_gives h1).trans hnew⟩
  | ctor head body =>
    -- a constructor goes on to its class, which declares no name
    simp only [outline, outlineConstructor, gives_bind, gives_scopes, gives_rule, gives_classEntry,
      gives_pure] at h
    obtain ⟨_, _, ⟨_, _, ⟨rfl, rfl⟩, c, _, ⟨-, rfl⟩, e, _, ⟨-, rfl⟩, _, _, ⟨-, rfl⟩, frame, σ2, h2,
      inner, σ3, h3, ps, σ4, h4, _, _, h5, rfl, rfl⟩, rfl, rfl⟩ := h
    obtain ⟨hinside, hnew⟩ := inside_openFunction h2 h3 h4
    have htraced (k : Constructor) : Traced True True (changeClass c (·.addConstructor · k)) :=
      inferInstance
    have hadds : Introduces .root [] σ4 _ := .of_bindings ((htraced _).later h5) fun n id => by
      obtain ⟨-, rfl⟩ := gives_changeClass.mp h5
      rfl
    refine ⟨?_, hnew.trans hadds⟩
    rintro _ ⟨⟩
    exact hinside.mono (Nat.zero_le _) hadds
  | cls head ms =>
    obtain ⟨rfl, rfl⟩ := gives_pure.mp h
    exact ⟨hcls rfl, .refl _⟩
  | _ =>
    obtain ⟨rfl, rfl⟩ := gives_pure.mp h
    exact ⟨trivial, .refl _⟩

lemma nested_outlines {kind : FrameKind} {ss ss' : List Stmt}
    (hcls : ∀ s ∈ ss, s.isClass = true → s.Nested σ scope)
    (h : Gives (ss.mapM (outline scope kind)) σ ss' τ) :
    (∀ s ∈ ss', s.Nested τ scope) ∧ Introduces .root [] σ τ := by
  induction ss generalizing σ ss' with
  | nil =>
    obtain ⟨rfl, rfl⟩ := gives_pure.mp h
    exact ⟨List.forall_mem_nil _, .refl _⟩
  | cons s ss ih =>
    rw [List.forall_mem_cons] at hcls
    obtain ⟨s', rest, σ1, h1, h2, rfl⟩ := gives_mapM_cons.mp h
    obtain ⟨hs, hnew⟩ := nested_outline hcls.1 h1
    obtain ⟨hrest, hnew'⟩ := ih (fun s hs hc => (hcls.2 s hs hc).mono (Nat.zero_le _) hnew) h2
    exact ⟨List.forall_mem_cons.mpr ⟨hs.mono (Nat.zero_le _) hnew', hrest⟩, hnew.trans hnew'⟩

lemma names_of_functionBinding? {ss : List Stmt} {b : Binding × Span}
    (h : b ∈ ss.filterMap functionBinding?) : b.1.name ∈ Stmt.functionNames ss := by
  obtain ⟨s, hs, hb⟩ := List.mem_filterMap.mp h
  cases s with
  | func head body =>
    cases hb
    exact List.mem_filterMap.mpr ⟨_, hs, rfl⟩
  | _ => cases hb

lemma function_of_declares {bs : List (Binding × Span)} {u : Unit} {b : Binding × Span}
    (hb : b ∈ bs) (hfunction : b.1.IsFunction ∧ b.1.builtin = false)
    (h : Gives (bs.forM fun (b, span) => declare scope b span) σ u τ) :
    τ.scopes.Function scope b.1.name := by
  induction bs generalizing σ with
  | nil => cases hb
  | cons first bs ih =>
    obtain ⟨σ1, h1, h2⟩ := gives_forM_cons.mp h
    rcases List.mem_cons.mp hb with rfl | hb
    · obtain ⟨larger, hlarger, hσ1⟩ := session_of_declare h1
      have hscopes : σ1.scopes = larger := by rcases hσ1 with rfl | ⟨c, rfl⟩ <;> rfl
      have hbound : σ1.scopes.Function scope b.1.name := by
        refine ⟨b.1, ?_, hfunction⟩
        rw [hscopes, Scopes.bindingAt?_declare hlarger, if_pos ⟨rfl, rfl⟩]
      have htraced : Traced True True (bs.forM fun (b, span) => declare scope b span) :=
        inferInstance
      exact hbound.mono (htraced.later h2).scopes
    · exact ih hb h2

lemma nested_bindFunctions {ss ss' : List Stmt}
    (hcls : ∀ s ∈ ss, s.isClass = true → s.Nested σ scope)
    (h : Gives (bindFunctions scope ss) σ ss' τ) :
    (∀ s ∈ ss', s.Nested τ scope) ∧ Introduces scope (Stmt.functionNames ss') σ τ ∧
      ∀ n ∈ Stmt.functionNames ss', τ.scopes.Function scope n := by
  unfold bindFunctions at h
  simp only [gives_bind, gives_pure] at h
  obtain ⟨owner, _, h1, ss', σ2, h2, _, σ3, h3, _, σ4, h4, rfl, rfl⟩ := h
  obtain ⟨rfl, -⟩ := gives_owner? h1
  obtain ⟨hss, hnew⟩ := nested_outlines hcls h2
  have hnote : Introduces scope (Stmt.functionNames ss') σ3 σ4 := .of_gives h4
  have hbound := (Introduces.of_declares (fun b hb => names_of_functionBinding? hb) h3).trans hnote
  refine ⟨fun s hs => (hss s hs).mono (Nat.le_refl _) hbound, hnew.any.trans hbound, ?_⟩
  intro n hn
  obtain ⟨s, hs, hname⟩ := List.mem_filterMap.mp hn
  cases s with
  | func head body =>
    cases hname
    have hb : functionBinding? (.func head body) = some _ := rfl
    have hmem := List.mem_filterMap.mpr ⟨_, hs, hb⟩
    exact (function_of_declares hmem ⟨⟨_, rfl⟩, rfl⟩ h3).mono hnote.later.scopes
  | _ => cases hname

lemma nested_declarations {ss ss2 ss' : List Stmt} {cs : List ClassId} {e : LogEvent} {u : Unit}
    {σ1 σ2 σ3 : Session} (h1 : Gives (registerClasses scope ss) σ cs σ1)
    (h2 : (∀ s ∈ ss2, s.isClass = true → s.Nested σ2 scope) ∧ Introduces .root [] σ1 σ2)
    (h3 : Gives (note e) σ2 u σ3) (h4 : Gives (bindFunctions scope ss2) σ3 ss' τ) :
    (∀ s ∈ ss', s.Nested τ scope) ∧ Introduces scope (Stmt.functionNames ss') σ τ ∧
      ∀ n ∈ Stmt.functionNames ss', τ.scopes.Function scope n := by
  have hnote : Trace False True σ2 σ3 := trace h3
  obtain ⟨hss', hbound, hnames⟩ :=
    nested_bindFunctions (fun s hs hc => (h2.1 s hs hc).of_trace hnote) h4
  have hnew := h2.2.any.trans (.trans (.of_trace hnote) hbound)
  exact ⟨hss', (Introduces.of_gives h1).trans hnew, hnames⟩

lemma nested_opening {ss ss' : List Stmt} {cs : List ClassId} (h : Opening scope ss cs σ ss' τ) :
    (∀ s ∈ ss', s.isClass = true → s.Nested τ scope) ∧ Introduces .root [] σ τ := by
  induction h with
  | nil => exact ⟨List.forall_mem_nil _, .refl _⟩
  | other hs _ ih => exact ⟨List.forall_mem_cons.mpr ⟨by simp [hs], ih.1⟩, ih.2⟩
  | @cls scope body _ _ _ _ _ _ _ _ _ σ σ1 σ2 σ3 σ4 σ5 σ6 σ7 τ _ h1 h2 h3 _ h5 h6 h7 _ ihms ih =>
    have hopened : Trace False True σ σ2 := trace_openBody h1 h2
    have hbody : σ2.Inside scope [] body := by
      obtain ⟨-, rfl⟩ := gives_changeClass.mp h2
      have hbody := inside_openIn h1
      exact ⟨hbody.scope, hbody.older, hbody.functions⟩
    have hnone : σ.scopes.scope? body = none := by
      obtain ⟨-, rfl, -, -⟩ := quiet_of_openIn h1
      exact List.getElem?_eq_none (Nat.le_refl _)
    obtain ⟨hms, hbound, hnames⟩ := nested_declarations h3 ihms h5 h6
    have hfields : Trace False True σ6 σ7 := trace h7
    refine ⟨List.forall_mem_cons.mpr ⟨fun _ => ?_, ih.1⟩, ?_⟩
    · refine Stmt.Nested.mono ?_ (Nat.zero_le _) ih.2
      rintro _ ⟨⟩
      have hinside := (hbody.introduces hbound hnames).of_trace hfields
      exact ⟨hinside, Stmt.nestedList_iff.mpr fun s hs => (hms s hs).of_trace hfields⟩
    · exact (((Introduces.of_trace hopened).inner hnone hbound).trans
        (.of_trace hfields)).trans ih.2

/-- When the declarations of a program have been made known, all bodies are inside of the scopes in
which they are declared. -/
lemma nested_announce {ss ss' : List Stmt} (h : Gives (announce scope ss) σ ss' τ) :
    (∀ s ∈ ss', s.Nested τ scope) ∧ Introduces scope (Stmt.functionNames ss') σ τ := by
  obtain ⟨cs, σ1, ss2, σ2, u, σ3, h1, h2, h3, h4⟩ := opening_of_announce h
  obtain ⟨hss', hbound, -⟩ := nested_declarations h1 (nested_opening h2) h3 h4
  exact ⟨hss', hbound⟩

end Check

/-! ### Fields -/

namespace Stmt

lemma functionNames_fieldlessList (ms : List Stmt) :
    functionNames (fieldlessList ms) = functionNames ms := by
  induction ms with
  | nil => rfl
  | cons s ms ih =>
    by_cases hs : s.isVar = true
    · obtain ⟨head, init, rfl⟩ := isVar_iff.mp hs
      exact ih
    · have hname : s.fieldless.functionName? = s.functionName? := by cases s <;> rfl
      rw [fieldlessList_cons (Bool.eq_false_iff.mpr hs), functionNames, List.filterMap_cons, hname,
        ← functionNames, ih, functionNames, functionNames, List.filterMap_cons]

/-- The fields of classes declare no functions. -/
lemma nested_fieldless (s : Stmt) : s.fieldless.Nested σ outer ↔ s.Nested σ outer := by
  induction s using members_induction generalizing outer with
  | other s hs => rw [fieldless_of_not_isClass hs]
  | cls head ms ih =>
    have hms (body : ScopeId) : NestedList σ body (fieldlessList ms) ↔ NestedList σ body ms := by
      clear outer
      induction ms with
      | nil => exact Iff.rfl
      | cons s ms ihs =>
        rw [List.forall_mem_cons] at ih
        by_cases hs : s.isVar = true
        · obtain ⟨head, init, rfl⟩ := isVar_iff.mp hs
          rw [fieldlessList, ihs ih.2]
          exact (and_iff_right trivial).symm
        · rw [fieldlessList_cons (Bool.eq_false_iff.mpr hs), NestedList, NestedList, ih.1, ihs ih.2]
    simp only [fieldless, Nested, functionNames_fieldlessList, hms]

end Stmt

end MiddleEnd
