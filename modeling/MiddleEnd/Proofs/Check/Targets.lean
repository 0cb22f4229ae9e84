import MiddleEnd.Proofs.Check.Complete
import MiddleEnd.Proofs.Check.Nested

/-!
What calls by name call. Functions are declared in the root scope and in the bodies of classes, and
a call by name finds the innermost one. The target of the call only keeps the name, so that it is
the target of a top-level function also where a method has been found.
-/

namespace MiddleEnd

/-- A call, and the classes around it, the innermost first. -/
structure PlacedCall where
  around : List (ClassHead × List Stmt)
  callee : Expr
  target : Option CallTarget

def Node.call? (around : List (ClassHead × List Stmt)) : Node → Option PlacedCall
  | .expr (.call _ callee _ target) => some { around, callee, target }
  | _ => none

mutual
/-- The calls in a statement. Blocks hold no classes, so that only the members of classes are
inside of classes. -/
def Stmt.calls (around : List (ClassHead × List Stmt)) : Stmt → List PlacedCall
  | .cls head ms => Stmt.callsList ((head, ms) :: around) ms
  | s => s.nodes.filterMap (Node.call? around)

def Stmt.callsList (around : List (ClassHead × List Stmt)) : List Stmt → List PlacedCall
  | [] => []
  | s :: ss => s.calls around ++ Stmt.callsList around ss
end

def Program.calls (p : Program) : List PlacedCall := Stmt.callsList [] p.stmts

/-- The innermost class around a call that has a method of that name. -/
def PlacedCall.owner? (c : PlacedCall) (name : String) : Option ClassHead :=
  (c.around.find? fun k => decide (name ∈ Stmt.functionNames k.2)).map (·.1)

/-- The scope or one inside of it declares the name, but not as a function of the program. -/
def Scopes.Hides (t : Scopes) (scope : ScopeId) (n : String) : Prop :=
  ∃ id b, scope ∈ t.chain id ∧ t.bindingAt? n id = some b ∧ ¬(b.IsFunction ∧ b.builtin = false)

/-- The call is by the name of a method: this class is the innermost one around it that has a method
of the name, and nothing in the class declares the name as a variable, a parameter or a class. -/
def PlacedCall.CallsMethod (t : Scopes) (c : PlacedCall) (n : String) (head : ClassHead) : Prop :=
  (∃ f, c.callee = .name f n) ∧ c.owner? n = some head ∧ ∀ body ∈ head.scope, ¬t.Hides body n

/-- The target names the right kind of callee. A call by the name of a method has the method for its
target, whatever else it could have. A function is one that the program declares at the top and that
is known to be used, and no class around the call has a method of its name; a method is one of an
object, or of the innermost class around the call that has one of its name. -/
def PlacedCall.Right (p : Program) (a : Analysis) (c : PlacedCall) : Prop :=
  (∀ n head, c.CallsMethod a.scopes n head → ∃ k ∈ head.cls, c.target = some (.method k n)) ∧
  match c.target with
  | some (.function n) => (∃ f, c.callee = .name f n) ∧ c.owner? n = none ∧
    n ∈ Stmt.functionNames p.stmts ∧ n ∈ a.callSites
  | some (.method k n) => (∃ f o, c.callee = .member f o n) ∨
    (∃ f, c.callee = .name f n) ∧ ∃ head, c.owner? n = some head ∧ head.cls = some k
  | _ => True

/-- The target of a call comes from its callee: a function is called by its name, under which it
is found, and a method as the member of an object. -/
def CallTarget.Names (found : String → Prop) (callee : Expr) : CallTarget → Prop
  | .function n => (∃ f, callee = .name f n) ∧ found n
  | .method _ n => ∃ f o, callee = .member f o n
  | _ => True

lemma CallTarget.Names.mono {found found' : String → Prop} {callee : Expr} {g : CallTarget}
    (h : g.Names found callee) (hfound : ∀ n, found n → found' n) : g.Names found' callee := by
  cases g with
  | function n => exact ⟨h.1, hfound n h.2⟩
  | method k n => exact h
  | _ => trivial

variable {σ τ υ : Session} {scope outer id : ScopeId} {names names' : List String} {n : String}
  {closing : Prop} {α : Type}

/-! ### What is found -/

namespace Scopes

variable {t u : Scopes}

lemma lt_size_of_mem_chain (h : id ∈ t.chain scope) : scope.index < t.size := by
  rw [← scope?_isSome, Option.isSome_iff_ne_none]
  intro hnone
  rw [chain, hnone] at h
  cases h

lemma chain_of_append {before after : List ScopeId} (h : t.chain scope = before ++ id :: after) :
    t.chain id = id :: after := by
  induction before generalizing scope with
  | nil =>
    have hhead : scope = id := by
      rw [chain] at h
      split at h
      · cases h
      · split at h
        · exact (List.cons.inj h).1
        · split at h <;> exact (List.cons.inj h).1
    rw [← hhead, h, hhead]
    rfl
  | cons i before ih =>
    rw [chain] at h
    split at h
    · cases h
    · split at h
      · simp at h
      · split at h
        · exact ih (List.cons.inj h).2
        · simp at h

lemma Hides.mono (h : t.Hides scope n) (hu : t.Extends u) : u.Hides scope n := by
  obtain ⟨id, b, hid, hb, hother⟩ := h
  refine ⟨id, b, ?_, hu.bindingAt? hb, hother⟩
  rwa [hu.chain (lt_size_of_mem_chain hid)]

end Scopes

namespace Session

/-- A function of that name is declared in the scope or around it, and if it is declared at the top
then it is known to be used. -/
def Finds (σ : Session) (scope : ScopeId) (n : String) : Prop :=
  ∃ id ∈ σ.scopes.chain scope, σ.scopes.Function id n ∧ (id = .root → n ∈ σ.callSites)

lemma Finds.mono (h : σ.Finds scope n) (hτ : σ.Later τ) : τ.Finds scope n := by
  obtain ⟨id, hid, hfunction, hroot⟩ := h
  refine ⟨id, ?_, hfunction.mono hτ.scopes, fun hid => hτ.calls (hroot hid)⟩
  rwa [hτ.scopes.chain (Scopes.lt_size_of_mem_chain hid)]

lemma Inside.chain (h : σ.Inside outer names id) :
    σ.scopes.chain id = id :: σ.scopes.chain outer := by
  obtain ⟨s, hs, hp⟩ := h.scope
  rw [Scopes.chain, hs]
  simp only [hp, if_pos h.older]

/-- What is found in a scope is declared there, or it is found around it. -/
lemma Inside.finds (h : σ.Inside outer names id) (hfinds : σ.Finds id n) :
    n ∈ names ∨ σ.Finds outer n := by
  obtain ⟨i, hi, hfunction, hroot⟩ := hfinds
  rw [h.chain] at hi
  rcases List.mem_cons.mp hi with rfl | hi
  · exact Or.inl (h.functions.mp hfunction)
  · exact Or.inr ⟨i, hi, hfunction, hroot⟩

/-- Functions of that name in the scope or around it are what the target stands for, unless the name
is declared as something else further inside. -/
structure StandsFor (σ : Session) (scope : ScopeId) (n : String) (g : CallTarget) : Prop where
  valid : scope.index < σ.scopes.size
  found : ∀ id ∈ σ.scopes.chain scope, σ.scopes.Function id n →
    g = .function n ∨ σ.scopes.Hides id n

namespace StandsFor

variable {g : CallTarget}

lemma mono (h : σ.StandsFor scope n g) (hτ : Trace False closing σ τ) : τ.StandsFor scope n g := by
  have hlater := Later.of_trace hτ
  refine ⟨Nat.lt_of_lt_of_le h.valid hlater.scopes.size_le, fun id hid hfunction => ?_⟩
  rw [hlater.scopes.chain h.valid] at hid
  have hnew : Introduces .root [] σ τ := .of_trace hτ
  rcases hnew.functions hfunction with hfunction | hnone | ⟨-, hn⟩
  · exact (h.found id hid hfunction).imp_right fun hhides => hhides.mono hlater.scopes
  · have hlt := Nat.lt_of_le_of_lt (Scopes.index_le_of_mem_chain hid) h.valid
    obtain ⟨s, hs⟩ := Scopes.exists_scope hlt
    cases hs.symm.trans hnone
  · cases hn

lemma outward (h : σ.StandsFor id n g) (hid : σ.Inside outer names id) :
    σ.StandsFor outer n g := by
  refine ⟨Nat.lt_trans hid.older h.valid, fun i hi => h.found i ?_⟩
  rw [hid.chain]
  exact List.mem_cons_of_mem id hi

end StandsFor

/-- If the node is a call then it has a target, which comes from the callee, as seen from the
scope. -/
def Answers (σ : Session) (scope : ScopeId) (node : Node) : Prop :=
  ∀ m f args t, node = .expr (.call m f args t) → ∃ g, t = some g ∧ g.Names (σ.Finds scope) f ∧
    ∀ k n, f = .name k n → σ.StandsFor scope n g

namespace Answers

variable {node : Node}

lemma other (hnode : node.call? [] = none) : σ.Answers scope node := by
  rintro m f args t rfl
  cases hnode

lemma mono (h : σ.Answers scope node) (hτ : Trace False closing σ τ) : τ.Answers scope node := by
  intro m f args t heq
  obtain ⟨g, ht, hnames, hreaches⟩ := h m f args t heq
  exact ⟨g, ht, hnames.mono fun _ hfinds => hfinds.mono (.of_trace hτ), fun k n hf =>
    (hreaches k n hf).mono hτ⟩

lemma outward (h : σ.Answers id node) (hid : σ.Inside outer [] id) : σ.Answers outer node := by
  intro m f args t heq
  obtain ⟨g, ht, hnames, hreaches⟩ := h m f args t heq
  exact ⟨g, ht, hnames.mono fun _ hfinds => (hid.finds hfinds).resolve_left List.not_mem_nil,
    fun k n hf => (hreaches k n hf).outward hid⟩

end Answers
end Session

namespace Check

/-- What is declared in a name that is called is found again, and recorded if it is at the top. -/
lemma finds_of_resolve {b : Binding} {span : Span} {u : Unit}
    (hb : σ.scopes.resolve scope n span = .ok b) (hfunction : b.IsFunction)
    (hown : b.builtin = false) (h : Gives (recordCall scope n) σ u τ) :
    b.name = n ∧ τ.Finds scope n := by
  unfold Scopes.resolve at hb
  obtain ⟨_, -, hb⟩ := Except.bind_eq_ok.mp hb
  split at hb
  · rename_i b' hlookup
    cases hb
    obtain ⟨before, id, after, hchain, hid, hnone⟩ := List.findSome?_eq_some_iff.mp hlookup
    have hscopes := (gives_recordCall h).2
    refine ⟨Scopes.name_of_bindingAt? hid, id, ?_, ?_, ?_⟩
    · rw [hscopes, hchain]
      simp
    · rw [hscopes]
      exact ⟨b, hid, hfunction, hown⟩
    · rintro rfl
      have hdeclaring : σ.scopes.declaring? scope n = some .root := by
        rw [Scopes.declaring?, hchain, List.find?_eq_some_iff_append]
        exact ⟨by simp [hid], before, after, rfl, by simpa using hnone⟩
      simp only [recordCall, gives_bind, gives_scopes] at h
      obtain ⟨_, _, ⟨rfl, rfl⟩, h⟩ := h
      rw [if_pos hdeclaring] at h
      cases h
      exact List.mem_insert_self
  · cases hb

/-- What a call by name has found is the innermost declaration. -/
lemma standsFor_of_resolve {b : Binding} {span : Span} {g : CallTarget}
    (hb : σ.scopes.resolve scope n span = .ok b)
    (hg : b.IsFunction → b.builtin = false → g = .function b.name) : σ.StandsFor scope n g := by
  unfold Scopes.resolve at hb
  obtain ⟨_, -, hb⟩ := Except.bind_eq_ok.mp hb
  split at hb
  · rename_i b' hlookup
    cases hb
    obtain ⟨before, id, after, hchain, hid, hnone⟩ := List.findSome?_eq_some_iff.mp hlookup
    have hname := Scopes.name_of_bindingAt? hid
    have hmem : id ∈ σ.scopes.chain scope := by simp [hchain]
    refine ⟨Scopes.lt_size_of_mem_chain hmem, fun i hi hfunction => ?_⟩
    obtain ⟨b', hb', hown⟩ := hfunction
    by_cases hfound : b.IsFunction ∧ b.builtin = false
    · exact Or.inl (hname ▸ hg hfound.1 hfound.2)
    rw [hchain, List.mem_append, List.mem_cons] at hi
    -- further inside nothing is declared, and here it is something else
    rcases hi with hi | rfl | hi
    · cases (hnone i hi).symm.trans hb'
    · cases hid.symm.trans hb'
      exact absurd hown hfound
    · refine Or.inr ⟨id, b, ?_, hid, hfound⟩
      rw [Scopes.chain_of_append hchain]
      exact List.mem_cons_of_mem id hi
  · cases hb

section Targets

variable {found : String → Prop} {callee : Expr} {t : TypeTable} {c : ClassId} {args : List Expr}
  {span : Span} {r : CallTarget × TypeId}

lemma names_instantiate (h : Call.instantiate t c args span = .ok r) : r.1.Names found callee := by
  unfold Call.instantiate at h
  obtain ⟨_, -, h⟩ := Except.bind_eq_ok.mp h
  obtain ⟨_, -, h⟩ := Except.bind_eq_ok.mp h
  cases h
  trivial

lemma names_named {b : Binding} {f : Mark} (h : Call.named t b args span = .ok r)
    (hfound : b.IsFunction → b.builtin = false → b.name = n ∧ found n) :
    r.1.Names found (.name f n) := by
  unfold Call.named at h
  split at h
  · rename_i signature hkind
    obtain ⟨_, -, h⟩ := Except.bind_eq_ok.mp h
    cases h
    cases hown : b.builtin with
    | true => trivial
    | false =>
      obtain ⟨rfl, hn⟩ := hfound ⟨signature, hkind⟩ hown
      exact ⟨⟨f, rfl⟩, hn⟩
  · exact names_instantiate h
  · cases h
    trivial

lemma target_of_named {b : Binding} (h : Call.named t b args span = .ok r) (hf : b.IsFunction)
    (hown : b.builtin = false) : r.1 = .function b.name := by
  obtain ⟨signature, hkind⟩ := hf
  simp only [Call.named, hkind, hown] at h
  obtain ⟨_, -, h⟩ := Except.bind_eq_ok.mp h
  cases h
  rfl

lemma names_member {object : TypeId} {f : Mark} {o : Expr}
    (h : Call.member t object n args span = .ok r) : r.1.Names found (.member f o n) := by
  unfold Call.member at h
  split at h
  · unfold Call.method at h
    obtain ⟨_, -, h⟩ := Except.bind_eq_ok.mp h
    split at h
    · cases h
    · obtain ⟨_, -, h⟩ := Except.bind_eq_ok.mp h
      split at h
      · obtain ⟨_, -, h⟩ := Except.bind_eq_ok.mp h
        cases h
        exact ⟨f, o, rfl⟩
      · exact names_instantiate h
      · cases h
        trivial
  · cases h
    trivial
  · obtain ⟨_, -, h⟩ := Except.bind_eq_ok.mp h
    cases h
    trivial

end Targets

/-! ### Expressions -/

lemma inside_openLambda {head head' : LambdaHead} {inner : ScopeId}
    (h : Gives (openLambda scope head) σ (inner, head') τ) : τ.Inside scope [] inner := by
  obtain ⟨frame, σ1, h1, σ2, h2, ps, h3, -⟩ := h.openLambda
  exact (inside_openFunction h1 h2 h3).1

lemma answers_expr {e e' : Expr} (h : Gives (expr scope e) σ e' τ) :
    τ.Answers scope (.expr e') := by
  rintro m f args t ⟨⟩
  cases e with
  | call _ f0 =>
    cases f0 with
    -- a call by name has found what it calls
    | name =>
      obtain ⟨b, hb, -, _, σ1, h1, args', h2, g, t, hcall, heq⟩ := h.call_name
      cases heq
      have hτ : Session.Trace False True σ τ := (Traced.trace h1).trans (Traced.trace h2)
      refine ⟨g, rfl, names_named hcall fun hfunction hown => ?_, ?_⟩
      · obtain ⟨hname, hfinds⟩ := finds_of_resolve hb hfunction hown h1
        exact ⟨hname, hfinds.mono (later_of_gives h2)⟩
      · rintro _ _ ⟨⟩
        exact (standsFor_of_resolve hb (target_of_named hcall)).mono hτ
    | member =>
      -- a call of a member names what the table has
      obtain ⟨_, _, -, -, _, -, g, t, hcall, heq⟩ := h.call_member
      cases heq
      exact ⟨g, rfl, names_member hcall, fun _ _ hf => by cases hf⟩
    | _ =>
      obtain ⟨f', _, hf', -, _, -, heq⟩ := h.call_computed (by simp) (by simp)
      cases heq
      refine ⟨_, rfl, trivial, fun _ _ hname => ?_⟩
      have hkept := Expr.kept _ hf'
      cases f' <;> cases hname
      cases hkept
  | _ =>
    simp only [Check.expr, gives_bind, gives_pure] at h
    -- no other expression becomes a call
    grind

end Check

/-! ### Programs -/

namespace Stmt

variable {around : List (ClassHead × List Stmt)} {c : PlacedCall}

lemma calls_of_not_isClass {s : Stmt} (h : s.isClass = false) :
    s.calls around = s.nodes.filterMap (Node.call? around) := by
  cases s with
  | cls => cases h
  | _ => rfl

lemma mem_callsList {ss : List Stmt} :
    c ∈ callsList around ss ↔ ∃ s ∈ ss, c ∈ s.calls around := by
  induction ss with
  | nil => simp [callsList]
  | cons s ss ih => simp [callsList, ih]

lemma around_of_mem_calls {s : Stmt} (h : c ∈ s.calls around) : around ⊆ c.around := by
  induction s using members_induction generalizing around with
  | other s hs =>
    rw [calls_of_not_isClass hs] at h
    obtain ⟨node, -, hnode⟩ := List.mem_filterMap.mp h
    unfold Node.call? at hnode
    split at hnode
    · cases hnode
      exact List.Subset.refl _
    · cases hnode
  | cls head ms ih =>
    obtain ⟨s, hs, hc⟩ := mem_callsList.mp h
    exact List.Subset.trans (List.subset_cons_self _ _) (ih s hs hc)

end Stmt

/-- In the class, the target stands for the method of that name, unless the name is declared as
something else further inside. -/
def Session.Selects (σ : Session) (n : String) (g : CallTarget) (k : ClassHead × List Stmt) :
    Prop :=
  ∃ body, k.1.scope = some body ∧
    (n ∈ Stmt.functionNames k.2 → g = .function n ∨ σ.scopes.Hides body n)

/-- The target of the call comes from its callee. A function is a method of a class around the call
or found in the scope, and a name of methods stands for the innermost one. Nothing is known of the
classes further outside. -/
def PlacedCall.Found (c : PlacedCall) (further : List (ClassHead × List Stmt)) (σ : Session)
    (scope : ScopeId) : Prop :=
  ∃ g, c.target = some g ∧
    g.Names (fun n => (∃ k ∈ c.around, n ∈ Stmt.functionNames k.2) ∨ σ.Finds scope n) c.callee ∧
    ∀ f n, c.callee = .name f n → σ.StandsFor scope n g ∧
      ∀ k ∈ c.around, k ∈ further ∨ σ.Selects n g k

namespace PlacedCall.Found

variable {c : PlacedCall} {around : List (ClassHead × List Stmt)}

lemma mono (h : c.Found around σ scope) (hτ : Session.Trace False closing σ τ) :
    c.Found around τ scope := by
  obtain ⟨g, hg, hnames, hcallee⟩ := h
  have hlater := Session.Later.of_trace hτ
  refine ⟨g, hg, hnames.mono fun _ hn => hn.imp_right fun hfinds => hfinds.mono hlater, ?_⟩
  intro f n hf
  obtain ⟨hstands, hselects⟩ := hcallee f n hf
  refine ⟨hstands.mono hτ, fun k hk => (hselects k hk).imp_right fun ⟨body, hbody, hn⟩ => ?_⟩
  exact ⟨body, hbody, fun hmem => (hn hmem).imp_right fun hhides => hhides.mono hlater.scopes⟩

lemma of_answers {ns : List Node} (h : ∀ n ∈ ns, σ.Answers scope n)
    (hc : c ∈ ns.filterMap (Node.call? around)) : c.Found around σ scope := by
  obtain ⟨node, hmem, hnode⟩ := List.mem_filterMap.mp hc
  unfold Node.call? at hnode
  split at hnode
  · cases hnode
    obtain ⟨g, hg, hnames, hcallee⟩ := h _ hmem _ _ _ _ rfl
    exact ⟨g, hg, hnames.mono fun _ hfinds => Or.inr hfinds, fun f n hf =>
      ⟨hcallee f n hf, fun k hk => Or.inl hk⟩⟩
  · cases hnode

/-- What is found in the body of a class is a method of it, or found around it. -/
lemma outward {k : ClassHead × List Stmt} (h : c.Found (k :: around) σ id) (hk : k ∈ c.around)
    (hscope : k.1.scope = some id) (hid : σ.Inside outer (Stmt.functionNames k.2) id) :
    c.Found around σ outer := by
  obtain ⟨g, hg, hnames, hcallee⟩ := h
  refine ⟨g, hg, hnames.mono fun n hn => hn.elim Or.inl fun hfinds => ?_, fun f n hf => ?_⟩
  · exact (hid.finds hfinds).imp_left fun hn => ⟨k, hk, hn⟩
  · obtain ⟨hstands, hselects⟩ := hcallee f n hf
    refine ⟨hstands.outward hid, fun k' hk' => ?_⟩
    rcases hselects k' hk' with hk' | hk'
    · rcases List.mem_cons.mp hk' with rfl | hk'
      · have hself : id ∈ σ.scopes.chain id := by simp [hid.chain]
        exact Or.inr ⟨id, hscope, fun hn => hstands.found id hself (hid.functions.mpr hn)⟩
      · exact Or.inl hk'
    · exact Or.inr hk'

end PlacedCall.Found

namespace Check

open Session (Inside Trace)
open Traced (trace)

lemma scope_of_gives_cls {head head' : ClassHead} {ms ms' : List Stmt}
    (h : Gives (stmt scope (.cls head ms)) σ (.cls head' ms') τ) : head'.scope = head.scope := by
  obtain ⟨c, -, inner, -, _, _, -, _, _, -, _, hclose, heq⟩ := h.cls
  cases heq
  simp only [closeClass, gives_bind, gives_pure] at hclose
  obtain ⟨_, _, -, _, _, -, _, _, -, _, _, -, _, _, -, _, _, -, rfl, -⟩ := hclose
  rfl

/-- The calls that the walk comes by have found what they call. -/
lemma answers_law (A : Session) : StmtLaw A (fun scope σ s => s.Nested σ scope)
    (fun scope σ n => σ.Answers scope n)
    (fun scope σ s => ∀ around, ∀ c ∈ s.calls around, c.Found around σ scope) where
  mono h hτ := h.mono hτ.trace
  block h hτ hn := hn.outward ((inside_openIn h).of_trace hτ.trace)
  lambda h hτ hn := hn.outward ((inside_openLambda h).of_trace hτ.trace)
  func hready hinner hτ hn := hn.outward (Inside.of_trace (hready _ hinner) hτ.trace)
  ctor hready hinner hτ hn := hn.outward (Inside.of_trace (hready _ hinner) hτ.trace)
  plain := Stmt.nested_of_plain
  expr _ := answers_expr
  callee_name _ := .other rfl
  callee_member _ := .other rfl
  stmt _ _ _ _ := .other rfl
  chain := .other rfl
  ready h hτ := h.of_trace hτ.trace
  members h hbody := Stmt.nestedList_iff.mp (h _ hbody).2
  nodes hs h around c hc := by
    rw [Stmt.calls_of_not_isClass hs] at hc
    exact .of_answers h hc
  lasts h hτ around c hc := (h around c hc).mono hτ.trace
  cls {_ _ head ms _ _ ms' _} hready hbody h hτ hms around c hc := by
    obtain ⟨s, hs, hc⟩ := Stmt.mem_callsList.mp hc
    -- the check changes the name of no method
    have hnames : Stmt.functionNames ms' = Stmt.functionNames ms :=
      Stmt.functionNames_congr (Stmt.cls.inj ((Stmt.cls head ms).kept h)).2
    have hmem := Stmt.around_of_mem_calls hc List.mem_cons_self
    refine (hms s hs _ c hc).outward hmem ((scope_of_gives_cls h).trans hbody) ?_
    rw [hnames]
    exact (hready _ hbody).1.of_trace hτ.trace

/-- All names that a program starts with come with the language. -/
lemma not_function_start {log : List LogEvent} :
    ¬({ log } : Session).scopes.Function .root n := by
  rintro ⟨b, hb, -, hown⟩
  have hbuiltin : ∀ b ∈ Bindings.builtins.entries, b.builtin = true := by decide
  obtain ⟨s, hs, hb⟩ := Scopes.bindingAt?_eq_some.mp hb
  cases hs
  cases (hbuiltin b (List.mem_of_find?_eq_some hb)).symm.trans hown

/-- In an accepted program a function that is called is a method of a class around the call, or it
is declared at the top and known to be used. -/
lemma found_program {p q : Program} {log : List LogEvent} (h : Gives (program p) { log } q τ) :
    ∀ c ∈ q.calls, ∃ g, c.target = some g ∧ g.Names (fun n =>
      (∃ k ∈ c.around, n ∈ Stmt.functionNames k.2) ∨
        n ∈ Stmt.functionNames p.stmts ∧ n ∈ τ.callSites) c.callee ∧
      ∀ f n, c.callee = .name f n → ∀ k ∈ c.around, τ.Selects n g k := by
  obtain ⟨ss1, A, h1, ss2, F, h2, ss3, σ3, h3, _, h4, rfl⟩ := h.program
  obtain ⟨hnested, hintro⟩ := nested_announce h1
  obtain ⟨hA, -⟩ :=
    hoisted_announce (Session.assembled_new log) (Session.assembled_new log).at_root h1
  have L := answers_law A
  obtain ⟨⟨hcF, hF⟩, hfields⟩ := visits_fields L.toNodeLaw hA.assembled.stay h2
  have hτ : Trace False True A τ := hF.trans ((trace h3).trans (trace h4))
  have hnested2 : ∀ s ∈ ss2, s.Nested F .root := by
    have hlist (ss : List Stmt) : (∀ s ∈ ss.map Stmt.fieldless, s.Nested F .root) ↔
        ∀ s ∈ ss, s.Nested F .root := by
      simp only [List.forall_mem_map, Stmt.nested_fieldless]
    rw [← hlist, fieldless_fields h2, hlist]
    exact fun s hs => (hnested s hs).of_trace hF
  intro c hc
  obtain ⟨s, hs, hc⟩ := Stmt.mem_callsList.mp hc
  have hwalked : Trace False True σ3 τ := trace h4
  obtain ⟨g, hg, hnames, hcallee⟩ :=
    ((L.holds_stmts hcF hnested2 hfields h3).2 s hs _ c hc).mono hwalked
  refine ⟨g, hg, hnames.mono fun n hn => hn.imp_right fun hfinds => ?_, fun f n hf k hk =>
    ((hcallee f n hf).2 k hk).resolve_left List.not_mem_nil⟩
  obtain ⟨id, hid, hfunction, hcalls⟩ := hfinds
  obtain rfl : id = .root := by
    obtain ⟨i⟩ := id
    exact congrArg ScopeId.mk (Nat.le_zero.mp (Scopes.index_le_of_mem_chain hid))
  have hroot : ({ log } : Session).scopes.scope? .root = some { bindings := .builtins } := rfl
  obtain ⟨s, hs, -⟩ := hintro.later.scopes.scope? hroot
  refine ⟨?_, hcalls rfl⟩
  -- after the announcement no function is declared at the root
  have hA : A.scopes.Function .root n := by
    have hnone : ¬A.scopes.scope? .root = none := by simp [hs]
    have hnew : Session.Introduces .root [] A τ := .of_trace hτ
    simpa [hnone] using hnew.functions hfunction
  rcases hintro.functions hA with hstart | hnone | ⟨-, hn⟩
  · exact absurd hstart not_function_start
  · cases hnone
  · rwa [← Stmt.functionNames_congr (erase_announce h1)]

end Check

lemma PlacedCall.owner?_eq_none {c : PlacedCall} :
    c.owner? n = none ↔ ∀ k ∈ c.around, n ∉ Stmt.functionNames k.2 := by
  simp [owner?]

lemma PlacedCall.callee_of_target {p q : Program} {a : Analysis} (h : analyze p = .ok (q, a))
    {c : PlacedCall} (hc : c ∈ q.calls) (htarget : c.target = some (.function n)) :
    ∃ f, c.callee = .name f n := by
  obtain ⟨Ω, hrun, rfl⟩ := analyze_eq_ok.mp h
  obtain ⟨g, hg, hnames, -⟩ := Check.found_program hrun c hc
  cases hg.symm.trans htarget
  exact hnames.1

/-- **Targets of calls.** In an accepted program the target of a call names the right kind of callee
exactly if the call is not the call of a method, by its name alone, from inside of its class: such a
call has the target of a top-level function. -/
theorem target_right_iff (p q : Program) (a : Analysis) (h : analyze p = .ok (q, a))
    (c : PlacedCall) (hc : c ∈ q.calls) :
    c.Right p a ↔ ∀ n, c.target = some (.function n) → c.owner? n = none := by
  obtain ⟨Ω, hrun, rfl⟩ := analyze_eq_ok.mp h
  obtain ⟨g, hg, hnames, hselects⟩ := Check.found_program hrun c hc
  -- a call by the name of a method has the target of a function
  have hmethod {n : String} {head : ClassHead} (hcalls : c.CallsMethod Ω.scopes n head) :
      c.target = some (.function n) := by
    obtain ⟨⟨f, hf⟩, howner, hplain⟩ := hcalls
    obtain ⟨k, hk, rfl⟩ := Option.map_eq_some_iff.mp howner
    have hmem : n ∈ Stmt.functionNames k.2 := by simpa using List.find?_some hk
    obtain ⟨body, hbody, hn⟩ := hselects f n hf k (List.mem_of_find?_eq_some hk)
    rw [hg, (hn hmem).resolve_right (hplain body hbody)]
  constructor
  · -- a right target of a function is that of no method around
    rintro ⟨-, hright⟩ n htarget
    rw [htarget] at hright
    exact hright.2.1
  · intro howner
    refine ⟨fun n head hcalls => ?_, ?_⟩
    · -- a method that is called by name would own a function's target
      cases (howner n (hmethod hcalls)).symm.trans hcalls.2.1
    rw [hg]
    cases g with
    | function n =>
      obtain ⟨hcallee, hn⟩ := hnames
      have hnone := howner n hg
      -- no class around has the function, so the program has
      refine ⟨hcallee, hnone, hn.resolve_left ?_⟩
      rintro ⟨k, hk, hmem⟩
      exact PlacedCall.owner?_eq_none.mp hnone k hk hmem
    | method k n => exact Or.inl hnames
    | builtin | instantiate | dynamic => trivial

/-- A class with two methods: the first one calls a function, the second one calls the first. -/
def clockwork : Program where
  stmts :=
    [.func { name := "wind" } [],
      .cls { name := "Clock" }
        [.func { name := "tick" } [.expr (.call {} (.name {} "wind") [] none)],
          .func { name := "run" } [.expr (.call {} (.name {} "tick") [] none)]]]

/-- In `clockwork` the call of the function has the right target. -/
theorem target_right_wind : ∃ q a, analyze clockwork = .ok (q, a) ∧ ∃ c ∈ q.calls,
    c.target = some (.function "wind") ∧ c.Right clockwork a := by
  have haccepted : (analyze clockwork).toOption.map (fun r => r.1.calls.head?.map fun c =>
      (c.target, (c.owner? "wind").isNone)) = some (some (some (.function "wind"), true)) := by
    decide +kernel
  obtain ⟨r, h, hr⟩ := Except.exists_ok_of_map haccepted
  obtain ⟨c, hc, heq⟩ := Option.map_eq_some_iff.mp hr
  obtain ⟨htarget, howner⟩ := Prod.mk.injEq .. ▸ heq
  have hmem := List.mem_of_mem_head? hc
  refine ⟨r.1, r.2, h, c, hmem, htarget, ?_⟩
  refine (target_right_iff clockwork r.1 r.2 h c hmem).mpr fun n hn => ?_
  cases htarget.symm.trans hn
  exact Option.isNone_iff_eq_none.mp howner

/-- In `clockwork` the call by the name of the method has the target of a top-level function, and
the program has no function of that name. -/
theorem target_wrong_tick : ∃ q a, analyze clockwork = .ok (q, a) ∧ ∃ c ∈ q.calls,
    c.target = some (.function "tick") ∧ (∃ head, c.CallsMethod a.scopes "tick" head ∧
      head.cls = some ⟨0⟩) ∧ "tick" ∉ Stmt.functionNames clockwork.stmts ∧
      ¬c.Right clockwork a := by
  have haccepted : (analyze clockwork).toOption.map (fun r => r.1.calls.getLast?.map fun c =>
      (c.target, (c.owner? "tick").map (·.cls))) =
        some (some (some (.function "tick"), some (some ⟨0⟩))) := by
    decide +kernel
  have hbindings : (analyze clockwork).toOption.map (fun r =>
      (List.range r.2.scopes.size).all fun i => (r.2.scopes.bindingAt? "tick" ⟨i⟩).all fun b =>
        b.kind == .function ⟨[], .any⟩ && b.builtin == false) = some true := by
    decide +kernel
  obtain ⟨r, h, hlast⟩ := Except.exists_ok_of_map haccepted
  have hfunctions := Option.some.inj (h ▸ hbindings)
  obtain ⟨c, hc, heq⟩ := Option.map_eq_some_iff.mp hlast
  obtain ⟨htarget, howner⟩ := Prod.mk.injEq .. ▸ heq
  obtain ⟨head, hhead, hcls⟩ := Option.map_eq_some_iff.mp howner
  have hplain (body : ScopeId) : ¬r.2.scopes.Hides body "tick" := by
    rintro ⟨⟨i⟩, b, hid, hb, hother⟩
    have hlt := Scopes.lt_size_of_mem_chain hid
    have hall := List.all_eq_true.mp hfunctions i (List.mem_range.mpr hlt)
    simp only [hb, Option.all_some, Bool.and_eq_true, beq_iff_eq] at hall
    exact hother ⟨⟨_, hall.1⟩, hall.2⟩
  have hmem := List.mem_of_getLast? hc
  have hname := PlacedCall.callee_of_target h hmem htarget
  refine ⟨r.1, r.2, h, c, hmem, htarget, ⟨head, ⟨hname, hhead, fun body _ => hplain body⟩, hcls⟩,
    by decide, ?_⟩
  rintro ⟨-, hright⟩
  rw [htarget] at hright
  cases hhead.symm.trans hright.2.1

end MiddleEnd
