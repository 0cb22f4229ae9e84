import MiddleEnd.Proofs.Check.Calls
import MiddleEnd.Proofs.Check.Parts
import MiddleEnd.Proofs.Tree.Induction

/-!
The walk through expressions. Each kind of expression gets a type that passes the check at the end,
if its parts do.
-/

namespace MiddleEnd

variable {A σ τ : Session} {scope : ScopeId} {v : Unit}

/-- Looking at the expression leads to a valid session, and to an expression with types that pass
their checks. -/
def Expr.Sound (A : Session) (e : Expr) : Prop :=
  ∀ {scope σ e' τ}, A.Reaches σ → Gives (Check.expr scope e) σ e' τ →
    A.Annotates σ τ e'.nodes [e']

/-! ### Names -/

lemma Scopes.exists_of_resolve {t : Scopes} {name : String} {span : Span} {b : Binding}
    (h : t.resolve scope name span = .ok b) : ∃ id, t.bindingAt? name id = some b := by
  unfold resolve at h
  obtain ⟨_, -, h⟩ := Except.bind_eq_ok.mp h
  split at h
  · rename_i b' hb'
    cases h
    exact exists_bindingAt? hb'
  · cases h

namespace Check

lemma annotates_nameType {name : String} {span : Span} {t : TypeId} (hσ : A.Reaches σ)
    (h : Gives (nameType scope name span) σ t τ) :
    σ.Reaches τ ∧ τ.types.Registered t ∧ ∃ b id, τ.scopes.bindingAt? name id = some b ∧
      b.kind ≠ .type ∧ t = if b.isValue then b.type else .any := by
  unfold nameType at h
  simp only [gives_bind, gives_scopes, gives_rule] at h
  obtain ⟨_, _, ⟨rfl, rfl⟩, b, _, ⟨hb, rfl⟩, h⟩ := h
  obtain ⟨id, hid⟩ := Scopes.exists_of_resolve hb
  have hreg := (hσ.valid.bindings hid).type
  unfold Binding.isValue
  split at h
  · -- a variable, then a parameter: the type is its own
    rename_i hk
    rw [gives_pure] at h
    obtain ⟨rfl, rfl⟩ := h
    exact ⟨.refl hσ.valid, hreg, b, id, hid, by simp [hk], by simp [hk]⟩
  · rename_i hk
    rw [gives_pure] at h
    obtain ⟨rfl, rfl⟩ := h
    exact ⟨.refl hσ.valid, hreg, b, id, hid, by simp [hk], by simp [hk]⟩
  · -- a function, which is known to be used from now on
    rename_i hk
    simp only [gives_bind, gives_pure] at h
    obtain ⟨_, _, hcall, rfl, rfl⟩ := h
    obtain ⟨htypes, hscopes⟩ := gives_recordCall hcall
    exact ⟨(Session.Quiet.of_eq htypes hscopes).reaches hσ.valid, TypeTable.registered_any, b, id,
      by rw [hscopes]; exact hid, by simp [hk], by simp [hk]⟩
  · -- a class
    rename_i hk
    rw [gives_pure] at h
    obtain ⟨rfl, rfl⟩ := h
    exact ⟨.refl hσ.valid, TypeTable.registered_any, b, id, hid, by simp [hk], by simp [hk]⟩
  · -- the name of a type is no value
    rw [gives_throw] at h
    exact h.elim

lemma session_of_selfType {span : Span} {t : TypeId} (h : Gives (selfType scope span) σ t τ) :
    σ = τ ∧ ∃ c e, σ.types.class? c = some e ∧ t = e.type := by
  unfold selfType at h
  simp only [gives_bind, gives_scopes, gives_rule, gives_classEntry, gives_pure] at h
  obtain ⟨_, _, ⟨rfl, rfl⟩, c, _, ⟨-, rfl⟩, e, _, ⟨he, rfl⟩, rfl, rfl⟩ := h
  exact ⟨rfl, c, e, he, rfl⟩

/-- The collection is looked at before the index. -/
lemma checks_subscriptType (hτ : τ.Valid) (hστ : σ.Grows τ) {o i : Expr} {t : TypeId}
    (ho : σ.types.Registered o.type) (hrule : Rule.collection σ.types o = .ok v)
    (hi : τ.types.Registered i.type) (h : subscriptType τ.types o i = .ok t) :
    τ.types.Registered t ∧ ∀ Ω, A.Final Ω → τ.Grows Ω →
      Ω.analysis.SubscriptChecks o.type i.type t := by
  obtain ⟨f, hf⟩ := ho
  have hfτ := TypeTable.form?_mono hστ.forms hf
  have hform : ∀ {Ω : Session}, τ.Grows Ω → Ω.analysis.types.form? o.type = some f :=
    fun hgrows => TypeTable.form?_mono hgrows.forms hfτ
  have hok := ensure_eq_ok.mp hrule
  have hmono : ∀ {Ω : Session}, A.Final Ω → τ.Grows Ω → ∀ {k : TypeId}, τ.types.Registered k →
      τ.types.assignable k i.type = true → Ω.analysis.types.assignable k i.type = true := by
    intro Ω hΩ hgrows k hk hassign
    exact (hτ.types.assignable_mono hΩ.valid.types hgrows.forms hk hi).trans hassign
  cases f with
  | array e =>
    -- the index is a number, and the element type is older than the array
    have he := (hτ.types.part_lt hfτ (p := e) (by simp [TypeForm.parts])).1
    simp only [subscriptType, hfτ] at h
    obtain ⟨_, hassign, h⟩ := Except.bind_eq_ok.mp h
    cases h
    refine ⟨he, fun Ω hΩ hgrows => ?_⟩
    simp only [Analysis.SubscriptChecks, hform hgrows]
    exact ⟨hmono hΩ hgrows ⟨.number, rfl⟩ (Rule.assignable_of_ok hassign), trivial⟩
  | dictionary k w =>
    have hk := (hτ.types.part_lt hfτ (p := k) (by simp [TypeForm.parts])).1
    have hw := (hτ.types.part_lt hfτ (p := w) (by simp [TypeForm.parts])).1
    simp only [subscriptType, hfτ] at h
    obtain ⟨_, hassign, h⟩ := Except.bind_eq_ok.mp h
    cases h
    refine ⟨hw, fun Ω hΩ hgrows => ?_⟩
    simp only [Analysis.SubscriptChecks, hform hgrows]
    exact ⟨hmono hΩ hgrows hk (Rule.assignable_of_ok hassign), trivial⟩
  | any =>
    -- nothing is asked of the index
    simp only [subscriptType, hfτ] at h
    cases h
    refine ⟨TypeTable.registered_any, fun Ω _ hgrows => ?_⟩
    simp only [Analysis.SubscriptChecks, hform hgrows]
  -- the rule has ruled out all other forms
  | _ => simp [hf] at hok

lemma reaches_of_addType {f : TypeForm} {t : TypeId} (hσ : σ.Valid) (hf : f.isStructural = true)
    (hparts : ∀ p ∈ f.parts, σ.types.Registered p) (h : Gives (addType f) σ t τ) :
    σ.Reaches τ ∧ τ.types.form? t = some f := by
  obtain ⟨rfl, rfl⟩ := gives_addType.mp h
  have hquiet : σ.Quiet { σ with types := σ.types.add f } :=
    ⟨TypeTable.adds_add _ _, fun hwf => hwf.add hf hparts, .refl _, fun _ _ => rfl⟩
  exact ⟨hquiet.reaches hσ, TypeTable.form?_add_next _ _⟩

/-! ### Lists -/

lemma annotates_exprs {es es' : List Expr} (hes : ∀ e ∈ es, e.Sound A) (hσ : A.Reaches σ)
    (h : Gives (exprs scope es) σ es' τ) : A.Annotates σ τ (Expr.nodesList es') es' := by
  induction es generalizing σ es' with
  | nil =>
    obtain ⟨rfl, rfl⟩ := gives_pure.mp h
    exact .of_reaches (.refl hσ.valid)
  | cons e es ih =>
    rw [List.forall_mem_cons] at hes
    obtain ⟨e', σ1, h1, rest, h2, rfl⟩ := h.exprs_cons
    have s1 := hes.1 hσ h1
    have s2 := ih hes.2 (hσ.trans s1.reaches) h2
    exact s1.trans s2

lemma annotates_entries {es es' : List (Expr × Expr)} (hes : ∀ e ∈ es, e.1.Sound A ∧ e.2.Sound A)
    (hσ : A.Reaches σ) (h : Gives (entries scope es) σ es' τ) :
    A.Annotates σ τ (Expr.collectEntries .nodes () es') (es'.flatMap fun e => [e.1, e.2]) := by
  induction es generalizing σ es' with
  | nil =>
    obtain ⟨rfl, rfl⟩ := gives_pure.mp h
    exact .of_reaches (.refl hσ.valid)
  | cons e es ih =>
    obtain ⟨k, w⟩ := e
    rw [List.forall_mem_cons] at hes
    obtain ⟨k', σ1, h1, w', σ2, h2, rest, h3, rfl⟩ := h.entries_cons
    have s1 := hes.1.1 hσ h1
    have s2 := hes.1.2 (hσ.trans s1.reaches) h2
    have s12 := s1.trans s2
    have s3 := ih hes.2 (hσ.trans s12.reaches) h3
    exact s12.trans s3

end Check

end MiddleEnd
