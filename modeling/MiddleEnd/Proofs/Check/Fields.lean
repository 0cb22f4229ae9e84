import MiddleEnd.Proofs.Check.Statements

/-!
The fields of classes, which are declared when all declarations have been made known and before
any other statement is looked at.
-/

namespace MiddleEnd

variable {A σ τ υ : Session}

namespace Session

/-- A field has been declared on the way. -/
def FieldDeclared (A τ : Session) (body : ScopeId) (head : VarHead) : Prop :=
  ∃ σ₀ τ₀, A.Reaches σ₀ ∧ σ₀.DeclaresVar body head τ₀ ∧ τ₀.Grows τ

lemma FieldDeclared.mono {body : ScopeId} {head : VarHead} (h : A.FieldDeclared σ body head)
    (hστ : σ.Grows τ) : A.FieldDeclared τ body head := by
  obtain ⟨σ₀, τ₀, hσ₀, hdecl, hτ₀⟩ := h
  exact ⟨σ₀, τ₀, hσ₀, hdecl, hτ₀.trans hστ⟩

/-- The fields of the classes `ks` are declared, which makes them `ks'`. -/
structure DeclaresFields (A σ τ : Session) (ks ks' : List (ClassHead × List Stmt)) : Prop where
  reaches : σ.Reaches τ
  prepared : (∀ k ∈ ks, σ.Opened k.1) → ∀ k ∈ ks', A.Prepared τ k
  declared : ∀ k ∈ ks, ∀ {body head init}, k.1.scope = some body → Stmt.var head init ∈ k.2 →
    A.FieldDeclared τ body head

namespace DeclaresFields

variable {ks ks' ls ls' : List (ClassHead × List Stmt)}

lemma of_reaches (h : σ.Reaches τ) : A.DeclaresFields σ τ [] [] := ⟨h, nofun, nofun⟩

lemma trans (h : A.DeclaresFields σ τ ks ks') (h' : A.DeclaresFields τ υ ls ls') :
    A.DeclaresFields σ υ (ks ++ ls) (ks' ++ ls') where
  reaches := h.reaches.trans h'.reaches
  prepared hopened := by
    rw [List.forall_mem_append] at hopened ⊢
    refine ⟨fun k hk => (h.prepared hopened.1 k hk).mono h'.reaches.grows, ?_⟩
    exact h'.prepared fun k hk => (hopened.2 k hk).mono h.reaches.grows
  declared := by
    rw [List.forall_mem_append]
    refine ⟨fun k hk body head init hbody hmem => ?_, h'.declared⟩
    exact (h.declared k hk hbody hmem).mono h'.reaches.grows

end DeclaresFields
end Session

def Stmt.FieldsSound (A : Session) (s : Stmt) : Prop :=
  ∀ {σ s' τ}, A.Reaches σ → Gives (Check.classFields s) σ s' τ →
    A.DeclaresFields σ τ s.classes s'.classes ∧ s'.isVar = s.isVar

namespace Check

/-- The fields of a class itself, and those of the classes in it. -/
lemma declaresFields_members {body : ScopeId} {ms ms' : List Stmt}
    (hms : ∀ s ∈ ms, s.FieldsSound A) (hσ : A.Reaches σ)
    (h : Gives (memberFields body ms) σ ms' τ) :
    A.DeclaresFields σ τ (Stmt.classesList ms) (Stmt.classesList ms') ∧
      (∀ s ∈ ms', s.isVar = true → A.Settled τ s.nodes) ∧
      ∀ {head init}, Stmt.var head init ∈ ms → A.FieldDeclared τ body head := by
  induction ms generalizing σ ms' with
  | nil =>
    obtain ⟨rfl, rfl⟩ := gives_pure.mp h
    exact ⟨.of_reaches (.refl hσ.valid), List.forall_mem_nil _, by simp⟩
  | cons s ms ih =>
    rw [List.forall_mem_cons] at hms
    by_cases hvar : s.isVar = true
    · -- a field: it is declared before the members that follow
      obtain ⟨head, init, rfl⟩ := Stmt.isVar_iff.mp hvar
      obtain ⟨head', init', σ1, h1, rest, h2, rfl⟩ := h.memberFields_var
      obtain ⟨s1, hchecks, hdecl⟩ := annotates_var (fun e _ => e.sound A) hσ h1
      have s1' : A.Annotates σ σ1 (Stmt.var head' init').nodes [] := s1.node hchecks
      obtain ⟨f2, hsettled, hdeclared⟩ := ih hms.2 (hσ.trans s1.reaches) h2
      refine ⟨(Session.DeclaresFields.of_reaches s1.reaches).trans f2, ?_, ?_⟩
      · rw [List.forall_mem_cons]
        exact ⟨fun _ => s1'.settled.mono f2.reaches.grows, hsettled⟩
      · intro head0 init0 hmem
        rcases List.mem_cons.mp hmem with heq | hmem
        · cases heq
          exact ⟨σ, σ1, hσ, hdecl, f2.reaches.grows⟩
        · exact hdeclared hmem
    · -- any other member has at most classes with fields in it
      rw [Bool.not_eq_true] at hvar
      obtain ⟨s', σ1, h1, rest, h2, rfl⟩ := h.memberFields_cons hvar
      obtain ⟨f1, hkind⟩ := hms.1 hσ h1
      obtain ⟨f2, hsettled, hdeclared⟩ := ih hms.2 (hσ.trans f1.reaches) h2
      refine ⟨f1.trans f2, ?_, ?_⟩
      · rw [List.forall_mem_cons, hkind, hvar]
        exact ⟨by simp, hsettled⟩
      · intro head init hmem
        rcases List.mem_cons.mp hmem with rfl | hmem
        · cases hvar
        · exact hdeclared hmem

end Check

/-- The fields of all classes in a statement are declared, from the outside to the inside. -/
lemma Stmt.fieldsSound (A : Session) (s : Stmt) : s.FieldsSound A := by
  induction s using Stmt.members_induction with
  | other s hs =>
    intro σ s' τ hσ h
    rw [Check.classFields_eq_pure hs] at h
    obtain ⟨rfl, rfl⟩ := gives_pure.mp h
    rw [Stmt.classes_of_not_isClass hs]
    exact ⟨.of_reaches (.refl hσ.valid), rfl⟩
  | cls head ms ih =>
    intro σ s' τ hσ h
    obtain ⟨body, hbody, ms', σ1, h1, _, h2, rfl⟩ := h.classFields_cls
    obtain ⟨f1, hsettled, hdeclared⟩ := Check.declaresFields_members ih hσ h1
    have r2 := (Check.quiet_of_note h2).reaches f1.reaches.valid
    refine ⟨⟨f1.reaches.trans r2, ?_, ?_⟩, rfl⟩
    · intro hopened
      rw [Stmt.classes, List.forall_mem_cons] at hopened ⊢
      refine ⟨⟨hopened.1.mono (f1.reaches.trans r2).grows, fun s hs hvar => ?_⟩, fun k hk => ?_⟩
      · exact (hsettled s hs hvar).mono r2.grows
      · exact (f1.prepared hopened.2 k hk).mono r2.grows
    · rw [Stmt.classes, List.forall_mem_cons]
      refine ⟨fun {body' head' init'} hbody' hmem => ?_,
        fun k hk body' head' init' hbody' hmem => ?_⟩
      · cases hbody.symm.trans hbody'
        exact (hdeclared hmem).mono r2.grows
      · exact (f1.declared k hk hbody' hmem).mono r2.grows

lemma Check.declaresFields {ss ss' : List Stmt} (hσ : A.Reaches σ)
    (h : Gives (ss.mapM Check.classFields) σ ss' τ) :
    A.DeclaresFields σ τ (Stmt.classesList ss) (Stmt.classesList ss') := by
  induction ss generalizing σ ss' with
  | nil =>
    obtain ⟨rfl, rfl⟩ := gives_pure.mp h
    exact .of_reaches (.refl hσ.valid)
  | cons s ss ih =>
    obtain ⟨s', rest, σ1, h1, h2, rfl⟩ := gives_mapM_cons.mp h
    obtain ⟨f1, -⟩ := s.fieldsSound A hσ h1
    exact f1.trans (ih (hσ.trans f1.reaches) h2)

end MiddleEnd
