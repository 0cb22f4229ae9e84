import MiddleEnd.Proofs.Check.Announce
import MiddleEnd.Proofs.Check.Annotated

/-!
Annotations are right. A program that the analysis accepts carries annotations that pass a second
look, node by node, at what the analysis has found out when it is done.
-/

namespace MiddleEnd

variable {A F Ω : Session} {ks ks' : List (ClassHead × List Stmt)}

/-! ### The end of the analysis -/

namespace Session

/-- A name that is declared in the body of a class is no field that is declared later. -/
lemma Consistent.member_of_bindingAt? (hA : A.Consistent ks)
    (hF : A.DeclaresFields A F ks ks') {c : ClassId} {e : ClassEntry} {body : ScopeId}
    {name : String} {b : Binding} (he : A.types.class? c = some e) (hbody : e.body = some body)
    (hb : A.scopes.bindingAt? name body = some b) : e.members.find? name = some b := by
  rcases hA.tracked.bindings he hbody hb with hm | ⟨head, ⟨k, hk, hscope, init, hmem⟩, rfl⟩
  · exact hm
  · obtain ⟨σ₀, τ₀, hσ₀, hdecl, -⟩ := hF.declared k hk hscope hmem
    cases hdecl.fresh.symm.trans (hσ₀.grows.scopes.bindingAt? hb)

/-- A type that has been read before is read again as one that unfolds to the same tree. -/
lemma HasRead.again {body : ScopeId} {head : VarHead} {written : TypeExpr} {t : TypeId}
    (h : A.HasRead body written t) (hwritten : head.annotation = some written)
    (hF : A.FieldDeclared F body head) :
    ∃ t' x, F.scopes.bindingAt? head.name body = some (.ofVariable head.name t') ∧
      A.types.Unfolds t x ∧ F.types.Unfolds t' x := by
  obtain ⟨s, x, hs, hnames, hlt, hx, hux⟩ := h
  obtain ⟨σ₀, τ₀, hσ₀, ⟨-, t', ht', hread⟩, hτ₀⟩ := hF
  obtain ⟨y, hy, huy⟩ := hread written hwritten
  have hlt' : body.index + 1 ≤ A.scopes.size := Nat.le_trans hlt hs.size_le
  have hy' := hy.before (hs.trans hσ₀.grows.scopes)
    (hnames.trans (hσ₀.grows.typeNames.mono hlt')) hlt
  cases hx.unique hy'
  exact ⟨t', x, hτ₀.scopes.bindingAt? ht', hux, huy.mono hτ₀.forms⟩

lemma HasRead.sameType {body : ScopeId} {head : VarHead} {written : TypeExpr} {t : TypeId}
    (h : A.HasRead body written t) (hwritten : head.annotation = some written)
    (hF : A.FieldDeclared F body head) (hFΩ : F.Grows Ω) (hΩ : Ω.Valid) (hAΩ : A.Grows Ω) :
    ∃ t', Ω.scopes.bindingAt? head.name body = some (.ofVariable head.name t') ∧
      Ω.types.sameType t t' = true := by
  obtain ⟨t', x, ht', hux, huy⟩ := h.again hwritten hF
  exact ⟨t', hFΩ.scopes.bindingAt? ht',
    (hΩ.types.sameType_iff (hux.mono hAΩ.forms) (huy.mono hFΩ.forms)).mpr rfl⟩

/-- When the fields have been declared, the members that have been announced for them are theirs. -/
lemma Consistent.final (hA : A.Consistent ks) (hF : A.DeclaresFields A F ks ks')
    (hΩ : F.Reaches Ω) : A.Final Ω := by
  have hgrows := hF.reaches.grows.trans hΩ.grows
  have hmirrors : ∀ {c e body name b}, Ω.types.class? c = some e → e.body = some body →
      Ω.scopes.bindingAt? name body = some b → e.members.find? name = some b := by
    intro c e' body name b he' hbody hb
    obtain ⟨e, he, hagree⟩ := hgrows.exists_class he'
    rw [hagree.body] at hbody
    rcases hgrows.mirror he he' hbody hb with hm | ⟨hb, hm⟩
    · exact hm
    · exact absurd (hA.member_of_bindingAt? hF he hbody hb) hm
  refine ⟨hΩ.valid, hmirrors, fun {c e name b} he hb => ?_⟩
  obtain ⟨e', he', hagree⟩ := hgrows.cls he
  obtain ⟨body, hbody, hb' | hann⟩ := hA.tracked.members he hb
  · exact ⟨e', b, he', hmirrors he' (hagree.body.trans hbody) (hgrows.scopes.bindingAt? hb'),
      Or.inl rfl⟩
  · obtain ⟨head, written, ⟨k, hk, hscope, init, hmem⟩, hname, hwritten, hkind, hread⟩ := hann
    obtain ⟨t, ht, hsame⟩ := hread.sameType hwritten (hF.declared k hk hscope hmem) hΩ.grows
      hΩ.valid hgrows
    have hfind : b.name = name := by simpa using List.find?_some hb
    rw [← hfind, ← hname]
    exact ⟨e', _, he', hmirrors he' (hagree.body.trans hbody) ht, Or.inr ⟨hkind, rfl, hsame⟩⟩

end Session

/-! ### The start of the analysis -/

lemma Bindings.mem_foldl_insert {bs : List Binding} {t : Bindings} {b : Binding}
    (h : b ∈ (bs.foldl insert t).entries) : b ∈ t.entries ∨ b ∈ bs := by
  induction bs generalizing t with
  | nil => exact Or.inl h
  | cons b' bs ih =>
    rcases ih h with h | h
    · rcases List.mem_cons.mp h with rfl | h
      · exact Or.inr List.mem_cons_self
      · exact Or.inl (List.mem_filter.mp h).1
    · exact Or.inr (List.mem_cons_of_mem _ h)

lemma Binding.valid_builtinFunctions (t : TypeTable) : ∀ b ∈ builtinFunctions, b.Valid t := by
  have hfunction : ∀ {name sig}, (∀ p ∈ sig.result :: sig.params, t.Registered p) →
      (ofBuiltinFunction name sig).Valid t := by
    intro name sig h
    rw [List.forall_mem_cons] at h
    exact valid_of_function rfl rfl h.1 h.2
  have hany : t.Registered .any := ⟨.any, rfl⟩
  have hnumber : t.Registered .number := ⟨.number, rfl⟩
  simp only [builtinFunctions, List.forall_mem_cons]
  refine ⟨hfunction ?_, hfunction ?_, hfunction ?_, hfunction ?_, hfunction ?_,
    List.forall_mem_nil _⟩ <;>
    simp [hany, hnumber]

lemma Bindings.valid_builtins (t : TypeTable) {b : Binding} (h : b ∈ builtins.entries) :
    b.Valid t := by
  rcases mem_foldl_insert h with h | h
  · cases h
  rcases List.mem_append.mp h with h | h
  · obtain ⟨⟨name, id⟩, hmem, rfl⟩ := List.mem_map.mp h
    have hid : t.Nominal id := by
      simp only [TypeId.basic, List.mem_cons, Prod.mk.injEq, List.not_mem_nil, or_false] at hmem
      rcases hmem with ⟨-, rfl⟩ | ⟨-, rfl⟩ | ⟨-, rfl⟩ | ⟨-, rfl⟩ | ⟨-, rfl⟩ <;>
        exact ⟨_, rfl, rfl⟩
    exact Binding.valid_of_denotesType rfl hid
  · exact Binding.valid_builtinFunctions t b h

lemma Session.consistent_start (log : List LogEvent) : ({ log } : Session).Consistent [] where
  valid := {
    types := TypeTable.WellFormed.empty
    bindings {id name b} hb := by
      obtain ⟨s, hs, hb⟩ := Scopes.bindingAt?_eq_some.mp hb
      obtain rfl : s = { bindings := .builtins } :=
        List.mem_singleton.mp (List.mem_of_getElem? hs)
      exact Bindings.valid_builtins _ (List.mem_of_find?_eq_some hb)
    classes he := nomatch he }
  tracked := ⟨fun he => (nomatch he), fun he => (nomatch he), nofun⟩

/-- The whole run: the declarations are made known, the fields declared, the statements looked
at. -/
lemma Check.settled_program {p q : Program} {σ Ω : Session} (hσ : σ.Consistent [])
    (h : Gives (Check.program p) σ q Ω) : ∀ n ∈ q.nodes, n.Checks Ω.analysis := by
  unfold Check.program at h
  simp only [gives_bind, gives_pure] at h
  obtain ⟨ss1, A, h1, ss2, F, h2, ss3, σ3, h3, _, Ω, h4, rfl, rfl⟩ := h
  obtain ⟨hA, hopened⟩ := Check.consistent_announce hσ h1
  have hF := Check.declaresFields (.refl hA.valid) h2
  have s3 := Check.annotates_stmts (fun s _ => s.sound A) hF.reaches (hF.prepared hopened) h3
  have r4 := (Check.quiet_of_note h4).reaches s3.reaches.valid
  exact s3.settled Ω (hA.final hF (s3.reaches.trans r4)) r4.grows

/-- **Soundness of annotations**: when the analysis of a program succeeds, it gives back the same
program with annotations, and every node of it passes the check of its own against what the analysis
has found out. -/
theorem checks_of_analyze (p q : Program) (a : Analysis) (h : analyze p = .ok (q, a)) :
    q.erase = p.erase ∧ ∀ n ∈ q.nodes, n.Checks a := by
  unfold analyze analyzeLogged at h
  dsimp only at h
  rcases hrun : (Check.program p).on { log := [.analyzing p.stmts.length] } with ⟨_ | q', Ω⟩
  · rw [hrun] at h
    cases h
  · rw [hrun] at h
    cases h
    exact ⟨Check.erase_program hrun, Check.settled_program (Session.consistent_start _) hrun⟩

/-- A class with an announced field of its own type, a field without a written type, a constructor
and a method, and statements that use all of them. -/
def boxes : Program where
  stmts :=
    [.cls { name := "Box" }
      [.var { name := "inside", annotation := some (.array (.named "Box" {})) } none,
        .var { name := "size" } (some (.number {} 1)),
        .ctor
          { name := "Box", params := [{ name := "n", annotation := some (.named "Number" {}) }] }
          [.assign {} (.member {} (.self {}) "size") (.name {} "n")],
        .func { name := "weight", result := some (.named "Number" {}) }
          [.ret {} (some (.binary {} .add (.member {} (.self {}) "size")
            (.call {} (.member {} (.subscript {} (.member {} (.self {}) "inside") (.number {} 0))
              "weight") [] none)))]],
      .var { name := "box" } (some (.call {} (.name {} "Box") [.number {} 2] none)),
      .expr (.call {} (.name {} "print")
        [.ternary {} (.binary {} .greater (.member {} (.name {} "box") "size") (.number {} 1))
          (.call {} (.member {} (.name {} "box") "weight") [] none) (.null {})] none)]

/-- The analysis accepts `boxes`, and all of its 36 nodes pass. -/
theorem checks_boxes : ∃ q a, analyze boxes = .ok (q, a) ∧ q.nodes.length = 36 ∧
    q.erase = boxes.erase ∧ ∀ n ∈ q.nodes, n.Checks a := by
  have haccepted : (analyze boxes).toOption.map (·.1.nodes.length) = some 36 := by decide +kernel
  obtain ⟨r, h, hlength⟩ := Except.exists_ok_of_map haccepted
  exact ⟨r.1, r.2, h, hlength, checks_of_analyze boxes r.1 r.2 h⟩

end MiddleEnd
