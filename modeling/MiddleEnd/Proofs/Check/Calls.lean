import MiddleEnd.Proofs.Check.Settled

/-!
Members and calls. What has been found for them on the way still fits at the end of the analysis,
although the fields of classes are declared again in between.
-/

namespace MiddleEnd

lemma Scopes.name_of_bindingAt? {t : Scopes} {id : ScopeId} {name : String} {b : Binding}
    (h : t.bindingAt? name id = some b) : b.name = name := by
  obtain ⟨sc, -, hb⟩ := Scopes.bindingAt?_eq_some.mp h
  simpa using List.find?_some hb

/-- What may be called denotes no basic type, and if it is a value nothing is known of it. -/
lemma Binding.type_of_isCallable {b : Binding} (h : b.isCallable = true) :
    b.kind ≠ .type ∧ (if b.isValue then b.type else .any) = .any := by
  unfold isCallable at h
  unfold isValue
  cases hk : b.kind <;> simp_all [TypeId.isAny_iff]

/-- Instances, unknown values, and all others. -/
lemma TypeForm.cases_member (f : TypeForm) :
    (∃ c cls, f = .object c cls) ∨ f = .any ∨ (∀ c cls, f ≠ .object c cls) ∧ f ≠ .any := by
  cases f <;> simp

namespace TypeTable

variable {t u : TypeTable} {id : TypeId} {name : String}

lemma sameType_refl (t : TypeTable) (id : TypeId) : t.sameType id id = true := by simp [sameType]

lemma classEntry_eq_ok {c : ClassId} {e : ClassEntry} :
    t.classEntry c = .ok e ↔ t.class? c = some e := by
  unfold classEntry
  cases t.class? c <;> simp

lemma registered_any : t.Registered .any := ⟨.any, rfl⟩

lemma builtinMember?_mono (h : t.forms <+: u.forms) (hid : t.Registered id) :
    u.builtinMember? id name = t.builtinMember? id name := by
  obtain ⟨f, hf⟩ := hid
  rw [builtinMember?, builtinMember?, hf, form?_mono h hf]

lemma registered_builtinMember? : t.Registered ((t.builtinMember? id name).getD .any) := by
  unfold builtinMember?
  split
  case h_4 => exact registered_any
  all_goals
    split
    · exact ⟨.number, rfl⟩
    · exact registered_any

end TypeTable

variable {A σ τ : Session} {name : String} {object : TypeId} {v : Unit}

/-! ### Members -/

/-- A member that a class has on the way gives its type to the accesses to it. -/
lemma Session.Final.memberChecks {Ω : Session} (hΩ : A.Final Ω) (hτ : A.Reaches τ)
    (hgrows : τ.Grows Ω) {c : ClassId} {cls : String} {e : ClassEntry} {b : Binding}
    (ho : τ.types.form? object = some (.object c cls)) (he : τ.types.class? c = some e)
    (hb : e.members.find? name = some b) :
    Ω.analysis.MemberChecks object name (if b.isValue then b.type else .any) := by
  obtain ⟨e', b', he', hb', hsame⟩ := hΩ.member hτ.grows hgrows he hb
  have hparam := ((hτ.valid.classes he).members hb).2
  have hvalue : b.isValue = true ↔ b.kind = .variable := by
    unfold Binding.isValue
    cases hk : b.kind <;> simp_all
  have hform : Ω.analysis.types.form? object = some (.object c cls) :=
    TypeTable.form?_mono hgrows.forms ho
  simp only [Analysis.MemberChecks, hform, hvalue]
  refine ⟨e', b', he', hb', ?_⟩
  rcases hsame with rfl | ⟨hk, hk', htype⟩
  · split
    · exact TypeTable.sameType_refl _ _
    · rfl
  · rw [if_pos hk', if_pos hk]
    exact htype

/-- Members of values that are no instances are built in. -/
lemma Analysis.memberChecks_builtin {a : Analysis} {f : TypeForm} {t : TypeId}
    (hf : a.types.form? object = some f) (hobject : ∀ c cls, f ≠ .object c cls) (hany : f ≠ .any)
    (h : a.types.builtinMember? object name = some t) : a.MemberChecks object name t := by
  unfold MemberChecks
  rw [hf]
  split
  · rename_i c cls heq
    exact absurd (Option.some.inj heq) (hobject c cls)
  · rename_i heq
    exact absurd (Option.some.inj heq) hany
  · exact h

namespace Rule

lemma isSome_of_member {t : TypeTable} {f : TypeForm} {span : Span}
    (hf : t.form? object = some f) (hobject : ∀ c cls, f ≠ .object c cls) (hany : f ≠ .any)
    (h : Rule.member t object name span = .ok v) :
    (t.builtinMember? object name).isSome = true := by
  unfold Rule.member at h
  rw [hf] at h
  split at h
  · rename_i heq
    exact absurd (Option.some.inj heq) hany
  · rename_i c cls heq
    exact absurd (Option.some.inj heq) (hobject c cls)
  · exact ensure_eq_ok.mp h

lemma exists_of_member {t : TypeTable} {c : ClassId} {cls : String} {span : Span}
    (hf : t.form? object = some (.object c cls)) (h : Rule.member t object name span = .ok v) :
    ∃ e b, t.class? c = some e ∧ e.members.find? name = some b := by
  unfold Rule.member at h
  rw [hf] at h
  have hany := ensure_eq_ok.mp h
  cases he : t.class? c with
  | none => simp [he] at hany
  | some e =>
    rw [he, Option.any_some] at hany
    obtain ⟨b, hb⟩ := Option.isSome_iff_exists.mp hany
    exact ⟨e, b, rfl, hb⟩

end Rule

namespace TypeTable

lemma checks_memberType (hτ : A.Reaches τ) (ho : τ.types.Registered object) {span : Span}
    (h : Rule.member τ.types object name span = .ok v) :
    τ.types.Registered (τ.types.memberType object name) ∧ ∀ Ω, A.Final Ω → τ.Grows Ω →
      Ω.analysis.MemberChecks object name (τ.types.memberType object name) := by
  obtain ⟨f, hf⟩ := ho
  have hform : ∀ {Ω : Session}, τ.Grows Ω → Ω.analysis.types.form? object = some f :=
    fun hgrows => form?_mono hgrows.forms hf
  rcases f.cases_member with ⟨c, cls, rfl⟩ | rfl | ⟨hobject, hany⟩
  · -- a member of an instance: its type is that of the variable
    obtain ⟨e, b, he, hb⟩ := Rule.exists_of_member hf h
    have htype : τ.types.memberType object name = if b.isValue then b.type else .any := by
      simp only [memberType, hf, he, Option.bind_some, hb]
    rw [htype]
    refine ⟨?_, fun Ω hΩ hgrows => hΩ.memberChecks hτ hgrows hf he hb⟩
    split
    · exact ((hτ.valid.classes he).members hb).1.type
    · exact registered_any
  · -- nothing is known of the object
    have htype : τ.types.memberType object name = .any := by
      simp only [memberType, builtinMember?, hf, Option.getD_none]
    rw [htype]
    refine ⟨registered_any, fun Ω _ hgrows => ?_⟩
    simp only [Analysis.MemberChecks, hform hgrows]
  · -- the member is built in, and stays so as types are added
    obtain ⟨t, ht⟩ := Option.isSome_iff_exists.mp (Rule.isSome_of_member hf hobject hany h)
    have htype : τ.types.memberType object name =
        (τ.types.builtinMember? object name).getD .any := by
      unfold memberType
      rw [hf]
      split
      · rename_i c cls heq
        exact absurd (Option.some.inj heq) (hobject c cls)
      · rfl
    rw [htype]
    refine ⟨registered_builtinMember?, fun Ω _ hgrows => ?_⟩
    refine Analysis.memberChecks_builtin (hform hgrows) hobject hany ?_
    rw [ht, Option.getD_some, ← ht]
    exact builtinMember?_mono hgrows.forms ⟨f, hf⟩

end TypeTable

/-! ### Calls -/

namespace Call

variable {args : List Expr} {span : Span} {target : CallTarget} {t : TypeId}

/-- Arguments that are accepted on the way are accepted at the end. -/
lemma takes_of_arguments (hτ : τ.Valid) {b : Binding} {sig : Signature}
    (hkind : b.kind = .function sig) (hb : b.Valid τ.types)
    (hargs : ∀ a ∈ args, τ.types.Registered a.type)
    (h : Rule.arguments τ.types args sig.params span = .ok v) {Ω : Session} (hΩ : Ω.Valid)
    (hgrows : τ.Grows Ω) : Ω.analysis.Takes b args sig.result :=
  ⟨sig.params, hkind, (Rule.accepts_of_arguments h).mono hτ.types hΩ.types hgrows.forms
    (hb.signature hkind).2 hargs⟩

lemma checks_instantiate (hτ : τ.Valid) {c : ClassId}
    (hargs : ∀ a ∈ args, τ.types.Registered a.type)
    (h : Call.instantiate τ.types c args span = .ok (target, t)) :
    τ.types.Registered t ∧ ∀ Ω, A.Final Ω → τ.Grows Ω →
      ∀ callee, Ω.analysis.CallChecks callee args t target := by
  unfold Call.instantiate at h
  obtain ⟨e, he, h⟩ := Except.bind_eq_ok.mp h
  obtain ⟨_, hover, h⟩ := Except.bind_eq_ok.mp h
  rw [TypeTable.classEntry_eq_ok] at he
  cases h
  obtain ⟨params, hmem, haccepts⟩ := Rule.accepts_of_overload hover
  refine ⟨hτ.registered_type he, fun Ω hΩ hgrows callee => ?_⟩
  obtain ⟨e', he', hagree⟩ := hgrows.cls he
  refine ⟨e', he', hagree.type.symm, params, ?_, ?_⟩
  · rw [ClassEntry.overloads, hagree.constructors]
    exact hmem
  · exact haccepts.mono hτ.types hΩ.valid.types hgrows.forms (hτ.registered_overload he hmem) hargs

lemma checks_named (hτ : τ.Valid) {b : Binding} {id : ScopeId}
    (hb : τ.scopes.bindingAt? name id = some b) (hargs : ∀ a ∈ args, τ.types.Registered a.type)
    (h : Call.named τ.types b args span = .ok (target, t)) :
    τ.types.Registered t ∧ ∀ Ω, A.Final Ω → τ.Grows Ω →
      ∀ m, Ω.analysis.CallChecks (.name m name) args t target := by
  have hvalid := hτ.bindings hb
  have hname := Scopes.name_of_bindingAt? hb
  unfold Call.named at h
  split at h
  · rename_i sig hkind
    obtain ⟨_, hrule, h⟩ := Except.bind_eq_ok.mp h
    cases h
    refine ⟨(hvalid.signature hkind).1, fun Ω hΩ hgrows m => ?_⟩
    have htakes := takes_of_arguments hτ hkind hvalid hargs hrule hΩ.valid hgrows
    have hbinds : Ω.analysis.Binds name b := ⟨id, hgrows.scopes.bindingAt? hb⟩
    cases hbuiltin : b.builtin with
    | true => exact ⟨m, b, by rw [hname], hname ▸ hbinds, hbuiltin, htakes⟩
    | false => exact ⟨m, b, by rw [hname], hname ▸ hbinds, hbuiltin, htakes⟩
  · obtain ⟨hreg, hchecks⟩ := checks_instantiate hτ hargs h
    exact ⟨hreg, fun Ω hΩ hgrows m => hchecks Ω hΩ hgrows _⟩
  · cases h
    exact ⟨TypeTable.registered_any, fun _ _ _ _ => rfl⟩

/-- The member that is called has the unknown type, which is also its own if it is a variable. -/
lemma checks_method (hτ : A.Reaches τ) {o : Expr} {c : ClassId} {cls : String}
    (ho : τ.types.form? o.type = some (.object c cls))
    (hargs : ∀ a ∈ args, τ.types.Registered a.type)
    (h : Call.method τ.types c name args span = .ok (target, t)) :
    τ.types.Registered t ∧ ∀ Ω, A.Final Ω → τ.Grows Ω →
      Ω.analysis.MemberChecks o.type name .any ∧
        ∀ m, Ω.analysis.CallChecks (.member m o name) args t target := by
  unfold Call.method at h
  obtain ⟨e, he, h⟩ := Except.bind_eq_ok.mp h
  rw [TypeTable.classEntry_eq_ok] at he
  split at h
  · cases h
  · rename_i b hb
    obtain ⟨_, hcallable, h⟩ := Except.bind_eq_ok.mp h
    have hany := (Binding.type_of_isCallable (ensure_eq_ok.mp hcallable)).2
    have hmember : ∀ Ω, A.Final Ω → τ.Grows Ω → Ω.analysis.MemberChecks o.type name .any := by
      intro Ω hΩ hgrows
      rw [← hany]
      exact hΩ.memberChecks hτ hgrows ho he hb
    split at h
    · -- a function, which the class still has at the end
      rename_i sig hkind
      obtain ⟨_, hrule, h⟩ := Except.bind_eq_ok.mp h
      cases h
      have hvalid := ((hτ.valid.classes he).members hb).1
      refine ⟨(hvalid.signature hkind).1, fun Ω hΩ hgrows => ⟨hmember Ω hΩ hgrows, fun m => ?_⟩⟩
      obtain ⟨e', b', he', hb', hsame⟩ := hΩ.member hτ.grows hgrows he hb
      have hform : Ω.types.form? o.type = _ := TypeTable.form?_mono hgrows.forms ho
      have hcls : Ω.analysis.types.classOf? o.type = some c := by
        simp only [TypeTable.classOf?, Session.analysis, hform]
      rcases hsame with rfl | ⟨hk, -⟩
      · exact ⟨m, o, e', b', rfl, hcls, he', hb',
          takes_of_arguments hτ.valid hkind hvalid hargs hrule hΩ.valid hgrows⟩
      · rw [hkind] at hk
        cases hk
    · -- a class
      obtain ⟨hreg, hchecks⟩ := checks_instantiate hτ.valid hargs h
      exact ⟨hreg, fun Ω hΩ hgrows => ⟨hmember Ω hΩ hgrows, fun m => hchecks Ω hΩ hgrows _⟩⟩
    · -- nothing is known of the member
      cases h
      exact ⟨TypeTable.registered_any, fun Ω hΩ hgrows => ⟨hmember Ω hΩ hgrows, fun _ => rfl⟩⟩

/-- The member is looked up before the arguments are looked at, and called after that. -/
lemma checks_member (hτ : A.Reaches τ) (hστ : σ.Grows τ) {o : Expr} {place : Span}
    (ho : σ.types.Registered o.type) (hrule : Rule.member σ.types o.type name place = .ok v)
    (hargs : ∀ a ∈ args, τ.types.Registered a.type)
    (h : Call.member τ.types o.type name args span = .ok (target, t)) :
    τ.types.Registered t ∧ ∀ Ω, A.Final Ω → τ.Grows Ω →
      Ω.analysis.MemberChecks o.type name .any ∧
        ∀ m, Ω.analysis.CallChecks (.member m o name) args t target := by
  have hbuiltin : τ.types.builtinMember? o.type name = _ :=
    TypeTable.builtinMember?_mono hστ.forms ho
  obtain ⟨f, hf⟩ := ho
  have hfτ := TypeTable.form?_mono hστ.forms hf
  unfold Call.member at h
  rcases f.cases_member with ⟨c, cls, rfl⟩ | rfl | ⟨hobject, hany⟩
  · rw [hfτ] at h
    exact checks_method hτ hfτ hargs h
  · rw [hfτ] at h
    cases h
    refine ⟨TypeTable.registered_any, fun Ω _ hgrows => ⟨?_, fun _ => rfl⟩⟩
    have hfΩ : Ω.analysis.types.form? o.type = some .any :=
      TypeTable.form?_mono hgrows.forms hfτ
    simp only [Analysis.MemberChecks, hfΩ]
  · -- what is built in can be called only if nothing is known of it
    obtain ⟨u, hu⟩ := Option.isSome_iff_exists.mp (Rule.isSome_of_member hf hobject hany hrule)
    rw [hu] at hbuiltin
    rw [hfτ] at h
    split at h
    · rename_i c cls heq
      exact absurd (Option.some.inj heq) (hobject c cls)
    · rename_i heq
      exact absurd (Option.some.inj heq) hany
    · obtain ⟨_, hcallable, h⟩ := Except.bind_eq_ok.mp h
      cases h
      rw [hbuiltin] at hcallable
      obtain rfl : u = .any := (Binding.type_of_isCallable (ensure_eq_ok.mp hcallable)).2
      refine ⟨TypeTable.registered_any, fun Ω _ hgrows => ⟨?_, fun _ => rfl⟩⟩
      refine Analysis.memberChecks_builtin (TypeTable.form?_mono hgrows.forms hfτ) hobject hany ?_
      exact (TypeTable.builtinMember?_mono hgrows.forms ⟨f, hfτ⟩).trans hbuiltin

end Call
end MiddleEnd
