import MiddleEnd.Proofs.Scopes.Denotes

/-!
Sessions grow. A session is valid if all that it has collected refers to types that it has, and
once the declarations have been made known, a session only grows: it gets types, scopes and names,
and the members that a class gets are names declared in its body.
-/

namespace MiddleEnd

/-! ### Types that are referred to -/

/-- A name stands for something that the table knows. -/
structure Binding.Valid (t : TypeTable) (b : Binding) : Prop where
  type : t.Registered b.type
  signature : ∀ {sig}, b.kind = .function sig →
    t.Registered sig.result ∧ ∀ p ∈ sig.params, t.Registered p
  nominal : b.denotesType = true → t.Nominal b.type

lemma Binding.Valid.mono {t u : TypeTable} {b : Binding} (h : b.Valid t)
    (hforms : t.forms <+: u.forms) : b.Valid u where
  type := h.type.mono hforms
  signature hk :=
    ⟨(h.signature hk).1.mono hforms, fun p hp => ((h.signature hk).2 p hp).mono hforms⟩
  nominal hd := (h.nominal hd).mono hforms

lemma Binding.valid_of_isValue {t : TypeTable} {b : Binding} (h : t.Registered b.type)
    (hv : b.isValue = true) : b.Valid t where
  type := h
  signature hk := by simp [isValue, hk] at hv
  nominal hd := by
    unfold isValue at hv
    unfold denotesType at hd
    cases hk : b.kind <;> simp [hk] at hv hd

lemma Binding.valid_of_function {t : TypeTable} {b : Binding} {sig : Signature}
    (hk : b.kind = .function sig) (hb : b.type = sig.result) (hresult : t.Registered sig.result)
    (hparams : ∀ p ∈ sig.params, t.Registered p) : b.Valid t where
  type := hb ▸ hresult
  signature hk' := by
    cases hk.symm.trans hk'
    exact ⟨hresult, hparams⟩
  nominal hd := by simp [denotesType, hk] at hd

lemma Binding.valid_of_denotesType {t : TypeTable} {b : Binding} (hd : b.denotesType = true)
    (hb : t.Nominal b.type) : b.Valid t where
  type := hb.imp fun _ => And.left
  signature hk := by simp [denotesType, hk] at hd
  nominal _ := hb

namespace TypeTable

lemma class?_updateClass (t : TypeTable) (c d : ClassId) (f : ClassEntry → ClassEntry) :
    (t.updateClass c f).class? d = if d = c then (t.class? d).map f else t.class? d := by
  show (t.classes.modify c.index f)[d.index]? = _
  rw [List.getElem?_modify]
  obtain ⟨c⟩ := c
  obtain ⟨d⟩ := d
  simp only [ClassId.mk.injEq, class?]
  by_cases hcd : c = d
  · subst hcd
    simp
  · simp [hcd, Ne.symm hcd]

/-- What is known of a class may change, but not its name and its type. -/
lemma WellFormed.updateClass {t : TypeTable} (ht : t.WellFormed) (c : ClassId)
    {f : ClassEntry → ClassEntry} (hf : ∀ e, (f e).type = e.type ∧ (f e).name = e.name) :
    (t.updateClass c f).WellFormed where
  constructed := ht.constructed
  parts := ht.parts
  object i d name h := by
    obtain ⟨e, he, htype, hname⟩ := ht.object i d name h
    rw [class?_updateClass]
    split
    · rw [he]
      exact ⟨f e, rfl, (hf e).1.trans htype, (hf e).2.trans hname⟩
    · exact ⟨e, he, htype, hname⟩

lemma Adds.class? {t u : TypeTable} (h : t.Adds u) (c : ClassId) : u.class? c = t.class? c := by
  rw [TypeTable.class?, h.classes, TypeTable.class?]

end TypeTable

/-! ### Valid sessions -/

/-- What is known of a class refers to what the session has. -/
structure ClassEntry.Valid (σ : Session) (c : ClassId) (e : ClassEntry) : Prop where
  type : σ.types.form? e.type = some (.object c e.name)
  constructors : ∀ k ∈ e.constructors, ∀ p ∈ k.params, σ.types.Registered p
  members : ∀ {name b}, e.members.find? name = some b → b.Valid σ.types ∧ b.kind ≠ .parameter
  body : ∀ {id}, e.body = some id → ∃ s, σ.scopes.scope? id = some s ∧ s.cls = some c
  bodyNames : ∀ {id name b}, e.body = some id → σ.scopes.bindingAt? name id = some b →
    b.kind ≠ .parameter

/-- Everything in the session refers to what the session has. -/
structure Session.Valid (σ : Session) : Prop where
  types : σ.types.WellFormed
  bindings : ∀ {id name b}, σ.scopes.bindingAt? name id = some b → b.Valid σ.types
  classes : ∀ {c e}, σ.types.class? c = some e → e.Valid σ c

lemma Session.Valid.nominal {σ : Session} (hσ : σ.Valid) {id : ScopeId} {name : String}
    {b : Binding} (hb : σ.scopes.bindingAt? name id = some b) (hd : b.denotesType = true) :
    σ.types.Nominal b.type :=
  (hσ.bindings hb).nominal hd

/-- All that is known of a class apart from its members. -/
structure ClassEntry.Agrees (e e' : ClassEntry) : Prop where
  name : e'.name = e.name
  type : e'.type = e.type
  constructors : e'.constructors = e.constructors
  body : e'.body = e.body

lemma ClassEntry.Agrees.refl (e : ClassEntry) : e.Agrees e := ⟨rfl, rfl, rfl, rfl⟩

lemma ClassEntry.Agrees.trans {e e' e'' : ClassEntry} (h : e.Agrees e') (h' : e'.Agrees e'') :
    e.Agrees e'' :=
  ⟨h'.name.trans h.name, h'.type.trans h.type, h'.constructors.trans h.constructors,
    h'.body.trans h.body⟩

def Session.NotBody (σ : Session) (scope : ScopeId) : Prop :=
  ∀ {c e}, σ.types.class? c = some e → e.body ≠ some scope

/-- The session has got more types, scopes and names, but no more classes. A member of a class is
one that it had, or a name declared in its body; a name declared in its body is a member of the
class, unless it was already declared and not a member. -/
structure Session.Extends (σ τ : Session) : Prop where
  forms : σ.types.forms <+: τ.types.forms
  scopes : σ.scopes.Extends τ.scopes
  cls : ∀ {c e}, σ.types.class? c = some e → ∃ e', τ.types.class? c = some e' ∧ e.Agrees e'
  known : ∀ {c e'}, τ.types.class? c = some e' → ∃ e, σ.types.class? c = some e
  members : ∀ {c e e' name b}, σ.types.class? c = some e → τ.types.class? c = some e' →
    e'.members.find? name = some b → e.members.find? name = some b ∨
      ∃ id, e.body = some id ∧ τ.scopes.bindingAt? name id = some b
  mirror : ∀ {c e e' id name b}, σ.types.class? c = some e → τ.types.class? c = some e' →
    e.body = some id → τ.scopes.bindingAt? name id = some b →
    e'.members.find? name = some b ∨
      (σ.scopes.bindingAt? name id = some b ∧ e.members.find? name ≠ some b)

/-- The session has grown, and no name of a type is new in a scope that was there. -/
structure Session.Grows (σ τ : Session) : Prop extends σ.Extends τ where
  typeNames : σ.scopes.SameTypeNames σ.scopes.size τ.scopes

namespace Session

variable {σ τ υ : Session}

lemma Extends.trans (h : σ.Extends τ) (h' : τ.Extends υ) : σ.Extends υ where
  forms := h.forms.trans h'.forms
  scopes := h.scopes.trans h'.scopes
  cls he := by
    obtain ⟨e', he', hagree⟩ := h.cls he
    obtain ⟨e'', he'', hagree'⟩ := h'.cls he'
    exact ⟨e'', he'', hagree.trans hagree'⟩
  known he := by
    obtain ⟨e', he'⟩ := h'.known he
    exact h.known he'
  members he he'' hb := by
    obtain ⟨e', he', hagree⟩ := h.cls he
    rcases h'.members he' he'' hb with hb | ⟨id, hid, hb⟩
    · rcases h.members he he' hb with hb | ⟨id, hid, hb⟩
      · exact Or.inl hb
      · exact Or.inr ⟨id, hid, h'.scopes.bindingAt? hb⟩
    · exact Or.inr ⟨id, hagree.body ▸ hid, hb⟩
  mirror he he'' hid hb := by
    obtain ⟨e', he', hagree⟩ := h.cls he
    rcases h'.mirror he' he'' (hagree.body.trans hid) hb with hm | ⟨hb', hm⟩
    · exact Or.inl hm
    · rcases h.mirror he he' hid hb' with hm' | hm'
      · exact absurd hm' hm
      · exact Or.inr hm'

lemma Extends.exists_class (h : σ.Extends τ) {c : ClassId} {e' : ClassEntry}
    (he' : τ.types.class? c = some e') : ∃ e, σ.types.class? c = some e ∧ e.Agrees e' := by
  obtain ⟨e, he⟩ := h.known he'
  obtain ⟨e'', he'', hagree⟩ := h.cls he
  rw [he'] at he''
  cases he''
  exact ⟨e, he, hagree⟩

lemma Extends.notBody (h : σ.Extends τ) {scope : ScopeId} (hs : σ.NotBody scope) :
    τ.NotBody scope := by
  intro c e' he'
  obtain ⟨e, he, hagree⟩ := h.exists_class he'
  rw [hagree.body]
  exact hs he

/-- A session that has grown is valid if its new names are; parameters are not declared in the
bodies of classes. -/
lemma Extends.valid (h : σ.Extends τ) (hσ : σ.Valid) (hwf : τ.types.WellFormed)
    (hnew : ∀ {id name b}, τ.scopes.bindingAt? name id = some b →
      σ.scopes.bindingAt? name id = some b ∨
        (b.Valid τ.types ∧ (b.kind = .parameter → σ.NotBody id))) : τ.Valid := by
  have hbindings : ∀ {id name b}, τ.scopes.bindingAt? name id = some b → b.Valid τ.types := by
    intro id name b hb
    rcases hnew hb with hb | ⟨hb, -⟩
    · exact (hσ.bindings hb).mono h.forms
    · exact hb
  refine ⟨hwf, hbindings, fun {c e'} he' => ?_⟩
  obtain ⟨e, he, hagree⟩ := h.exists_class he'
  have hvalid := hσ.classes he
  -- a parameter is never a name in the body of a class
  have hnames : ∀ {id name b}, e'.body = some id → τ.scopes.bindingAt? name id = some b →
      b.kind ≠ .parameter := by
    intro id name b hid hb hk
    rw [hagree.body] at hid
    rcases hnew hb with hb | ⟨-, hp⟩
    · exact hvalid.bodyNames hid hb hk
    · exact hp hk he hid
  refine ⟨?_, ?_, ?_, ?_, hnames⟩
  · rw [hagree.type, hagree.name]
    exact TypeTable.form?_mono h.forms hvalid.type
  · intro k hk p hp
    rw [hagree.constructors] at hk
    exact (hvalid.constructors k hk p hp).mono h.forms
  · -- a member was there, or it is declared in the body
    intro name b hb
    rcases h.members he he' hb with hb | ⟨id, hid, hb⟩
    · exact (hvalid.members hb).imp_left (·.mono h.forms)
    · exact ⟨hbindings hb, hnames (hagree.body.trans hid) hb⟩
  · intro id hid
    obtain ⟨s, hs, hc⟩ := hvalid.body (hagree.body ▸ hid)
    obtain ⟨s', hs', hext⟩ := h.scopes.scope? hs
    exact ⟨s', hs', hext.cls.trans hc⟩

lemma Grows.trans (h : σ.Grows τ) (h' : τ.Grows υ) : σ.Grows υ where
  toExtends := h.toExtends.trans h'.toExtends
  typeNames := h.typeNames.trans (h'.typeNames.mono h.scopes.size_le)

lemma Grows.registered (h : σ.Grows τ) {id : TypeId} (hid : σ.types.Registered id) :
    τ.types.Registered id :=
  hid.mono h.forms

/-! ### Steps that declare nothing -/

/-- Steps that add collections and scopes, and declare no names. -/
structure Quiet (σ τ : Session) : Prop where
  types : σ.types.Adds τ.types
  wellFormed : σ.types.WellFormed → τ.types.WellFormed
  scopes : σ.scopes.Extends τ.scopes
  bindings : ∀ name id, τ.scopes.bindingAt? name id = σ.scopes.bindingAt? name id

lemma Quiet.of_eq (htypes : τ.types = σ.types) (hscopes : τ.scopes = σ.scopes) : σ.Quiet τ where
  types := htypes ▸ .refl _
  wellFormed h := htypes ▸ h
  scopes := hscopes ▸ .refl _
  bindings _ _ := by rw [hscopes]

lemma Quiet.grows (h : σ.Quiet τ) : σ.Grows τ where
  forms := h.types.forms
  scopes := h.scopes
  typeNames := ⟨fun _ hb _ => by rw [← h.bindings]; exact hb⟩
  cls he := ⟨_, (h.types.class? _).trans he, .refl _⟩
  known he := ⟨_, (h.types.class? _).symm.trans he⟩
  members he he' hb := by
    rw [h.types.class?, he] at he'
    cases he'
    exact Or.inl hb
  mirror {c e e' id name b} he he' hid hb := by
    rw [h.types.class?, he] at he'
    cases he'
    rw [h.bindings] at hb
    by_cases hm : e.members.find? name = some b
    · exact Or.inl hm
    · exact Or.inr ⟨hb, hm⟩

lemma Grows.refl (σ : Session) : σ.Grows σ := (Quiet.of_eq rfl rfl).grows

lemma Quiet.valid (h : σ.Quiet τ) (hσ : σ.Valid) : τ.Valid :=
  h.grows.valid hσ (h.wellFormed hσ.types) fun hb => Or.inl (by rw [← h.bindings]; exact hb)

end Session
end MiddleEnd
