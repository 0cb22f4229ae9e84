import MiddleEnd.Proofs.Scopes.Growth
import MiddleEnd.Proofs.Types.SameType

/-!
What a written type denotes at a place: its tree with the types of its names as leaves. Reading it
gives a type that unfolds to this tree, and reading it again at the same place gives a type of the
same tree.
-/

namespace MiddleEnd

/-- Only collections have been added to the types. -/
structure TypeTable.Adds (t u : TypeTable) : Prop where
  forms : t.forms <+: u.forms
  classes : u.classes = t.classes

lemma TypeTable.Adds.refl (t : TypeTable) : t.Adds t := ⟨List.prefix_refl _, rfl⟩

lemma TypeTable.Adds.trans {t u v : TypeTable} (h : t.Adds u) (h' : u.Adds v) : t.Adds v :=
  ⟨h.forms.trans h'.forms, h'.classes.trans h.classes⟩

lemma TypeTable.adds_add (t : TypeTable) (f : TypeForm) : t.Adds (t.add f) :=
  ⟨t.forms_prefix_add f, rfl⟩

/-- A type that is not built from others. -/
def TypeTable.Nominal (t : TypeTable) (id : TypeId) : Prop :=
  ∃ f, t.form? id = some f ∧ f.isNominal = true

lemma TypeTable.Nominal.mono {t u : TypeTable} {id : TypeId} (h : t.forms <+: u.forms) :
    t.Nominal id → u.Nominal id :=
  fun ⟨f, hf, hn⟩ => ⟨f, form?_mono h hf, hn⟩

namespace Scopes

variable {s t : Scopes} {id : ScopeId} {e : TypeExpr} {x y : TypeTree}

lemma exists_bindingAt? {name : String} {b : Binding} (h : s.lookup id name = some b) :
    ∃ i, s.bindingAt? name i = some b := by
  obtain ⟨i, -, hi⟩ := List.exists_of_findSome?_eq_some h
  exact ⟨i, hi⟩

/-- The tree that a written type denotes at a place. -/
inductive Denotes (s : Scopes) (id : ScopeId) : TypeExpr → TypeTree → Prop
  | named {name : String} {span : Span} {b : Binding} (h : s.lookup id name = some b)
      (hb : b.denotesType = true) : Denotes s id (.named name span) (.leaf b.type)
  | array {e : TypeExpr} {x : TypeTree} (h : Denotes s id e x) : Denotes s id (.array e) (.array x)
  | dictionary {k v : TypeExpr} {x y : TypeTree} (hk : Denotes s id k x) (hv : Denotes s id v y) :
      Denotes s id (.dictionary k v) (.dictionary x y)

lemma Denotes.unique (hx : s.Denotes id e x) (hy : s.Denotes id e y) : x = y := by
  induction hx generalizing y with
  | named h _ =>
    cases hy with
    | named h' _ =>
      rw [h] at h'
      cases h'
      rfl
  | array _ ih =>
    cases hy with
    | array h' => rw [ih h']
  | dictionary _ _ ihk ihv =>
    cases hy with
    | dictionary hk' hv' => rw [ihk hk', ihv hv']

/-- What a written type denotes now it has denoted before. -/
lemma Denotes.before (hext : s.Extends t) (hnames : s.SameTypeNames (id.index + 1) t)
    (hid : id.index < s.size) (h : t.Denotes id e x) : s.Denotes id e x := by
  induction h with
  | named h hb => exact .named (hext.lookup_type hnames hid h hb) hb
  | array _ ih => exact .array ih
  | dictionary _ _ ihk ihv => exact .dictionary ihk ihv

lemma namedType_eq_ok {name : String} {span : Span} {ty : TypeId}
    (h : s.namedType id name span = .ok ty) :
    ∃ b, s.lookup id name = some b ∧ b.denotesType = true ∧ b.type = ty := by
  unfold namedType at h
  obtain ⟨b, hb, h⟩ := Except.bind_eq_ok.mp h
  obtain ⟨_, hd, h⟩ := Except.bind_eq_ok.mp h
  cases h
  refine ⟨b, ?_, ensure_eq_ok.mp hd, rfl⟩
  unfold resolve at hb
  obtain ⟨_, -, hb⟩ := Except.bind_eq_ok.mp hb
  split at hb
  · cases hb
    assumption
  · cases hb

lemma gives_add {t u : TypeTable} {f : TypeForm} {ty : TypeId} :
    Gives (TypeStep.add f) t ty u ↔ t.next = ty ∧ t.add f = u := by
  show (Except.ok t.next, t.add f) = (Except.ok ty, u) ↔ _
  rw [Prod.mk.injEq, Except.ok.injEq]

/-- Reading a written type adds collections only, and gives a type that unfolds to what it
denotes. -/
lemma denotes_of_typeOf {t u : TypeTable} {ty : TypeId} (ht : t.WellFormed)
    (hs : ∀ {id name b}, s.bindingAt? name id = some b → b.denotesType = true → t.Nominal b.type)
    (h : Gives (s.typeOf id e) t ty u) :
    t.Adds u ∧ u.WellFormed ∧ ∃ x, s.Denotes id e x ∧ u.Unfolds ty x := by
  induction e generalizing t u ty with
  | named name span =>
    rw [typeOf, gives_mk] at h
    obtain ⟨h, rfl⟩ := h
    obtain ⟨b, hb, hd, rfl⟩ := namedType_eq_ok h
    obtain ⟨i, hi⟩ := exists_bindingAt? hb
    obtain ⟨f, hf, hn⟩ := hs hi hd
    exact ⟨.refl t, ht, _, .named hb hd, .leaf hf hn⟩
  | array e ih =>
    rw [typeOf, gives_bind] at h
    obtain ⟨te, t1, h1, h⟩ := h
    obtain ⟨rfl, rfl⟩ := gives_add.mp h
    obtain ⟨hadd, hwf, x, hx, hu⟩ := ih ht hs h1
    refine ⟨hadd.trans (t1.adds_add _), hwf.add rfl ?_, _, .array hx, ?_⟩
    · simpa [TypeForm.parts] using hu.registered
    · exact .array (t1.form?_add_next _) (hu.mono (t1.forms_prefix_add _))
  | dictionary k v ihk ihv =>
    rw [typeOf, gives_bind] at h
    obtain ⟨tk, t1, h1, h⟩ := h
    obtain ⟨tv, t2, h2, h⟩ := gives_bind.mp h
    obtain ⟨rfl, rfl⟩ := gives_add.mp h
    obtain ⟨hadd, hwf, x, hx, hux⟩ := ihk ht hs h1
    obtain ⟨hadd', hwf', y, hy, huy⟩ := ihv hwf (fun hb hd => (hs hb hd).mono hadd.forms) h2
    -- the key stays what it is while the value is read
    have hux' := hux.mono hadd'.forms
    refine ⟨(hadd.trans hadd').trans (t2.adds_add _), hwf'.add rfl ?_, _, .dictionary hx hy, ?_⟩
    · simpa [TypeForm.parts] using ⟨hux'.registered, huy.registered⟩
    · exact .dictionary (t2.form?_add_next _) (hux'.mono (t2.forms_prefix_add _))
        (huy.mono (t2.forms_prefix_add _))

end Scopes
end MiddleEnd
