import MiddleEnd.Proofs.Scopes.Denotes

/-!
Where types stand in others. A collection is built from types, and these from others in turn, so a
path leads from a type to each type in it. Reading a written type adds a collection for each array
and dictionary in it: all of them stand in the type that is read, and at one place only.
-/

namespace MiddleEnd

namespace TypeTable

variable {t u : TypeTable} {a b v : TypeId} {f : TypeForm} {x : TypeTree} {path : List ℕ}

/-- The type at the end of a path, which says in each type which of its parts comes next. -/
def at? (t : TypeTable) : TypeId → List ℕ → Option TypeId
  | id, [] => some id
  | id, i :: path => (t.form? id).bind fun f => (f.parts[i]?).bind fun p => t.at? p path

@[simp] lemma at?_nil (t : TypeTable) (a : TypeId) : t.at? a [] = some a := rfl

lemma at?_cons {i : ℕ} : t.at? a (i :: path) = some v ↔
    ∃ f p, t.form? a = some f ∧ f.parts[i]? = some p ∧ t.at? p path = some v := by
  simp [at?, Option.bind_eq_some_iff]

lemma at?_append (t : TypeTable) (a : TypeId) (p q : List ℕ) :
    t.at? a (p ++ q) = (t.at? a p).bind (t.at? · q) := by
  induction p generalizing a with
  | nil => rfl
  | cons i p ih =>
    simp only [List.cons_append, at?, ih]
    cases t.form? a with
    | none => rfl
    | some f =>
      rw [Option.bind_some, Option.bind_some]
      cases f.parts[i]? <;> rfl

lemma at?_concat {i : ℕ} (h : t.at? a path = some b) (hf : t.form? b = some f)
    (hv : f.parts[i]? = some v) : t.at? a (path ++ [i]) = some v := by
  rw [at?_append, h, Option.bind_some]
  exact at?_cons.mpr ⟨f, v, hf, hv, rfl⟩

/-- Paths stay when types are added. -/
lemma at?_mono (h : t.forms <+: u.forms) (ha : t.at? a path = some v) : u.at? a path = some v := by
  induction path generalizing a with
  | nil => exact ha
  | cons i path ih =>
    obtain ⟨f, p, hf, hp, hv⟩ := at?_cons.mp ha
    exact at?_cons.mpr ⟨f, p, form?_mono h hf, hp, ih hv⟩

lemma WellFormed.registered_of_at? (ht : t.WellFormed) (ha : t.Registered a)
    (h : t.at? a path = some v) : t.Registered v := by
  induction path generalizing a with
  | nil =>
    cases h
    exact ha
  | cons i path ih =>
    obtain ⟨f, p, hf, hp, hv⟩ := at?_cons.mp h
    exact ih (ht.part_lt hf (List.mem_of_getElem? hp)).1 hv

/-- What is added later stands in no type that was there before. -/
lemma WellFormed.at?_before (ht : t.WellFormed) (hforms : t.forms <+: u.forms)
    (ha : t.Registered a) (h : u.at? a path = some v) : t.at? a path = some v := by
  induction path generalizing a with
  | nil => exact h
  | cons i path ih =>
    obtain ⟨g, hg⟩ := ha
    obtain ⟨f, p, hf, hp, hv⟩ := at?_cons.mp h
    cases hf.symm.trans (form?_mono hforms hg)
    exact at?_cons.mpr ⟨g, p, hg, hp, ih (ht.part_lt hg (List.mem_of_getElem? hp)).1 hv⟩

/-- Nothing stands in a type that is not built from others. -/
lemma Nominal.at?_eq (ha : t.Nominal a) (h : t.at? a path = some v) : path = [] ∧ v = a := by
  obtain ⟨g, hg, hn⟩ := ha
  cases path with
  | nil => exact ⟨rfl, (Option.some.inj h).symm⟩
  | cons i path =>
    obtain ⟨f, p, hf, hp, -⟩ := at?_cons.mp h
    cases hg.symm.trans hf
    cases g with
    | array | dictionary => cases hn
    | _ => cases hp

lemma Nominal.unfolds (ha : t.Nominal a) : t.Unfolds a (.leaf a) := by
  obtain ⟨f, hf, hn⟩ := ha
  exact .leaf hf hn

/-- Two types of one tree have the same paths, and what stands at their ends has one tree. -/
lemma Unfolds.at? (hx : t.Unfolds a x) (hy : u.Unfolds b x) (h : t.at? a path = some v) :
    ∃ w y, u.at? b path = some w ∧ t.Unfolds v y ∧ u.Unfolds w y := by
  induction path generalizing a b x with
  | nil =>
    cases h
    exact ⟨b, x, rfl, hx, hy⟩
  | cons i path ih =>
    obtain ⟨f, p, hf, hp, hv⟩ := at?_cons.mp h
    cases hx with
    | leaf hg hn =>
      -- a leaf has no parts
      cases hf.symm.trans hg
      cases f with
      | array | dictionary => cases hn
      | _ => cases hp
    | array hg he =>
      cases hf.symm.trans hg
      cases hy with
      | array hg' he' =>
        rcases i with _ | i <;> cases hp
        obtain ⟨w, y, hw, hy⟩ := ih he he' hv
        exact ⟨w, y, at?_cons.mpr ⟨_, _, hg', rfl, hw⟩, hy⟩
    | dictionary hg hk hv' =>
      cases hf.symm.trans hg
      cases hy with
      | dictionary hg' hk' hv'' =>
        rcases i with _ | _ | i <;> cases hp
        · obtain ⟨w, y, hw, hy⟩ := ih hk hk' hv
          exact ⟨w, y, at?_cons.mpr ⟨_, _, hg', rfl, hw⟩, hy⟩
        · obtain ⟨w, y, hw, hy⟩ := ih hv' hv'' hv
          exact ⟨w, y, at?_cons.mpr ⟨_, _, hg', rfl, hw⟩, hy⟩

/-! ### Types that are read -/

lemma form?_add_eq_some (h : (t.add f).Registered v) : t.Registered v ∨ v = t.next := by
  obtain ⟨g, hg⟩ := h
  rcases form?_eq_some hg with hb | ⟨i, rfl, hi⟩
  · exact Or.inl ⟨g, form?_basic t hb⟩
  · rcases getElem?_forms_add hi with hi | ⟨rfl, -⟩
    · exact Or.inl ⟨g, (form?_constructed t i).trans hi⟩
    · exact Or.inr rfl

/-- All collections that are new stand in the type, each of them at one place. What stands in it is
new or not built from others. -/
structure Sprouts (t u : TypeTable) (a : TypeId) : Prop where
  young : ∀ {path v}, u.at? a path = some v → u.Nominal v ∨ t.form? v = none
  once : ∀ {p q v}, u.at? a p = some v → u.at? a q = some v → ¬u.Nominal v → p = q
  all : ∀ {v}, u.Registered v → t.form? v = none → ∃ path, u.at? a path = some v

lemma Nominal.sprouts (ha : t.Nominal a) : t.Sprouts t a where
  young h := by
    obtain ⟨-, rfl⟩ := ha.at?_eq h
    exact Or.inl ha
  once hp hq _ := (ha.at?_eq hp).1.trans (ha.at?_eq hq).1.symm
  all := by
    rintro v ⟨f, hf⟩ hnone
    cases hf.symm.trans hnone

lemma not_registered_next (t : TypeTable) : ¬t.Registered t.next := by
  rintro ⟨f, hf⟩
  cases hf.symm.trans t.form?_next

lemma form?_eq_none_of_forms (h : t.forms <+: u.forms) (hv : u.form? v = none) :
    t.form? v = none := by
  cases hf : t.form? v with
  | none => rfl
  | some f => cases (form?_mono h hf).symm.trans hv

section Collections

variable (hu : u.WellFormed)

include hu

/-- A path into a new collection leads to the collection or into one of its parts. -/
lemma WellFormed.at?_next (hparts : ∀ p ∈ f.parts, u.Registered p) :
    (u.add f).at? u.next path = some v ↔ path = [] ∧ v = u.next ∨
      ∃ i q p, path = i :: q ∧ f.parts[i]? = some p ∧ u.at? p q = some v := by
  rcases path with _ | ⟨i, q⟩
  · simp [eq_comm]
  · rw [at?_cons]
    constructor
    · rintro ⟨g, p, hg, hp, hv⟩
      cases hg.symm.trans (u.form?_add_next f)
      have hreg := hparts p (List.mem_of_getElem? hp)
      exact Or.inr ⟨i, q, p, rfl, hp, hu.at?_before (u.forms_prefix_add _) hreg hv⟩
    · rintro (⟨⟨⟩, -⟩ | ⟨_, _, p, ⟨⟩, hp, hv⟩)
      exact ⟨f, p, u.form?_add_next f, hp, at?_mono (u.forms_prefix_add _) hv⟩

/-- A collection is added over parts in which all other new ones stand at one place each. -/
lemma Sprouts.add (hforms : t.forms <+: u.forms) (hparts : ∀ p ∈ f.parts, u.Registered p)
    (hyoung : ∀ {i : ℕ} {p path v}, f.parts[i]? = some p → u.at? p path = some v →
      u.Nominal v ∨ t.form? v = none)
    (honce : ∀ {i j : ℕ} {p p' path path' v}, f.parts[i]? = some p → f.parts[j]? = some p' →
      u.at? p path = some v → u.at? p' path' = some v → ¬u.Nominal v → i = j ∧ path = path')
    (hall : ∀ {v}, u.Registered v → t.form? v = none →
      ∃ (i : ℕ) (p : TypeId) (path : List ℕ), f.parts[i]? = some p ∧ u.at? p path = some v) :
    t.Sprouts (u.add f) u.next where
  young hv := by
    rcases (hu.at?_next hparts).mp hv with ⟨-, rfl⟩ | ⟨i, q, p, -, hp, hv⟩
    · exact Or.inr (form?_eq_none_of_forms hforms u.form?_next)
    · exact (hyoung hp hv).imp_left (.mono (u.forms_prefix_add _))
  once {p q v} hp hq hv := by
    -- the new type is no part of itself
    have hnew {i : ℕ} {p : TypeId} {path : List ℕ} (hp : f.parts[i]? = some p)
        (hv : u.at? p path = some u.next) : False :=
      u.not_registered_next (hu.registered_of_at? (hparts p (List.mem_of_getElem? hp)) hv)
    rcases (hu.at?_next hparts).mp hp with ⟨rfl, rfl⟩ | ⟨i, path, a, rfl, ha, hpath⟩ <;>
      rcases (hu.at?_next hparts).mp hq with ⟨rfl, heq⟩ | ⟨j, path', b, rfl, hb, hpath'⟩
    · rfl
    · exact (hnew hb hpath').elim
    · exact (hnew ha (heq ▸ hpath)).elim
    · obtain ⟨rfl, rfl⟩ := honce ha hb hpath hpath' fun hn => hv (hn.mono (u.forms_prefix_add _))
      rfl
  all hv hnone := by
    rcases form?_add_eq_some hv with hv | rfl
    · obtain ⟨i, p, path, hp, hpath⟩ := hall hv hnone
      exact ⟨i :: path, (hu.at?_next hparts).mpr (Or.inr ⟨i, path, p, rfl, hp, hpath⟩)⟩
    · exact ⟨[], rfl⟩

lemma Sprouts.array {e : TypeId} (hforms : t.forms <+: u.forms) (he : u.Registered e)
    (h : t.Sprouts u e) : t.Sprouts (u.add (.array e)) u.next := by
  have hpart {i : ℕ} {p : TypeId} (hp : (TypeForm.array e).parts[i]? = some p) : i = 0 ∧ p = e := by
    rcases i with _ | i <;> cases hp
    exact ⟨rfl, rfl⟩
  refine .add hu hforms (List.forall_mem_singleton.mpr he) (fun hp hv => ?_)
    (fun hp hp' hv hv' hn => ?_) fun hv hnone => ?_
  · obtain ⟨-, rfl⟩ := hpart hp
    exact h.young hv
  · obtain ⟨rfl, rfl⟩ := hpart hp
    obtain ⟨rfl, rfl⟩ := hpart hp'
    exact ⟨rfl, h.once hv hv' hn⟩
  · obtain ⟨path, hpath⟩ := h.all hv hnone
    exact ⟨0, e, path, rfl, hpath⟩

lemma Sprouts.dictionary {w : TypeTable} {k v : TypeId} (hw : w.WellFormed)
    (hforms : t.forms <+: w.forms) (hforms' : w.forms <+: u.forms) (hk : w.Registered k)
    (hv : u.Registered v) (h : t.Sprouts w k) (h' : w.Sprouts u v) :
    t.Sprouts (u.add (.dictionary k v)) u.next := by
  have hpart {i : ℕ} {p : TypeId} (hp : (TypeForm.dictionary k v).parts[i]? = some p) :
      i = 0 ∧ p = k ∨ i = 1 ∧ p = v := by
    rcases i with _ | _ | i <;> cases hp
    · exact Or.inl ⟨rfl, rfl⟩
    · exact Or.inr ⟨rfl, rfl⟩
  have hbefore {path : List ℕ} {x : TypeId} (hx : u.at? k path = some x) : w.at? k path = some x :=
    hw.at?_before hforms' hk hx
  -- What stands in the key is there when the value is read.
  have happart {p q : List ℕ} {x : TypeId} (hp : u.at? k p = some x) (hq : u.at? v q = some x)
      (hx : ¬u.Nominal x) : False := by
    obtain ⟨f, hf⟩ := hw.registered_of_at? hk (hbefore hp)
    cases hf.symm.trans ((h'.young hq).resolve_left hx)
  refine .add hu (hforms.trans hforms') ?_ (fun hp hx => ?_)
    (fun {i j _ _ _ _ x} hp hp' hx hx' hn => ?_) fun {x} hx hnone => ?_
  · simpa [TypeForm.parts] using ⟨hk.mono hforms', hv⟩
  · rcases hpart hp with ⟨-, rfl⟩ | ⟨-, rfl⟩
    · exact (h.young (hbefore hx)).imp_left (.mono hforms')
    · exact (h'.young hx).imp_right (form?_eq_none_of_forms hforms)
  · rcases hpart hp with ⟨rfl, rfl⟩ | ⟨rfl, rfl⟩ <;> rcases hpart hp' with ⟨rfl, rfl⟩ | ⟨rfl, rfl⟩
    · exact ⟨rfl, h.once (hbefore hx) (hbefore hx') fun hw => hn (hw.mono hforms')⟩
    · exact (happart hx hx' hn).elim
    · exact (happart hx' hx hn).elim
    · exact ⟨rfl, h'.once hx hx' hn⟩
  · cases hf : w.form? x with
    | none =>
      obtain ⟨path, hpath⟩ := h'.all hx hf
      exact ⟨1, v, path, rfl, hpath⟩
    | some f =>
      obtain ⟨path, hpath⟩ := h.all ⟨f, hf⟩ hnone
      exact ⟨0, k, path, rfl, at?_mono hforms' hpath⟩

end Collections

end TypeTable

namespace Scopes

/-- All collections that are added when a written type is read stand in the type. -/
lemma sprouts_of_typeOf {s : Scopes} {id : ScopeId} {e : TypeExpr} {t u : TypeTable} {a : TypeId}
    (ht : t.WellFormed)
    (hs : ∀ {id name b}, s.bindingAt? name id = some b → b.denotesType = true → t.Nominal b.type)
    (h : Gives (s.typeOf id e) t a u) : t.Sprouts u a := by
  induction e generalizing t u a with
  | named name span =>
    rw [typeOf, gives_mk] at h
    obtain ⟨h, rfl⟩ := h
    obtain ⟨b, hb, hd, rfl⟩ := namedType_eq_ok h
    obtain ⟨i, hi⟩ := exists_bindingAt? hb
    exact (hs hi hd).sprouts
  | array e ih =>
    rw [typeOf, gives_bind] at h
    obtain ⟨te, t1, h1, h⟩ := h
    obtain ⟨rfl, rfl⟩ := gives_add.mp h
    obtain ⟨hadds, hwf, x, -, hx⟩ := denotes_of_typeOf ht hs h1
    exact .array hwf hadds.forms hx.registered (ih ht hs h1)
  | dictionary k v ihk ihv =>
    rw [typeOf, gives_bind] at h
    obtain ⟨tk, t1, h1, h⟩ := h
    obtain ⟨tv, t2, h2, h⟩ := gives_bind.mp h
    obtain ⟨rfl, rfl⟩ := gives_add.mp h
    obtain ⟨hadds, hwf, x, -, hx⟩ := denotes_of_typeOf ht hs h1
    have hs' {id : ScopeId} {name : String} {b : Binding} (hb : s.bindingAt? name id = some b)
        (hd : b.denotesType = true) : t1.Nominal b.type := (hs hb hd).mono hadds.forms
    obtain ⟨hadds', hwf', y, -, hy⟩ := denotes_of_typeOf hwf hs' h2
    exact .dictionary hwf' hwf hadds.forms hadds'.forms hx.registered hy.registered (ihk ht hs h1)
      (ihv hwf hs' h2)

end Scopes

end MiddleEnd
