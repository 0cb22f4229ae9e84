import MiddleEnd.Proofs.Check.Changes
import MiddleEnd.Proofs.Scopes.Paths

/-!
Types that belong to fields. Whenever a written type is read, all collections in it are added anew.
So when the declarations of a program have been made known, a collection that stands in the type of
a field stands in the type of this field only, at one place, and nothing else refers to it.
-/

namespace MiddleEnd

def Binding.types (b : Binding) : List TypeId :=
  match b.kind with
  | .function sig => b.type :: sig.result :: sig.params
  | _ => [b.type]

lemma Binding.Valid.registered {t : TypeTable} {b : Binding} (h : b.Valid t) :
    ∀ u ∈ b.types, t.Registered u := by
  intro u hu
  unfold Binding.types at hu
  split at hu
  · rename_i sig hkind
    rcases List.mem_cons.mp hu with rfl | hu
    · exact h.type
    · rcases List.mem_cons.mp hu with rfl | hu
      · exact (h.signature hkind).1
      · exact (h.signature hkind).2 u hu
  · obtain rfl := List.mem_singleton.mp hu
    exact h.type

/-! ### Values -/

namespace TypeTable

variable {table small : TypeTable} {c : ClassId} {n : String} {b : Binding} {t u : TypeId}

/-- The class has a member that stands for a value. -/
def HasValue (table : TypeTable) (c : ClassId) (n : String) (b : Binding) : Prop :=
  ∃ e, table.class? c = some e ∧ e.members.find? n = some b ∧ b.kind = .variable

lemma HasValue.registered (h : table.HasValue c n b) (ht : table.Assembled) :
    table.Registered b.type := by
  obtain ⟨e, he, hb, -⟩ := h
  exact ((ht.known he).members hb).type

lemma HasValue.unique {b' : Binding} (h : table.HasValue c n b) (h' : table.HasValue c n b') :
    b = b' := by
  obtain ⟨e, he, hb, -⟩ := h
  obtain ⟨e', he', hb', -⟩ := h'
  cases he.symm.trans he'
  exact Option.some.inj (hb.symm.trans hb')

/-- A collection stands in the type of at most one value, and at one place only. -/
def Sole (table : TypeTable) : Prop :=
  ∀ ⦃c n b p c' n' b' p' u⦄, table.HasValue c n b → table.HasValue c' n' b' →
    table.at? b.type p = some u → table.at? b'.type p' = some u → ¬table.Nominal u →
    c = c' ∧ n = n' ∧ p = p'

lemma class?_addMember_eq_some {d : ClassId} {e' : ClassEntry}
    (h : (table.addMember c b).class? d = some e') :
    ∃ e, table.class? d = some e ∧ e'.constructors = e.constructors ∧
      ∀ m, e'.members.find? m = if d = c ∧ b.name = m then some b else e.members.find? m := by
  rw [addMember, class?_updateClass] at h
  split at h
  · rename_i hd
    obtain ⟨e, he, rfl⟩ := Option.map_eq_some_iff.mp h
    refine ⟨e, he, rfl, fun m => ?_⟩
    rw [show (e.members.insert b).find? m = _ from Bindings.find?_insert _ _ _]
    simp only [hd, true_and]
  · rename_i hd
    exact ⟨e', h, rfl, fun m => (if_neg fun heq => hd heq.1).symm⟩

lemma value_of_addMember {d : ClassId} {m : String} {b' : Binding}
    (h : (table.addMember c b).HasValue d m b') :
    table.HasValue d m b' ∨ d = c ∧ m = b.name ∧ b' = b := by
  obtain ⟨e', he', hb', hkind⟩ := h
  obtain ⟨e, he, -, hmembers⟩ := class?_addMember_eq_some he'
  rw [hmembers] at hb'
  split at hb'
  · rename_i heq
    cases hb'
    exact Or.inr ⟨heq.1, heq.2.symm, rfl⟩
  · exact Or.inl ⟨e, he, hb', hkind⟩

lemma at?_addMember {a : TypeId} {p : List ℕ} :
    (table.addMember c b).at? a p = some u ↔ table.at? a p = some u :=
  ⟨at?_mono (t := table.addMember c b) (List.prefix_refl table.forms),
    at?_mono (t := table) (List.prefix_refl table.forms)⟩

/-- A value is entered, and the collections in its type are new. -/
lemma Sole.addMember (h : small.Sole) (hsmall : small.Assembled)
    (hforms : small.forms <+: table.forms)
    (hvalues : ∀ {c n b}, table.HasValue c n b → small.HasValue c n b)
    (hyoung : ∀ {p v}, table.at? t p = some v → table.Nominal v ∨ small.form? v = none)
    (honce : ∀ {p q v}, table.at? t p = some v → table.at? t q = some v →
      ¬table.Nominal v → p = q) :
    (table.addMember c (.ofVariable n t)).Sole := by
  have hwf := hsmall.wellFormed
  have hpast {d : ClassId} {m : String} {b : Binding} {p : List ℕ} {u : TypeId}
      (hb : table.HasValue d m b) (hu : table.at? b.type p = some u) :
      small.at? b.type p = some u :=
    hwf.at?_before hforms ((hvalues hb).registered hsmall) hu
  -- What stands in the type of another value was there before, and what stands in the new type was
  -- not.
  have hdiffer {d : ClassId} {m : String} {b : Binding} {p q : List ℕ} {u : TypeId}
      (hb : table.HasValue d m b) (hu : table.at? b.type p = some u)
      (hu' : table.at? t q = some u) (hn : ¬table.Nominal u) : False := by
    obtain ⟨f, hf⟩ := hwf.registered_of_at? ((hvalues hb).registered hsmall) (hpast hb hu)
    cases hf.symm.trans ((hyoung hu').resolve_left hn)
  intro d m b p d' m' b' p' u hb hb' hu hu' hn
  rw [at?_addMember] at hu hu'
  rcases value_of_addMember hb with hb0 | ⟨rfl, rfl, rfl⟩ <;>
    rcases value_of_addMember hb' with hb0' | ⟨rfl, rfl, rfl⟩
  · -- both values were there
    exact h (hvalues hb0) (hvalues hb0') (hpast hb0 hu) (hpast hb0' hu')
      fun hnominal => hn (hnominal.mono hforms)
  · exact (hdiffer hb0 hu hu' hn).elim
  · exact (hdiffer hb0' hu' hu hn).elim
  · -- the new value, at two places of its own type
    exact ⟨rfl, rfl, honce hu hu' hn⟩

end TypeTable

variable {base σ τ υ : Session} {scope : ScopeId} {c : ClassId} {n : String}
    {b : Binding} {t u : TypeId}

namespace Session

/-- What is kept in the cell refers to the type. -/
inductive Refers (σ : Session) : Cell → TypeId → Prop
  | type {t u : TypeId} {f : TypeForm} (hf : σ.types.form? t = some f) (hu : u ∈ f.parts) :
      Refers σ (.type t) u
  | frame {id : FrameId} {f : Frame} (hf : σ.scopes.frame? id = some f) :
      Refers σ (.frame id) f.result
  | name {id : ScopeId} {n : String} {b : Binding} {u : TypeId}
      (hb : σ.scopes.bindingAt? n id = some b) (hu : u ∈ b.types) : Refers σ (.name id n) u
  | member {c : ClassId} {e : ClassEntry} {n : String} {b : Binding} {u : TypeId}
      (he : σ.types.class? c = some e) (hb : e.members.find? n = some b) (hu : u ∈ b.types) :
      Refers σ (.member c n) u
  | constructors {c : ClassId} {e : ClassEntry} {k : Constructor} {u : TypeId}
      (he : σ.types.class? c = some e) (hk : k ∈ e.constructors) (hu : u ∈ k.params) :
      Refers σ (.constructors c) u

/-! ### What is new -/

/-- The type is new, or it is not built from others. -/
structure Young (σ τ : Session) (u : TypeId) : Prop where
  registered : τ.types.Registered u
  new : τ.types.Nominal u ∨ σ.types.form? u = none

lemma Young.mono (h : σ.Young τ u) (hforms : τ.types.forms <+: υ.types.forms) : σ.Young υ u :=
  ⟨h.registered.mono hforms, h.new.imp_left (.mono hforms)⟩

lemma young_nominal (h : τ.types.Nominal u) : σ.Young τ u :=
  have ⟨f, hf, _⟩ := h
  ⟨⟨f, hf⟩, Or.inl h⟩

lemma young_any : σ.Young τ .any := young_nominal ⟨.any, rfl, rfl⟩

/-- What is new refers to none of the collections that were there before, and no values have become
members. -/
structure Discreet (σ τ : Session) : Prop where
  forms : σ.types.forms <+: τ.types.forms
  values : ∀ {c n b}, τ.types.HasValue c n b → σ.types.HasValue c n b
  refers : ∀ {y u}, τ.Refers y u → σ.Refers y u ∨ σ.Young τ u

namespace Discreet

lemma refl (σ : Session) : σ.Discreet σ := ⟨List.prefix_refl _, id, Or.inl⟩

lemma next (h : base.Discreet σ) (hforms : σ.types.forms <+: τ.types.forms)
    (hvalues : ∀ {c n b}, τ.types.HasValue c n b → σ.types.HasValue c n b)
    (hrefers : ∀ {y u}, τ.Refers y u → σ.Refers y u ∨ base.Young τ u) : base.Discreet τ where
  forms := h.forms.trans hforms
  values hb := h.values (hvalues hb)
  refers hu := by
    rcases hrefers hu with hu | hu
    · exact (h.refers hu).imp_right (.mono · hforms)
    · exact Or.inr hu

lemma withScopes {s : Scopes} (h : base.Discreet σ)
    (hnames : ∀ {n id b}, s.bindingAt? n id = some b →
      σ.scopes.bindingAt? n id = some b ∨ ∀ u ∈ b.types, base.Young σ u)
    (hframes : ∀ {id f}, s.frame? id = some f →
      σ.scopes.frame? id = some f ∨ base.Young σ f.result) :
    base.Discreet { σ with scopes := s } := by
  refine h.next (List.prefix_refl _) id fun hu => ?_
  cases hu with
  | type hf hu => exact Or.inl (.type hf hu)
  | frame hf =>
    rcases hframes hf with hf | hyoung
    · exact Or.inl (.frame hf)
    · exact Or.inr ⟨hyoung.registered, hyoung.new⟩
  | name hb hu =>
    rcases hnames hb with hb | hyoung
    · exact Or.inl (.name hb hu)
    · exact Or.inr ⟨(hyoung _ hu).registered, (hyoung _ hu).new⟩
  | member he hb hu => exact Or.inl (.member he hb hu)
  | constructors he hk hu => exact Or.inl (.constructors he hk hu)

lemma updateClass {f : ClassEntry → ClassEntry} (h : base.Discreet σ)
    (hmembers : ∀ {e n b}, (f e).members.find? n = some b →
      e.members.find? n = some b ∨ b.kind ≠ .variable ∧ ∀ u ∈ b.types, base.Young σ u)
    (hconstructors : ∀ {e}, ∀ k ∈ (f e).constructors,
      k ∈ e.constructors ∨ ∀ u ∈ k.params, base.Young σ u) :
    base.Discreet (σ.updateClass c f) := by
  have hentry {d : ClassId} {e' : ClassEntry} (he : (σ.updateClass c f).types.class? d = some e') :
      ∃ e, σ.types.class? d = some e ∧ (e' = e ∨ e' = f e) := by
    rw [class?_updateClass] at he
    obtain ⟨e, hd, rfl⟩ := Option.map_eq_some_iff.mp he
    refine ⟨e, hd, ?_⟩
    split
    · exact Or.inr rfl
    · exact Or.inl rfl
  refine h.next (List.prefix_refl _) ?_ fun hu => ?_
  · -- no value is new
    rintro d n b ⟨e', he', hb, hkind⟩
    obtain ⟨e, he, rfl | rfl⟩ := hentry he'
    · exact ⟨e', he, hb, hkind⟩
    · exact ⟨e, he, (hmembers hb).resolve_right fun hnot => hnot.1 hkind, hkind⟩
  · -- whatever refers to a type did so before, or the type is young
    cases hu with
    | type hf hu => exact Or.inl (.type hf hu)
    | frame hf => exact Or.inl (.frame hf)
    | name hb hu => exact Or.inl (.name hb hu)
    | member he' hb hu =>
      obtain ⟨e, he, rfl | rfl⟩ := hentry he'
      · exact Or.inl (.member he hb hu)
      · rcases hmembers hb with hb | ⟨-, hyoung⟩
        · exact Or.inl (.member he hb hu)
        · exact Or.inr ⟨(hyoung _ hu).registered, (hyoung _ hu).new⟩
    | constructors he' hk hu =>
      obtain ⟨e, he, rfl | rfl⟩ := hentry he'
      · exact Or.inl (.constructors he hk hu)
      · rcases hconstructors _ hk with hk | hyoung
        · exact Or.inl (.constructors he hk hu)
        · exact Or.inr ⟨(hyoung _ hu).registered, (hyoung _ hu).new⟩

lemma withTypes {table : TypeTable} (h : base.Discreet σ) (hadds : σ.types.Adds table)
    (hnew : ∀ {t f}, table.form? t = some f → σ.types.form? t = some f ∨
      ∀ u ∈ f.parts, base.Young { σ with types := table } u) :
    base.Discreet { σ with types := table } := by
  refine h.next hadds.forms (fun ⟨e, he, hb⟩ => ⟨e, (hadds.class? _).symm.trans he, hb⟩)
    fun hu => ?_
  cases hu with
  | type hf hu =>
    rcases hnew hf with hf | hyoung
    · exact Or.inl (.type hf hu)
    · exact Or.inr (hyoung _ hu)
  | frame hf => exact Or.inl (.frame hf)
  | name hb hu => exact Or.inl (.name hb hu)
  | member he hb hu => exact Or.inl (.member ((hadds.class? _).symm.trans he) hb hu)
  | constructors he hk hu => exact Or.inl (.constructors ((hadds.class? _).symm.trans he) hk hu)

lemma addClass (h : base.Discreet σ) (name : String) : base.Discreet (σ.addClass name) := by
  refine h.next (σ.types.forms_prefix_add _) ?_ fun hu => ?_
  · rintro d n b ⟨e, he, hb, hkind⟩
    rcases class?_addClass_eq_some he with he | ⟨-, rfl⟩
    · exact ⟨e, he, hb, hkind⟩
    · cases hb
  · cases hu with
    | @type t u f hf hu =>
      rcases TypeTable.form?_eq_some hf with hbasic | ⟨i, rfl, hi⟩
      · exact Or.inl (.type (TypeTable.form?_basic _ hbasic) hu)
      · rcases TypeTable.getElem?_forms_add hi with hi | ⟨-, rfl⟩
        · exact Or.inl (.type ((TypeTable.form?_constructed _ i).trans hi) hu)
        · cases hu
    | frame hf => exact Or.inl (.frame hf)
    | name hb hu => exact Or.inl (.name hb hu)
    | member he hb hu =>
      rcases class?_addClass_eq_some he with he | ⟨-, rfl⟩
      · exact Or.inl (.member he hb hu)
      · cases hb
    | constructors he hk hu =>
      rcases class?_addClass_eq_some he with he | ⟨-, rfl⟩
      · exact Or.inl (.constructors he hk hu)
      · cases hk

end Discreet

lemma Discreet.of_eq (h : base.Discreet σ) (htypes : τ.types = σ.types)
    (hscopes : τ.scopes = σ.scopes) : base.Discreet τ := by
  obtain ⟨types, scopes, calls, log⟩ := τ
  cases htypes
  cases hscopes
  refine h.next (List.prefix_refl _) id fun hu => Or.inl ?_
  cases hu with
  | type hf hu => exact .type hf hu
  | frame hf => exact .frame hf
  | name hb hu => exact .name hb hu
  | member he hb hu => exact .member he hb hu
  | constructors he hk hu => exact .constructors he hk hu

end Session

/-! ### Steps -/

namespace Check

open Session (Discreet Young room_all)

lemma discreet_note {e : LogEvent} (hσ : σ.Assembled) (h : base.Discreet σ) :
    Leads (Session.Continues fun _ => True) (note e) σ fun _ τ => base.Discreet τ := by
  refine ⟨(leads_note hσ).changes, fun hgives => ?_⟩
  obtain rfl := gives_note.mp hgives
  exact h.of_eq rfl rfl

/-- Reading a written type only adds the collections in it. -/
lemma sprouts_typeOf {e : TypeExpr} (hσ : σ.Assembled) (h : Gives (typeOf scope e) σ t τ) :
    ∃ table, τ = { σ with types := table } ∧ σ.types.Adds table ∧ table.Registered t ∧
      σ.types.Sprouts table t := by
  have hrun := h
  rw [Gives, run_typeOf, Prod.mk.injEq] at hrun
  obtain ⟨hresult, rfl⟩ := hrun
  have hread : Gives (σ.scopes.typeOf scope e) σ.types t
      ((σ.scopes.typeOf scope e).run.run σ.types).2 := Prod.ext hresult rfl
  have hnominal {id : ScopeId} {name : String} {b : Binding}
      (hb : σ.scopes.bindingAt? name id = some b) (hd : b.denotesType = true) :
      σ.types.Nominal b.type := (hσ.bindings hb).nominal hd
  obtain ⟨hadds, -, x, -, hx⟩ := Scopes.denotes_of_typeOf hσ.types.wellFormed hnominal hread
  exact ⟨_, rfl, hadds, hx.registered, Scopes.sprouts_of_typeOf hσ.types.wellFormed hnominal hread⟩

lemma discreet_typeOf {e : TypeExpr} (hσ : σ.Assembled) (h : base.Discreet σ) :
    Leads (Session.Continues fun _ => True) (typeOf scope e) σ
      fun t τ => base.Discreet τ ∧ base.Young τ t := by
  have hleads : Leads (Session.Continues fun _ => True) (typeOf scope e) σ
      fun t τ => τ.types.Registered t := leads_typeOf hσ
  refine ⟨hleads.changes, fun hgives => ?_⟩
  have hassembled := (hleads.changes_of_gives hgives).assembled.types
  obtain ⟨table, rfl, hadds, ht, hsprouts⟩ := sprouts_typeOf hσ hgives
  have hyoung {p : List ℕ} {v : TypeId} (hv : table.at? _ p = some v) (hreg : table.Registered v) :
      base.Young { σ with types := table } v :=
    ⟨hreg, (hsprouts.young hv).imp_right (TypeTable.form?_eq_none_of_forms h.forms)⟩
  refine ⟨h.withTypes hadds fun {v f} hf => ?_, hyoung (p := []) rfl ht⟩
  cases hv : σ.types.form? v with
  | some g => exact Or.inl ((TypeTable.form?_mono hadds.forms hv).symm.trans hf)
  | none =>
    refine Or.inr fun u hu => ?_
    obtain ⟨path, hpath⟩ := hsprouts.all ⟨f, hf⟩ hv
    obtain ⟨i, hi⟩ := List.getElem?_of_mem hu
    exact hyoung (TypeTable.at?_concat hpath hf hi)
      (hassembled.wellFormed.part_lt hf hu).1

lemma discreet_typeOf? {e : Option TypeExpr} (hσ : σ.Assembled) (h : base.Discreet σ) :
    Leads (Session.Continues fun _ => True) (typeOf? scope e) σ
      fun t τ => base.Discreet τ ∧ base.Young τ (t.getD .any) := by
  cases e with
  | none => exact .pure hσ.stay ⟨h, Session.young_any⟩
  | some e =>
    rw [typeOf?, map_eq_pure_bind]
    exact (discreet_typeOf hσ h).bind_pure fun t τ _ ht => ht

/-- The body of a function is opened, whose result is new or not built from others. -/
lemma discreet_openFunction {f : Frame} (hσ : σ.Assembled) (h : base.Discreet σ)
    (hf : base.Young σ f.result) :
    Leads (Session.Continues fun _ => True) (do
      let frame ← addFrame f
      openIn scope (.function frame)) σ fun _ τ => base.Discreet τ := by
  refine ⟨(leads_openFunction hσ room_all).changes, fun {_ τ} hgives => ?_⟩
  obtain ⟨frame, σ1, h1, h2⟩ := gives_bind.mp hgives
  obtain ⟨-, rfl⟩ := gives_addFrame.mp h1
  have hframe : base.Discreet { σ with scopes := σ.scopes.addFrame f } := by
    refine h.withScopes Or.inl fun hg => ?_
    rcases Scopes.frame?_addFrame_eq_some hg with hg | ⟨-, rfl⟩
    · exact Or.inl hg
    · exact Or.inr hf
  obtain ⟨-, -, htypes, hopen⟩ := quiet_of_openIn h2
  refine (hframe.withScopes (s := τ.scopes) (fun hb => Or.inl ?_)
    fun hg => Or.inl ?_).of_eq htypes rfl
  · rwa [Scopes.bindingAt?_openIn hopen] at hb
  · rwa [Scopes.frame?_openIn hopen] at hg

/-- A name is declared whose types are new or not built from others. -/
lemma discreet_declare (b : Binding) {span : Span} (hσ : σ.Assembled) (h : base.Discreet σ)
    (hvalid : b.Valid σ.types) (hpresent : b.Present σ.types) (hkind : b.kind ≠ .variable)
    (hyoung : ∀ u ∈ b.types, base.Young σ u) :
    Leads (Session.Continues fun _ => True) (declare scope b span) σ
      fun _ τ => base.Discreet τ := by
  refine ⟨(leads_declare hσ hvalid hpresent (Cell.free_all.declaring _)).changes, fun hgives => ?_⟩
  obtain ⟨larger, hlarger, hτ⟩ := session_of_declare hgives
  have hscopes : base.Discreet { σ with scopes := larger } := by
    refine h.withScopes (fun hb => ?_) fun hf => Or.inl ?_
    · rw [Scopes.bindingAt?_declare hlarger] at hb
      split at hb
      · cases hb
        exact Or.inr hyoung
      · exact Or.inl hb
    · rwa [Scopes.frame?_declare hlarger] at hf
  rcases hτ with rfl | ⟨c, rfl⟩
  · exact hscopes
  · refine hscopes.updateClass (fun {e n b'} hb => ?_) fun k hk => Or.inl hk
    rw [show (e.members.insert b).find? n = _ from Bindings.find?_insert _ _ _] at hb
    split at hb
    · cases hb
      exact Or.inr ⟨hkind, fun u hu => ⟨(hyoung u hu).registered, (hyoung u hu).new⟩⟩
    · exact Or.inl hb

lemma discreet_params {ps : List Param} (hσ : σ.Assembled) (h : base.Discreet σ) :
    Leads (Session.Continues fun _ => True) (params scope ps) σ
      fun ps' τ => base.Discreet τ ∧ ∀ t ∈ Param.types ps', base.Young τ t := by
  induction ps generalizing σ with
  | nil => exact .pure hσ.stay ⟨h, by simp [Param.types]⟩
  | cons p ps ih =>
    rw [params]
    refine (discreet_typeOf? hσ h).bind fun t σ1 h1 hread => ?_
    obtain ⟨hd1, ht⟩ := hread
    refine (discreet_declare (.ofParameter p.name (t.getD .any)) h1.assembled hd1
      (Binding.valid_of_isValue ht.registered rfl) (Binding.present_of_isValue rfl)
      (by simp [Binding.ofParameter]) (List.forall_mem_singleton.mpr ht)).bind fun _ σ2 h2 hd2 => ?_
    refine (ih h2.assembled hd2).bind_pure fun rest σ3 h3 hrest => ⟨hrest.1, ?_⟩
    rw [Param.types, List.map_cons, List.forall_mem_cons]
    exact ⟨ht.mono (h2.forms.trans h3.forms), hrest.2⟩

/-! ### Declarations -/

lemma discreet_registerClass {head : ClassHead} (hσ : σ.Assembled) (h : base.Discreet σ) :
    Leads (Session.Continues fun _ => True) (registerClass scope head) σ
      fun _ τ => base.Discreet τ := by
  refine ⟨(leads_registerClass hσ trivial (Cell.free_all.declaring _)).changes, fun hgives => ?_⟩
  simp only [registerClass, gives_bind, gives_types, gives_updateTypes, gives_pure] at hgives
  obtain ⟨_, _, ⟨rfl, rfl⟩, _, _, rfl, u, _, hdeclare, -, rfl⟩ := hgives
  have hadd : σ.Continues (fun _ => True) (σ.addClass head.name) := hσ.addClass _ trivial
  have hnominal : (σ.addClass head.name).types.Nominal σ.types.next :=
    ⟨_, σ.types.form?_add_next _, rfl⟩
  refine (discreet_declare (.ofClass head.name σ.types.nextClass σ.types.next) hadd.assembled
    (h.addClass head.name) (Binding.valid_of_denotesType rfl hnominal) ?_
    (by rintro ⟨⟩) (List.forall_mem_singleton.mpr (Session.young_nominal hnominal))).result hdeclare
  rintro _ ⟨⟩
  rw [Session.addClass, TypeTable.class?_addClass, if_pos rfl]
  exact ⟨_, rfl⟩

lemma discreet_registerClasses {ss : List Stmt} (hσ : σ.Assembled) (h : base.Discreet σ) :
    Leads (Session.Continues fun _ => True) (registerClasses scope ss) σ
      fun _ τ => base.Discreet τ := by
  unfold registerClasses
  generalize ss.filterMap Stmt.classHead? = heads
  induction heads generalizing σ with
  | nil => exact .pure hσ.stay h
  | cons head heads ih =>
    rw [List.mapM_cons]
    refine (discreet_registerClass hσ h).bind fun c σ1 h1 hd1 => ?_
    exact (ih h1.assembled hd1).bind_pure fun _ _ _ hd2 => hd2

lemma discreet_outlineFunction {kind : FrameKind} {head : FuncHead} (hσ : σ.Assembled)
    (h : base.Discreet σ) :
    Leads (Session.Continues fun _ => True) (outlineFunction scope kind head) σ fun head' τ =>
      base.Discreet τ ∧ base.Young τ (head'.type.getD .any) ∧
        ∀ t ∈ Param.types head'.params, base.Young τ t := by
  unfold outlineFunction
  refine (discreet_typeOf? hσ h).bind fun t σ1 h1 ⟨hd1, ht⟩ => ?_
  rw [← bind_assoc]
  refine (discreet_openFunction h1.assembled hd1 ht).bind fun body σ2 h2 hd2 => ?_
  refine (discreet_params h2.assembled hd2).bind_pure fun ps σ3 h3 ⟨hd3, hps⟩ => ⟨hd3, ?_, hps⟩
  exact ht.mono (h2.forms.trans h3.forms)

lemma discreet_outlineConstructor {head : CtorHead} (hσ : σ.Assembled) (h : base.Discreet σ) :
    Leads (Session.Continues fun _ => True) (outlineConstructor scope head) σ
      fun _ τ => base.Discreet τ := by
  unfold outlineConstructor
  refine .bind_scopes (.bind_rule hσ.stay fun c _ => ?_)
  refine (Leads.classEntry hσ.stay).bind fun e σ0 h0 ⟨heq, he⟩ => ?_
  subst heq
  refine .bind_rule hσ.stay fun _ _ => ?_
  rw [← bind_assoc]
  refine (discreet_openFunction hσ h (Session.young_nominal (hσ.types.nominal he))).bind
    fun _ σ1 h1 hd1 => ?_
  refine (discreet_params h1.assembled hd1).bind fun ps σ2 h2 ⟨hd2, hps⟩ => ?_
  -- the types of the parameters have just been read
  have hleads : Leads (Session.Continues fun _ => True)
      (changeClass c (·.addConstructor · { params := Param.types ps, span := head.extent.span })) σ2
      fun _ τ => base.Discreet τ := by
    refine ⟨(leads_changeClass h2.assembled
      (.addConstructor h2.assembled.types c fun p hp => (hps p hp).registered)
      (fun e _ => ⟨rfl, rfl, fun _ _ => rfl, fun hn => absurd trivial hn, fun _ => rfl, fun h => h⟩)
      h2.assembled.bodies h2.assembled.members).changes, fun hgives => ?_⟩
    obtain ⟨-, rfl⟩ := gives_changeClass.mp hgives
    refine hd2.updateClass Or.inl fun {e} k hk => ?_
    rcases List.mem_append.mp hk with hk | hk
    · exact Or.inl hk
    · obtain rfl := List.mem_singleton.mp hk
      exact Or.inr hps
  exact hleads.bind_pure fun _ _ _ hd3 => hd3

/-- A function that refers to types that are new or not built from others. -/
structure NewFunction (base σ : Session) (b : Binding) : Prop where
  kind : ∃ sig, b.kind = .function sig
  young : ∀ u ∈ b.types, base.Young σ u

lemma NewFunction.mono {b : Binding} (h : NewFunction base σ b)
    (hforms : σ.types.forms <+: τ.types.forms) : NewFunction base τ b :=
  ⟨h.kind, fun u hu => (h.young u hu).mono hforms⟩

lemma NewFunction.valid {b : Binding} (h : NewFunction base σ b) : b.Valid σ.types := by
  obtain ⟨sig, hsig⟩ := h.kind
  have htypes : b.types = b.type :: sig.result :: sig.params := by rw [Binding.types, hsig]
  have hyoung := h.young
  rw [htypes, List.forall_mem_cons, List.forall_mem_cons] at hyoung
  refine ⟨hyoung.1.registered, fun {sig'} hsig' => ?_, fun hd => ?_⟩
  · cases hsig.symm.trans hsig'
    exact ⟨hyoung.2.1.registered, fun p hp => (hyoung.2.2 p hp).registered⟩
  · simp [Binding.denotesType, hsig] at hd

lemma discreet_outline {kind : FrameKind} {s : Stmt} (hσ : σ.Assembled) (h : base.Discreet σ) :
    Leads (Session.Continues fun _ => True) (outline scope kind s) σ fun s' τ =>
      base.Discreet τ ∧ ∀ b ∈ functionBinding? s', NewFunction base τ b.1 := by
  cases s with
  | func head body =>
    refine (discreet_outlineFunction hσ h).bind_pure fun head' τ hτ ⟨hd, htype, hparams⟩ => ⟨hd, ?_⟩
    rintro b ⟨⟩
    exact ⟨⟨_, rfl⟩, List.forall_mem_cons.mpr ⟨htype, List.forall_mem_cons.mpr ⟨htype, hparams⟩⟩⟩
  | ctor head body =>
    exact (discreet_outlineConstructor hσ h).bind_pure fun _ _ _ hd =>
      ⟨hd, by rintro _ ⟨⟩⟩
  | _ => exact .pure hσ.stay ⟨h, by rintro _ ⟨⟩⟩

lemma discreet_outlines {kind : FrameKind} {ss : List Stmt} (hσ : σ.Assembled)
    (h : base.Discreet σ) :
    Leads (Session.Continues fun _ => True) (ss.mapM (outline scope kind)) σ fun ss' τ =>
      base.Discreet τ ∧ ∀ b ∈ ss'.filterMap functionBinding?, NewFunction base τ b.1 := by
  induction ss generalizing σ with
  | nil => exact .pure hσ.stay ⟨h, by simp⟩
  | cons s ss ih =>
    rw [List.mapM_cons]
    refine (discreet_outline hσ h).bind fun s' σ1 h1 ⟨hd1, hs⟩ => ?_
    refine (ih h1.assembled hd1).bind_pure fun ss' σ2 h2 ⟨hd2, hss⟩ => ⟨hd2, fun b hb => ?_⟩
    obtain ⟨r, hr, hrb⟩ := List.mem_filterMap.mp hb
    rcases List.mem_cons.mp hr with rfl | hr
    · exact (hs b hrb).mono h2.forms
    · exact hss b (List.mem_filterMap.mpr ⟨r, hr, hrb⟩)

lemma discreet_bindings {bs : List (Binding × Span)} (hσ : σ.Assembled) (h : base.Discreet σ)
    (hbs : ∀ b ∈ bs, NewFunction base σ b.1) :
    Leads (Session.Continues fun _ => True) (bs.forM fun (b, span) => declare scope b span) σ
      fun _ τ => base.Discreet τ := by
  induction bs generalizing σ with
  | nil => exact .pure hσ.stay h
  | cons b bs ih =>
    rw [List.forall_mem_cons] at hbs
    obtain ⟨sig, hsig⟩ := hbs.1.kind
    show Leads _
      (declare scope b.1 b.2 >>= fun _ => bs.forM fun (b, span) => declare scope b span) σ _
    refine (discreet_declare b.1 hσ h hbs.1.valid (Binding.present_of_function hsig) ?_
      hbs.1.young).bind fun _ σ1 h1 hd1 => ?_
    · rw [hsig]
      rintro ⟨⟩
    · exact ih h1.assembled hd1 fun b hb => (hbs.2 b hb).mono h1.forms

lemma discreet_bindFunctions {ss : List Stmt} (hσ : σ.Assembled) (h : base.Discreet σ) :
    Leads (Session.Continues fun _ => True) (bindFunctions scope ss) σ
      fun _ τ => base.Discreet τ := by
  have howner : Leads (Session.Continues fun _ => True) (owner? scope) σ fun _ τ => σ = τ :=
    .bind_scopes (.bind_rule hσ.stay fun _ _ => .bind_types (.pure hσ.stay rfl))
  unfold bindFunctions
  refine howner.bind fun owner σ0 h0 heq => ?_
  subst heq
  refine (discreet_outlines hσ h).bind fun ss' σ1 h1 ⟨hd1, hss⟩ => ?_
  refine (discreet_bindings h1.assembled hd1 hss).bind fun _ σ2 h2 hd2 => ?_
  exact (discreet_note h2.assembled hd2).bind_pure fun _ _ _ hd3 => hd3

end Check

/-! ### FieldTypesApart sessions -/

namespace Session

/-- A collection that stands in the type of a field stands at this place only, and all that refers
to it is the field or stands in the type of the field as well. -/
structure FieldTypesApart (σ : Session) : Prop where
  plain : ∀ {c n b}, σ.types.HasValue c n b → b.builtin = false
  registered : ∀ {y u}, σ.Refers y u → σ.types.Registered u
  sole : σ.types.Sole
  reserved : ∀ {c n b p y u}, σ.types.HasValue c n b → σ.types.at? b.type p = some u →
    ¬σ.types.Nominal u → σ.Refers y u →
    y = .member c n ∨ ∃ v q, y = .type v ∧ σ.types.at? b.type q = some v

/-- The types of fields stay apart where what is new is discreet. -/
lemma FieldTypesApart.mono (h : σ.FieldTypesApart) (hσ : σ.Assembled) (hτ : σ.Discreet τ) :
    τ.FieldTypesApart where
  plain hb := h.plain (hτ.values hb)
  registered hu := by
    rcases hτ.refers hu with hu | hyoung
    · exact (h.registered hu).mono hτ.forms
    · exact hyoung.registered
  sole c n b p c' n' b' p' u hb hb' hu hu' hn := by
    have hb := hτ.values hb
    have hb' := hτ.values hb'
    have hwf := hσ.types.wellFormed
    exact h.sole hb hb' (hwf.at?_before hτ.forms (hb.registered hσ.types) hu)
      (hwf.at?_before hτ.forms (hb'.registered hσ.types) hu')
      fun hnominal => hn (hnominal.mono hτ.forms)
  reserved {c n b p y u} hb hu hn hy := by
    have hb := hτ.values hb
    have hwf := hσ.types.wellFormed
    have hu := hwf.at?_before hτ.forms (hb.registered hσ.types) hu
    have hy : σ.Refers y u := by
      refine (hτ.refers hy).resolve_right fun hyoung => ?_
      obtain ⟨f, hf⟩ := hwf.registered_of_at? (hb.registered hσ.types) hu
      cases hf.symm.trans (hyoung.new.resolve_left hn)
    refine (h.reserved hb hu (fun hnominal => hn (hnominal.mono hτ.forms)) hy).imp_right ?_
    exact fun ⟨v, q, hv, hq⟩ => ⟨v, q, hv, TypeTable.at?_mono hτ.forms hq⟩

section

variable {table : TypeTable}

lemma refers_of_addMember {y : Cell} (h : Refers { σ with types := table.addMember c b } y u) :
    Refers { σ with types := table } y u ∨ y = .member c b.name ∧ u ∈ b.types := by
  cases h with
  | type hf hu => exact Or.inl (.type hf hu)
  | frame hf => exact Or.inl (.frame hf)
  | name hb hu => exact Or.inl (.name hb hu)
  | member he' hb hu =>
    obtain ⟨e, he, -, hmembers⟩ := TypeTable.class?_addMember_eq_some he'
    rw [hmembers] at hb
    split at hb
    · rename_i heq
      cases hb
      obtain ⟨rfl, rfl⟩ := heq
      exact Or.inr ⟨rfl, hu⟩
    · exact Or.inl (.member he hb hu)
  | constructors he' hk hu =>
    obtain ⟨e, he, hsame, -⟩ := TypeTable.class?_addMember_eq_some he'
    exact Or.inl (.constructors he (hsame ▸ hk) hu)

/-- What refers to a collection that has just been read was read with it. -/
lemma FieldTypesApart.sprouted {y : Cell} (h : σ.FieldTypesApart) (hadds : σ.types.Adds table)
    (hsprouts : σ.types.Sprouts table t) (hu : σ.types.form? u = none)
    (hy : Refers { σ with types := table } y u) :
    ∃ v q, y = .type v ∧ table.at? t q = some v := by
  have hold {y : Cell} (hy : σ.Refers y u) : ∃ v q, y = .type v ∧ table.at? t q = some v := by
    obtain ⟨f, hf⟩ := h.registered hy
    cases hf.symm.trans hu
  cases hy with
  | @type v _ f hf hpart =>
    cases hv : σ.types.form? v with
    | some g =>
      cases (TypeTable.form?_mono hadds.forms hv).symm.trans hf
      exact hold (.type hv hpart)
    | none =>
      obtain ⟨q, hq⟩ := hsprouts.all ⟨f, hf⟩ hv
      exact ⟨v, q, rfl, hq⟩
  | frame hf => exact hold (.frame hf)
  | name hb hpart => exact hold (.name hb hpart)
  | member he hb hpart => exact hold (.member ((hadds.class? _).symm.trans he) hb hpart)
  | constructors he hk hpart => exact hold (.constructors ((hadds.class? _).symm.trans he) hk hpart)

/-- A field is announced, whose type has just been read. -/
lemma FieldTypesApart.announce (h : σ.FieldTypesApart) (hσ : σ.Assembled)
    (hadds : σ.types.Adds table) (ht : table.Registered t) (hsprouts : σ.types.Sprouts table t)
    (hdiscreet : σ.Discreet { σ with types := table }) :
    FieldTypesApart { σ with types := table.addMember c (.ofVariable n t) } := by
  have hold := h.mono hσ hdiscreet
  have hwf := hσ.types.wellFormed
  refine ⟨fun hb => ?_, fun hu => ?_, h.sole.addMember hσ.types hadds.forms hdiscreet.values
    hsprouts.young hsprouts.once, fun {d m b p y u} hb hu hn hy => ?_⟩
  · rcases TypeTable.value_of_addMember hb with hb | ⟨-, -, rfl⟩
    · exact hold.plain hb
    · rfl
  · rcases refers_of_addMember hu with hu | ⟨-, hu⟩
    · exact hold.registered hu
    · exact List.mem_singleton.mp hu ▸ ht
  · simp only [TypeTable.at?_addMember] at hu ⊢
    rcases TypeTable.value_of_addMember hb with hb0 | ⟨rfl, rfl, rfl⟩ <;>
      rcases refers_of_addMember hy with hy0 | ⟨rfl, hy0⟩
    · exact hold.reserved hb0 hu hn hy0
    · -- The new field refers to nothing that was there before.
      obtain rfl := List.mem_singleton.mp hy0
      have hreg := (hdiscreet.values hb0).registered hσ.types
      obtain ⟨f, hf⟩ := hwf.registered_of_at? hreg (hwf.at?_before hadds.forms hreg hu)
      cases hf.symm.trans ((hsprouts.young (show table.at? u [] = some u from rfl)).resolve_left hn)
    · exact Or.inr (h.sprouted hadds hsprouts ((hsprouts.young hu).resolve_left hn) hy0)
    · exact Or.inl rfl

end

end Session

/-! ### Declarations -/

namespace Check

open Session (FieldTypesApart room_all)

lemma fieldTypesApart_announceField {body : ScopeId} {s : Stmt} {u : Unit} (hσ : σ.Assembled)
    (h : σ.FieldTypesApart)
    (hgives : Gives (announceField c body s) σ u τ) : τ.Assembled ∧ τ.FieldTypesApart := by
  have hτ := (leads_announceField (Φ := fun _ => True) hσ fun _ => trivial).changes_of_gives hgives
  refine ⟨hτ.assembled, ?_⟩
  cases s with
  | var head init =>
    obtain ⟨t, σ1, h1, h2⟩ := gives_bind.mp hgives
    have hd := (discreet_typeOf? hσ (.refl σ)).result h1
    cases ha : head.annotation with
    | none =>
      rw [ha] at h1
      obtain ⟨rfl, rfl⟩ := gives_pure.mp h1
      obtain ⟨-, rfl⟩ := gives_pure.mp h2
      exact h
    | some e =>
      rw [ha, typeOf?, map_eq_pure_bind] at h1
      simp only [gives_bind, gives_pure] at h1
      obtain ⟨t, _, h1, rfl, rfl⟩ := h1
      obtain ⟨table, rfl, hadds, ht, hsprouts⟩ := sprouts_typeOf hσ h1
      obtain ⟨-, rfl⟩ := gives_changeClass.mp h2
      exact h.announce hσ hadds ht hsprouts hd.1
  | _ =>
    obtain ⟨-, rfl⟩ := gives_pure.mp hgives
    exact h

lemma fieldTypesApart_announceFields {body : ScopeId} {ms : List Stmt} {u : Unit} (hσ : σ.Assembled)
    (h : σ.FieldTypesApart) (hgives : Gives (ms.forM (announceField c body)) σ u τ) :
    τ.Assembled ∧ τ.FieldTypesApart := by
  induction ms generalizing σ with
  | nil =>
    obtain ⟨-, rfl⟩ := gives_pure.mp hgives
    exact ⟨hσ, h⟩
  | cons s ms ih =>
    obtain ⟨σ1, h1, h2⟩ := gives_forM_cons.mp hgives
    obtain ⟨hσ1, hapart1⟩ := fieldTypesApart_announceField hσ h h1
    exact ih hσ1 hapart1 h2

lemma fieldTypesApart_openBody {body : ScopeId} {u : Unit} (hσ : σ.Assembled)
    (h : σ.FieldTypesApart) (h1 : Gives (openIn scope (.cls c)) σ body τ)
    (h2 : Gives (changeClass c (·.updateClass · fun e => { e with body := some body })) τ u υ) :
    υ.Assembled ∧ υ.FieldTypesApart := by
  obtain ⟨-, -, htypes, hopen⟩ := quiet_of_openIn h1
  obtain ⟨⟨e, he⟩, rfl⟩ := gives_changeClass.mp h2
  rw [htypes] at he
  refine ⟨(continues_openBody hσ room_all ⟨⟨e, he⟩, trivial, trivial, fun _ => trivial⟩ h1
    h2).assembled, ?_⟩
  have hopened : σ.Discreet τ := by
    refine ((Session.Discreet.refl σ).withScopes (s := τ.scopes) (fun hb => Or.inl ?_)
      fun hf => Or.inl ?_).of_eq htypes rfl
    · rwa [Scopes.bindingAt?_openIn hopen] at hb
    · rwa [Scopes.frame?_openIn hopen] at hf
  exact h.mono hσ (hopened.updateClass (fun hb => Or.inl hb) fun _ hk => Or.inl hk)

lemma fieldTypesApart_declarations {ss ss2 ss' : List Stmt} {cs : List ClassId}
    {e : LogEvent} {u : Unit} {σ1 σ2 σ3 : Session} (hσ : σ.Assembled) (h : σ.FieldTypesApart)
    (h1 : Gives (registerClasses scope ss) σ cs σ1)
    (h2 : σ1.Assembled → σ1.FieldTypesApart → σ2.Assembled ∧ σ2.FieldTypesApart)
    (h3 : Gives (note e) σ2 u σ3)
    (h4 : Gives (bindFunctions scope ss2) σ3 ss' τ) : τ.Assembled ∧ τ.FieldTypesApart := by
  obtain ⟨c1, hd1⟩ := (discreet_registerClasses hσ (.refl σ)).gives h1
  obtain ⟨hσ2, hapart2⟩ := h2 c1.assembled (h.mono hσ hd1)
  obtain ⟨c3, hd3⟩ := (discreet_note hσ2 (.refl σ2)).gives h3
  obtain ⟨c4, hd4⟩ := (discreet_bindFunctions c3.assembled hd3).gives h4
  exact ⟨c4.assembled, hapart2.mono hσ2 hd4⟩

lemma fieldTypesApart_opening {ss ss' : List Stmt} {cs : List ClassId} (hσ : σ.Assembled)
    (h : σ.FieldTypesApart)
    (hopening : Opening scope ss cs σ ss' τ) : τ.Assembled ∧ τ.FieldTypesApart := by
  induction hopening with
  | nil => exact ⟨hσ, h⟩
  | other _ _ ih => exact ih hσ h
  | cls h1 h2 h3 _ h5 h6 h7 _ ihms ih =>
    obtain ⟨hσ2, hapart2⟩ := fieldTypesApart_openBody hσ h h1 h2
    obtain ⟨hσ6, hapart6⟩ := fieldTypesApart_declarations hσ2 hapart2 h3 ihms h5 h6
    obtain ⟨hσ7, hapart7⟩ := fieldTypesApart_announceFields hσ6 hapart6 h7
    exact ih hσ7 hapart7

/-- When the declarations of a program have been made known, the collections in the types of fields
are reserved for these fields. -/
lemma fieldTypesApart_announce {ss ss' : List Stmt} (hσ : σ.Assembled) (h : σ.FieldTypesApart)
    (hgives : Gives (announce scope ss) σ ss' τ) : τ.FieldTypesApart := by
  obtain ⟨cs, σ1, ss2, σ2, u, σ3, h1, h2, h3, h4⟩ := opening_of_announce hgives
  exact (fieldTypesApart_declarations hσ h h1
    (fun hσ1 hapart1 => fieldTypesApart_opening hσ1 hapart1 h2) h3 h4).2

end Check

/-- Before any class is known there are no fields. -/
lemma Session.fieldTypesApart_new (log : List LogEvent) :
    Session.FieldTypesApart { log := log } := by
  have hvalue {c n b} : ¬TypeTable.HasValue {} c n b := by
    rintro ⟨e, he, -⟩
    cases he
  refine ⟨fun hb => (hvalue hb).elim, fun hu => ?_, fun _ _ _ _ _ _ _ _ _ hb => (hvalue hb).elim,
    fun hb => (hvalue hb).elim⟩
  cases hu with
  | type hf hu => exact ((assembled_new log).types.wellFormed.part_lt hf hu).1
  | frame hf => cases hf
  | name hb hu => exact ((assembled_new log).bindings hb).registered _ hu
  | member he => cases he
  | constructors he => cases he

end MiddleEnd
