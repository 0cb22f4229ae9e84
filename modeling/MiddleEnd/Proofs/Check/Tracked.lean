import MiddleEnd.Proofs.Check.Fields

/-!
What is known of classes while the declarations are made known. The members of a class are the
names in its body and the fields that have been announced, and for those the types are remembered
as they have been read.
-/

namespace MiddleEnd

/-- A variable is written among the members of one of the classes, which has this body. -/
def HasField (ks : List (ClassHead × List Stmt)) (body : ScopeId) (head : VarHead) : Prop :=
  ∃ k ∈ ks, k.1.scope = some body ∧ ∃ init, Stmt.var head init ∈ k.2

lemma HasField.mono {ks ls : List (ClassHead × List Stmt)} {body : ScopeId} {head : VarHead}
    (h : HasField ks body head) (hsub : ks ⊆ ls) : HasField ls body head := by
  obtain ⟨k, hk, hbody, hinit⟩ := h
  exact ⟨k, hsub hk, hbody, hinit⟩

namespace Session

variable {σ τ υ : Session} {ks ls : List (ClassHead × List Stmt)}

/-- The type has been read from what is written at a place, where no name of a type has been
declared since. -/
def HasRead (σ : Session) (place : ScopeId) (written : TypeExpr) (t : TypeId) : Prop :=
  ∃ (s : Scopes) (x : TypeTree), s.Extends σ.scopes ∧
    s.SameTypeNames (place.index + 1) σ.scopes ∧ place.index < s.size ∧
    s.Denotes place written x ∧ σ.types.Unfolds t x

lemma HasRead.mono {place : ScopeId} {written : TypeExpr} {t : TypeId}
    (h : σ.HasRead place written t) (hscopes : σ.scopes.Extends τ.scopes)
    (hnames : σ.scopes.SameTypeNames (place.index + 1) τ.scopes)
    (hforms : σ.types.forms <+: τ.types.forms) : τ.HasRead place written t := by
  obtain ⟨s, x, hs, hn, hlt, hx, hux⟩ := h
  exact ⟨s, x, hs.trans hscopes, hn.trans hnames, hlt, hx, hux.mono hforms⟩

/-- The member has been announced for a field. -/
def Announced (σ : Session) (ks : List (ClassHead × List Stmt)) (body : ScopeId) (b : Binding) :
    Prop :=
  ∃ head written, HasField ks body head ∧ head.name = b.name ∧ head.annotation = some written ∧
    b.kind = .variable ∧ σ.HasRead body written b.type

/-- The members of a class are the names in its body and the announced fields, and the names in
its body are its members unless they are names of fields too. -/
structure Tracked (σ : Session) (ks : List (ClassHead × List Stmt)) : Prop where
  members : ∀ {c e name b}, σ.types.class? c = some e → e.members.find? name = some b →
    ∃ body, e.body = some body ∧
      (σ.scopes.bindingAt? name body = some b ∨ σ.Announced ks body b)
  bindings : ∀ {c e body name b}, σ.types.class? c = some e → e.body = some body →
    σ.scopes.bindingAt? name body = some b →
    e.members.find? name = some b ∨ ∃ head, HasField ks body head ∧ head.name = name
  bodies : ∀ k ∈ ks, ∀ {body}, k.1.scope = some body → body.index < σ.scopes.size

lemma Announced.mono {body : ScopeId} {b : Binding} (h : σ.Announced ks body b)
    (hscopes : σ.scopes.Extends τ.scopes)
    (hnames : σ.scopes.SameTypeNames (body.index + 1) τ.scopes)
    (hforms : σ.types.forms <+: τ.types.forms) : τ.Announced ks body b := by
  obtain ⟨head, written, hfield, hname, hwritten, hkind, hread⟩ := h
  exact ⟨head, written, hfield, hname, hwritten, hkind, hread.mono hscopes hnames hforms⟩

/-- All classes are accounted for when a session grows in which they are. -/
lemma Tracked.extend (h : σ.Tracked ks) (hext : σ.Extends τ)
    (hnames : ∀ k ∈ ks, ∀ {body}, k.1.scope = some body →
      σ.scopes.SameTypeNames (body.index + 1) τ.scopes) : τ.Tracked ks where
  members {c e' name b} he' hb := by
    obtain ⟨e, he, hagree⟩ := hext.exists_class he'
    rw [hagree.body]
    rcases hext.members he he' hb with hb | ⟨body, hbody, hb⟩
    · obtain ⟨body, hbody, hb | hann⟩ := h.members he hb
      · exact ⟨body, hbody, Or.inl (hext.scopes.bindingAt? hb)⟩
      · obtain ⟨head, written, ⟨k, hk, hscope, hinit⟩, hrest⟩ := hann
        have hann : σ.Announced ks body b := ⟨head, written, ⟨k, hk, hscope, hinit⟩, hrest⟩
        exact ⟨body, hbody, Or.inr (hann.mono hext.scopes (hnames k hk hscope) hext.forms)⟩
    · exact ⟨body, hbody, Or.inl hb⟩
  bindings {c e' body name b} he' hbody hb := by
    obtain ⟨e, he, hagree⟩ := hext.exists_class he'
    rw [hagree.body] at hbody
    rcases hext.mirror he he' hbody hb with hm | ⟨hb, hm⟩
    · exact Or.inl hm
    · exact Or.inr ((h.bindings he hbody hb).resolve_left hm)
  bodies k hk _ hbody := Nat.lt_of_lt_of_le (h.bodies k hk hbody) hext.scopes.size_le

/-- A valid session in which all classes are accounted for. -/
structure Consistent (σ : Session) (ks : List (ClassHead × List Stmt)) : Prop where
  valid : σ.Valid
  tracked : σ.Tracked ks

lemma Consistent.reaches (h : σ.Consistent ks) (hr : σ.Reaches τ) : τ.Consistent ks := by
  refine ⟨hr.valid, h.tracked.extend hr.grows.toExtends fun k hk body hbody => ?_⟩
  exact hr.grows.typeNames.mono (h.tracked.bodies k hk hbody)

lemma Consistent.more (h : σ.Consistent ks) (hsub : ks ⊆ ls)
    (hbodies : ∀ k ∈ ls, ∀ {body}, k.1.scope = some body → body.index < σ.scopes.size) :
    σ.Consistent ls where
  valid := h.valid
  tracked := {
    members he hb := by
      obtain ⟨body, hbody, hb | ⟨head, written, hfield, hrest⟩⟩ := h.tracked.members he hb
      · exact ⟨body, hbody, Or.inl hb⟩
      · exact ⟨body, hbody, Or.inr ⟨head, written, hfield.mono hsub, hrest⟩⟩
    bindings he hbody hb := by
      rcases h.tracked.bindings he hbody hb with hm | ⟨head, hfield, hname⟩
      · exact Or.inl hm
      · exact Or.inr ⟨head, hfield.mono hsub, hname⟩
    bodies := hbodies }

/-! ### Steps that hoist -/

/-- The session has more declarations than before: no names of types are new in the first `n`
scopes, and the bodies of classes are as they were, or have been opened. -/
structure Hoists (n : ℕ) (opens : List ClassId) (σ τ : Session) : Prop where
  forms : σ.types.forms <+: τ.types.forms
  scopes : σ.scopes.Extends τ.scopes
  typeNames : σ.scopes.SameTypeNames n τ.scopes
  bodies : ∀ {c e}, σ.types.class? c = some e → ∃ e', τ.types.class? c = some e' ∧
    (e'.body = e.body ∨ c ∈ opens ∧ e.body = none)

namespace Hoists

variable {m n : ℕ} {opens more : List ClassId}

lemma refl (n : ℕ) (σ : Session) : Hoists n [] σ σ where
  forms := List.prefix_refl _
  scopes := .refl _
  typeNames := .refl _ _
  bodies he := ⟨_, he, Or.inl rfl⟩

lemma trans (h : Hoists n opens σ τ) (h' : Hoists m more τ υ) (hnm : n ≤ m) :
    Hoists n (opens ++ more) σ υ where
  forms := h.forms.trans h'.forms
  scopes := h.scopes.trans h'.scopes
  typeNames := h.typeNames.trans (h'.typeNames.mono hnm)
  bodies he := by
    obtain ⟨e', he', hbody⟩ := h.bodies he
    obtain ⟨e'', he'', hbody'⟩ := h'.bodies he'
    refine ⟨e'', he'', ?_⟩
    rcases hbody with hbody | ⟨hc, hnone⟩
    · rw [← hbody]
      exact hbody'.imp_right fun ⟨hc, hnone⟩ => ⟨List.mem_append_right _ hc, hnone⟩
    · exact Or.inr ⟨List.mem_append_left _ hc, hnone⟩

lemma of_grows (h : σ.Grows τ) : Hoists σ.scopes.size [] σ τ where
  forms := h.forms
  scopes := h.scopes
  typeNames := h.typeNames
  bodies he := by
    obtain ⟨e', he', hagree⟩ := h.cls he
    exact ⟨e', he', Or.inl hagree.body⟩

/-- Classes that are new do not count as opened. -/
lemma forget (h : Hoists n (opens ++ more) σ τ) (hnew : ∀ c ∈ more, σ.types.class? c = none) :
    Hoists n opens σ τ where
  forms := h.forms
  scopes := h.scopes
  typeNames := h.typeNames
  bodies {c e} he := by
    obtain ⟨e', he', hbody⟩ := h.bodies he
    refine ⟨e', he', hbody.imp_right fun ⟨hc, hnone⟩ => ⟨?_, hnone⟩⟩
    rcases List.mem_append.mp hc with hc | hc
    · exact hc
    · rw [hnew c hc] at he
      cases he

lemma class?_eq_none (h : Hoists n opens σ τ) {c : ClassId} (hc : τ.types.class? c = none) :
    σ.types.class? c = none := by
  cases he : σ.types.class? c with
  | none => rfl
  | some e =>
    obtain ⟨e', he', -⟩ := h.bodies he
    rw [hc] at he'
    cases he'

end Hoists

lemma IsBody.hoists {c : ClassId} {body : ScopeId} {n : ℕ} {opens : List ClassId}
    (h : σ.IsBody c body) (hστ : Hoists n opens σ τ) : τ.IsBody c body := by
  obtain ⟨e, he, hbody⟩ := h
  obtain ⟨e', he', hbody' | ⟨-, hnone⟩⟩ := hστ.bodies he
  · exact ⟨e', he', hbody'.trans hbody⟩
  · rw [hbody] at hnone
    cases hnone

lemma Opened.hoists {head : ClassHead} {n : ℕ} {opens : List ClassId} (h : σ.Opened head)
    (hστ : Hoists n opens σ τ) : τ.Opened head := by
  obtain ⟨c, body, hc, hscope, hbody⟩ := h
  exact ⟨c, body, hc, hscope, hbody.hoists hστ⟩

/-- A class that is known and whose body has not been opened yet. -/
def Unopened (σ : Session) (c : ClassId) : Prop := ∃ e, σ.types.class? c = some e ∧ e.body = none

lemma Unopened.hoists {c : ClassId} {n : ℕ} {opens : List ClassId} (h : σ.Unopened c)
    (hστ : Hoists n opens σ τ) (hc : c ∉ opens) : τ.Unopened c := by
  obtain ⟨e, he, hnone⟩ := h
  obtain ⟨e', he', hbody | ⟨hmem, -⟩⟩ := hστ.bodies he
  · exact ⟨e', he', hbody.trans hnone⟩
  · exact absurd hmem hc

end Session
end MiddleEnd
