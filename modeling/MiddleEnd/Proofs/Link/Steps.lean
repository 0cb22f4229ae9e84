import MiddleEnd.Proofs.Link.Sees

/-!
The steps of the analysis one by one: what each of them adds to a session or changes in it is added
or changed on the other side too, with linked contents.
-/

namespace MiddleEnd

variable {L : Law} {w : World L.lax} {τ τ' : Session} {scope scope' : ScopeId}

lemma World.Advance.step {base : World L.lax} (hw : base.Advance L w) {δ : Link}
    {Φ Φ' : Cell → Prop} (h : w.Turn δ Φ Φ' τ τ') (hδ : L.Allows δ) (hl : base.left.Later τ)
    (hr : base.right.Later τ') : base.Advance L (w.step h) where
  link hc := Or.inl (hw.link hc)
  new hc hfirm := by
    rcases hc with hc | hc
    · exact hw.new hc hfirm
    · exact Or.inr ⟨(h.new hc).1.before hw.left, (h.new hc).2.1.before hw.right⟩
  root hc := by
    obtain ⟨s, hs, -⟩ := w.leftOrdered.scopes.root
    exact hw.root (hc.resolve_right fun hnew => nomatch hs.symm.trans (h.new hnew).1)
  whole hL hc := by
    rcases hc with hc | hc
    · exact (hw.whole hL hc).imp_right fun ⟨hk, hm⟩ => ⟨Or.inl hk, fun n => Or.inl (hm n)⟩
    · exact Or.inr ⟨Or.inr ((hδ.whole hL).constructors hc),
        fun n => Or.inr ((hδ.whole hL).members n hc)⟩
  apart hL hc := hw.apart hL (hc.resolve_right (hδ.apart hL))
  left := hl
  right := hr

lemma Scopes.scope?_next (t : Scopes) : t.scope? t.next = none :=
  List.getElem?_eq_none (Nat.le_refl _)

namespace Check

/-- A step that is mirrored by one turn of the two sessions. -/
lemma mirrors_turn {α β : Type} {x : Check α} {y : Check β} [hx : Traced True True x]
    [hy : Traced True True y] {post : α → β → World L.lax → Prop}
    (h : ∀ {a τ}, Gives x w.left a τ → ∃ b τ' δ Φ Φ', Gives y w.right b τ' ∧
      w.Turn δ Φ Φ' τ τ' ∧ L.Allows δ ∧
      ∀ υ : World L.lax, υ.left = τ → υ.right = τ' → υ.link = w.link.plus δ → w.Advance L υ →
        post a b υ) :
    Mirrors L x y w post := by
  intro _ a τ ha _
  obtain ⟨b, τ', δ, Φ, Φ', hb, hturn, hδ, hpost⟩ := h ha
  have hadvance := (World.Advance.refl w).step hturn hδ (hx.later ha) (hy.later hb)
  exact Or.inl ⟨b, w.step hturn, rfl, hb, hadvance, hpost _ rfl rfl rfl hadvance⟩

/-- Nothing changes that is linked. -/
lemma mirrors_quiet {α β : Type} {x : Check α} {y : Check β} [hx : Traced True True x]
    [hy : Traced True True y] {post : α → β → World L.lax → Prop}
    (h : ∀ {a τ}, Gives x w.left a τ → ∃ b τ', Gives y w.right b τ' ∧
      w.left.Continues (fun _ => False) τ ∧ w.right.Continues (fun _ => False) τ' ∧
      ∀ υ : World L.lax, post a b υ) : Mirrors L x y w post := by
  refine mirrors_turn fun {a τ} ha => ?_
  obtain ⟨b, τ', hb, hl, hr, hpost⟩ := h ha
  exact ⟨b, τ', fun _ _ => False, fun _ => False, fun _ => False, hb,
    ⟨hl, hr, fun _ hc => (hc.elim id id).elim, fun hc => hc.elim,
      ⟨fun _ _ _ hc => hc.elim, fun _ _ _ hc => hc.elim⟩⟩, Law.allows_of_no_class id id,
    fun υ _ _ _ _ => hpost υ⟩

lemma mirrors_note {e e' : LogEvent} : Mirrors L (note e) (note e') w fun _ _ _ => True :=
  mirrors_quiet fun h => ⟨(), _, gives_note.mpr rfl, (leads_note w.leftOrdered).changes_of_gives h,
    (leads_note w.rightOrdered).changes, fun _ => trivial⟩

lemma mirrors_recordCall {name name' : String} :
    Mirrors L (recordCall scope name) (recordCall scope' name') w fun _ _ _ => True := by
  refine mirrors_quiet fun h => ?_
  have hright : ∃ τ', Gives (recordCall scope' name') w.right () τ' := by
    simp only [recordCall, gives_bind, gives_scopes]
    by_cases hroot : w.right.scopes.declaring? scope' name' = some .root
    · exact ⟨_, _, _, ⟨rfl, rfl⟩, by rw [if_pos hroot]; rfl⟩
    · exact ⟨_, _, _, ⟨rfl, rfl⟩, by rw [if_neg hroot]; rfl⟩
  obtain ⟨τ', hτ'⟩ := hright
  exact ⟨(), τ', hτ', (leads_recordCall w.leftOrdered).changes_of_gives h,
    (leads_recordCall w.rightOrdered).changes_of_gives hτ', fun _ => trivial⟩

/-! ### Types, frames and scopes -/

lemma isStructural_eq {ρ : Link} {f f' : TypeForm} (h : f.Linked ρ f') :
    f'.isStructural = f.isStructural := by
  cases h <;> rfl

/-- Forms that are the same up to the link are built from types that are there. -/
lemma registered_parts {f f' : TypeForm} (h : f.Linked w.link f') :
    (∀ p ∈ f.parts, w.left.types.Registered p) ∧ ∀ p ∈ f'.parts, w.right.types.Registered p := by
  cases h with
  | @basic f hf => cases f <;> simp [TypeForm.isBasic, TypeForm.parts] at hf ⊢
  | array he =>
    have h := w.registered he
    exact ⟨by simpa [TypeForm.parts] using h.1, by simpa [TypeForm.parts] using h.2⟩
  | dictionary hk hv =>
    have hk := w.registered hk
    have hv := w.registered hv
    exact ⟨by simpa [TypeForm.parts] using ⟨hk.1, hv.1⟩,
      by simpa [TypeForm.parts] using ⟨hk.2, hv.2⟩⟩
  | object => exact ⟨by simp [TypeForm.parts], by simp [TypeForm.parts]⟩

inductive NewType (t t' : TypeId) : Link
  | type : NewType t t' (.type t) (.type t')

lemma mirrors_addType {f f' : TypeForm} (hf : f.isStructural = true) (h : f.Linked w.link f') :
    Mirrors L (addType f) (addType f') w fun t t' υ => υ.link.type t t' := by
  refine mirrors_turn fun {t τ} ht => ?_
  obtain ⟨hparts, hparts'⟩ := registered_parts h
  have hleft := (leads_addType (Φ := fun _ => False) w.leftOrdered hf hparts).changes_of_gives ht
  have hright := (leads_addType (Φ := fun _ => False) w.rightOrdered
    ((isStructural_eq h).trans hf) hparts').changes_of_gives (gives_addType.mpr ⟨rfl, rfl⟩)
  obtain ⟨rfl, rfl⟩ := gives_addType.mp ht
  refine ⟨_, _, NewType w.left.types.next w.right.types.next, fun _ => False, fun _ => False,
    gives_addType.mpr ⟨rfl, rfl⟩, ⟨hleft, hright, fun _ hc => (hc.elim id id).elim, ?_, ?_⟩,
    Law.allows_of_no_class nofun nofun, fun υ _ _ hυ _ => hυ ▸ Or.inr .type⟩
  · rintro _ _ ⟨⟩
    exact ⟨TypeTable.form?_next _, TypeTable.form?_next _, .type (TypeTable.form?_add_next _ f)
      (TypeTable.form?_add_next _ f') (h.mono (Link.within_of_le Or.inl))⟩
  · exact ⟨by rintro _ _ _ ⟨⟩ ⟨⟩; rfl, by rintro _ _ _ ⟨⟩ ⟨⟩; rfl⟩

inductive NewFrame (lax : Prop) (f f' : FrameId) : Link
  | frame : NewFrame lax f f' (.frame f) (.frame f')
  | settled (h : ¬lax) : NewFrame lax f f' (.settled f) (.settled f')

lemma mirrors_addFrame {f f' : Frame} (hkind : f'.kind = f.kind)
    (hresult : w.link.type f.result f'.result) (hsettled : f'.settled = f.settled) :
    Mirrors L (addFrame f) (addFrame f') w fun id id' υ =>
      υ.link.frame id id' ∧ (¬L.lax → υ.link (.settled id) (.settled id')) := by
  refine mirrors_turn fun {id τ} hid => ?_
  have hleft := (leads_addFrame (Φ := fun _ => False) w.leftOrdered).changes_of_gives hid
  have hright := (leads_addFrame (Φ := fun _ => False) (f := f') w.rightOrdered).changes_of_gives
    (gives_addFrame.mpr ⟨rfl, rfl⟩)
  obtain ⟨rfl, rfl⟩ := gives_addFrame.mp hid
  refine ⟨_, _, NewFrame L.lax w.left.scopes.nextFrame w.right.scopes.nextFrame, fun _ => False,
    fun _ => False, gives_addFrame.mpr ⟨rfl, rfl⟩,
    ⟨hleft, hright, fun _ hc => (hc.elim id id).elim, ?_, ?_⟩, Law.allows_of_no_class nofun nofun,
    fun υ _ _ hυ _ => hυ ▸ ⟨Or.inr .frame, fun h => Or.inr (.settled h)⟩⟩
  · rintro _ _ (_ | hstrict)
    · exact ⟨Scopes.frame?_nextFrame _, Scopes.frame?_nextFrame _,
        .frame (Scopes.frame?_addFrame _ f) (Scopes.frame?_addFrame _ f') hkind (Or.inl hresult)⟩
    · exact ⟨Scopes.frame?_nextFrame _, Scopes.frame?_nextFrame _,
        .settled hstrict (Scopes.frame?_addFrame _ f) (Scopes.frame?_addFrame _ f') hsettled⟩
  · exact ⟨by rintro _ _ _ ⟨⟩ ⟨⟩ <;> rfl, by rintro _ _ _ ⟨⟩ ⟨⟩ <;> rfl⟩

/-- The scopes are opened for the same. -/
inductive KindLinked (L : Law) (w : World L.lax) : ScopeKind → ScopeKind → Prop
  | function {f f' : FrameId} (h : w.link.frame f f')
      (hsettled : ¬L.lax → w.link (.settled f) (.settled f')) :
      KindLinked L w (.function f) (.function f')
  | cls {c c' : ClassId} (hc : w.link.cls c c') (hbody : w.link.body c c') :
      KindLinked L w (.cls c) (.cls c')
  | loop : KindLinked L w .loop .loop
  | block : KindLinked L w .block .block

lemma KindLinked.inner {s s' : Scope} {kind kind' : ScopeKind} (hkind : KindLinked L w kind kind')
    (hs : s.Linked w.link s') (hscope : w.link.scope scope scope') :
    (s.inner scope kind).Linked w.link (s'.inner scope' kind') := by
  cases hkind with
  | function hf => exact ⟨rfl, .some hscope, .some hf, hs.cls⟩
  | cls hc hbody => exact ⟨rfl, .some hscope, hs.frame, .some ⟨hc, hbody⟩⟩
  | loop => exact ⟨rfl, .some hscope, hs.frame, hs.cls⟩
  | block => exact ⟨hs.inLoop, .some hscope, hs.frame, hs.cls⟩

lemma KindLinked.settled {s s' : Scope} {kind kind' : ScopeKind} {f f' : FrameId}
    (hkind : KindLinked L w kind kind') (hstrict : ¬L.lax)
    (hs : ∀ {f f'}, s.frame = some f → s'.frame = some f' → w.link (.settled f) (.settled f'))
    (hf : (s.inner scope kind).frame = some f) (hf' : (s'.inner scope' kind').frame = some f') :
    w.link (.settled f) (.settled f') := by
  cases hkind with
  | function _ hsettled =>
    cases hf
    cases hf'
    exact hsettled hstrict
  | cls | loop | block => exact hs hf hf'

lemma KindLinked.present {kind kind' : ScopeKind} (h : KindLinked L w kind kind') :
    kind.Present w.left.types w.left.scopes ∧ kind'.Present w.right.types w.right.scopes := by
  cases h with
  | function hf =>
    cases w.agree hf with
    | frame hl hr => exact ⟨⟨_, hl⟩, _, hr⟩
  | cls hc =>
    cases w.agree hc with
    | cls hl hr => exact ⟨⟨_, hl⟩, _, hr⟩
  | loop | block => exact ⟨trivial, trivial⟩

/-- A scope that is new on both sides, and the names that may be declared in it. -/
inductive NewScope (id id' : ScopeId) : Link
  | scope : NewScope id id' (.scope id) (.scope id')
  | name (n : String) : NewScope id id' (.name id n) (.name id' n)

lemma biUnique_newScope (id id' : ScopeId) : Relator.BiUnique (NewScope id id') :=
  ⟨by rintro _ _ _ ⟨⟩ ⟨⟩ <;> rfl, by rintro _ _ _ ⟨⟩ ⟨⟩ <;> rfl⟩

lemma gives_openIn {σ τ : Session} {kind : ScopeKind} {id : ScopeId} :
    Gives (openIn scope kind) σ id τ ↔ ∃ larger, σ.scopes.openIn scope kind = .ok larger ∧
      σ.scopes.next = id ∧ { σ with scopes := larger } = τ := by
  unfold openIn
  simp only [gives_bind, gives_scopes, gives_rule, gives_updateScopes, gives_pure]
  constructor
  · rintro ⟨_, _, ⟨rfl, rfl⟩, larger, _, ⟨hlarger, rfl⟩, _, _, rfl, rfl, rfl⟩
    exact ⟨larger, hlarger, rfl, rfl⟩
  · rintro ⟨larger, hlarger, rfl, rfl⟩
    exact ⟨_, _, ⟨rfl, rfl⟩, larger, _, ⟨hlarger, rfl⟩, (), _, rfl, rfl, rfl⟩

lemma exists_openIn {σ : Session} {s : Scope} (hs : σ.scopes.scope? scope = some s)
    (kind : ScopeKind) : ∃ τ, Gives (openIn scope kind) σ σ.scopes.next τ :=
  ⟨_, gives_openIn.mpr ⟨_, Except.bind_eq_ok.mpr ⟨s, Scopes.scope_eq_ok.mpr hs, rfl⟩, rfl, rfl⟩⟩

/-- From scopes that are opened inside scopes that see the same, the same is seen. -/
lemma mirrors_openIn {kind kind' : ScopeKind} (hsees : w.Sees L scope scope')
    (hkind : KindLinked L w kind kind') :
    Mirrors L (openIn scope kind) (openIn scope' kind') w fun id id' υ => υ.Sees L id id' := by
  refine mirrors_turn fun {i τ} hi => ?_
  obtain ⟨s, s', hs, hs', hlinked⟩ := w.scope hsees.scope
  obtain ⟨τ', hi'⟩ := exists_openIn hs' kind'
  have hleft : Leads (Session.Continues fun _ => False) (openIn scope kind) w.left _ :=
    leads_openIn w.leftOrdered hkind.present.1
  have hright : Leads (Session.Continues fun _ => False) (openIn scope' kind') w.right _ :=
    leads_openIn w.rightOrdered hkind.present.2
  obtain ⟨hnone, base, hbase, hnew⟩ := hleft.result hi
  obtain ⟨hnone', base', hbase', hnew'⟩ := hright.result hi'
  cases hs.symm.trans hbase
  cases hs'.symm.trans hbase'
  refine ⟨_, τ', NewScope i w.right.scopes.next, fun _ => False, fun _ => False, hi',
    ⟨hleft.changes_of_gives hi, hright.changes_of_gives hi', fun _ hc => (hc.elim id id).elim, ?_,
      biUnique_newScope _ _⟩, Law.allows_of_no_class nofun nofun, ?_⟩
  · -- the new scopes are alike and have no names
    rintro _ _ (_ | n)
    · exact ⟨hnone, hnone', .scope hnew hnew'
        ((hkind.inner hlinked hsees.scope).mono (Link.within_of_le Or.inl))⟩
    · refine ⟨hnone, hnone', .name (Or.inr .scope) hnew hnew' ?_⟩
      rw [Scopes.inner_bindings, Scopes.inner_bindings]
      exact .none
  · -- what is seen from them is what was seen around them
    rintro υ rfl rfl hυ hadvance
    refine .inner hnew hnew' (Scopes.inner_parent s) (Scopes.inner_parent s') (hυ ▸ Or.inr .scope)
      (fun n => hυ ▸ Or.inr (.name n)) (fun hstrict f f' hf hf' => hadvance.link ?_)
      (hsees.mono hadvance)
    exact hkind.settled hstrict (hsees.settled hstrict hs hs') hf hf'

/-! ### Names -/

/-- What may change when a name is declared: the name in its scope, and the member of the class
whose body the scope is. -/
def Named (σ : Session) (scope : ScopeId) (n : String) : Cell → Prop
  | .name id m => id = scope ∧ m = n
  | .member c m => m = n ∧ ∀ e, σ.types.class? c = some e → e.body = some scope
  | _ => False

lemma declaring_named (σ : Session) (scope : ScopeId) (n : String) :
    σ.Declaring (Named σ scope n) scope n := by
  refine ⟨⟨rfl, rfl⟩, fun c => ?_⟩
  by_cases h : ∀ e, σ.types.class? c = some e → e.body = some scope
  · exact Or.inl ⟨rfl, h⟩
  · obtain ⟨e, h⟩ := not_forall.mp h
    obtain ⟨he, hbody⟩ := Classical.not_imp.mp h
    exact Or.inr ⟨e, he, hbody, id⟩

/-- A scope that is there has an owner or none. -/
lemma owner?_of_scope? {σ : Session} {s : Scope} (hs : σ.scopes.scope? scope = some s) :
    Gives (owner? scope) σ
      (s.cls.filter fun c => (σ.types.class? c).any (·.body = some scope)) σ := by
  unfold owner?
  simp only [gives_bind, gives_scopes, gives_types, gives_rule, gives_pure]
  exact ⟨_, _, ⟨rfl, rfl⟩, s, _, ⟨Scopes.scope_eq_ok.mpr hs, rfl⟩, _, _, ⟨rfl, rfl⟩, rfl, rfl⟩

lemma exists_declare {σ : Session} {s : Scope} {b : Binding} (hs : σ.scopes.scope? scope = some s)
    (hb : s.bindings.find? b.name = none) (span : Span) :
    ∃ τ, Gives (declare scope b span) σ () τ := by
  have hlarger : σ.scopes.declare scope b span = .ok { σ.scopes with
      scopes := σ.scopes.scopes.set scope.index { s with bindings := s.bindings.insert b } } := by
    refine Except.bind_eq_ok.mpr ⟨s, Scopes.scope_eq_ok.mpr hs, Except.bind_eq_ok.mpr ⟨(), ?_, rfl⟩⟩
    rw [ensure_eq_ok]
    simp [Bindings.contains, hb]
  have howner := owner?_of_scope? hs
  unfold declare
  simp only [gives_bind, gives_scopes, gives_rule, gives_updateScopes]
  cases hc : s.cls.filter fun c => (σ.types.class? c).any (·.body = some scope) with
  | none =>
    rw [hc] at howner
    exact ⟨_, none, _, howner, _, _, ⟨rfl, rfl⟩, _, _, ⟨hlarger, rfl⟩, (), _, rfl, rfl⟩
  | some c =>
    -- a class whose body is known is there
    rw [hc] at howner
    obtain ⟨-, hbody⟩ := Option.filter_eq_some_iff.mp hc
    obtain ⟨e, he, -⟩ := (Option.any_eq_true _ _).mp hbody
    exact ⟨_, some c, _, howner, _, _, ⟨rfl, rfl⟩, _, _, ⟨hlarger, rfl⟩, (), _, rfl,
      gives_changeClass.mpr ⟨⟨e, he⟩, rfl⟩⟩

/-- The member of a class is linked with the member of that name of the linked class. -/
lemma eq_of_linked_member {c : ClassId} {n : String} {x : Cell} (h : w.link (.member c n) x) :
    ∃ c', x = .member c' n ∧ w.link.cls c c' := by
  cases w.agree h with
  | member hcls => exact ⟨_, rfl, hcls⟩

lemma linked_member_eq {c' : ClassId} {n : String} {x : Cell} (h : w.link x (.member c' n)) :
    ∃ c, x = .member c n ∧ w.link.cls c c' := by
  cases w.agree h with
  | member hcls => exact ⟨_, rfl, hcls⟩

/-- The bodies of linked classes are linked scopes, if a scope in them is linked. -/
lemma body_iff (hscope : w.link.scope scope scope') {c c' : ClassId} {e e' : ClassEntry}
    (hcls : w.link.cls c c') (he : w.left.types.class? c = some e)
    (he' : w.right.types.class? c' = some e') :
    e.body = some scope ↔ e'.body = some scope' := by
  obtain ⟨s, s', hs, hs', hlinked⟩ := w.scope hscope
  have key {d d' : ClassId} (hbody : w.link.body d d') {k k' : ClassEntry}
      (hk : w.left.types.class? d = some k) (hk' : w.right.types.class? d' = some k') :
      Option.Rel w.link.scope k.body k'.body := by
    cases w.agree hbody with
    | body _ h h' hx =>
      cases hk.symm.trans h
      cases hk'.symm.trans h'
      exact hx
  constructor
  · intro hb
    obtain ⟨t, ht, hc⟩ := w.leftOrdered.bodies he hb
    cases hs.symm.trans ht
    obtain ⟨d', hd', hcd, hbody⟩ := Option.Rel.exists_of_some hlinked.cls hc
    cases w.unique.2 hcls hcd
    obtain ⟨x', hx', hxx⟩ := Option.Rel.exists_of_some (key hbody he he') hb
    cases w.unique.2 hscope hxx
    exact hx'
  · intro hb
    obtain ⟨t, ht, hc⟩ := w.rightOrdered.bodies he' hb
    cases hs'.symm.trans ht
    obtain ⟨d, hd, hcd, hbody⟩ := Option.Rel.exists_of_some_right hlinked.cls hc
    cases w.unique.1 hcls hcd
    obtain ⟨x, hx, hxx⟩ := Option.Rel.exists_of_some_right (key hbody he he') hb
    cases w.unique.1 hscope hxx
    exact hx

lemma registered_all {ts ts' : List TypeId} (h : List.Forall₂ w.link.type ts ts') :
    (∀ t ∈ ts, w.left.types.Registered t) ∧ ∀ t ∈ ts', w.right.types.Registered t := by
  induction h with
  | nil => exact ⟨nofun, nofun⟩
  | cons ht _ ih =>
    rw [List.forall_mem_cons, List.forall_mem_cons]
    exact ⟨⟨(w.registered ht).1, ih.1⟩, ⟨(w.registered ht).2, ih.2⟩⟩

lemma valid_of_linked {b b' : Binding} (hb : b.Linked w.link b')
    (hd : b.denotesType = true → w.left.types.Nominal b.type) :
    b.Valid w.left.types ∧ b'.Valid w.right.types := by
  have htype := w.registered hb.type
  have hnominal (h : b'.denotesType = true) : w.right.types.Nominal b'.type := by
    obtain ⟨f, hf, hn⟩ := hd (hb.denotesType_eq ▸ h)
    obtain ⟨g, g', hg, hg', hform⟩ := w.form hb.type
    cases hf.symm.trans hg
    refine ⟨g', hg', ?_⟩
    rw [TypeForm.isNominal, isStructural_eq hform]
    exact hn
  obtain ⟨n, k, ty, bt⟩ := b
  obtain ⟨n', k', ty', bt'⟩ := b'
  have hkind : k.Linked w.link k' := hb.kind
  refine ⟨⟨htype.1, ?_, hd⟩, ⟨htype.2, ?_, hnominal⟩⟩
  · rintro sig rfl
    cases hkind with
    | function hps hr => exact ⟨(w.registered hr).1, (registered_all hps).1⟩
  · rintro sig rfl
    cases hkind with
    | function hps hr => exact ⟨(w.registered hr).2, (registered_all hps).2⟩

lemma present_of_linked {b b' : Binding} (hb : b.Linked w.link b') :
    b.Present w.left.types ∧ b'.Present w.right.types := by
  obtain ⟨n, k, ty, bt⟩ := b
  obtain ⟨n', k', ty', bt'⟩ := b'
  have hkind : k.Linked w.link k' := hb.kind
  constructor
  · rintro c ⟨⟩
    cases hkind with
    | cls hc =>
      cases w.agree hc with
      | cls he _ => exact ⟨_, he⟩
  · rintro c ⟨⟩
    cases hkind with
    | cls hc =>
      cases w.agree hc with
      | cls _ he => exact ⟨_, he⟩

/-- The cells that change when a name is declared on both sides. -/
lemma named_cases (hscope : w.link.scope scope scope') {n : String}
    (hname : w.link (.name scope n) (.name scope' n)) {x x' : Cell} (h : w.link x x')
    (hx : Named w.left scope n x ∨ Named w.right scope' n x') :
    x = .name scope n ∧ x' = .name scope' n ∨
      ∃ c c' e e', x = .member c n ∧ x' = .member c' n ∧ w.link.cls c c' ∧
        w.left.types.class? c = some e ∧ e.body = some scope ∧
        w.right.types.class? c' = some e' ∧ e'.body = some scope' := by
  rcases hx with hx | hx
  · cases x with
    | name id m =>
      obtain ⟨rfl, rfl⟩ := hx
      exact Or.inl ⟨rfl, (w.unique.2 hname h).symm⟩
    | member c m =>
      obtain ⟨rfl, hbody⟩ := hx
      obtain ⟨c', rfl, hcls⟩ := eq_of_linked_member h
      obtain ⟨e, e', he, he', -⟩ := w.classEntry hcls
      exact Or.inr ⟨c, c', e, e', rfl, rfl, hcls, he, hbody e he, he',
        (body_iff hscope hcls he he').mp (hbody e he)⟩
    | _ => exact hx.elim
  · cases x' with
    | name id m =>
      obtain ⟨rfl, rfl⟩ := hx
      exact Or.inl ⟨(w.unique.1 hname h).symm, rfl⟩
    | member c' m =>
      obtain ⟨rfl, hbody⟩ := hx
      obtain ⟨c, rfl, hcls⟩ := linked_member_eq h
      obtain ⟨e, e', he, he', -⟩ := w.classEntry hcls
      exact Or.inr ⟨c, c', e, e', rfl, rfl, hcls, he,
        (body_iff hscope hcls he he').mpr (hbody e' he'), he', hbody e' he'⟩
    | _ => exact hx.elim

lemma mirrors_declare {b b' : Binding} {span span' : Span} (hscope : w.link.scope scope scope')
    (hname : w.link (.name scope b.name) (.name scope' b.name)) (hb : b.Linked w.link b')
    (hd : b.denotesType = true → w.left.types.Nominal b.type) :
    Mirrors L (declare scope b span) (declare scope' b' span') w fun _ _ _ => True := by
  refine mirrors_turn fun {u τ} hu => ?_
  have hdecl := declares_of_declare w.leftOrdered.bodies hu
  obtain ⟨τ', hu'⟩ : ∃ τ', Gives (declare scope' b' span') w.right () τ' := by
    -- the name is free on the right, because it is free on the left
    cases w.agree hname with
    | name _ hs hs' hfind =>
      have hnone := hdecl.fresh
      rw [Scopes.bindingAt?, hs, Option.bind_some] at hnone
      rw [hnone] at hfind
      exact exists_declare hs' (hb.name ▸ Option.Rel.eq_none hfind) span'
  have hdecl' := declares_of_declare w.rightOrdered.bodies hu'
  obtain ⟨hvalid, hvalid'⟩ := valid_of_linked hb hd
  obtain ⟨hpresent, hpresent'⟩ := present_of_linked hb
  have hleft := (leads_declare w.leftOrdered hvalid hpresent
    (declaring_named _ _ _)).changes_of_gives hu
  have hright := (leads_declare w.rightOrdered hvalid' hpresent'
    (declaring_named _ _ _)).changes_of_gives hu'
  have hb : b.Linked (w.link.plus fun _ _ => False) b' := hb.mono (Link.within_of_le Or.inl)
  refine ⟨(), τ', fun _ _ => False, Named w.left scope b.name, Named w.right scope' b'.name, hu',
    ⟨hleft, hright, fun {x x'} h hx => ?_, fun h => h.elim,
      ⟨fun _ _ _ h => h.elim, fun _ _ _ h => h.elim⟩⟩, Law.allows_of_no_class id id,
      fun _ _ _ _ _ => trivial⟩
  rw [hb.name] at hx
  rcases named_cases hscope hname h hx with
    ⟨rfl, rfl⟩ | ⟨c, c', e, e', rfl, rfl, hcls, he, hbody, he', hbody'⟩
  · -- the cell of the name
    obtain ⟨s, hs, hfind⟩ := Scopes.bindingAt?_eq_some.mp hdecl.bindingAt?_self
    obtain ⟨s', hs', hfind'⟩ := Scopes.bindingAt?_eq_some.mp hdecl'.bindingAt?_self
    refine .name (Or.inl hscope) hs hs' ?_
    rw [hb.name] at hfind'
    rw [hfind, hfind']
    exact .some hb
  · -- the cell of the member, if the scope is the body of a class
    have hl : τ.types.class? c = some { e with members := e.members.insert b } := by
      rw [hdecl.class?, he, Option.map_some, if_pos hbody]
    have hr : τ'.types.class? c' = some { e' with members := e'.members.insert b' } := by
      rw [hdecl'.class?, he', Option.map_some, if_pos hbody']
    refine .member (Or.inl hcls) hl hr ?_
    rw [Bindings.find?_insert, Bindings.find?_insert, if_pos rfl, if_pos hb.name]
    exact .some hb

/-- A name is declared on both sides. On the left a function that the right lacks may have the name
in the root scope, but nothing else. -/
lemma mirrors_declare_seen {b b' : Binding} {span span' : Span} (hscope : w.link.scope scope scope')
    (hname : w.link (.name scope b.name) (.name scope' b.name) ∨ L.dropped b.name ∧ scope = .root)
    (hb : b.Linked w.link b') (hd : b.denotesType = true → w.left.types.Nominal b.type)
    (hroot : scope = .root → L.dropped b.name → ∀ sig, b.kind ≠ .function sig) :
    Mirrors L (declare scope b span) (declare scope' b' span') w fun _ _ _ => True := by
  rcases hname with hname | ⟨hdropped, rfl⟩
  · exact mirrors_declare hscope hname hb hd
  · refine .absurd fun u τ hu hclean => ?_
    have hdecl := declares_of_declare w.leftOrdered.bodies hu
    obtain ⟨sig, hsig⟩ := hclean.names hdropped hdecl.bindingAt?_self
    exact hroot rfl hdropped sig hsig

/-! ### Written types and parameters -/

lemma namedType_of_lookup {t : Scopes} {s : Scope} {name : String} {b : Binding}
    (hs : t.scope? scope = some s) (hb : t.lookup scope name = some b) (hd : b.denotesType = true)
    (span : Span) : t.namedType scope name span = .ok b.type := by
  refine Except.bind_eq_ok.mpr ⟨b, ?_, Except.bind_eq_ok.mpr ⟨(), ensure_eq_ok.mpr hd, rfl⟩⟩
  refine Except.bind_eq_ok.mpr ⟨s, Scopes.scope_eq_ok.mpr hs, ?_⟩
  rw [hb]
  rfl

/-- A written type denotes the same on both sides. -/
lemma mirrors_typeOf {e : TypeExpr} (hsees : w.Sees L scope scope') :
    Mirrors L (typeOf scope e) (typeOf scope' e) w fun t t' υ => υ.link.type t t' := by
  induction e generalizing w with
  | named name span =>
    rw [typeOf_named, typeOf_named]
    refine .with_clean fun hclean => .bind_scopes (.rule fun t ht => ?_)
    obtain ⟨b, hb, hd, rfl⟩ := Scopes.namedType_eq_ok ht
    obtain ⟨_, s', _, hs', _⟩ := w.scope hsees.scope
    rcases hsees.lookup hb with ⟨b', hb', hlinked⟩ | ⟨hdropped, -, hroot⟩
    · exact ⟨b'.type, namedType_of_lookup hs' hb' (hlinked.denotesType_eq.trans hd) span,
        hlinked.type⟩
    · -- what is dropped is a function and denotes no type
      obtain ⟨sig, hsig⟩ := hclean.names hdropped hroot
      rw [Binding.denotesType, hsig] at hd
      cases hd
  | array e ih =>
    rw [typeOf_array, typeOf_array]
    exact (ih hsees).bind fun t t' υ hυ ht => (mirrors_addType rfl (.array ht)).last
  | dictionary k v ihk ihv =>
    rw [typeOf_dictionary, typeOf_dictionary]
    refine (ihk hsees).bind fun t t' υ hυ ht => ?_
    refine (ihv (hsees.mono hυ)).bind fun u u' ω hω hu => ?_
    exact (mirrors_addType rfl (.dictionary (hω.link ht) hu)).last

lemma mirrors_typeOf? {e : Option TypeExpr} (hsees : w.Sees L scope scope') :
    Mirrors L (typeOf? scope e) (typeOf? scope' e) w fun t t' υ => Option.Rel υ.link.type t t' := by
  cases e with
  | none => exact .pure .none
  | some e => exact (mirrors_typeOf hsees).map fun t t' υ _ ht => .some ht

lemma linked_getD_any {υ : World L.lax} {t t' : Option TypeId} (h : Option.Rel υ.link.type t t') :
    υ.link.type (t.getD .any) (t'.getD .any) := by
  cases h with
  | none => exact υ.any
  | some h => exact h

lemma mirrors_params {ps : List Param} (hsees : w.Sees L scope scope') :
    Mirrors L (params scope ps) (params scope' ps) w fun qs qs' υ =>
      List.Forall₂ υ.link.type (Param.types qs) (Param.types qs') := by
  induction ps generalizing w with
  | nil => exact .pure .nil
  | cons p ps ih =>
    rw [params, params]
    refine (mirrors_typeOf? hsees).bind fun t t' υ hυ ht => ?_
    have ht := linked_getD_any ht
    have hp : (Binding.ofParameter p.name (t.getD .any)).Linked υ.link
        (.ofParameter p.name (t'.getD .any)) := ⟨rfl, .parameter, ht, rfl⟩
    have hvalue : (Binding.ofParameter p.name (t.getD .any)).denotesType = false := rfl
    have hkind : ∀ sig, (Binding.ofParameter p.name (t.getD .any)).kind ≠ .function sig :=
      fun sig h => by cases h
    have hsees' := hsees.mono hυ
    refine (mirrors_declare_seen hsees'.scope (hsees'.name _) hp (fun h => by simp [hvalue] at h)
      fun _ _ => hkind).bind fun _ _ ω hω _ => ?_
    exact (ih (hsees.mono (hυ.trans hω))).bind_pure fun qs qs' ψ hψ hqs =>
      .cons (hψ.link (hω.link ht)) hqs

end Check

end MiddleEnd
