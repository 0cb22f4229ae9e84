import Mathlib.Logic.Relator
import MiddleEnd.Proofs.Check.Changes

/-!
Two sessions side by side. A link says which cells of one stand for which cells of the other, and
linked cells agree: they hold the same up to the link. Types, classes, scopes and frames may have
different numbers in the two sessions, and cells that are not linked may hold anything.
-/

namespace MiddleEnd

/-- Cells of one session, and the cells of another that stand for the same. -/
abbrev Link := Cell → Cell → Prop

namespace Link

abbrev type (ρ : Link) (t t' : TypeId) : Prop := ρ (.type t) (.type t')

abbrev cls (ρ : Link) (c c' : ClassId) : Prop := ρ (.cls c) (.cls c')

abbrev scope (ρ : Link) (s s' : ScopeId) : Prop := ρ (.scope s) (.scope s')

abbrev frame (ρ : Link) (f f' : FrameId) : Prop := ρ (.frame f) (.frame f')

abbrev body (ρ : Link) (c c' : ClassId) : Prop := ρ (.body c) (.body c')

def plus (ρ δ : Link) : Link := fun c c' => ρ c c' ∨ δ c c'

end Link

/-- What cells refer to: types, classes, scopes, frames and the bodies of classes. -/
def Cell.isFirm : Cell → Bool
  | .type _ | .cls _ | .scope _ | .frame _ | .body _ => true
  | .name .. | .member .. | .constructors _ | .settled _ => false

/-- All that one link says of what cells refer to, the other says too. -/
def Link.Within (ρ π : Link) : Prop := ∀ {c c'}, c.isFirm = true → ρ c c' → π c c'

lemma Link.within_of_le {ρ π : Link} (h : ∀ {c c'}, ρ c c' → π c c') : ρ.Within π := fun _ => h

/-- Classes are linked with their constructors and members. -/
structure Link.Whole (ρ : Link) : Prop where
  constructors : ∀ {c c'}, ρ.cls c c' → ρ (.constructors c) (.constructors c')
  members : ∀ {c c'} n, ρ.cls c c' → ρ (.member c n) (.member c' n)

lemma Link.whole_of_no_class {ρ : Link} (h : ∀ {c c'}, ¬ρ.cls c c') : ρ.Whole :=
  ⟨fun hc => (h hc).elim, fun _ hc => (h hc).elim⟩

/-! ### The same up to a link -/

/-- The forms are the same up to the link. -/
inductive TypeForm.Linked (ρ : Link) : TypeForm → TypeForm → Prop
  | basic {f : TypeForm} (h : f.isBasic = true) : Linked ρ f f
  | array {e e' : TypeId} (h : ρ.type e e') : Linked ρ (.array e) (.array e')
  | dictionary {k k' v v' : TypeId} (hk : ρ.type k k') (hv : ρ.type v v') :
      Linked ρ (.dictionary k v) (.dictionary k' v')
  | object {c c' : ClassId} {name : String} (h : ρ.cls c c') :
      Linked ρ (.object c name) (.object c' name)

inductive BindingKind.Linked (ρ : Link) : BindingKind → BindingKind → Prop
  | type : Linked ρ .type .type
  | value : Linked ρ .variable .variable
  | parameter : Linked ρ .parameter .parameter
  | function {ps ps' : List TypeId} {r r' : TypeId} (hps : List.Forall₂ ρ.type ps ps')
      (hr : ρ.type r r') : Linked ρ (.function ⟨ps, r⟩) (.function ⟨ps', r'⟩)
  | cls {c c' : ClassId} (h : ρ.cls c c') : Linked ρ (.cls c) (.cls c')

/-- The name stands for the same in both sessions. -/
structure Binding.Linked (ρ : Link) (b b' : Binding) : Prop where
  name : b'.name = b.name
  kind : b.kind.Linked ρ b'.kind
  type : ρ.type b.type b'.type
  builtin : b'.builtin = b.builtin

/-- The scopes stand at the same place. A scope in the body of a class refers to the body. -/
structure Scope.Linked (ρ : Link) (s s' : Scope) : Prop where
  inLoop : s'.inLoop = s.inLoop
  parent : Option.Rel ρ.scope s.parent s'.parent
  frame : Option.Rel ρ.frame s.frame s'.frame
  cls : Option.Rel (fun c c' => ρ.cls c c' ∧ ρ.body c c') s.cls s'.cls

section Mono

variable {ρ π : Link}

section Imp

variable (htype : ∀ {t t'}, ρ.type t t' → π.type t t') (hcls : ∀ {c c'}, ρ.cls c c' → π.cls c c')

include htype hcls

lemma TypeForm.Linked.imp {f f' : TypeForm} (hf : f.Linked ρ f') : f.Linked π f' := by
  cases hf with
  | basic hb => exact .basic hb
  | array he => exact .array (htype he)
  | dictionary hk hv => exact .dictionary (htype hk) (htype hv)
  | object hc => exact .object (hcls hc)

lemma BindingKind.Linked.imp {k k' : BindingKind} (hk : k.Linked ρ k') : k.Linked π k' := by
  cases hk with
  | type => exact .type
  | value => exact .value
  | parameter => exact .parameter
  | function hps hr => exact .function (hps.imp fun _ _ => htype) (htype hr)
  | cls hc => exact .cls (hcls hc)

lemma Binding.Linked.imp {b b' : Binding} (hb : b.Linked ρ b') : b.Linked π b' :=
  ⟨hb.name, hb.kind.imp htype hcls, htype hb.type, hb.builtin⟩

end Imp

lemma Link.Within.types (h : ρ.Within π) {ts ts' : List TypeId}
    (hts : List.Forall₂ ρ.type ts ts') : List.Forall₂ π.type ts ts' :=
  hts.imp fun _ _ ht => h rfl ht

lemma TypeForm.Linked.mono (h : ρ.Within π) {f f' : TypeForm} (hf : f.Linked ρ f') :
    f.Linked π f' :=
  hf.imp (h rfl) (h rfl)

lemma Binding.Linked.mono (h : ρ.Within π) {b b' : Binding} (hb : b.Linked ρ b') :
    b.Linked π b' :=
  hb.imp (h rfl) (h rfl)

lemma Option.Rel.mono {α β : Type} {r s : α → β → Prop} (h : ∀ {a b}, r a b → s a b) {a : Option α}
    {b : Option β} (hab : Option.Rel r a b) : Option.Rel s a b := by
  cases hab with
  | none => exact .none
  | some hab => exact .some (h hab)

lemma Scope.Linked.mono (h : ρ.Within π) {s s' : Scope} (hs : s.Linked ρ s') : s.Linked π s' where
  inLoop := hs.inLoop
  parent := Option.Rel.mono (h rfl) hs.parent
  frame := Option.Rel.mono (h rfl) hs.frame
  cls := Option.Rel.mono (fun hc => ⟨h rfl hc.1, h rfl hc.2⟩) hs.cls

lemma Option.Rel.isSome_eq {α β : Type} {r : α → β → Prop} {a : Option α} {b : Option β}
    (h : Option.Rel r a b) : b.isSome = a.isSome := by
  cases h <;> rfl

lemma Option.Rel.eq_none {α β : Type} {r : α → β → Prop} {b : Option β}
    (h : Option.Rel r none b) : b = none := by
  cases h
  rfl

lemma Option.Rel.exists_of_some {α β : Type} {r : α → β → Prop} {a : Option α}
    {b : Option β} {x : α} (h : Option.Rel r a b) (ha : a = some x) : ∃ y, b = some y ∧ r x y := by
  subst ha
  cases h with
  | some hxy => exact ⟨_, rfl, hxy⟩

lemma Option.Rel.exists_of_some_right {α β : Type} {r : α → β → Prop} {a : Option α} {b : Option β}
    {y : β} (h : Option.Rel r a b) (hb : b = some y) : ∃ x, a = some x ∧ r x y := by
  subst hb
  cases h with
  | some hxy => exact ⟨_, rfl, hxy⟩

end Mono

/-! ### Cells that agree -/

/-- Two cells hold the same up to the link. What a cell refers to is linked as well. Where returns
may get lost, nothing is said about them. -/
inductive Cell.Agree (lax : Prop) (ρ : Link) (σ σ' : Session) : Cell → Cell → Prop
  | type {t t' : TypeId} {f f' : TypeForm} (h : σ.types.form? t = some f)
      (h' : σ'.types.form? t' = some f') (hform : f.Linked ρ f') :
      Agree lax ρ σ σ' (.type t) (.type t')
  | cls {c c' : ClassId} {e e' : ClassEntry} (h : σ.types.class? c = some e)
      (h' : σ'.types.class? c' = some e') (hname : e'.name = e.name)
      (htype : ρ.type e.type e'.type) : Agree lax ρ σ σ' (.cls c) (.cls c')
  | scope {id id' : ScopeId} {s s' : Scope} (h : σ.scopes.scope? id = some s)
      (h' : σ'.scopes.scope? id' = some s') (hs : s.Linked ρ s') :
      Agree lax ρ σ σ' (.scope id) (.scope id')
  | frame {id id' : FrameId} {f f' : Frame} (h : σ.scopes.frame? id = some f)
      (h' : σ'.scopes.frame? id' = some f') (hkind : f'.kind = f.kind)
      (hresult : ρ.type f.result f'.result) : Agree lax ρ σ σ' (.frame id) (.frame id')
  | name {id id' : ScopeId} {s s' : Scope} {n : String} (hscope : ρ.scope id id')
      (h : σ.scopes.scope? id = some s) (h' : σ'.scopes.scope? id' = some s')
      (hb : Option.Rel (Binding.Linked ρ) (s.bindings.find? n) (s'.bindings.find? n)) :
      Agree lax ρ σ σ' (.name id n) (.name id' n)
  | member {c c' : ClassId} {e e' : ClassEntry} {n : String} (hcls : ρ.cls c c')
      (h : σ.types.class? c = some e) (h' : σ'.types.class? c' = some e')
      (hb : Option.Rel (Binding.Linked ρ) (e.members.find? n) (e'.members.find? n)) :
      Agree lax ρ σ σ' (.member c n) (.member c' n)
  | constructors {c c' : ClassId} {e e' : ClassEntry} (hcls : ρ.cls c c')
      (h : σ.types.class? c = some e) (h' : σ'.types.class? c' = some e')
      (hk : List.Forall₂ (fun k k' => List.Forall₂ ρ.type k.params k'.params)
        e.constructors e'.constructors) : Agree lax ρ σ σ' (.constructors c) (.constructors c')
  | body {c c' : ClassId} {e e' : ClassEntry} (hcls : ρ.cls c c')
      (h : σ.types.class? c = some e) (h' : σ'.types.class? c' = some e')
      (hs : Option.Rel ρ.scope e.body e'.body) : Agree lax ρ σ σ' (.body c) (.body c')
  | settled {id id' : FrameId} {f f' : Frame} (hstrict : ¬lax)
      (h : σ.scopes.frame? id = some f) (h' : σ'.scopes.frame? id' = some f')
      (hsettled : f'.settled = f.settled) : Agree lax ρ σ σ' (.settled id) (.settled id')

/-- The session does not have the cell yet. -/
def Cell.Absent (σ : Session) : Cell → Prop
  | .type t => σ.types.form? t = none
  | .cls c | .member c _ | .constructors c | .body c => σ.types.class? c = none
  | .scope id | .name id _ => σ.scopes.scope? id = none
  | .frame f | .settled f => σ.scopes.frame? f = none

variable {lax : Prop} {ρ π : Link} {σ σ' τ τ' : Session} {c c' : Cell} {Φ Φ' : Cell → Prop}

lemma Cell.Absent.before (h : σ.Later τ) (hc : c.Absent τ) : c.Absent σ := by
  cases c with
  | type t =>
    cases hf : σ.types.form? t with
    | none => exact hf
    | some f => cases (TypeTable.form?_mono h.forms hf).symm.trans hc
  | cls | member | constructors | body => exact h.cls hc
  | scope | name => exact h.scope?_eq_none hc
  | frame | settled => exact h.frame hc

namespace Cell.Agree

/-- Cells agree up to another link if that links what they refer to. Only scopes refer to the bodies
of classes. -/
lemma imp (htype : ∀ {t t'}, ρ.type t t' → π.type t t') (hcls : ∀ {c c'}, ρ.cls c c' → π.cls c c')
    (hscope : ∀ {i i'}, ρ.scope i i' → π.scope i i')
    (hframe : ∀ {f f'}, ρ.frame f f' → π.frame f f')
    (hbody : ∀ {id s d d'}, c = .scope id → σ.scopes.scope? id = some s → s.cls = some d →
      ρ.body d d' → π.body d d') (hc : c.Agree lax ρ σ σ' c') : c.Agree lax π σ σ' c' := by
  cases hc with
  | type hl hr hform => exact .type hl hr (hform.imp htype hcls)
  | cls hl hr hname ht => exact .cls hl hr hname (htype ht)
  | @scope _ _ s s' hl hr hs =>
    refine .scope hl hr ⟨hs.inLoop, Option.Rel.mono hscope hs.parent,
      Option.Rel.mono hframe hs.frame, ?_⟩
    have hclasses := hs.cls
    have hbodies {d d' : ClassId} : s.cls = some d → ρ.body d d' → π.body d d' := hbody rfl hl
    generalize s.cls = o at hclasses hbodies
    generalize s'.cls = o' at hclasses
    cases hclasses with
    | none => exact .none
    | some hd => exact .some ⟨hcls hd.1, hbodies rfl hd.2⟩
  | frame hl hr hkind hresult => exact .frame hl hr hkind (htype hresult)
  | name hs hl hr hb => exact .name (hscope hs) hl hr (Option.Rel.mono (.imp htype hcls) hb)
  | member hd hl hr hb => exact .member (hcls hd) hl hr (Option.Rel.mono (.imp htype hcls) hb)
  | constructors hd hl hr hk =>
    exact .constructors (hcls hd) hl hr (hk.imp fun _ _ hps => hps.imp fun _ _ => htype)
  | body hd hl hr hs => exact .body (hcls hd) hl hr (Option.Rel.mono hscope hs)
  | settled hstrict hl hr hsettled => exact .settled hstrict hl hr hsettled

lemma mono (h : ρ.Within π) (hc : c.Agree lax ρ σ σ' c') : c.Agree lax π σ σ' c' :=
  hc.imp (h rfl) (h rfl) (h rfl) (h rfl) fun _ _ _ => h rfl

lemma stay (h : σ.Continues Φ τ) (h' : σ'.Continues Φ' τ') (hΦ : ¬Φ c) (hΦ' : ¬Φ' c')
    (hc : c.Agree lax ρ σ σ' c') : c.Agree lax ρ τ τ' c' := by
  cases hc with
  | type hl hr hform =>
    exact .type (TypeTable.form?_mono h.forms hl) (TypeTable.form?_mono h'.forms hr) hform
  | cls hl hr hname htype =>
    obtain ⟨d, hd, hk⟩ := h.cls hl
    obtain ⟨d', hd', hk'⟩ := h'.cls hr
    refine .cls hd hd' (by rw [hk.name, hk'.name, hname]) ?_
    rwa [hk.type, hk'.type]
  | scope hl hr hlinked =>
    obtain ⟨s, hs, hk⟩ := h.scope hl
    obtain ⟨s', hs', hk'⟩ := h'.scope hr
    refine .scope hs hs' ⟨by rw [hk.inLoop, hk'.inLoop, hlinked.inLoop], ?_, ?_, ?_⟩
    · rw [hk.parent, hk'.parent]
      exact hlinked.parent
    · rw [hk.frame, hk'.frame]
      exact hlinked.frame
    · rw [hk.cls, hk'.cls]
      exact hlinked.cls
  | frame hl hr hkind hresult =>
    obtain ⟨f, hf, hk⟩ := h.frame hl
    obtain ⟨f', hf', hk'⟩ := h'.frame hr
    refine .frame hf hf' (by rw [hk.kind, hk'.kind, hkind]) ?_
    rwa [hk.result, hk'.result]
  | name hscope hl hr hb =>
    -- from here on what agrees may change, but not in a cell outside `Φ` and `Φ'`
    obtain ⟨s, hs, hk⟩ := h.scope hl
    obtain ⟨s', hs', hk'⟩ := h'.scope hr
    refine .name hscope hs hs' ?_
    rwa [hk.names _ hΦ, hk'.names _ hΦ']
  | member hcls hl hr hb =>
    obtain ⟨d, hd, hk⟩ := h.cls hl
    obtain ⟨d', hd', hk'⟩ := h'.cls hr
    refine .member hcls hd hd' ?_
    rwa [hk.members _ hΦ, hk'.members _ hΦ']
  | constructors hcls hl hr hks =>
    obtain ⟨d, hd, hk⟩ := h.cls hl
    obtain ⟨d', hd', hk'⟩ := h'.cls hr
    refine .constructors hcls hd hd' ?_
    rwa [hk.constructors hΦ, hk'.constructors hΦ']
  | body hcls hl hr hs =>
    obtain ⟨d, hd, hk⟩ := h.cls hl
    obtain ⟨d', hd', hk'⟩ := h'.cls hr
    refine .body hcls hd hd' ?_
    rwa [hk.body hΦ, hk'.body hΦ']
  | settled hstrict hl hr hsettled =>
    obtain ⟨f, hf, hk⟩ := h.frame hl
    obtain ⟨f', hf', hk'⟩ := h'.frame hr
    exact .settled hstrict hf hf' (by rw [hk.settled hΦ, hk'.settled hΦ', hsettled])

lemma present (hc : c.Agree lax ρ σ σ' c') : ¬c.Absent σ ∧ ¬c'.Absent σ' := by
  cases hc with
  | type h h' | cls h h' | scope h h' | frame h h' | name _ h h' | member _ h h'
  | constructors _ h h' | body _ h h' | settled _ h h' =>
    exact ⟨by simp [Cell.Absent, h], by simp [Cell.Absent, h']⟩

end Cell.Agree

/-! ### Worlds -/

/-- Two sessions that are in order, and a link between cells of theirs that agree. -/
structure World (lax : Prop) where
  link : Link
  left : Session
  right : Session
  leftOrdered : left.Assembled
  rightOrdered : right.Assembled
  unique : Relator.BiUnique link
  basic : ∀ {f id}, TypeForm.basicId? f = some id → link.type id id
  agree : ∀ {c c'}, link c c' → c.Agree lax link left right c'

namespace World

/-- Both sessions go on: linked cells stay or agree anew, and new cells are linked with new ones. -/
structure Turn (w : World lax) (δ : Link) (Φ Φ' : Cell → Prop) (τ τ' : Session) : Prop where
  left : w.left.Continues Φ τ
  right : w.right.Continues Φ' τ'
  old : ∀ {c c'}, w.link c c' → Φ c ∨ Φ' c' → c.Agree lax (w.link.plus δ) τ τ' c'
  new : ∀ {c c'}, δ c c' → c.Absent w.left ∧ c'.Absent w.right ∧
    c.Agree lax (w.link.plus δ) τ τ' c'
  unique : Relator.BiUnique δ

variable {w : World lax} {δ : Link}

def step (w : World lax) (h : w.Turn δ Φ Φ' τ τ') : World lax where
  link := w.link.plus δ
  left := τ
  right := τ'
  leftOrdered := h.left.assembled
  rightOrdered := h.right.assembled
  unique := by
    have hleft {c d d' : Cell} (hc : w.link c d) (hδ : δ c d') : False :=
      (w.agree hc).present.1 (h.new hδ).1
    have hright {c c' d : Cell} (hc : w.link c d) (hδ : δ c' d) : False :=
      (w.agree hc).present.2 (h.new hδ).2.1
    constructor
    · rintro a b c (ha | ha) (hb | hb)
      · exact w.unique.1 ha hb
      · exact (hright ha hb).elim
      · exact (hright hb ha).elim
      · exact h.unique.1 ha hb
    · rintro a b c (ha | ha) (hb | hb)
      · exact w.unique.2 ha hb
      · exact (hleft ha hb).elim
      · exact (hleft hb ha).elim
      · exact h.unique.2 ha hb
  basic hf := Or.inl (w.basic hf)
  agree := by
    rintro c c' (hc | hc)
    · by_cases hΦ : Φ c ∨ Φ' c'
      · exact h.old hc hΦ
      · rw [not_or] at hΦ
        exact ((w.agree hc).stay h.left h.right hΦ.1 hΦ.2).mono fun _ => Or.inl
    · exact (h.new hc).2.2

/-- Cells that nothing refers to may be left out of the link. -/
def without (w : World lax) (drop : Cell → Prop) (hdrop : ∀ {c}, drop c → c.isFirm = false) :
    World lax where
  link c c' := w.link c c' ∧ ¬drop c
  left := w.left
  right := w.right
  leftOrdered := w.leftOrdered
  rightOrdered := w.rightOrdered
  unique := ⟨fun _ _ _ ha hb => w.unique.1 ha.1 hb.1, fun _ _ _ ha hb => w.unique.2 ha.1 hb.1⟩
  basic hf := ⟨w.basic hf, fun hd => nomatch hdrop hd⟩
  agree hc := (w.agree hc.1).mono fun hfirm h => ⟨h, fun hd => by
    rw [hdrop hd] at hfirm
    cases hfirm⟩

end World

end MiddleEnd
