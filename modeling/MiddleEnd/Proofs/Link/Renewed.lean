import MiddleEnd.Proofs.Check.Renewed
import MiddleEnd.Proofs.Link.Programs

/-!
Worlds in which fields have been declared. When declarations have been made known on both sides, the
fields of some classes are declared on the left, and those of other classes on the right. The types
of these fields are new then on one side, or on both. So types are linked by the places at which
they stand in the types of fields now; all that does not belong to fields is linked as before.
-/

namespace MiddleEnd

variable {lax : Prop} {ρ : Link} {σ σ' : Session}

/-! ### Links that are filled up -/

def Cell.home : Cell → Cell
  | .name id _ => .scope id
  | .member c _ | .constructors c => .cls c
  | .settled f => .frame f
  | c => c

lemma Cell.isFirm_home (c : Cell) : c.home.isFirm = true := by
  cases c <;> rfl

lemma Cell.Agree.isFirm_eq {c c' : Cell} (h : c.Agree lax ρ σ σ' c') : c'.isFirm = c.isFirm := by
  cases h <;> rfl

/-- Names, members, constructors and returns are linked wherever they agree. -/
def Link.filled (lax : Prop) (ρ : Link) (σ σ' : Session) : Link :=
  fun c c' => ρ c.home c'.home ∧ c.Agree lax ρ σ σ' c'

/-- A world from what its cells refer to. -/
def World.fill (ρ : Link) (hσ : σ.Assembled) (hσ' : σ'.Assembled)
    (hunique : Relator.BiUnique fun c c' => c.isFirm = true ∧ ρ c c')
    (hbasic : ∀ {f id}, TypeForm.basicId? f = some id → ρ.type id id)
    (hagree : ∀ {c c'}, c.isFirm = true → ρ c c' → c.Agree lax ρ σ σ' c') : World lax where
  link := ρ.filled lax σ σ'
  left := σ
  right := σ'
  leftOrdered := hσ
  rightOrdered := hσ'
  unique := by
    constructor
    · rintro a b c ⟨hhome, ha⟩ ⟨hhome', hb⟩
      have heq := hunique.1 ⟨a.isFirm_home, hhome⟩ ⟨b.isFirm_home, hhome'⟩
      cases ha <;> cases hb <;> cases heq <;> rfl
    · rintro a b c ⟨hhome, hb⟩ ⟨hhome', hc⟩
      have heq := hunique.2 ⟨a.isFirm_home, hhome⟩ ⟨a.isFirm_home, hhome'⟩
      cases hb <;> cases hc <;> cases heq <;> rfl
  basic hf := ⟨hbasic hf, hagree rfl (hbasic hf)⟩
  agree h := h.2.mono fun hc hρ => by
    have hfirm := hagree hc hρ
    refine ⟨?_, hfirm⟩
    cases hfirm with
    | type | cls | scope | frame | body => exact hρ
    | name | member | constructors | settled => cases hc

/-! ### What cells refer to -/

section Refers

variable {π : Link}

lemma TypeForm.Linked.imp_parts {f f' : TypeForm}
    (htype : ∀ {t t'}, t ∈ f.parts → ρ.type t t' → π.type t t')
    (hcls : ∀ {c c'}, ρ.cls c c' → π.cls c c') (h : f.Linked ρ f') : f.Linked π f' := by
  cases h with
  | basic hb => exact .basic hb
  | array he => exact .array (htype List.mem_cons_self he)
  | dictionary hk hv =>
    exact .dictionary (htype List.mem_cons_self hk)
      (htype (List.mem_cons_of_mem _ List.mem_cons_self) hv)
  | object hc => exact .object (hcls hc)

lemma List.Forall₂.imp_mem {α β : Type} {r q : α → β → Prop} {l : List α} {l' : List β}
    (hrq : ∀ {a b}, a ∈ l → r a b → q a b) (h : List.Forall₂ r l l') : List.Forall₂ q l l' :=
  ((List.forall₂_and_left (p := (· ∈ l)) l l').mpr ⟨fun _ ha => ha, h⟩).imp fun _ _ hab =>
    hrq hab.1 hab.2

lemma Option.Rel.imp_some {α β : Type} {r q : α → β → Prop} {a : Option α} {b : Option β}
    (hrq : ∀ {x y}, a = some x → r x y → q x y) (h : Option.Rel r a b) : Option.Rel q a b := by
  cases h with
  | none => exact .none
  | some hxy => exact .some (hrq rfl hxy)

lemma Binding.Linked.imp_types {b b' : Binding}
    (htype : ∀ {t t'}, t ∈ b.types → ρ.type t t' → π.type t t')
    (hcls : ∀ {c c'}, ρ.cls c c' → π.cls c c') (h : b.Linked ρ b') : b.Linked π b' := by
  obtain ⟨name, kind, type, builtin⟩ := b
  obtain ⟨name', kind', type', builtin'⟩ := b'
  obtain ⟨hname, hkind, ht, hbuiltin⟩ := h
  have hhead : type ∈ Binding.types ⟨name, kind, type, builtin⟩ := by
    unfold Binding.types
    split <;> exact List.mem_cons_self
  refine ⟨hname, ?_, htype hhead ht, hbuiltin⟩
  cases hkind with
  | type => exact .type
  | value => exact .value
  | parameter => exact .parameter
  | function hps hr =>
    refine .function (List.Forall₂.imp_mem (fun hp hpp => htype ?_ hpp) hps) (htype ?_ hr)
    · exact List.mem_cons_of_mem _ (List.mem_cons_of_mem _ hp)
    · exact List.mem_cons_of_mem _ List.mem_cons_self
  | cls hc => exact .cls (hcls hc)

/-- Cells agree up to another link if that links all that they refer to. -/
lemma Cell.Agree.imp_refers {c c' : Cell} (hσ : σ.Assembled)
    (htype : ∀ {t t'}, σ.Refers c t → ρ.type t t' → π.type t t')
    (hnominal : ∀ {t t'}, σ.types.Nominal t → ρ.type t t' → π.type t t')
    (hcls : ∀ {c c'}, ρ.cls c c' → π.cls c c') (hscope : ∀ {i i'}, ρ.scope i i' → π.scope i i')
    (hframe : ∀ {f f'}, ρ.frame f f' → π.frame f f') (hbody : ∀ {c c'}, ρ.body c c' → π.body c c')
    (h : c.Agree lax ρ σ σ' c') : c.Agree lax π σ σ' c' := by
  cases h with
  | type hl hr hform => exact .type hl hr (hform.imp_parts (fun ht => htype (.type hl ht)) hcls)
  | cls hl hr hname ht => exact .cls hl hr hname (hnominal (hσ.types.nominal hl) ht)
  | scope hl hr hs =>
    exact .scope hl hr ⟨hs.inLoop, Option.Rel.mono hscope hs.parent,
      Option.Rel.mono hframe hs.frame, Option.Rel.mono (fun hc => ⟨hcls hc.1, hbody hc.2⟩) hs.cls⟩
  | frame hl hr hkind hresult => exact .frame hl hr hkind (htype (.frame hl) hresult)
  | name hs hl hr hb =>
    refine .name (hscope hs) hl hr (Option.Rel.imp_some (fun hx => ?_) hb)
    exact Binding.Linked.imp_types
      (fun ht => htype (.name (Scopes.bindingAt?_eq_some.mpr ⟨_, hl, hx⟩) ht)) hcls
  | member hd hl hr hb =>
    refine .member (hcls hd) hl hr (Option.Rel.imp_some (fun hx => ?_) hb)
    exact Binding.Linked.imp_types (fun ht => htype (.member hl hx ht)) hcls
  | constructors hd hl hr hk =>
    refine .constructors (hcls hd) hl hr (List.Forall₂.imp_mem (fun hmem => ?_) hk)
    exact List.Forall₂.imp_mem fun hp => htype (.constructors hl hmem hp)
  | body hd hl hr hs => exact .body (hcls hd) hl hr (Option.Rel.mono hscope hs)
  | settled hstrict hl hr hsettled => exact .settled hstrict hl hr hsettled

end Refers

lemma TypeTable.nominal_basic {table : TypeTable} {f : TypeForm} {id : TypeId}
    (h : f.basicId? = some id) : table.Nominal id := by
  refine ⟨f, form?_basic _ h, ?_⟩
  cases f with
  | array | dictionary | object => cases h
  | _ => rfl

/-- What cells refer to does not change when fields are declared. -/
lemma Session.not_fieldCells {ks : List (ClassHead × List Stmt)} {c : Cell}
    (hfirm : c.isFirm = true) (hpresent : ¬c.Absent σ) : ¬σ.FieldCells ks c := by
  cases c with
  | body => exact hpresent
  | name | member | constructors | settled => cases hfirm
  | _ => exact id

/-! ### Types by their places -/

namespace World

/-- The types stand at the same place in the types of the same field. -/
def Placed (w : World lax) (σ σ' : Session) (t t' : TypeId) : Prop :=
  ∃ c c' n b b' p, w.link.cls c c' ∧ σ.types.HasValue c n b ∧ σ'.types.HasValue c' n b' ∧
    σ.types.at? b.type p = some t ∧ σ'.types.at? b'.type p = some t'

/-- The collection stands in the type of a field. -/
def Owns (w : World lax) (t : TypeId) : Prop :=
  ∃ c c' n b p, w.link.cls c c' ∧ w.left.types.HasValue c n b ∧
    w.left.types.at? b.type p = some t ∧ ¬w.left.types.Nominal t

/-- What is linked when both sessions have gone on: the types of fields by the places at which they
stand now, and all else as before. -/
inductive Renewed (w : World lax) (σ σ' : Session) : Link
  | placed {t t' : TypeId} (h : w.Placed σ σ' t t') : Renewed w σ σ' (.type t) (.type t')
  | old {c c' : Cell} (h : w.link c c') (hfree : ∀ t, c = .type t → ¬w.Owns t) :
      Renewed w σ σ' c c'

/-- Fields of the classes `ks` have been declared on the left, and fields of the classes `ks'` on
the right. -/
structure Renewal (w : World lax) (σ σ' : Session) (ks ks' : List (ClassHead × List Stmt)) :
    Prop where
  full : w.Full
  apart : w.left.FieldTypesApart
  apart' : w.right.FieldTypesApart
  left : w.left.Continues (w.left.FieldCells ks) σ
  right : w.right.Continues (w.right.FieldCells ks') σ'
  renews : w.left.Renews σ
  renews' : w.right.Renews σ'
  later : w.left.Later σ
  later' : w.right.Later σ'

variable {w : World lax} {ks ks' : List (ClassHead × List Stmt)} {t t' : TypeId}

/-- Types that are linked have linked types at the same places. -/
lemma at?_rel (h : w.link.type t t') (p : List ℕ) :
    Option.Rel w.link.type (w.left.types.at? t p) (w.right.types.at? t' p) := by
  induction p generalizing t t' with
  | nil => exact .some h
  | cons i p ih =>
    obtain ⟨f, f', hf, hf', hform⟩ := form h
    rw [TypeTable.at?, TypeTable.at?, hf, hf']
    cases hform with
    | basic hb =>
      cases f with
      | array | dictionary | object => cases hb
      | _ => exact .none
    | array he =>
      cases i with
      | zero => exact ih he
      | succ => exact .none
    | dictionary hk hv =>
      rcases i with _ | _ | i
      · exact ih hk
      · exact ih hv
      · exact .none
    | object => exact .none

lemma Full.value (hw : w.Full) {c c' : ClassId} {n : String} {b : Binding} (hc : w.link.cls c c')
    (hb : w.left.types.HasValue c n b) :
    ∃ b', w.right.types.HasValue c' n b' ∧ w.link.type b.type b'.type := by
  obtain ⟨e, he, hb, hkind⟩ := hb
  cases w.agree (hw.members n hc) with
  | member _ hl hr hrel =>
    cases he.symm.trans hl
    obtain ⟨b', hb', hlinked⟩ := Option.Rel.exists_of_some hrel hb
    have hkinds := hlinked.kind
    rw [hkind] at hkinds
    refine ⟨b', ⟨_, hr, hb', ?_⟩, hlinked.type⟩
    generalize b'.kind = k at hkinds
    cases hkinds
    rfl

lemma Full.value_right (hw : w.Full) {c c' : ClassId} {n : String} {b' : Binding}
    (hc : w.link.cls c c') (hb : w.right.types.HasValue c' n b') :
    ∃ b, w.left.types.HasValue c n b ∧ w.link.type b.type b'.type := by
  obtain ⟨e', he', hb, hkind⟩ := hb
  cases w.agree (hw.members n hc) with
  | member _ hl hr hrel =>
    cases he'.symm.trans hr
    obtain ⟨b, hb', hlinked⟩ := Option.Rel.exists_of_some_right hrel hb
    have hkinds := hlinked.kind
    rw [hkind] at hkinds
    refine ⟨b, ⟨_, hl, hb', ?_⟩, hlinked.type⟩
    generalize b.kind = k at hkinds
    cases hkinds
    rfl

lemma not_owns_of_nominal (h : w.left.types.Nominal t) : ¬w.Owns t := by
  rintro ⟨-, -, -, -, -, -, -, -, hn⟩
  exact hn h

namespace Renewal

variable (h : w.Renewal σ σ' ks ks')

include h

/-- What stands at a place of a field on both sides has linked trees. -/
lemma trees (ht : w.Placed σ σ' t t') :
    ∃ x x', σ.types.Unfolds t x ∧ σ'.types.Unfolds t' x' ∧ x.Linked w.link x' := by
  obtain ⟨c, c', n, b, b', p, hc, hb, hb', ht, ht'⟩ := ht
  obtain ⟨a, x, ha, hax, hbx⟩ := h.renews.before w.leftOrdered h.left hb
  obtain ⟨a', x', ha', hax', hbx'⟩ := h.renews'.before w.rightOrdered h.right hb'
  obtain ⟨u, y, hu, hty, huy⟩ := hbx.at? hax ht
  obtain ⟨u', y', hu', hty', huy'⟩ := hbx'.at? hax' ht'
  obtain ⟨a0, ha0, hlink⟩ := h.full.value hc ha
  cases ha'.unique ha0
  have hrel := at?_rel hlink p
  rw [hu, hu'] at hrel
  cases hrel with
  | some huu =>
    obtain ⟨z, hz, hyz⟩ := unfolds huu huy
    cases hz.unique huy'
    exact ⟨y, y', hty, hty', hyz⟩

/-- Types that are not built from others stand where they stood before. -/
lemma nominal (ht : w.Placed σ σ' t t') (hn : σ.types.Nominal t ∨ σ'.types.Nominal t') :
    w.link.type t t' := by
  obtain ⟨x, x', hx, hx', hlink⟩ := h.trees ht
  rcases hn with hn | hn
  · cases hx.unique hn.unfolds
    cases hlink with
    | leaf hu =>
      cases hx'
      exact hu
  · cases hx'.unique hn.unfolds
    cases hlink with
    | leaf hu =>
      cases hx
      exact hu

/-- A collection that stands in the type of a field now, and was linked before, has stood there
before. -/
lemma owns_of_placed {u : TypeId} (ht : w.Placed σ σ' t t') (hn : ¬σ.types.Nominal t)
    (hu : w.link.type t u) : w.Owns t := by
  obtain ⟨c, c', n, b, -, p, hc, hb, -, ht, -⟩ := ht
  obtain ⟨hb, ht⟩ := h.renews.stays w.leftOrdered hb ht hn (registered hu).1
  exact ⟨c, c', n, b, p, hc, hb, ht, fun hold => hn (hold.mono h.left.forms)⟩

lemma owns_of_placed_right {u : TypeId} (ht : w.Placed σ σ' t t') (hn : ¬σ'.types.Nominal t')
    (hu : w.link.type u t') : w.Owns u := by
  obtain ⟨c, c', n, -, b', p, hc, -, hb', -, ht'⟩ := ht
  obtain ⟨hb', ht'⟩ := h.renews'.stays w.rightOrdered hb' ht' hn (registered hu).2
  obtain ⟨b, hb, hlink⟩ := h.full.value_right hc hb'
  have hrel := at?_rel hlink p
  rw [ht'] at hrel
  obtain ⟨v, hv, hvt⟩ := Option.Rel.exists_of_some_right hrel rfl
  cases w.unique.1 hu hvt
  refine ⟨c, c', n, b, p, hc, hb, hv, fun hold => hn ?_⟩
  obtain ⟨x', hx', hlink⟩ := unfolds hu hold.unfolds
  cases hlink with
  | leaf _ =>
    cases hx' with
    | leaf hf hf' => exact TypeTable.Nominal.mono h.right.forms ⟨_, hf, hf'⟩

lemma placed_right {u' : TypeId} (ht : w.Placed σ σ' t t') (hu : w.Placed σ σ' t u') : t' = u' := by
  by_cases hn : σ.types.Nominal t
  · exact Cell.type.inj (w.unique.2 (h.nominal ht (Or.inl hn)) (h.nominal hu (Or.inl hn)))
  · obtain ⟨c, c', n, b, b', p, hc, hb, hb', ht, ht'⟩ := ht
    obtain ⟨d, d', m, a, a', q, hd, ha, ha', hu, hu'⟩ := hu
    obtain ⟨rfl, rfl, rfl⟩ := h.renews.types.sole hb ha ht hu hn
    cases w.unique.2 hc hd
    cases hb'.unique ha'
    exact Option.some.inj (ht'.symm.trans hu')

lemma placed_left {u : TypeId} (ht : w.Placed σ σ' t t') (hu : w.Placed σ σ' u t') : t = u := by
  by_cases hn : σ'.types.Nominal t'
  · exact Cell.type.inj (w.unique.1 (h.nominal ht (Or.inr hn)) (h.nominal hu (Or.inr hn)))
  · obtain ⟨c, c', n, b, b', p, hc, hb, hb', ht, ht'⟩ := ht
    obtain ⟨d, d', m, a, a', q, hd, ha, ha', hu, hu'⟩ := hu
    obtain ⟨rfl, rfl, rfl⟩ := h.renews'.types.sole hb' ha' ht' hu' hn
    cases w.unique.1 hc hd
    cases hb.unique ha
    exact Option.some.inj (ht.symm.trans hu)

lemma placed_old_right {c' : Cell} (ht : w.Placed σ σ' t t') (hc : w.link (.type t) c')
    (hfree : ¬w.Owns t) : .type t' = c' := by
  obtain ⟨u, rfl⟩ : ∃ u, c' = .type u := by
    cases w.agree hc with
    | type => exact ⟨_, rfl⟩
  refine w.unique.2 (h.nominal ht (Or.inl ?_)) hc
  exact by_contra fun hn => hfree (h.owns_of_placed ht hn hc)

lemma placed_old_left {c : Cell} (ht : w.Placed σ σ' t t') (hc : w.link c (.type t'))
    (hfree : ∀ u, c = .type u → ¬w.Owns u) : .type t = c := by
  obtain ⟨u, rfl⟩ : ∃ u, c = .type u := by
    cases w.agree hc with
    | type => exact ⟨_, rfl⟩
  refine w.unique.1 (h.nominal ht (Or.inr ?_)) hc
  exact by_contra fun hn => hfree u rfl (h.owns_of_placed_right ht hn hc)

lemma unique : Relator.BiUnique (w.Renewed σ σ') := by
  constructor
  · intro a b c ha hb
    cases ha with
    | placed ht =>
      cases hb with
      | placed hu => rw [h.placed_left ht hu]
      | old hb hfree => exact h.placed_old_left ht hb hfree
    | old ha hfree =>
      cases hb with
      | placed ht => exact (h.placed_old_left ht ha hfree).symm
      | old hb => exact w.unique.1 ha hb
  · intro a b c hb hc
    cases hb with
    | placed ht =>
      cases hc with
      | placed hu => rw [h.placed_right ht hu]
      | old hc hfree => exact h.placed_old_right ht hc (hfree _ rfl)
    | old hb hfree =>
      cases hc with
      | placed ht => exact (h.placed_old_right ht hb (hfree _ rfl)).symm
      | old hc => exact w.unique.2 hb hc

/-- What belongs to no field does not refer to what belongs to one. -/
lemma not_owns {c : Cell} {u : TypeId} (hu : w.left.Refers c u)
    (htype : ∀ t, c = .type t → ¬w.Owns t)
    (hmember : ∀ d n, c = .member d n → ∀ b, ¬w.left.types.HasValue d n b) : ¬w.Owns u := by
  rintro ⟨d, d', n, b, p, hd, hb, hp, hn⟩
  rcases h.apart.reserved hb hp hn hu with rfl | ⟨v, q, rfl, hq⟩
  · exact hmember d n rfl b hb
  · refine htype v rfl ⟨d, d', n, b, q, hd, hb, hq, fun hv => ?_⟩
    cases hu with
    | @type _ _ f hf hu =>
      obtain ⟨g, hg, hnominal⟩ := hv
      cases hf.symm.trans hg
      cases f with
      | array | dictionary => cases hnominal
      | _ => cases hu

/-- What belongs to no field agrees as before. -/
lemma agree_before {c c' : Cell} (hc : w.link c c') (htype : ∀ t, c = .type t → ¬w.Owns t)
    (hmember : ∀ d n, c = .member d n → ∀ b, ¬w.left.types.HasValue d n b) :
    c.Agree lax (w.Renewed σ σ') w.left w.right c' := by
  refine (w.agree hc).imp_refers w.leftOrdered (fun hu hlink => .old hlink ?_)
    (fun hn hlink => .old hlink ?_) (fun hlink => .old hlink nofun) (fun hlink => .old hlink nofun)
    (fun hlink => .old hlink nofun) fun hlink => .old hlink nofun
  · rintro _ ⟨⟩
    exact h.not_owns hu htype hmember
  · rintro _ ⟨⟩
    exact not_owns_of_nominal hn

lemma agree_placed (ht : w.Placed σ σ' t t') :
    Cell.Agree lax (w.Renewed σ σ') σ σ' (.type t) (.type t') := by
  obtain ⟨x, x', hx, hx', hlink⟩ := h.trees ht
  obtain ⟨c, c', n, b, b', p, hc, hb, hb', hp, hp'⟩ := ht
  cases hlink with
  | leaf hu =>
    -- a nominal type has been there before and is none of the renewed ones
    cases hx with
    | leaf hf hn =>
      cases hx'
      obtain ⟨g, hg⟩ := (registered hu).1
      cases hf.symm.trans (TypeTable.form?_mono h.left.forms hg)
      refine (h.agree_before hu ?_ nofun).stay h.left h.right id id
      rintro _ ⟨⟩
      exact not_owns_of_nominal ⟨_, hg, hn⟩
  | array =>
    -- the parts of a placed type are placed, one step further down
    cases hx with
    | array hf he =>
      cases hx' with
      | array hf' he' =>
        refine .type hf hf' (.array (.placed ⟨c, c', n, b, b', p ++ [0], hc, hb, hb', ?_, ?_⟩))
        · exact TypeTable.at?_concat hp hf rfl
        · exact TypeTable.at?_concat hp' hf' rfl
  | dictionary =>
    cases hx with
    | dictionary hf hk hv =>
      cases hx' with
      | dictionary hf' hk' hv' =>
        refine .type hf hf' (.dictionary
          (.placed ⟨c, c', n, b, b', p ++ [0], hc, hb, hb', ?_, ?_⟩)
          (.placed ⟨c, c', n, b, b', p ++ [1], hc, hb, hb', ?_, ?_⟩))
        · exact TypeTable.at?_concat hp hf rfl
        · exact TypeTable.at?_concat hp' hf' rfl
        · exact TypeTable.at?_concat hp hf rfl
        · exact TypeTable.at?_concat hp' hf' rfl

/-- Names, scopes and all else that does not change agrees as before. -/
lemma agree_after {c c' : Cell} (hc : w.link c c') (htype : ∀ t, c = .type t → ¬w.Owns t)
    (hmember : ∀ d n, c ≠ .member d n) (hl : ¬w.left.FieldCells ks c)
    (hr : ¬w.right.FieldCells ks' c') : c.Agree lax (w.Renewed σ σ') σ σ' c' :=
  (h.agree_before hc htype fun d n heq => absurd heq (hmember d n)).stay h.left h.right hl hr

lemma agree_firm {c c' : Cell} (hfirm : c.isFirm = true) (hc : w.Renewed σ σ' c c') :
    c.Agree lax (w.Renewed σ σ') σ σ' c' := by
  cases hc with
  | placed ht => exact h.agree_placed ht
  | old hc hfree =>
    have hagree := w.agree hc
    refine h.agree_after hc hfree ?_ (Session.not_fieldCells hfirm hagree.present.1)
      (Session.not_fieldCells (hagree.isFirm_eq.trans hfirm) hagree.present.2)
    rintro d n rfl
    cases hfirm

def world : World lax :=
  .fill (w.Renewed σ σ') h.left.assembled h.right.assembled
    ⟨fun _ _ _ ha hb => h.unique.1 ha.2 hb.2, fun _ _ _ ha hb => h.unique.2 ha.2 hb.2⟩
    (fun hf => .old (w.basic hf) (by
      rintro _ ⟨⟩
      exact not_owns_of_nominal (TypeTable.nominal_basic hf)))
    h.agree_firm

lemma link_cls {c c' : ClassId} (hc : w.link.cls c c') : h.world.link.cls c c' :=
  ⟨.old hc nofun, h.agree_firm rfl (.old hc nofun)⟩

lemma link_scope {i i' : ScopeId} (hi : w.link.scope i i') : h.world.link.scope i i' :=
  ⟨.old hi nofun, h.agree_firm rfl (.old hi nofun)⟩

/-- Names stay linked in scopes in which no fields are declared. -/
lemma link_name {i i' : ScopeId} {n : String} (hi : w.link.scope i i')
    (hn : w.link (.name i n) (.name i' n)) (hl : ∀ head, ¬HasField ks i head)
    (hr : ∀ head, ¬HasField ks' i' head) : h.world.link (.name i n) (.name i' n) := by
  obtain ⟨hpresent, hpresent'⟩ := (w.agree hn).present
  refine ⟨.old hi nofun, h.agree_after hn nofun nofun ?_ ?_⟩
  · rintro (hnone | ⟨head, hfield, -⟩)
    · exact hpresent hnone
    · exact hl head hfield
  · rintro (hnone | ⟨head, hfield, -⟩)
    · exact hpresent' hnone
    · exact hr head hfield

lemma link_settled {f f' : FrameId} (hf : w.link.frame f f')
    (hs : w.link (.settled f) (.settled f')) : h.world.link (.settled f) (.settled f') :=
  ⟨.old hf nofun, h.agree_after hs nofun nofun (w.agree hs).present.1 (w.agree hs).present.2⟩

lemma rel_members {c c' : ClassId} {e e' : ClassEntry} (n : String) (hc : w.link.cls c c')
    (he : σ.types.class? c = some e) (he' : σ'.types.class? c' = some e') :
    Option.Rel (Binding.Linked (w.Renewed σ σ')) (e.members.find? n) (e'.members.find? n) := by
  by_cases hvalue : ∃ b, w.left.types.HasValue c n b
  · -- the member is a field, whose type is renewed on both sides
    obtain ⟨a, ha⟩ := hvalue
    obtain ⟨a', ha', -⟩ := h.full.value hc ha
    obtain ⟨b, hb⟩ := h.renews.now h.left ha
    obtain ⟨b', hb'⟩ := h.renews'.now h.right ha'
    have hplain := h.renews.plain h.apart h.left hb
    have hplain' := h.renews'.plain h.apart' h.right hb'
    have hplaced : w.Placed σ σ' b.type b'.type := ⟨c, c', n, b, b', [], hc, hb, hb', rfl, rfl⟩
    obtain ⟨e0, he0, hfind, hkind⟩ := hb
    obtain ⟨e0', he0', hfind', hkind'⟩ := hb'
    cases he.symm.trans he0
    cases he'.symm.trans he0'
    have hname : b.name = n := by simpa using List.find?_some hfind
    have hname' : b'.name = n := by simpa using List.find?_some hfind'
    rw [hfind, hfind']
    refine .some ⟨hname'.trans hname.symm, ?_, .placed hplaced, hplain'.trans hplain.symm⟩
    rw [hkind, hkind']
    exact .value
  · -- any other member is what it was
    have hagree := h.agree_before (h.full.members n hc) nofun (by
      rintro _ _ ⟨⟩ b hb
      exact hvalue ⟨b, hb⟩)
    cases hagree with
    | member _ hl hr hrel =>
      have hsame : e.members.find? n = _ := (h.renews.members n hl he).resolve_right
        fun ⟨b, _, _, hb, hkind, _⟩ => hvalue ⟨b, _, hl, hb, hkind⟩
      have hsame' : e'.members.find? n = _ := (h.renews'.members n hr he').resolve_right
        fun ⟨b', _, _, hb', hkind, _⟩ => by
          obtain ⟨b, hb, -⟩ := h.full.value_right hc ⟨_, hr, hb', hkind⟩
          exact hvalue ⟨b, hb⟩
      rwa [hsame, hsame']

lemma cls_of_world {c c' : ClassId} (hc : h.world.link.cls c c') : w.link.cls c c' := by
  obtain ⟨hc, -⟩ := hc
  cases hc with
  | old hc => exact hc

lemma full_world : h.world.Full where
  constructors {c c'} hc := by
    have hc := h.cls_of_world hc
    have hk := h.full.constructors hc
    exact ⟨.old hc nofun,
      h.agree_after hk nofun nofun (w.agree hk).present.1 (w.agree hk).present.2⟩
  members {c c'} n hc := by
    have hc := h.cls_of_world hc
    refine ⟨.old hc nofun, ?_⟩
    cases h.agree_firm rfl (.old hc nofun) with
    | cls he he' => exact .member (.old hc nofun) he he' (h.rel_members n hc he he')

/-- When all fields have been declared, the names in the bodies of classes are linked as their
members are. -/
lemma link_mirrored {c c' : ClassId} {b b' : ScopeId} (hl : σ.analysis.Mirrored)
    (hr : σ'.analysis.Mirrored) (hscope : w.link.scope b b') (hb : w.left.IsBody c b)
    (hb' : w.right.IsBody c' b') (n : String) : h.world.link (.name b n) (.name b' n) := by
  obtain ⟨e, he, hbody⟩ := hb
  obtain ⟨e', he', hbody'⟩ := hb'
  -- scopes that are linked are the bodies of classes that are linked
  have hc : w.link.cls c c' := by
    obtain ⟨s, s', hs, hs', hlinked⟩ := w.scope hscope
    obtain ⟨t, ht, hcls⟩ := w.leftOrdered.bodies he hbody
    obtain ⟨t', ht', hcls'⟩ := w.rightOrdered.bodies he' hbody'
    cases hs.symm.trans ht
    cases hs'.symm.trans ht'
    have hrel := hlinked.cls
    rw [hcls, hcls'] at hrel
    cases hrel with
    | some hc => exact hc.1
  obtain ⟨d, hd, hkeeps⟩ := h.left.cls he
  obtain ⟨d', hd', hkeeps'⟩ := h.right.cls he'
  have hbody := (hkeeps.body fun hnone => by cases he.symm.trans hnone).trans hbody
  have hbody' := (hkeeps'.body fun hnone => by cases he'.symm.trans hnone).trans hbody'
  obtain ⟨_, t, hbody0, ht, hnames⟩ := hl c d hd
  obtain ⟨_, t', hbody0', ht', hnames'⟩ := hr c' d' hd'
  cases hbody.symm.trans hbody0
  cases hbody'.symm.trans hbody0'
  refine ⟨.old hscope nofun, .name (.old hscope nofun) ht ht' ?_⟩
  rw [← hnames, ← hnames']
  exact h.rel_members n hc hd hd'

end Renewal

/-! ### What is seen -/

section Sees

variable {L : Law} {w : World L.lax} {F : ClassId → ClassId → Stmt → Stmt → Prop}
    {i i' p p' : ScopeId}

lemma Body.notBody_right (h : w.Body L i i') : w.right.NotBody i' := by
  intro c' e' he' hbody'
  obtain ⟨s, s', hs, hs', hlinked⟩ := w.scope h.sees.scope
  obtain ⟨t', ht', hcls'⟩ := w.rightOrdered.bodies he' hbody'
  cases hs'.symm.trans ht'
  obtain ⟨c, -, hc, -⟩ := Option.Rel.exists_of_some_right hlinked.cls hcls'
  obtain ⟨e, e0, he, he0, -⟩ := w.classEntry hc
  cases he'.symm.trans he0
  exact h.notBody he ((Check.body_iff h.sees.scope hc he he').mpr hbody')

namespace Renewal

variable (h : w.Renewal σ σ' ks ks')

include h

/-- Scopes see the same if the scopes around them do, and their names are linked. -/
lemma sees {s : Scope} (hsees : w.Sees L i i')
    (hnames : ∀ n, h.world.link (.name i n) (.name i' n)) (hs : w.left.scopes.scope? i = some s)
    (hp : s.parent = some p) (hparent : h.world.Sees L p p') : h.world.Sees L i i' := by
  cases hsees with
  -- the root has no parent
  | root => exact absurd (w.leftOrdered.scopes.parents hs hp) (Nat.not_lt_zero _)
  | inner ht hs' hq hp' hscope _ hsettled houter =>
    cases hs.symm.trans ht
    cases hp.symm.trans hq
    obtain ⟨u, hu, hext⟩ := h.later.scopes.scope? hs
    obtain ⟨u', hu', hext'⟩ := h.later'.scopes.scope? hs'
    obtain ⟨hlink, -⟩ := hparent.scope
    cases hlink with
    | old hlink =>
      cases w.unique.2 houter.scope hlink
      refine .inner hu hu' (hext.parent.trans hp) (hext'.parent.trans hp') (h.link_scope hscope)
        hnames (fun hstrict f f' hf hf' => ?_) hparent
      have hf := hext.frame.symm.trans hf
      have hf' := hext'.frame.symm.trans hf'
      refine h.link_settled ?_ (hsettled hstrict hf hf')
      obtain ⟨t, t', ht, ht', hlinked⟩ := w.scope hscope
      cases hs.symm.trans ht
      cases hs'.symm.trans ht'
      have hframes := hlinked.frame
      rw [hf, hf'] at hframes
      cases hframes with
      | some hframe => exact hframe

lemma body (hbody : w.Body L i i') (hnames : ∀ n, h.world.link (.name i n) (.name i' n))
    (hi : w.left.Inside p [] i) (hparent : h.world.Sees L p p') : h.world.Body L i i' := by
  obtain ⟨s, hs, hp⟩ := hi.scope
  obtain ⟨t, q, ht, hq, houter⟩ := hbody.inside
  cases hs.symm.trans ht
  obtain ⟨u, hu, hext⟩ := h.later.scopes.scope? hs
  exact ⟨h.sees hbody.sees hnames hs hp hparent, h.later.notBody hs hbody.notBody, u, q, hu,
    hext.parent.trans hq, houter.mono h.later⟩

/-- What has been made known stays so, if the names in the bodies of classes and functions are
linked. -/
lemma ready {s s' : Stmt} (hclasses : ∀ {b b'}, b ∈ Stmt.classScopes [s] →
      b' ∈ Stmt.classScopes [s'] → w.Level L b b' → ∀ n, h.world.link (.name b n) (.name b' n))
    (hbodies : ∀ {b b'}, w.Body L b b' → ∀ n, h.world.link (.name b n) (.name b' n))
    (hnested : s.Nested w.left p) (hparent : h.world.Sees L p p') (hready : Ready L w F s s') :
    Ready L h.world F s s' := by
  induction s using Stmt.members_induction generalizing s' p p' with
  | other s hs =>
    cases hready with
    | func hid hid' hb htrims =>
      exact .func hid hid' (h.body hb (hbodies hb) (hnested _ hid) hparent) htrims
    | ctor hid hid' hb htrims =>
      exact .ctor hid hid' (h.body hb (hbodies hb) (hnested _ hid) hparent) htrims
    | cls => cases hs
    | plain hrule htrims => exact .plain hrule htrims
  | cls head ms ih =>
    cases hready with
    | plain hrule => cases hrule
    | @cls _ _ _ ms' c c' b b' hc hc' hb hb' hlink hlevel hroot hms =>
      obtain ⟨hinside, hnestedList⟩ := hnested _ hb
      obtain ⟨s, hs, hp⟩ := hinside.scope
      have hnames := hclasses (Stmt.mem_classScopes.mpr ⟨_, List.mem_cons_self, hb⟩)
        (Stmt.mem_classScopes.mpr ⟨_, List.mem_cons_self, hb'⟩) hlevel
      have hsees := h.sees hlevel.sees hnames hs hp hparent
      refine .cls hc hc' hb hb' (h.link_cls hlink) ⟨hsees, hlevel.outer.mono h.later⟩ hroot
        (readyList_imp rfl (fun hF => hF) (fun t ht t' ht' hready => ?_) hms)
      exact ih t ht (fun hm hm' => hclasses (Stmt.classScopes_member ht hm)
        (Stmt.classScopes_member ht' hm')) (Stmt.nestedList_iff.mp hnestedList t ht) hsees hready

end Renewal

end Sees

end World

end MiddleEnd
