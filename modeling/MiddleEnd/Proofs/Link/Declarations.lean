import MiddleEnd.Proofs.Check.Bodies
import MiddleEnd.Proofs.Link.Walk

/-!
The declarations side by side, step by step: classes are registered, their bodies are opened,
functions and constructors are outlined, and fields are announced.
-/

namespace MiddleEnd

variable {L : Law} {w υ : World L.lax} {scope scope' : ScopeId} {c c' : ClassId}

/-- The classes are linked, and so are their bodies, as soon as they have some. -/
structure World.Registered (w : World L.lax) (c c' : ClassId) : Prop where
  cls : w.link.cls c c'
  body : w.link.body c c'

lemma World.Registered.mono (h : w.Registered c c') (hυ : w.Advance L υ) : υ.Registered c c' :=
  ⟨hυ.link h.cls, hυ.link h.body⟩

/-! ### Where declarations stand -/

/-- The scope is the root scope, or the body of a class that is not in a function. -/
inductive Session.Outer (σ : Session) : ScopeId → Prop
  | root {s : Scope} (hs : σ.scopes.scope? .root = some s) (hframe : s.frame = none) : Outer σ .root
  | inner {id p : ScopeId} {s : Scope} (hs : σ.scopes.scope? id = some s) (hp : s.parent = some p)
      (hframe : s.frame = none) (houter : Outer σ p) : Outer σ id

namespace Session.Outer

variable {σ τ : Session} {id : ScopeId}

lemma mono (h : σ.Outer id) (hτ : σ.Later τ) : τ.Outer id := by
  induction h with
  | root hs hframe =>
    obtain ⟨t, ht, hext⟩ := hτ.scopes.scope? hs
    exact .root ht (hext.frame.trans hframe)
  | inner hs hp hframe _ ih =>
    obtain ⟨t, ht, hext⟩ := hτ.scopes.scope? hs
    exact .inner ht (hext.parent.trans hp) (hext.frame.trans hframe) ih

lemma frame (h : σ.Outer id) {s : Scope} (hs : σ.scopes.scope? id = some s) : s.frame = none := by
  cases h with
  | root ht hframe | inner ht _ hframe =>
    cases hs.symm.trans ht
    exact hframe

end Session.Outer

namespace World

variable {id id' : ScopeId}

/-- Places for declarations that see the same. -/
structure Level (L : Law) (w : World L.lax) (scope scope' : ScopeId) : Prop where
  sees : w.Sees L scope scope'
  outer : w.left.Outer scope

lemma Level.mono (h : w.Level L scope scope') (hυ : w.Advance L υ) : υ.Level L scope scope' :=
  ⟨h.sees.mono hυ, h.outer.mono hυ.left⟩

/-- Bodies of functions and constructors that see the same. -/
structure Body (L : Law) (w : World L.lax) (id id' : ScopeId) : Prop where
  sees : w.Sees L id id'
  notBody : w.left.NotBody id
  inside : ∃ s p, w.left.scopes.scope? id = some s ∧ s.parent = some p ∧ w.left.Outer p

lemma Body.mono (h : w.Body L id id') (hυ : w.Advance L υ) : υ.Body L id id' := by
  obtain ⟨s, p, hs, hp, houter⟩ := h.inside
  obtain ⟨t, ht, hext⟩ := hυ.left.scopes.scope? hs
  exact ⟨h.sees.mono hυ, hυ.left.notBody hs h.notBody,
    t, p, ht, hext.parent.trans hp, houter.mono hυ.left⟩

end World

namespace Check

/-! ### Classes -/

/-- A class that is new on both sides, with all that is known of it. -/
inductive NewClass (apart : Prop) (c c' : ClassId) (t t' : TypeId) : Link
  | type : NewClass apart c c' t t' (.type t) (.type t')
  | cls : NewClass apart c c' t t' (.cls c) (.cls c')
  | constructors : NewClass apart c c' t t' (.constructors c) (.constructors c')
  | body : NewClass apart c c' t t' (.body c) (.body c')
  | member (h : ¬apart) (n : String) : NewClass apart c c' t t' (.member c n) (.member c' n)

lemma allows_newClass {t t' : TypeId} : L.Allows (NewClass L.apart c c' t t') where
  whole h := ⟨by rintro _ _ ⟨⟩; exact .constructors, by rintro _ _ n ⟨⟩; exact .member h n⟩
  apart h hnew := by
    cases hnew with
    | member hnot => exact hnot h

lemma mirrors_addClass (name : String) :
    Mirrors L (updateTypes (·.addClass name)) (updateTypes (·.addClass name)) w fun _ _ υ =>
      υ.left.types.Nominal w.left.types.next ∧
        υ.link.type w.left.types.next w.right.types.next ∧
        υ.Registered w.left.types.nextClass w.right.types.nextClass := by
  refine mirrors_turn fun {u τ} hu => ?_
  obtain rfl := gives_updateTypes.mp hu
  have entry (t : TypeTable) : (t.addClass name).class? t.nextClass =
      some { id := t.nextClass, name, type := t.next } := by
    rw [TypeTable.class?_addClass, if_pos rfl]
  have form (t : TypeTable) : (t.addClass name).form? t.next = some (.object t.nextClass name) :=
    t.form?_add_next _
  refine ⟨(), _, NewClass L.apart w.left.types.nextClass w.right.types.nextClass w.left.types.next
    w.right.types.next, (· = .cls w.left.types.nextClass), (· = .cls w.right.types.nextClass),
    gives_updateTypes.mpr rfl, ⟨w.leftOrdered.addClass name rfl, w.rightOrdered.addClass name rfl,
      ?_, ?_, ?_⟩, allows_newClass, ?_⟩
  · -- nothing that is linked is the new class
    rintro x x' h (rfl | rfl)
    · exact absurd w.left.types.class?_nextClass (w.agree h).present.1
    · exact absurd w.right.types.class?_nextClass (w.agree h).present.2
  · -- what is linked now is new on both sides and agrees
    have hl := w.left.types.class?_nextClass
    have hr := w.right.types.class?_nextClass
    rintro _ _ (_ | _ | _ | _ | ⟨hnot, n⟩)
    · exact ⟨TypeTable.form?_next _, TypeTable.form?_next _,
        .type (form _) (form _) (.object (Or.inr .cls))⟩
    · exact ⟨hl, hr, .cls (entry _) (entry _) rfl (Or.inr .type)⟩
    · exact ⟨hl, hr, .constructors (Or.inr .cls) (entry _) (entry _) .nil⟩
    · exact ⟨hl, hr, .body (Or.inr .cls) (entry _) (entry _) .none⟩
    · exact ⟨hl, hr, .member (Or.inr .cls) (entry _) (entry _) .none⟩
  · exact ⟨by rintro _ _ _ ⟨⟩ ⟨⟩ <;> rfl, by rintro _ _ _ ⟨⟩ ⟨⟩ <;> rfl⟩
  · intro υ hleft _ hυ _
    have hnominal : (w.left.types.addClass name).Nominal w.left.types.next := ⟨_, form _, rfl⟩
    exact ⟨hleft ▸ hnominal, hυ ▸ Or.inr .type, ⟨hυ ▸ Or.inr .cls, hυ ▸ Or.inr .body⟩⟩

lemma mirrors_registerClass {head : ClassHead} (hscope : w.link.scope scope scope')
    (hname : w.link (.name scope head.name) (.name scope' head.name) ∨
      L.dropped head.name ∧ scope = .root) :
    Mirrors L (registerClass scope head) (registerClass scope' head) w
      fun c c' υ => υ.Registered c c' := by
  refine .bind_types ((mirrors_addClass head.name).bind fun _ _ υ hυ hnew => ?_)
  obtain ⟨hnominal, htype, hregistered⟩ := hnew
  have hb : (Binding.ofClass head.name w.left.types.nextClass w.left.types.next).Linked υ.link
      (.ofClass head.name w.right.types.nextClass w.right.types.next) :=
    ⟨rfl, .cls hregistered.cls, htype, rfl⟩
  exact (mirrors_declare_seen (hυ.link hscope) (hname.imp_left hυ.link) hb (fun _ => hnominal)
    fun _ _ sig hsig => nomatch hsig).bind_pure fun _ _ ω hω _ => hregistered.mono hω

/-! ### Changes of classes -/

/-- All that is known of a class but its name and its type. -/
def OfClass (c : ClassId) : Cell → Prop
  | .member d _ | .constructors d | .body d => d = c
  | _ => False

/-- The entries of linked classes are changed to others: what is linked holds the same as before. -/
structure Follows (w : World L.lax) (c c' : ClassId) (e e' k k' : ClassEntry) : Prop where
  body : w.link.body c c' → Option.Rel w.link.scope e.body e'.body →
    Option.Rel w.link.scope k.body k'.body
  members : ∀ n, w.link (.member c n) (.member c' n) →
    Option.Rel (Binding.Linked w.link) (e.members.find? n) (e'.members.find? n) →
    Option.Rel (Binding.Linked w.link) (k.members.find? n) (k'.members.find? n)
  constructors :
    List.Forall₂ (fun x x' => List.Forall₂ w.link.type x.params x'.params)
      e.constructors e'.constructors →
    List.Forall₂ (fun x x' => List.Forall₂ w.link.type x.params x'.params)
      k.constructors k'.constructors

lemma turn_updateClass {e e' : ClassEntry} {f f' : ClassEntry → ClassEntry}
    (hcls : w.link.cls c c') (he : w.left.types.class? c = some e)
    (he' : w.right.types.class? c' = some e')
    (hl : w.left.Continues (OfClass c) (w.left.updateClass c f))
    (hr : w.right.Continues (OfClass c') (w.right.updateClass c' f'))
    (hfollows : Follows w c c' e e' (f e) (f' e')) :
    w.Turn (fun _ _ => False) (OfClass c) (OfClass c') (w.left.updateClass c f)
      (w.right.updateClass c' f') where
  left := hl
  right := hr
  new h := h.elim
  unique := ⟨fun _ _ _ h => h.elim, fun _ _ _ h => h.elim⟩
  old {x x'} h hx := by
    have hle : w.link.Within (w.link.plus fun _ _ => False) := Link.within_of_le Or.inl
    -- a link is one to one, so the class changes on both sides or on none
    have hboth {d d' : ClassId} (hd : w.link.cls d d') (hdd : d = c ∨ d' = c') :
        d = c ∧ d' = c' := by
      rcases hdd with rfl | rfl
      · exact ⟨rfl, Cell.cls.inj (w.unique.2 hd hcls)⟩
      · exact ⟨Cell.cls.inj (w.unique.1 hd hcls), rfl⟩
    have hnew : (w.left.updateClass c f).types.class? c = some (f e) := by
      rw [Session.class?_updateClass, he, Option.map_some, if_pos rfl]
    have hnew' : (w.right.updateClass c' f').types.class? c' = some (f' e') := by
      rw [Session.class?_updateClass, he', Option.map_some, if_pos rfl]
    cases w.agree h with
    | member hd hk hk' hb =>
      obtain ⟨rfl, rfl⟩ := hboth hd hx
      cases he.symm.trans hk
      cases he'.symm.trans hk'
      exact .member (Or.inl hd) hnew hnew' (Option.Rel.mono (.mono hle) (hfollows.members _ h hb))
    | constructors hd hk hk' hks =>
      obtain ⟨rfl, rfl⟩ := hboth hd hx
      cases he.symm.trans hk
      cases he'.symm.trans hk'
      exact .constructors (Or.inl hd) hnew hnew'
        ((hfollows.constructors hks).imp fun _ _ hps => hle.types hps)
    | body hd hk hk' hs =>
      obtain ⟨rfl, rfl⟩ := hboth hd hx
      cases he.symm.trans hk
      cases he'.symm.trans hk'
      exact .body (Or.inl hd) hnew hnew' (Option.Rel.mono Or.inl (hfollows.body h hs))
    | type | cls | scope | frame | name | settled => exact (hx.elim id id).elim

lemma mirrors_changeClass {f f' : ClassEntry → ClassEntry}
    [Traced True True (changeClass c (·.updateClass · f))]
    [Traced True True (changeClass c' (·.updateClass · f'))] (hcls : w.link.cls c c')
    (hl : w.left.Continues (OfClass c) (w.left.updateClass c f))
    (hr : w.right.Continues (OfClass c') (w.right.updateClass c' f'))
    (hfollows : ∀ e e', w.left.types.class? c = some e → w.right.types.class? c' = some e' →
      Follows w c c' e e' (f e) (f' e')) :
    Mirrors L (changeClass c (·.updateClass · f)) (changeClass c' (·.updateClass · f')) w
      fun _ _ _ => True := by
  refine mirrors_turn fun {u τ} hu => ?_
  obtain ⟨-, rfl⟩ := gives_changeClass.mp hu
  obtain ⟨e, e', he, he', -⟩ := w.classEntry hcls
  exact ⟨(), _, fun _ _ => False, OfClass c, OfClass c', gives_changeClass.mpr ⟨⟨e', he'⟩, rfl⟩,
    turn_updateClass hcls he he' hl hr (hfollows e e' he he'), Law.allows_of_no_class id id,
    fun _ _ _ _ _ => trivial⟩

lemma mirrors_addMember {b b' : Binding} (hcls : w.link.cls c c') (hb : b.Linked w.link b')
    (hd : b.denotesType = true → w.left.types.Nominal b.type) :
    Mirrors L (changeClass c (·.addMember · b)) (changeClass c' (·.addMember · b')) w
      fun _ _ _ => True := by
  obtain ⟨hvalid, hvalid'⟩ := valid_of_linked hb hd
  obtain ⟨hpresent, hpresent'⟩ := present_of_linked hb
  obtain ⟨e, e', he, he', -⟩ := w.classEntry hcls
  have hl := (leads_addMember (Φ := OfClass c) w.leftOrdered hvalid hpresent rfl).changes_of_gives
    (a := ()) (gives_changeClass.mpr ⟨⟨e, he⟩, rfl⟩)
  have hr := (leads_addMember (Φ := OfClass c') w.rightOrdered hvalid' hpresent'
    rfl).changes_of_gives (a := ()) (gives_changeClass.mpr ⟨⟨e', he'⟩, rfl⟩)
  have : Traced True True (changeClass c (·.updateClass · fun e =>
    { e with members := e.members.insert b })) := traced_addMember
  have : Traced True True (changeClass c' (·.updateClass · fun e =>
    { e with members := e.members.insert b' })) := traced_addMember
  refine mirrors_changeClass hcls hl hr fun e e' _ _ => ⟨fun _ h => h, fun n _ h => ?_, id⟩
  show Option.Rel _ ((e.members.insert b).find? n) ((e'.members.insert b').find? n)
  rw [Bindings.find?_insert, Bindings.find?_insert, hb.name]
  split
  · exact .some hb
  · exact h

lemma mirrors_addConstructor {k k' : Constructor} (hcls : w.link.cls c c')
    (hk : List.Forall₂ w.link.type k.params k'.params) :
    Mirrors L (changeClass c (·.addConstructor · k)) (changeClass c' (·.addConstructor · k')) w
      fun _ _ _ => True := by
  have continues {σ : Session} (hσ : σ.Assembled) {c : ClassId} {k : Constructor}
      (hk : ∀ t ∈ k.params, σ.types.Registered t) : σ.Continues (OfClass c)
        (σ.updateClass c fun e => { e with constructors := e.constructors ++ [k] }) :=
    hσ.updateClass (.addConstructor hσ.types c hk)
      (fun e _ => ⟨rfl, rfl, fun _ _ => rfl, fun hn => absurd rfl hn, fun _ => rfl, fun h => h⟩)
      hσ.bodies hσ.members
  obtain ⟨hreg, hreg'⟩ := registered_all hk
  have : Traced True True (changeClass c (·.updateClass · fun e =>
    { e with constructors := e.constructors ++ [k] })) := traced_addConstructor
  have : Traced True True (changeClass c' (·.updateClass · fun e =>
    { e with constructors := e.constructors ++ [k'] })) := traced_addConstructor
  exact mirrors_changeClass hcls (continues w.leftOrdered hreg) (continues w.rightOrdered hreg')
    fun e e' _ _ => ⟨fun _ h => h, fun _ _ h => h, fun h => List.rel_append h (.cons hk .nil)⟩

/-! ### The bodies of classes -/

def openBody (scope : ScopeId) (c : ClassId) : Check ScopeId := do
  let body ← openIn scope (.cls c)
  changeClass c (·.updateClass · fun e => { e with body := some body })
  return body

instance traced_openBody : Traced True True (openBody scope c) where
  trace h := by
    simp only [openBody, gives_bind, gives_pure] at h
    obtain ⟨body, _, h1, _, _, h2, -, rfl⟩ := h
    exact trace_openBody h1 h2

lemma openClass_openBody {head : ClassHead} {ms : List Stmt} {others : List ClassId} :
    openClass scope (.cls head ms) (c :: others) = do
      let body ← openBody scope c
      let ms ← announce body ms
      ms.forM (announceField c body)
      return (.cls { head with cls := some c, scope := some body } ms, others) := by
  rw [openClass_cls]
  simp only [openBody, bind_assoc, pure_bind]

/-- The class gets its body, which is a scope that stands in it. -/
lemma continues_giveBody {σ : Session} {b : ScopeId} {s : Scope} (hσ : σ.Assembled)
    (hs : σ.scopes.scope? b = some s) (hcls : s.cls = some c) :
    σ.Continues (OfClass c) (σ.updateClass c fun e => { e with body := some b }) := by
  refine hσ.updateClass (.openBody hσ.types c b)
    (fun e _ => ⟨rfl, rfl, fun _ _ => rfl, fun _ => rfl, fun hn => absurd rfl hn, fun h => h⟩)
    (fun {e id} _ hid => ?_) hσ.members
  cases hid
  exact ⟨s, hs, hcls⟩

lemma mirrors_openBody (hsees : w.Sees L scope scope') (h : w.Registered c c') :
    Mirrors L (openBody scope c) (openBody scope' c') w fun b b' υ => υ.Sees L b b' ∧
      w.left.scopes.scope? b = none ∧ ∃ s, w.left.scopes.scope? scope = some s ∧
        υ.left.scopes.scope? b = some (s.inner scope (.cls c)) := by
  intro _ _ τ hb hclean
  have hlater := Session.Later.of_gives hb
  simp only [openBody, gives_bind, gives_pure] at hb
  obtain ⟨b, σ1, h1, _, _, h2, rfl, rfl⟩ := hb
  have hkind : KindLinked L w (.cls c) (.cls c') := .cls h.cls h.body
  obtain ⟨_, rfl⟩ := gives_changeClass.mp h2
  have hclean1 : L.Clean σ1 := ⟨hclean.calls, hclean.names⟩
  rcases mirrors_openIn hsees hkind (.refl w) h1 hclean1 with ⟨b', υ, rfl, h1', hυ, hsees'⟩ | hmiss
  swap
  · -- a fault in opening the scope is one in opening the body
    exact Or.inr ⟨hmiss.1, hmiss.2.bind⟩
  obtain ⟨hnone, s, hs, hb⟩ :=
    (leads_openIn (Φ := fun _ => False) w.leftOrdered hkind.present.1).result h1
  obtain ⟨-, s', -, hb'⟩ :=
    (leads_openIn (Φ := fun _ => False) w.rightOrdered hkind.present.2).result h1'
  have hregistered := h.mono hυ
  obtain ⟨e, e', he, he', -⟩ := υ.classEntry hregistered.cls
  have h2' : Gives (changeClass c' (·.updateClass · fun e => { e with body := some b' })) υ.right ()
      (υ.right.updateClass c' fun e => { e with body := some b' }) :=
    gives_changeClass.mpr ⟨⟨e', he'⟩, rfl⟩
  have hgives : Gives (openBody scope' c') w.right b' _ :=
    gives_bind.mpr ⟨b', _, h1', gives_bind.mpr ⟨(), _, h2', gives_pure.mpr ⟨rfl, rfl⟩⟩⟩
  have hturn := turn_updateClass hregistered.cls he he'
    (continues_giveBody υ.leftOrdered hb rfl) (continues_giveBody υ.rightOrdered hb' rfl)
    ⟨fun _ _ => .some hsees'.scope, fun _ _ h => h, id⟩
  refine Or.inl ⟨b', υ.step hturn, rfl, hgives,
    hυ.step hturn (Law.allows_of_no_class id id) hlater (.of_gives hgives), ?_, hnone, s, hs, hb⟩
  exact hsees'.transfer Or.inl (.refl _) (.refl _)

/-! ### Functions and constructors -/

lemma mirrors_owner? (hscope : w.link.scope scope scope') :
    Mirrors L (owner? scope) (owner? scope') w fun o o' _ => o'.isSome = o.isSome := by
  refine .bind_scopes (.bind_rule fun s hs => ?_)
  obtain ⟨t, s', ht, hs', hlinked⟩ := w.scope hscope
  cases (Scopes.scope_eq_ok.mp hs).symm.trans ht
  refine ⟨s', Scopes.scope_eq_ok.mpr hs', .bind_types (.pure ?_)⟩
  have hcls := hlinked.cls
  generalize s.cls = o at hcls
  generalize s'.cls = o' at hcls
  cases hcls with
  | none => rfl
  | @some d d' hd =>
    obtain ⟨e, e', he, he', -⟩ := w.classEntry hd.1
    have hiff := body_iff hscope hd.1 he he'
    simp only [Option.filter_some, he, he', Option.any_some, hiff]
    split <;> rfl

/-- The heads of a function that has been outlined on both sides. -/
structure FuncHead.Outlined (L : Law) (w : World L.lax) (head h h' : FuncHead) : Prop where
  body : ∃ id id', h.scope = some id ∧ h'.scope = some id' ∧ w.Body L id id'
  name : h.name = head.name ∧ h'.name = head.name
  params : List.Forall₂ w.link.type (Param.types h.params) (Param.types h'.params)
  result : w.link.type (h.type.getD .any) (h'.type.getD .any)

lemma mirrors_outlineFunction {kind : FrameKind} {head : FuncHead} (h : w.Level L scope scope') :
    Mirrors L (outlineFunction scope kind head) (outlineFunction scope' kind head) w
      fun h h' υ => FuncHead.Outlined L υ head h h' := by
  have hrun : Mirrors L (outlineFunction scope kind head) (outlineFunction scope' kind head) w
      fun h h' υ => (∃ id id', h.scope = some id ∧ h'.scope = some id' ∧ υ.Sees L id id') ∧
        (h.name = head.name ∧ h'.name = head.name) ∧
        List.Forall₂ υ.link.type (Param.types h.params) (Param.types h'.params) ∧
        υ.link.type (h.type.getD .any) (h'.type.getD .any) := by
    unfold outlineFunction
    refine (mirrors_typeOf? h.sees).bind fun t t' υ hυ ht => ?_
    have hresult := linked_getD_any ht
    refine .bind (mirrors_addFrame rfl hresult (World.isAny_eq hresult)) fun f f' ω hω hf => ?_
    refine (mirrors_openIn (h.sees.mono (hυ.trans hω)) (.function hf.1 hf.2)).bind
      fun b b' ψ hψ hb => ?_
    exact (mirrors_params hb).bind_pure fun ps ps' χ hχ hps =>
      ⟨⟨b, b', rfl, rfl, hb.mono hχ⟩, ⟨rfl, rfl⟩, hps, hχ.link (hψ.link (hω.link hresult))⟩
  refine hrun.with_gives.mono fun r r' υ hυ hpost => ?_
  obtain ⟨hr, -, ⟨id, id', hid, hid', hsees⟩, hname, hparams, hresult⟩ := hpost
  refine ⟨⟨id, id', hid, hid', ?_⟩, hname, hparams, hresult⟩
  obtain ⟨_, hsame, -, hhouses⟩ := houses_outlineFunction w.leftOrdered hr
  cases hid.symm.trans hsame
  obtain ⟨s, hs, hp⟩ := hhouses.inside
  exact ⟨hsees, hhouses.notBody, s, scope, hs, hp, h.outer.mono hυ.left⟩

lemma mirrors_outlineConstructor {head : CtorHead} (h : w.Level L scope scope') :
    Mirrors L (outlineConstructor scope head) (outlineConstructor scope' head) w
      fun h h' υ => ∃ id id', h.scope = some id ∧ h'.scope = some id' ∧ υ.Body L id id' := by
  have hrun : Mirrors L (outlineConstructor scope head) (outlineConstructor scope' head) w
      fun h h' υ => ∃ id id', h.scope = some id ∧ h'.scope = some id' ∧ υ.Sees L id id' := by
    unfold outlineConstructor
    refine .bind_scopes (.bind_rule fun c hc => ?_)
    obtain ⟨c', hc', hcls, -⟩ := w.inClass h.sees.scope hc
    refine ⟨c', hc', bind_classEntry hcls fun e e' _ _ hname htype => ?_⟩
    refine .bind_check (by rw [hname]; exact id) fun _ => ?_
    refine .bind (mirrors_addFrame rfl htype rfl) fun f f' υ hυ hf => ?_
    refine (mirrors_openIn (h.sees.mono hυ) (.function hf.1 hf.2)).bind fun b b' ω hω hb => ?_
    refine (mirrors_params hb).bind fun ps ps' ψ hψ hps => ?_
    exact (mirrors_addConstructor ((hυ.trans (hω.trans hψ)).link hcls) hps).bind_pure
      fun _ _ χ hχ _ => ⟨b, b', rfl, rfl, (hb.mono hψ).mono hχ⟩
  refine hrun.with_gives.mono fun r r' υ hυ hpost => ?_
  obtain ⟨hr, -, id, id', hid, hid', hsees⟩ := hpost
  refine ⟨id, id', hid, hid', ?_⟩
  obtain ⟨_, hsame, hhouses⟩ := houses_outlineConstructor w.leftOrdered hr
  cases hid.symm.trans hsame
  obtain ⟨s, hs, hp⟩ := hhouses.inside
  exact ⟨hsees, hhouses.notBody, s, scope, hs, hp, h.outer.mono hυ.left⟩

/-! ### Fields -/

/-- The announcement of a field is traced, with or without a type. -/
lemma traced_addField (c : ClassId) (name : String) (t : Option TypeId) :
    Traced True True (match t with
      | some t => changeClass c (·.addMember · (.ofVariable name t))
      | none => pure () : Check Unit) := by
  cases t <;> infer_instance

lemma mirrors_announceField {b b' : ScopeId} {head : VarHead} {init init' : Option Expr}
    (hsees : w.Sees L b b') (hcls : w.link.cls c c') :
    Mirrors L (announceField c b (.var head init)) (announceField c' b' (.var head init')) w
      fun _ _ _ => True := by
  unfold announceField
  have := traced_addField c head.name
  refine (mirrors_typeOf? hsees).bind fun t t' υ hυ ht => ?_
  cases ht with
  | none => exact .pure trivial
  | @some t t' ht =>
    have hb : (Binding.ofVariable head.name t).Linked υ.link (.ofVariable head.name t') :=
      ⟨rfl, .value, ht, rfl⟩
    exact (mirrors_addMember (hυ.link hcls) hb fun hd => by cases hd).last

end Check

end MiddleEnd
