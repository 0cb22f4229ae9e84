import MiddleEnd.Proofs.Check.AllowedChanges
import MiddleEnd.Proofs.Check.Used

/-!
A session only grows. A further program is looked at in the root scope and in scopes that are
opened for it, and all handles that its declarations are given are new; so nothing that was there
before is changed, however the analysis ends. Handles that a tree carries from an earlier analysis
are replaced before they are used.
-/

namespace MiddleEnd

variable {α β : Type} {base σ τ : Session} {scope : ScopeId}

/-! ### What was there -/

/-- The scopes that a further program is looked at in: the root scope and the new ones. -/
def Session.Works (base : Session) (id : ScopeId) : Prop :=
  id = .root ∨ base.scopes.scope? id = none

/-- The function and the class that a scope is in are new. -/
structure Scope.Separate (base : Session) (s : Scope) : Prop where
  frame : ∀ f ∈ s.frame, base.scopes.frame? f = none
  cls : ∀ c ∈ s.cls, base.types.class? c = none

/-- The function or the class that a scope is opened for is new. -/
def ScopeKind.Separate (base : Session) : ScopeKind → Prop
  | .function f => base.scopes.frame? f = none
  | .cls c => base.types.class? c = none
  | .loop | .block => True

lemma Scope.Separate.inner {s : Scope} {kind : ScopeKind} (h : s.Separate base)
    (hkind : kind.Separate base) (id : ScopeId) : (s.inner id kind).Separate base := by
  cases kind with
  | function f => exact ⟨by rintro _ ⟨⟩; exact hkind, h.cls⟩
  | cls c => exact ⟨h.frame, by rintro _ ⟨⟩; exact hkind⟩
  | loop => exact ⟨h.frame, h.cls⟩
  | block => exact ⟨h.frame, h.cls⟩

/-- All that was in `base` is as it was, apart from new names in the root scope; and from the scopes
that a further program is looked at in, nothing that was in `base` can be reached. -/
structure Session.Kept (base σ : Session) : Prop where
  forms : base.types.forms <+: σ.types.forms
  classes : ∀ {c e}, base.types.class? c = some e → σ.types.class? c = some e
  frames : ∀ {f g}, base.scopes.frame? f = some g → σ.scopes.frame? f = some g
  scopes : ∀ {id s}, id ≠ .root → base.scopes.scope? id = some s → σ.scopes.scope? id = some s
  root : ∀ {s}, base.scopes.scope? .root = some s → ∃ names : Bindings,
    σ.scopes.scope? .root = some { s with bindings := names } ∧
      ∀ {n b}, s.bindings.find? n = some b → names.find? n = some b
  calls : base.callSites ⊆ σ.callSites
  separate : ∀ {id s}, base.Works id → σ.scopes.scope? id = some s → s.Separate base

namespace Session.Kept

lemma refl (h : base.Assembled) : base.Kept base where
  forms := List.prefix_refl _
  classes := id
  frames := id
  scopes _ := id
  root hs := ⟨_, hs, id⟩
  calls := List.Subset.refl _
  separate {id s} hid hs := by
    rcases hid with rfl | hid
    · obtain ⟨s', hs', -, hframe, hcls⟩ := h.scopes.root
      cases hs.symm.trans hs'
      exact ⟨by simp [hframe], by simp [hcls]⟩
    · cases hid.symm.trans hs

lemma scope?_eq_none (h : base.Kept σ) {id : ScopeId} (hid : σ.scopes.scope? id = none) :
    base.scopes.scope? id = none := by
  rw [Option.eq_none_iff_forall_ne_some] at hid ⊢
  intro s hs
  by_cases hroot : id = .root
  · subst hroot
    obtain ⟨names, hs', -⟩ := h.root hs
    exact hid _ hs'
  · exact hid s (h.scopes hroot hs)

lemma frame?_eq_none (h : base.Kept σ) {f : FrameId} (hf : σ.scopes.frame? f = none) :
    base.scopes.frame? f = none := by
  rw [Option.eq_none_iff_forall_ne_some] at hf ⊢
  exact fun g hg => hf g (h.frames hg)

lemma class?_eq_none (h : base.Kept σ) {c : ClassId} (hc : σ.types.class? c = none) :
    base.types.class? c = none := by
  rw [Option.eq_none_iff_forall_ne_some] at hc ⊢
  exact fun e he => hc e (h.classes he)

lemma withTypes (h : base.Kept σ) {t : TypeTable} (hforms : σ.types.forms <+: t.forms)
    (hclasses : ∀ {c e}, base.types.class? c = some e → t.class? c = some e) :
    base.Kept { σ with types := t } :=
  ⟨h.forms.trans hforms, hclasses, h.frames, h.scopes, h.root, h.calls, h.separate⟩

lemma updateClass (h : base.Kept σ) {c : ClassId} (hc : base.types.class? c = none)
    (f : ClassEntry → ClassEntry) :
    base.Kept { σ with types := σ.types.updateClass c f } := by
  refine h.withTypes (List.prefix_refl _) fun {d e} he => ?_
  rw [TypeTable.class?_updateClass, if_neg]
  · exact h.classes he
  · rintro rfl
    cases hc.symm.trans he

lemma addClass (h : base.Kept σ) (name : String) :
    base.Kept { σ with types := σ.types.addClass name } := by
  refine h.withTypes (σ.types.forms_prefix_add _) fun {c e} he => ?_
  rw [TypeTable.class?_addClass, if_neg]
  · exact h.classes he
  · rintro rfl
    cases (h.class?_eq_none σ.types.class?_nextClass).symm.trans he

lemma addFrame (h : base.Kept σ) (f : Frame) :
    base.Kept { σ with scopes := σ.scopes.addFrame f } :=
  ⟨h.forms, h.classes, fun hg => Scopes.frame?_addFrame_of_some (h.frames hg), h.scopes, h.root,
    h.calls, h.separate⟩

lemma settle (h : base.Kept σ) {f : FrameId} (hf : base.scopes.frame? f = none) (done : Bool) :
    base.Kept { σ with scopes := σ.scopes.settle f done } := by
  refine ⟨h.forms, h.classes, fun {i g} hg => ?_, h.scopes, h.root, h.calls, h.separate⟩
  rw [Scopes.frame?_settle, h.frames hg, Option.map_some, if_neg]
  rintro rfl
  cases hf.symm.trans hg

lemma openIn (h : base.Kept σ) {kind : ScopeKind} {larger : Scopes} (hscope : base.Works scope)
    (hkind : kind.Separate base) (hopen : σ.scopes.openIn scope kind = .ok larger) :
    base.Kept { σ with scopes := larger } := by
  have hold {id : ScopeId} {s : Scope} (hs : σ.scopes.scope? id = some s) :
      larger.scope? id = some s := by
    obtain ⟨_, -, hid⟩ := Scopes.scope?_openIn hopen id
    rw [hid, if_neg, hs]
    rintro rfl
    exact Nat.lt_irrefl _ (Scopes.lt_size hs)
  refine ⟨h.forms, h.classes, fun hg => ?_, fun hroot hs => hold (h.scopes hroot hs), fun hs => ?_,
    h.calls, fun {id s} hid hs => ?_⟩
  · exact (Scopes.frame?_openIn hopen _).trans (h.frames hg)
  · obtain ⟨names, hs', hnames⟩ := h.root hs
    exact ⟨names, hold hs', hnames⟩
  · obtain ⟨outer, houter, hnew⟩ := Scopes.scope?_openIn hopen id
    change larger.scope? id = some s at hs
    rw [hnew] at hs
    split at hs
    · cases hs
      exact (h.separate hscope houter).inner hkind scope
    · exact h.separate hid hs

lemma declare (h : base.Kept σ) {b : Binding} {span : Span} {larger : Scopes}
    (hscope : base.Works scope) (hdeclare : σ.scopes.declare scope b span = .ok larger) :
    base.Kept { σ with scopes := larger } := by
  have hentry (id : ScopeId) := Scopes.scope?_declare hdeclare id
  refine ⟨h.forms, h.classes, fun hg => ?_, fun {id s} hroot hs => ?_, fun {s} hs => ?_, h.calls,
    fun {id s} hid hs => ?_⟩
  · exact (Scopes.frame?_declare hdeclare _).trans (h.frames hg)
  · -- the only old scope in which names are declared is the root
    show larger.scope? id = some s
    rw [hentry, h.scopes hroot hs, Option.map_some, if_neg]
    rintro rfl
    rcases hscope with rfl | hscope
    · exact hroot rfl
    · cases hscope.symm.trans hs
  · -- the names of the root scope stay what they were, since none is declared twice
    obtain ⟨names, hs', hnames⟩ := h.root hs
    have hroot : larger.scope? .root = _ := hentry .root
    rw [hs', Option.map_some] at hroot
    split at hroot
    · rename_i heq
      refine ⟨_, hroot, fun {n b'} hb' => ?_⟩
      have hfree := Scopes.bindingAt?_of_declare hdeclare
      rw [← heq, Scopes.bindingAt?, hs', Option.bind_some] at hfree
      rw [Bindings.find?_insert, if_neg]
      · exact hnames hb'
      · rintro rfl
        cases hfree.symm.trans (hnames hb')
    · exact ⟨names, hroot, hnames⟩
  · -- declaring a name moves no scope
    change larger.scope? id = some s at hs
    rw [hentry, Option.map_eq_some_iff] at hs
    obtain ⟨s', hs', rfl⟩ := hs
    have hseparate := h.separate hid hs'
    split
    · exact ⟨hseparate.frame, hseparate.cls⟩
    · exact hseparate

end Session.Kept

/-! ### Declarations -/

mutual
/-- What a statement has been given by the declarations is new. -/
def Stmt.Fresh (base : Session) : Stmt → Prop
  | .func head _ => ∀ id ∈ head.scope, base.Works id
  | .ctor head _ => ∀ id ∈ head.scope, base.Works id
  | .cls head ms => (∀ c ∈ head.cls, base.types.class? c = none) ∧
    (∀ id ∈ head.scope, base.Works id) ∧ Stmt.FreshList base ms
  | _ => True

def Stmt.FreshList (base : Session) : List Stmt → Prop
  | [] => True
  | s :: ss => s.Fresh base ∧ Stmt.FreshList base ss
end

lemma Stmt.freshList_iff {ss : List Stmt} : FreshList base ss ↔ ∀ s ∈ ss, s.Fresh base := by
  induction ss with
  | nil => exact ⟨fun _ => List.forall_mem_nil _, fun _ => trivial⟩
  | cons s ss ih => rw [FreshList, ih, List.forall_mem_cons]

lemma Stmt.fresh_of_blockStmt {s : Stmt} {u : Unit} (h : Rule.blockStmt s = .ok u) :
    s.Fresh base := by
  cases s with
  | func | ctor | cls => cases h
  | _ => trivial

/-- Nothing of `base` is changed by a further program. -/
def Session.keeping (base : Session) : AllowedChanges where
  rel _ τ := base.Kept τ
  sees := base.Works
  works := base.Works
  holds f := base.scopes.frame? f = none
  owns c := base.types.class? c = none
  binds _ := True
  opens _ := True
  given := Stmt.Fresh base
  lasting := ⟨fun _ h => h, id⟩
  seen := id
  value _ := trivial
  settled _ := trivial
  event h _ := ⟨h.forms, h.classes, h.frames, h.scopes, h.root, h.calls, h.separate⟩
  call h _ := ⟨h.forms, h.classes, h.frames, h.scopes, h.root,
    List.Subset.trans h.calls (List.subset_insert _ _), h.separate⟩
  type h f := h.withTypes (TypeTable.forms_prefix_add _ f) h.classes
  frame h _ := ⟨h.addFrame _, h.frame?_eq_none (Scopes.frame?_nextFrame _)⟩
  inner {σ id kind larger} h hid hframe hcls hopen := by
    have hkind : kind.Separate base := by
      cases kind with
      | function f => exact hframe f rfl
      | cls c => exact hcls c rfl
      | loop | block => trivial
    exact ⟨h.openIn hid hkind hopen,
      Or.inr (h.scope?_eq_none (List.getElem?_eq_none (Nat.le_refl _)))⟩
  around h hid hs hf := (h.separate hid hs).frame _ hf
  settle h hf := h.settle hf true
  name h hid _ hdeclare := h.declare hid hdeclare
  member _ h hid hs hc := h.updateClass ((h.separate hid hs).cls _ hc) _
  close h hc _ := h.updateClass hc _
  plain := Stmt.fresh_of_blockStmt
  func h := h
  ctor h := h
  body h := h.2.1
  members h := Stmt.freshList_iff.mp h.2.2
  cls h := h.1
  renew h hms := ⟨h.1, h.2.1, Stmt.freshList_iff.mpr hms⟩

/-- The step changes nothing of `base`, also when it fails, and if it succeeds then its result is as
`post` says. -/
abbrev Keeps (base : Session) (step : Check α) (post : α → Prop) : Prop :=
  Follows base.keeping.rel step post

namespace Check

lemma keeps_updateTypes {f : TypeTable → TypeTable}
    (h : ∀ {σ : Session}, base.Kept σ → base.Kept { σ with types := f σ.types }) :
    Keeps base (updateTypes f) fun _ => True :=
  ⟨fun hσ => ⟨h hσ, fun _ => trivial⟩⟩

lemma keeps_changeClass {c : ClassId} {f : ClassEntry → ClassEntry}
    (hc : base.types.class? c = none) :
    Keeps base (changeClass c (·.updateClass · f)) fun _ => True :=
  Follows.classEntry.bind fun _ _ => keeps_updateTypes fun hσ => hσ.updateClass hc f

lemma keeps_declare {b : Binding} {span : Span} (hscope : base.Works scope) :
    Keeps base (declare scope b span) fun _ => True :=
  follows_declare hscope trivial

lemma keeps_registerClass {head : ClassHead} (hscope : base.Works scope) :
    Keeps base (registerClass scope head) fun c => base.types.class? c = none := by
  refine ⟨fun {σ} hσ => .bind_types (Follows.leads ?_ hσ)⟩
  exact (keeps_updateTypes fun hσ => hσ.addClass head.name).bind fun _ _ =>
    (keeps_declare hscope).bind_pure fun _ _ => hσ.class?_eq_none σ.types.class?_nextClass

lemma keeps_registerClasses {ss : List Stmt} (hscope : base.Works scope) :
    Keeps base (registerClasses scope ss) fun cs =>
      cs.length = (ss.filterMap Stmt.classHead?).length ∧ ∀ c ∈ cs, base.types.class? c = none :=
  .mapM fun _ _ => keeps_registerClass hscope

lemma keeps_outlineFunction {kind : FrameKind} {head : FuncHead} (hscope : base.Works scope) :
    Keeps base (outlineFunction scope kind head) fun head' =>
      ∀ id ∈ head'.scope, base.Works id := by
  unfold outlineFunction
  refine follows_typeOf?.bind fun t _ => ?_
  rw [← bind_assoc]
  refine (follows_openFunction hscope trivial).bind fun body hbody => ?_
  refine (follows_params hbody).bind_pure fun ps _ => ?_
  rintro _ ⟨⟩
  exact hbody

lemma keeps_outlineConstructor {head : CtorHead} (hscope : base.Works scope) :
    Keeps base (outlineConstructor scope head) fun head' =>
      ∀ id ∈ head'.scope, base.Works id := by
  refine ⟨fun {σ} hσ => .bind_scopes (.bind_rule hσ fun c hc => ?_)⟩
  obtain ⟨s, hs, hc⟩ := Rule.inClass_eq_ok.mp hc
  have hnew := (hσ.separate hscope hs).cls c hc
  refine (Leads.classEntry hσ).bind fun e τ hτ _ => .bind_rule hτ fun _ _ => ?_
  rw [← bind_assoc]
  refine Follows.leads ((follows_openFunction hscope trivial).bind fun body hbody => ?_) hτ
  refine (follows_params hbody).bind fun ps _ => (keeps_changeClass hnew).bind_pure ?_
  rintro _ - _ ⟨⟩
  exact hbody

lemma keeps_outline {kind : FrameKind} {s : Stmt} (hscope : base.Works scope)
    (hs : s.isClass = true → s.Fresh base) :
    Keeps base (outline scope kind s) fun s' => s'.Fresh base := by
  cases s with
  | func head body => exact (keeps_outlineFunction hscope).bind_pure fun _ h => h
  | ctor head body => exact (keeps_outlineConstructor hscope).bind_pure fun _ h => h
  | cls head ms => exact .pure (hs rfl)
  | _ => exact .pure trivial

lemma keeps_owner? : Keeps base (owner? scope) fun _ => True :=
  .bind_scopes fun _ => .bind_rule fun _ _ => .bind_types fun _ => .pure trivial

lemma keeps_bindFunctions {ss : List Stmt} (hscope : base.Works scope)
    (hss : ∀ s ∈ ss, s.isClass = true → s.Fresh base) :
    Keeps base (bindFunctions scope ss) fun ss' => ∀ s ∈ ss', s.Fresh base := by
  refine keeps_owner?.bind fun _ _ => ?_
  refine (Follows.mapM fun s hs => keeps_outline hscope (hss s hs)).bind fun ss' hss' => ?_
  exact (Follows.forM fun _ _ => keeps_declare hscope).bind fun _ _ =>
    follows_note.bind_pure fun _ _ => hss'.2

lemma keeps_announceField {c : ClassId} {body : ScopeId} {s : Stmt}
    (hc : base.types.class? c = none) : Keeps base (announceField c body s) fun _ => True := by
  cases s with
  | var head init =>
    refine follows_typeOf?.bind fun t _ => ?_
    cases t with
    | none => exact .pure trivial
    | some t => exact keeps_changeClass hc
  | _ => exact .pure trivial

/-- The statement is opened with the first of the registered classes if it is a class, and has new
handles then. -/
def OpensFresh (base : Session) (s : Stmt) : Prop :=
  ∀ {scope cs}, base.Works scope → (∀ c ∈ cs, base.types.class? c = none) →
    s.classHead?.toList.length ≤ cs.length →
      Keeps base (openClass scope s cs) fun r => (r.1.isClass = true → r.1.Fresh base) ∧
        r.2 = cs.drop s.classHead?.toList.length

lemma keeps_openClasses {ss : List Stmt} {cs : List ClassId} (hss : ∀ s ∈ ss, OpensFresh base s)
    (hscope : base.Works scope) (hcs : ∀ c ∈ cs, base.types.class? c = none)
    (hlen : (ss.filterMap Stmt.classHead?).length ≤ cs.length) :
    Keeps base (openClasses scope ss cs) fun ss' =>
      ∀ s ∈ ss', s.isClass = true → s.Fresh base := by
  induction ss generalizing cs with
  | nil => exact .pure (List.forall_mem_nil _)
  | cons s ss ih =>
    rw [List.forall_mem_cons] at hss
    have hsplit : ((s :: ss).filterMap Stmt.classHead?).length =
        s.classHead?.toList.length + (ss.filterMap Stmt.classHead?).length := by
      cases h : s.classHead? <;> simp [h, Nat.add_comm]
    rw [hsplit] at hlen
    rw [openClasses]
    refine (hss.1 hscope hcs (by omega)).bind ?_
    rintro ⟨s', others⟩ ⟨hs', rfl⟩
    refine (ih hss.2 (fun c hc => hcs c (List.mem_of_mem_drop hc)) ?_).bind_pure fun rest hrest =>
      List.forall_mem_cons.mpr ⟨hs', hrest⟩
    rw [List.length_drop]
    omega

lemma keeps_announce {ss : List Stmt} (hss : ∀ s ∈ ss, OpensFresh base s)
    (hscope : base.Works scope) :
    Keeps base (announce scope ss) fun ss' => ∀ s ∈ ss', s.Fresh base :=
  (keeps_registerClasses hscope).bind fun _ hcs =>
    (keeps_openClasses hss hscope hcs.2 (Nat.le_of_eq hcs.1.symm)).bind fun _ hss' =>
      follows_note.bind fun _ _ => keeps_bindFunctions hscope hss'

lemma opensFresh (s : Stmt) : OpensFresh base s := by
  induction s using Stmt.members_induction with
  | other s hs =>
    intro scope cs _ _ _
    rw [openClass_eq_pure hs]
    refine .pure ⟨fun h => ?_, ?_⟩
    · rw [hs] at h
      cases h
    · cases s <;> first | rfl | cases hs
  | cls head ms ih =>
    intro scope cs hscope hcs hlen
    cases cs with
    | nil => cases hlen
    | cons c others =>
      have hc := hcs c List.mem_cons_self
      rw [openClass_cls]
      refine (follows_openIn hscope (by simp) (by rintro _ ⟨⟩; exact hc)).bind fun body hbody =>
        (keeps_changeClass hc).bind fun _ _ => ?_
      refine (keeps_announce ih hbody).bind fun ms' hms' => ?_
      refine (Follows.forM fun _ _ => keeps_announceField hc).bind_pure fun _ _ =>
        ⟨fun _ => ?_, rfl⟩
      exact ⟨by rintro _ ⟨⟩; exact hc, by rintro _ ⟨⟩; exact hbody, Stmt.freshList_iff.mpr hms'⟩
/-! ### Programs -/

lemma keeps_program (base : Session) (p : Program) : Keeps base (program p) fun _ => True := by
  have hroot : base.Works .root := Or.inl rfl
  refine (keeps_announce (fun s _ => opensFresh s) hroot).bind fun ss hss => ?_
  refine (Follows.mapM fun s hs => follows_classFields s (hss s hs)).bind fun ss' hss' => ?_
  exact (follows_stmts hroot (fun s _ => stmtFollows s) hss'.2).bind fun _ _ =>
    follows_note.bind_pure fun _ _ => trivial

end Check

/-! ### Sessions -/

lemma TypeTable.form?_isSome (t : TypeTable) (id : TypeId) : (t.form? id).isSome ↔
    id.index < 5 ∨ TypeId.firstConstructed ≤ id.index ∧ id.index < t.next.index := by
  obtain ⟨i⟩ := id
  rcases Nat.lt_or_ge i 5 with hi | hi
  · have hbasic : i = 0 ∨ i = 1 ∨ i = 2 ∨ i = 3 ∨ i = 4 := by omega
    rcases hbasic with rfl | rfl | rfl | rfl | rfl <;> exact ⟨fun _ => Or.inl hi, fun _ => rfl⟩
  · obtain ⟨n, rfl⟩ := Nat.exists_eq_add_of_le' hi
    show (if TypeId.firstConstructed ≤ n + 5 then t.forms[n + 5 - TypeId.firstConstructed]?
      else none).isSome ↔ _
    unfold next
    split
    · rw [isSome_getElem?]
      simp only
      omega
    · simp only [Option.isSome_none, Bool.false_eq_true, false_iff]
      omega

/-- The session `τ` has all of `σ` unchanged, apart from new names in the root scope, and what it
has besides is under the numbers that come next. -/
structure Session.Preserves (σ τ : Session) : Prop where
  types : ∀ {t f}, σ.types.form? t = some f → τ.types.form? t = some f
  classes : ∀ {c e}, σ.types.class? c = some e → τ.types.class? c = some e
  scopes : ∀ {id s}, id ≠ .root → σ.scopes.scope? id = some s → τ.scopes.scope? id = some s
  frames : ∀ {f g}, σ.scopes.frame? f = some g → τ.scopes.frame? f = some g
  root : ∃ s, σ.scopes.scope? .root = some s ∧ ∃ names : Bindings,
    τ.scopes.scope? .root = some { s with bindings := names } ∧
      ∀ {n b}, s.bindings.find? n = some b → names.find? n = some b
  callSites : σ.callSites ⊆ τ.callSites
  newTypes : ∀ t, σ.types.form? t = none ∧ (τ.types.form? t).isSome ↔
    σ.types.next.index ≤ t.index ∧ t.index < τ.types.next.index
  newClasses : ∀ c, σ.types.class? c = none ∧ (τ.types.class? c).isSome ↔
    σ.types.nextClass.index ≤ c.index ∧ c.index < τ.types.nextClass.index
  newScopes : ∀ id, σ.scopes.scope? id = none ∧ (τ.scopes.scope? id).isSome ↔
    σ.scopes.next.index ≤ id.index ∧ id.index < τ.scopes.next.index
  newFrames : ∀ f, σ.scopes.frame? f = none ∧ (τ.scopes.frame? f).isSome ↔
    σ.scopes.nextFrame.index ≤ f.index ∧ f.index < τ.scopes.nextFrame.index

/-- What is found in the longer one of two lists only is under the numbers in between. -/
lemma getElem?_new_iff {l m : List α} (i : ℕ) :
    l[i]? = none ∧ (m[i]?).isSome ↔ l.length ≤ i ∧ i < m.length := by
  rw [List.getElem?_eq_none_iff, isSome_getElem?]

lemma Session.Kept.preserves (h : base.Kept σ) (hbase : base.Assembled) : base.Preserves σ where
  types := TypeTable.form?_mono h.forms
  classes := h.classes
  scopes := h.scopes
  frames := h.frames
  root := by
    obtain ⟨s, hs, -⟩ := hbase.scopes.root
    exact ⟨s, hs, h.root hs⟩
  callSites := h.calls
  newTypes t := by
    rw [← Option.not_isSome_iff_eq_none, TypeTable.form?_isSome, TypeTable.form?_isSome]
    have hlarge : TypeId.firstConstructed ≤ base.types.next.index := Nat.le_add_right _ _
    unfold TypeId.firstConstructed at *
    omega
  newClasses c := getElem?_new_iff _
  newScopes id := getElem?_new_iff _
  newFrames f := getElem?_new_iff _

/-- **A session only grows.** Whatever programs have been looked at in a session before, and whether
a further program is accepted or fails at any point: all types, classes, functions and scopes that
were there stay as they were, the root scope may gain names, the recorded calls may become more, and
what is new takes the numbers that come next. -/
theorem session_preserved (h : σ.Used) (p : Program) :
    σ.Preserves ((Check.program p).on σ).2 :=
  ((Check.keeps_program σ p).leads (.refl h.assembled)).changes.preserves h.assembled

/-- A class whose method gives back a value of another type than it promises. -/
def abandoned : Program where
  stmts :=
    [.cls { name := "Shelf" }
      [.var { name := "boards", annotation := some (.array (.named "Number" {})) } none,
        .func { name := "count", result := some (.named "Number" {}) }
          [.ret {} (some (.string {} "many"))]]]

/-- A program whose class carries the handles of another one, and which fails in turn. -/
def resumed : Program where
  stmts :=
    [.cls { name := "Box", cls := some ⟨0⟩, scope := some ⟨1⟩ }
      [.var { name := "shelf", annotation := some (.named "Shelf" {}) } none],
      .func { name := "boards", scope := some ⟨2⟩ } [.brk {}]]

/-- The class that `abandoned` leaves behind unfinished stays as it is while `resumed` adds another
one. -/
theorem session_preserved_resumed :
    let σ := ((Check.program abandoned).on {}).2
    σ.Used ∧ (σ.types.class? ⟨0⟩).any (!·.finalized) = true ∧
      ((Check.program resumed).on σ).2.types.nextClass = ⟨2⟩ ∧
      σ.Preserves ((Check.program resumed).on σ).2 := by
  have hused : ((Check.program abandoned).on {}).2.Used := .program (.new []) abandoned
  exact ⟨hused, by decide +kernel, by decide +kernel, session_preserved hused resumed⟩

end MiddleEnd

