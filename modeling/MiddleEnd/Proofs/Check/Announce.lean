import MiddleEnd.Proofs.Check.Opened
import MiddleEnd.Proofs.Check.Tracked

/-!
The declarations of a program are made known, those inside of classes included. At the end every
class in it has an open body, and all members of the classes are accounted for.
-/

namespace MiddleEnd

variable {σ τ : Session} {scope : ScopeId} {ks : List (ClassHead × List Stmt)}

/-! ### Entries of classes -/

namespace TypeTable

lemma class?_addClass (t : TypeTable) (name : String) (c : ClassId) :
    (t.addClass name).class? c =
      if c = t.nextClass then some { id := t.nextClass, name, type := t.next } else t.class? c := by
  obtain ⟨i⟩ := c
  show (t.classes ++ [_])[i]? = if ClassId.mk i = ⟨t.classes.length⟩ then _ else t.classes[i]?
  rw [List.getElem?_append]
  simp only [ClassId.mk.injEq]
  split
  · rw [if_neg (by omega)]
  · rename_i hlt
    by_cases hi : i = t.classes.length
    · simp [hi]
    · rw [if_neg hi, List.getElem?_eq_none (by simp; omega), List.getElem?_eq_none (by omega)]

lemma class?_nextClass (t : TypeTable) : t.class? t.nextClass = none :=
  List.getElem?_eq_none (Nat.le_refl _)

end TypeTable

namespace Session

lemma Valid.updateClass (hσ : σ.Valid) {c : ClassId} {f : ClassEntry → ClassEntry}
    (hf : ∀ e, (f e).type = e.type ∧ (f e).name = e.name)
    (hentry : ∀ {e}, σ.types.class? c = some e → (f e).Valid σ c) : (σ.updateClass c f).Valid where
  types := hσ.types.updateClass c hf
  bindings hb := (hσ.bindings hb).mono (List.prefix_refl _)
  classes {d e'} he' := by
    rw [class?_updateClass, Option.map_eq_some_iff] at he'
    obtain ⟨e, he, rfl⟩ := he'
    have hvalid : (if d = c then f e else e).Valid σ d := by
      split
      · rename_i hdc
        subst hdc
        exact hentry he
      · exact hσ.classes he
    obtain ⟨htype, hctors, hmembers, hbody, hnames⟩ := hvalid
    exact ⟨htype, hctors, fun hb => (hmembers hb).imp_left (·.mono (List.prefix_refl _)), hbody,
      hnames⟩

/-- All classes are accounted for if the one whose entry changes is. -/
lemma Tracked.updateClass (h : σ.Tracked ks) {c : ClassId} {f : ClassEntry → ClassEntry}
    (hmembers : ∀ {e name b}, σ.types.class? c = some e → (f e).members.find? name = some b →
      ∃ body, (f e).body = some body ∧
        (σ.scopes.bindingAt? name body = some b ∨ σ.Announced ks body b))
    (hbindings : ∀ {e body name b}, σ.types.class? c = some e → (f e).body = some body →
      σ.scopes.bindingAt? name body = some b →
      (f e).members.find? name = some b ∨ ∃ head, HasField ks body head ∧ head.name = name) :
    (σ.updateClass c f).Tracked ks where
  members {d e' name b} he' hb := by
    rw [class?_updateClass, Option.map_eq_some_iff] at he'
    obtain ⟨e, he, rfl⟩ := he'
    have hmember : ∃ body, (if d = c then f e else e).body = some body ∧
        (σ.scopes.bindingAt? name body = some b ∨ σ.Announced ks body b) := by
      -- it is the class that changes, or its entry is as before
      split at hb
      · rename_i hdc
        subst hdc
        rw [if_pos rfl]
        exact hmembers he hb
      · rename_i hdc
        rw [if_neg hdc]
        exact h.members he hb
    obtain ⟨body, hbody, hb | hann⟩ := hmember
    · exact ⟨body, hbody, Or.inl hb⟩
    · exact ⟨body, hbody, Or.inr (hann.mono (.refl _) (.refl _ _) (List.prefix_refl _))⟩
  bindings {d e' body name b} he' hbody hb := by
    rw [class?_updateClass, Option.map_eq_some_iff] at he'
    obtain ⟨e, he, rfl⟩ := he'
    split at hbody
    · rename_i hdc
      subst hdc
      rw [if_pos rfl]
      exact hbindings he hbody hb
    · rename_i hdc
      rw [if_neg hdc]
      exact h.bindings he hbody hb
  bodies := h.bodies

lemma hoists_updateClass {c : ClassId} {f : ClassEntry → ClassEntry} (n : ℕ)
    {opens : List ClassId} (hf : ∀ {e}, σ.types.class? c = some e →
      (f e).body = e.body ∨ c ∈ opens ∧ e.body = none) :
    Hoists n opens σ (σ.updateClass c f) where
  forms := List.prefix_refl _
  scopes := .refl _
  typeNames := .refl _ _
  bodies {d e} he := by
    refine ⟨if d = c then f e else e, by rw [class?_updateClass, he]; rfl, ?_⟩
    split
    · rename_i hdc
      subst hdc
      exact hf he
    · exact Or.inl rfl

def addClass (σ : Session) (name : String) : Session :=
  { σ with types := σ.types.addClass name }

lemma class?_addClass_eq_some {name : String} {c : ClassId} {e : ClassEntry}
    (h : (σ.addClass name).types.class? c = some e) :
    σ.types.class? c = some e ∨
      c = σ.types.nextClass ∧ e = { id := σ.types.nextClass, name, type := σ.types.next } := by
  rw [addClass, TypeTable.class?_addClass] at h
  split at h
  · rename_i hc
    cases h
    exact Or.inr ⟨hc, rfl⟩
  · exact Or.inl h

lemma hoists_addClass (σ : Session) (name : String) (n : ℕ) : Hoists n [] σ (σ.addClass name) where
  forms := TypeTable.forms_prefix_add _ _
  scopes := .refl _
  typeNames := .refl _ _
  bodies {c e} he := by
    refine ⟨e, ?_, Or.inl rfl⟩
    rw [addClass, TypeTable.class?_addClass, if_neg, he]
    rintro rfl
    rw [TypeTable.class?_nextClass] at he
    cases he

lemma Consistent.addClass (h : σ.Consistent ks) (name : String) :
    (σ.addClass name).Consistent ks where
  valid := {
    types := h.valid.types.addClass name
    bindings hb := (h.valid.bindings hb).mono (TypeTable.forms_prefix_add _ _)
    classes he := by
      rcases class?_addClass_eq_some he with he | ⟨rfl, rfl⟩
      · obtain ⟨htype, hctors, hmembers, hbody, hnames⟩ := h.valid.classes he
        have hforms : σ.types.forms <+: (σ.addClass name).types.forms :=
          TypeTable.forms_prefix_add _ _
        exact ⟨TypeTable.form?_mono hforms htype,
          fun k hk p hp => (hctors k hk p hp).mono hforms,
          fun hb => (hmembers hb).imp_left (·.mono hforms), hbody, hnames⟩
      · -- the new class has no constructors, no members and no body
        exact ⟨TypeTable.form?_add_next _ _, nofun, nofun, nofun, nofun⟩ }
  tracked := {
    members he hb := by
      rcases class?_addClass_eq_some he with he | ⟨rfl, rfl⟩
      · obtain ⟨body, hbody, hb | hann⟩ := h.tracked.members he hb
        · exact ⟨body, hbody, Or.inl hb⟩
        · exact ⟨body, hbody, Or.inr (hann.mono (.refl _) (.refl _ _)
            (TypeTable.forms_prefix_add _ _))⟩
      · cases hb
    bindings he hbody hb := by
      rcases class?_addClass_eq_some he with he | ⟨rfl, rfl⟩
      · exact h.tracked.bindings he hbody hb
      · cases hbody
    bodies := h.tracked.bodies }

end Session

/-! ### The names of classes -/

namespace Check

/-- A class is registered in a scope that is younger than the bodies of the classes listed so
far. -/
lemma hoists_registerClass {head : ClassHead} {c : ClassId} (hσ : σ.Consistent ks)
    (hyounger : ∀ k ∈ ks, ∀ {body}, k.1.scope = some body → body.index < scope.index)
    (h : Gives (registerClass scope head) σ c τ) :
    τ.Consistent ks ∧ Session.Hoists scope.index [] σ τ ∧ σ.types.class? c = none ∧
      τ.Unopened c := by
  unfold registerClass at h
  simp only [gives_bind, gives_types, gives_updateTypes, gives_pure] at h
  obtain ⟨_, _, ⟨rfl, rfl⟩, _, σ1, hσ1, _, τ, hdeclare, rfl, rfl⟩ := h
  obtain rfl : σ.addClass head.name = σ1 := hσ1
  have h1 := hσ.addClass head.name
  have hdecl := declares_of_declare h1.valid.housed hdeclare
  have hform : (σ.addClass head.name).types.form? σ.types.next = some _ :=
    TypeTable.form?_add_next _ _
  have hvalid : τ.Valid := hdecl.valid h1.valid
    (Binding.valid_of_denotesType rfl ⟨_, hform, rfl⟩) (by simp [Binding.ofClass])
  -- the name denotes a type, so it must not be declared in one of the scopes before
  have hnames : (σ.addClass head.name).scopes.SameTypeNames scope.index τ.scopes := by
    obtain ⟨span, hspan⟩ := hdecl.scopes
    exact Scopes.sameTypeNames_declare hspan (Or.inr (Nat.le_refl _))
  have hext := hdecl.extends_session
  have hhoists : Session.Hoists scope.index [] (σ.addClass head.name) τ := by
    refine ⟨hext.forms, hext.scopes, hnames, fun he => ?_⟩
    obtain ⟨e', he', hagree⟩ := hext.cls he
    exact ⟨e', he', Or.inl hagree.body⟩
  refine ⟨⟨hvalid, h1.tracked.extend hext fun k hk body hbody => ?_⟩,
    (Session.hoists_addClass σ head.name _).trans hhoists (Nat.le_refl _),
    TypeTable.class?_nextClass _, ?_⟩
  · exact hnames.mono (hyounger k hk hbody)
  · have hnew : (σ.addClass head.name).Unopened σ.types.nextClass :=
      ⟨_, by rw [Session.addClass, TypeTable.class?_addClass, if_pos rfl], rfl⟩
    exact hnew.hoists hhoists List.not_mem_nil

lemma hoists_registerClasses {ss : List Stmt} {cs : List ClassId} (hσ : σ.Consistent ks)
    (hyounger : ∀ k ∈ ks, ∀ {body}, k.1.scope = some body → body.index < scope.index)
    (h : Gives (registerClasses scope ss) σ cs τ) :
    τ.Consistent ks ∧ Session.Hoists scope.index [] σ τ ∧ cs.Nodup ∧
      cs.length = (ss.filterMap Stmt.classHead?).length ∧
      ∀ c ∈ cs, σ.types.class? c = none ∧ τ.Unopened c := by
  unfold registerClasses at h
  generalize ss.filterMap Stmt.classHead? = heads at h ⊢
  induction heads generalizing σ cs with
  | nil =>
    obtain ⟨rfl, rfl⟩ := gives_pure.mp h
    exact ⟨hσ, .refl _ _, List.nodup_nil, rfl, List.forall_mem_nil _⟩
  | cons head heads ih =>
    obtain ⟨c, cs, σ1, h1, h2, rfl⟩ := gives_mapM_cons.mp h
    obtain ⟨hσ1, hhoists1, hnone, hopen⟩ := hoists_registerClass hσ hyounger h1
    obtain ⟨hτ, hhoists2, hnodup, hlength, hcs⟩ := ih hσ1 h2
    refine ⟨hτ, hhoists1.trans hhoists2 (Nat.le_refl _), List.nodup_cons.mpr ⟨fun hc => ?_, hnodup⟩,
      by rw [List.length_cons, List.length_cons, hlength], ?_⟩
    · -- the others are new when the first is already there
      obtain ⟨e, he, -⟩ := hopen
      rw [(hcs c hc).1] at he
      cases he
    · rw [List.forall_mem_cons]
      refine ⟨⟨hnone, hopen.hoists hhoists2 List.not_mem_nil⟩, fun c hc => ?_⟩
      exact ⟨hhoists1.class?_eq_none (hcs c hc).1, (hcs c hc).2⟩

/-! ### Functions and constructors -/

lemma reaches_of_outlineFunction {kind : FrameKind} {head head' : FuncHead} (hσ : σ.Valid)
    (h : Gives (outlineFunction scope kind head) σ head' τ) :
    σ.Reaches τ ∧ (∀ t ∈ Param.types head'.params, τ.types.Registered t) ∧
      τ.types.Registered (head'.type.getD .any) := by
  unfold outlineFunction at h
  simp only [gives_bind, gives_pure] at h
  obtain ⟨ty, σ1, h1, frame, σ2, h2, body, σ3, h3, ps, _, h4, rfl, rfl⟩ := h
  have hresult := registered_of_typeOf? hσ h1
  have r1 := (quiet_of_typeOf? hσ h1).1.reaches hσ
  have r2 := r1.trans ((quiet_of_addFrame h2).reaches r1.valid)
  have r3 := (quiet_of_openIn h3).1.reaches r2.valid
  obtain ⟨r4, hparams⟩ := reaches_of_params r3.valid (notBody_of_openIn r2.valid h3) h4
  have r := (r2.trans r3).trans r4
  refine ⟨r, hparams, ?_⟩
  exact hresult.mono (((quiet_of_addFrame h2).grows.trans r3.grows).trans r4.grows).forms

end Check

lemma Session.Consistent.addConstructor (h : σ.Consistent ks) (c : ClassId) {k : Constructor}
    (hk : ∀ p ∈ k.params, σ.types.Registered p) :
    (σ.updateClass c fun e => { e with constructors := e.constructors ++ [k] }).Consistent ks where
  valid := h.valid.updateClass (fun e => ⟨rfl, rfl⟩) fun he => by
    obtain ⟨htype, hctors, hmembers, hbody, hnames⟩ := h.valid.classes he
    refine ⟨htype, ?_, hmembers, hbody, hnames⟩
    rw [List.forall_mem_append, List.forall_mem_singleton]
    exact ⟨hctors, hk⟩
  tracked := h.tracked.updateClass (fun {e _ _} he hb => h.tracked.members (e := e) he hb)
    fun {e _ _ _} he hbody hb => h.tracked.bindings (e := e) he hbody hb

namespace Check

lemma hoists_outlineConstructor {head head' : CtorHead} (hσ : σ.Consistent ks)
    (h : Gives (outlineConstructor scope head) σ head' τ) :
    τ.Consistent ks ∧ Session.Hoists σ.scopes.size [] σ τ := by
  unfold outlineConstructor at h
  simp only [gives_bind, gives_scopes, gives_rule, gives_classEntry, gives_changeClass,
    gives_pure] at h
  obtain ⟨_, _, ⟨rfl, rfl⟩, c, _, ⟨-, rfl⟩, e, _, ⟨-, rfl⟩, _, _, ⟨-, rfl⟩, frame, σ1, h1, body, σ2,
    h2, ps, σ3, h3, _, τ, ⟨-, hτ⟩, -, rfl⟩ := h
  have r1 := (quiet_of_addFrame h1).reaches hσ.valid
  have r2 := r1.trans ((quiet_of_openIn h2).1.reaches r1.valid)
  obtain ⟨r3, hparams⟩ := reaches_of_params r2.valid (notBody_of_openIn r1.valid h2) h3
  have r := r2.trans r3
  obtain rfl : σ3.updateClass c _ = τ := hτ
  refine ⟨(hσ.reaches r).addConstructor c hparams, ?_⟩
  exact (Session.Hoists.of_grows r.grows).trans
    (Session.hoists_updateClass _ fun _ => Or.inl rfl) (Nat.le_refl _)

def IsFunction (σ : Session) (b : Binding) : Prop :=
  b.Valid σ.types ∧ ∃ sig, b.kind = .function sig

lemma hoists_outline {kind : FrameKind} {s s' : Stmt} (hσ : σ.Consistent ks)
    (h : Gives (outline scope kind s) σ s' τ) :
    τ.Consistent ks ∧ Session.Hoists σ.scopes.size [] σ τ ∧ s'.classes = s.classes ∧
      ∀ b ∈ functionBinding? s', IsFunction τ b.1 := by
  cases s with
  | func head body =>
    simp only [outline, gives_bind, gives_pure] at h
    obtain ⟨head', _, h1, rfl, rfl⟩ := h
    obtain ⟨r, hparams, hresult⟩ := reaches_of_outlineFunction hσ.valid h1
    refine ⟨hσ.reaches r, .of_grows r.grows, rfl, ?_⟩
    rintro b ⟨rfl⟩
    exact ⟨Binding.valid_of_function rfl rfl hresult hparams, _, rfl⟩
  | ctor head body =>
    simp only [outline, gives_bind, gives_pure] at h
    obtain ⟨head', _, h1, rfl, rfl⟩ := h
    obtain ⟨hτ, hhoists⟩ := hoists_outlineConstructor hσ h1
    exact ⟨hτ, hhoists, rfl, by simp [functionBinding?]⟩
  | _ =>
    simp only [outline, gives_pure] at h
    obtain ⟨rfl, rfl⟩ := h
    exact ⟨hσ, .refl _ _, rfl, by simp [functionBinding?]⟩

lemma hoists_outlines {kind : FrameKind} {ss ss' : List Stmt} (hσ : σ.Consistent ks)
    (h : Gives (ss.mapM (outline scope kind)) σ ss' τ) :
    τ.Consistent ks ∧ Session.Hoists σ.scopes.size [] σ τ ∧
      Stmt.classesList ss' = Stmt.classesList ss ∧
      ∀ b ∈ ss'.filterMap functionBinding?, IsFunction τ b.1 := by
  induction ss generalizing σ ss' with
  | nil =>
    obtain ⟨rfl, rfl⟩ := gives_pure.mp h
    exact ⟨hσ, .refl _ _, rfl, List.forall_mem_nil _⟩
  | cons s ss ih =>
    obtain ⟨s', ss', σ1, h1, h2, rfl⟩ := gives_mapM_cons.mp h
    obtain ⟨hσ1, hhoists1, hclasses1, hfun1⟩ := hoists_outline hσ h1
    obtain ⟨hτ, hhoists2, hclasses2, hfun2⟩ := ih hσ1 h2
    refine ⟨hτ, hhoists1.trans hhoists2 hhoists1.scopes.size_le,
      by rw [Stmt.classesList, Stmt.classesList, hclasses1, hclasses2], fun b hb => ?_⟩
    obtain ⟨s0, hs0, hb0⟩ := List.mem_filterMap.mp hb
    rcases List.mem_cons.mp hs0 with rfl | hs0
    · obtain ⟨hvalid, hkind⟩ := hfun1 b hb0
      exact ⟨hvalid.mono hhoists2.forms, hkind⟩
    · exact hfun2 b (List.mem_filterMap.mpr ⟨s0, hs0, hb0⟩)

lemma reaches_of_declareAll {bs : List (Binding × Span)} {u : Unit} (hσ : σ.Valid)
    (hbs : ∀ b ∈ bs, IsFunction σ b.1)
    (h : Gives (bs.forM fun (b, span) => declare scope b span) σ u τ) : σ.Reaches τ := by
  induction bs generalizing σ with
  | nil =>
    obtain ⟨-, rfl⟩ := gives_pure.mp h
    exact .refl hσ
  | cons b bs ih =>
    rw [List.forall_mem_cons] at hbs
    obtain ⟨σ1, h1, h2⟩ := gives_forM_cons.mp h
    obtain ⟨⟨hvalid, sig, hsig⟩, hrest⟩ := hbs
    have r1 : σ.Reaches σ1 := reaches_of_declare hσ hvalid (by simp [Binding.denotesType, hsig])
      (by simp [hsig]) h1
    refine r1.trans (ih r1.valid (fun b hb => ?_) h2)
    obtain ⟨hvalid, hkind⟩ := hrest b hb
    exact ⟨hvalid.mono r1.grows.forms, hkind⟩

/-- The functions and constructors of a list of statements are made known; its classes stay. -/
lemma hoists_bindFunctions {ss ss' : List Stmt} (hσ : σ.Consistent ks)
    (h : Gives (bindFunctions scope ss) σ ss' τ) :
    τ.Consistent ks ∧ Session.Hoists σ.scopes.size [] σ τ ∧
      Stmt.classesList ss' = Stmt.classesList ss := by
  unfold bindFunctions at h
  simp only [gives_bind, gives_pure] at h
  obtain ⟨owner, _, h0, ss', σ1, h1, _, σ2, h2, _, _, h3, rfl, rfl⟩ := h
  obtain ⟨rfl, -⟩ := gives_owner? h0
  obtain ⟨hσ1, hhoists1, hclasses, hfun⟩ := hoists_outlines hσ h1
  have r2 := reaches_of_declareAll hσ1.valid hfun h2
  have r := r2.trans ((quiet_of_note h3).reaches r2.valid)
  exact ⟨hσ1.reaches r, hhoists1.trans (.of_grows r.grows) hhoists1.scopes.size_le, hclasses⟩

end Check

/-! ### Announced fields -/

lemma Session.Consistent.addMember (h : σ.Consistent ks) {c : ClassId} {body : ScopeId}
    {b : Binding} (hbody : ∀ {e}, σ.types.class? c = some e → e.body = some body)
    (hb : σ.types.Registered b.type) (hann : σ.Announced ks body b) :
    (σ.updateClass c fun e => { e with members := e.members.insert b }).Consistent ks where
  valid := h.valid.updateClass (fun e => ⟨rfl, rfl⟩) fun he => by
    obtain ⟨htype, hctors, hmembers, hbody, hnames⟩ := h.valid.classes he
    obtain ⟨-, -, -, -, -, hkind, -⟩ := hann
    refine ⟨htype, hctors, fun {name b'} hb' => ?_, hbody, hnames⟩
    rw [Bindings.find?_insert] at hb'
    split at hb'
    · cases hb'
      exact ⟨Binding.valid_of_isValue hb (by simp [Binding.isValue, hkind]), by simp [hkind]⟩
    · exact hmembers hb'
  tracked := by
    refine h.tracked.updateClass (fun {e name b'} he hb' => ?_)
      fun {e body' name b'} he hbody' hb' => ?_
    · rw [Bindings.find?_insert] at hb'
      split at hb'
      · cases hb'
        exact ⟨body, hbody (e := e) he, Or.inr hann⟩
      · exact h.tracked.members (e := e) he hb'
    · rw [Bindings.find?_insert]
      split
      · -- the name in the body for which the member no longer stands is that of the field
        rename_i hname
        cases (hbody he).symm.trans hbody'
        obtain ⟨head, -, hfield, hhead, -⟩ := hann
        exact Or.inr ⟨head, hfield, hhead.trans hname⟩
      · exact h.tracked.bindings he hbody' hb'

namespace Check

lemma hoists_announceField {c : ClassId} {body : ScopeId} {s : Stmt} {u : Unit}
    (hσ : σ.Consistent ks) (hc : σ.IsBody c body)
    (hfield : ∀ {head init}, s = .var head init → HasField ks body head)
    (h : Gives (announceField c body s) σ u τ) :
    τ.Consistent ks ∧ Session.Hoists σ.scopes.size [] σ τ := by
  cases s with
  | var head init =>
    simp only [announceField, gives_bind] at h
    obtain ⟨ty, σ1, h1, h⟩ := h
    obtain ⟨hquiet, hscopes, hwritten, hdenotes⟩ := quiet_of_typeOf? hσ.valid h1
    have r1 := hquiet.reaches hσ.valid
    have hσ1 := hσ.reaches r1
    have hhoists1 := Session.Hoists.of_grows r1.grows
    split at h
    · -- a type is written: what has just been read announces the member
      rename_i t
      obtain rfl : σ1.updateClass c _ = τ := (gives_changeClass.mp h).2
      obtain ⟨written, hmem, x, hx, hux⟩ := hdenotes t rfl
      have hbody : ∀ {e}, σ1.types.class? c = some e → e.body = some body := by
        intro e he
        obtain ⟨e', he', hbody⟩ := hc.hoists hhoists1
        rw [he] at he'
        cases he'
        exact hbody
      have hlt : body.index < σ.scopes.size := by
        obtain ⟨k, hk, hscope, -⟩ := hfield rfl
        exact hσ.tracked.bodies k hk hscope
      have hann : σ1.Announced ks body (.ofVariable head.name t) :=
        ⟨head, written, hfield rfl, rfl, hmem, rfl, σ.scopes, x, r1.grows.scopes,
          r1.grows.typeNames.mono hlt, hlt, hx, hux⟩
      refine ⟨hσ1.addMember hbody hux.registered hann, ?_⟩
      exact hhoists1.trans (Session.hoists_updateClass _ fun _ => Or.inl rfl) (Nat.le_refl _)
    · -- the field has to wait for its initial value
      obtain ⟨-, rfl⟩ := gives_pure.mp h
      exact ⟨hσ1, hhoists1⟩
  | _ =>
    simp only [announceField, gives_pure] at h
    obtain ⟨-, rfl⟩ := h
    exact ⟨hσ, .refl _ _⟩

lemma hoists_announceFields {c : ClassId} {body : ScopeId} {ms : List Stmt} {u : Unit}
    (hσ : σ.Consistent ks) (hc : σ.IsBody c body)
    (hfields : ∀ {head init}, Stmt.var head init ∈ ms → HasField ks body head)
    (h : Gives (ms.forM (announceField c body)) σ u τ) :
    τ.Consistent ks ∧ Session.Hoists σ.scopes.size [] σ τ := by
  induction ms generalizing σ with
  | nil =>
    obtain ⟨-, rfl⟩ := gives_pure.mp h
    exact ⟨hσ, .refl _ _⟩
  | cons s ms ih =>
    obtain ⟨σ1, h1, h2⟩ := gives_forM_cons.mp h
    obtain ⟨hσ1, hhoists1⟩ := hoists_announceField hσ hc
      (fun heq => hfields (List.mem_cons.mpr (Or.inl heq.symm))) h1
    obtain ⟨hτ, hhoists2⟩ := ih hσ1 (hc.hoists hhoists1)
      (fun hmem => hfields (List.mem_cons_of_mem _ hmem)) h2
    exact ⟨hτ, hhoists1.trans hhoists2 hhoists1.scopes.size_le⟩

end Check

/-! ### Bodies of classes -/

namespace Session

lemma Consistent.openBody {c : ClassId} {body : ScopeId} (h : σ.Consistent ks)
    (hc : σ.Unopened c) (hscope : ∃ s, σ.scopes.scope? body = some s ∧ s.cls = some c)
    (hempty : ∀ name, σ.scopes.bindingAt? name body = none) :
    (σ.updateClass c fun e => { e with body := some body }).Consistent ks where
  valid := h.valid.updateClass (fun e => ⟨rfl, rfl⟩) fun he => by
    obtain ⟨htype, hctors, hmembers, -, -⟩ := h.valid.classes he
    refine ⟨htype, hctors, hmembers, ?_, ?_⟩
    · rintro id ⟨rfl⟩
      exact hscope
    · rintro id name b ⟨rfl⟩ hb
      rw [hempty] at hb
      cases hb
  tracked := by
    refine h.tracked.updateClass (fun {e name b} he hb => ?_) ?_
    · obtain ⟨e', he', hnone⟩ := hc
      cases he.symm.trans he'
      obtain ⟨body', hbody', -⟩ := h.tracked.members (e := e) he hb
      rw [hnone] at hbody'
      cases hbody'
    · rintro e _ name b he ⟨rfl⟩ hb
      rw [hempty] at hb
      cases hb

/-- The bodies of registered classes have been opened, and all that is declared in them is known:
the classes of the statements are `ls`. -/
structure Opens (ks : List (ClassHead × List Stmt)) (opens : List ClassId) (σ τ : Session)
    (ls : List (ClassHead × List Stmt)) : Prop where
  consistent : τ.Consistent (ls ++ ks)
  hoists : Hoists σ.scopes.size opens σ τ
  opened : ∀ k ∈ ls, τ.Opened k.1

lemma Opens.trans {υ : Session} {opens more : List ClassId} {ls ms : List (ClassHead × List Stmt)}
    (h : Opens ks opens σ τ ls) (h' : Opens (ls ++ ks) more τ υ ms) :
    Opens ks (opens ++ more) σ υ (ls ++ ms) where
  consistent := by
    refine h'.consistent.more ?_ ?_
    · intro k hk
      simp only [List.mem_append] at hk ⊢
      tauto
    · intro k hk
      refine h'.consistent.tracked.bodies k ?_
      simp only [List.mem_append] at hk ⊢
      tauto
  hoists := h.hoists.trans h'.hoists h.hoists.scopes.size_le
  opened := by
    rw [List.forall_mem_append]
    exact ⟨fun k hk => (h.opened k hk).hoists h'.hoists, h'.opened⟩

end Session

namespace Check

/-- A scope that has been opened as the body of a class is empty. -/
lemma empty_of_openIn {c : ClassId} {body : ScopeId}
    (h : Gives (openIn scope (.cls c)) σ body τ) :
    (∃ s, τ.scopes.scope? body = some s ∧ s.cls = some c) ∧
      ∀ name, τ.scopes.bindingAt? name body = none := by
  obtain ⟨-, rfl, -, hopen⟩ := quiet_of_openIn h
  obtain ⟨base, -, hscope⟩ := Scopes.scope?_openIn hopen σ.scopes.next
  rw [if_pos rfl] at hscope
  refine ⟨⟨_, hscope, rfl⟩, fun name => ?_⟩
  rw [Scopes.bindingAt?, hscope, Option.bind_some, Scopes.inner_bindings]
  rfl

lemma hoists_openBody {c : ClassId} {body : ScopeId} {u : Unit} {σ1 : Session}
    (hσ : σ.Consistent ks) (hc : σ.Unopened c) (h : Gives (openIn scope (.cls c)) σ body σ1)
    (h' : Gives (changeClass c (·.updateClass · fun e => { e with body := some body })) σ1 u τ) :
    τ.Consistent ks ∧ Session.Hoists σ.scopes.size [c] σ τ ∧ τ.IsBody c body ∧
      body.index = σ.scopes.size ∧ body.index < τ.scopes.size := by
  obtain rfl : σ1.updateClass c _ = τ := (gives_changeClass.mp h').2
  have r1 := (quiet_of_openIn h).1.reaches hσ.valid
  have p1 := Session.Hoists.of_grows r1.grows
  obtain ⟨e, he, hnone⟩ := hc.hoists p1 List.not_mem_nil
  obtain ⟨hscope, hempty⟩ := empty_of_openIn h
  refine ⟨(hσ.reaches r1).openBody ⟨e, he, hnone⟩ hscope hempty, ?_, ?_, ?_, ?_⟩
  · refine p1.trans (Session.hoists_updateClass _ fun he' => ?_) (Nat.le_refl _)
    cases he.symm.trans he'
    exact Or.inr ⟨List.mem_singleton_self _, hnone⟩
  · exact ⟨{ e with body := some body }, by rw [Session.class?_updateClass, he]; simp, rfl⟩
  · obtain ⟨-, rfl, -⟩ := quiet_of_openIn h
    rfl
  · obtain ⟨s, hs, -⟩ := hscope
    exact Scopes.lt_size hs

/-- When the classes in a class have been opened, its functions and fields are made known. -/
lemma hoists_announceMembers {c : ClassId} {body : ScopeId} (head : ClassHead)
    {ms ms' : List Stmt} {σ1 : Session} {u : Unit}
    (hσ : σ.Consistent (Stmt.classesList ms ++ ks)) (hc : σ.IsBody c body)
    (hlt : body.index < σ.scopes.size) (h1 : Gives (bindFunctions body ms) σ ms' σ1)
    (h2 : Gives (ms'.forM (announceField c body)) σ1 u τ) :
    τ.Consistent ((Stmt.cls { head with cls := some c, scope := some body } ms').classes ++ ks) ∧
      Session.Hoists σ.scopes.size [] σ τ ∧ Stmt.classesList ms' = Stmt.classesList ms := by
  obtain ⟨hσ1, p1, hclasses⟩ := hoists_bindFunctions hσ h1
  rw [← hclasses] at hσ1
  have hlt1 := Nat.lt_of_lt_of_le hlt p1.scopes.size_le
  have hσ1' : σ1.Consistent
      ((Stmt.cls { head with cls := some c, scope := some body } ms').classes ++ ks) := by
    refine hσ1.more (List.subset_cons_self _ _) (List.forall_mem_cons.mpr ⟨?_, ?_⟩)
    · rintro _ ⟨rfl⟩
      exact hlt1
    · exact hσ1.tracked.bodies
  obtain ⟨hτ, p2⟩ := hoists_announceFields hσ1' (hc.hoists p1)
    (fun {head init} hmem => ⟨_, List.mem_cons_self, rfl, init, hmem⟩) h2
  exact ⟨hτ, p1.trans p2 p1.scopes.size_le, hclasses⟩

/-- The bodies of all classes are opened, from the outside to the inside. -/
lemma opens_opening {ss ss' : List Stmt} {cs : List ClassId} (hσ : σ.Consistent ks)
    (hcs : ∀ c ∈ cs, σ.Unopened c) (hnodup : cs.Nodup) (h : Opening scope ss cs σ ss' τ) :
    Session.Opens ks cs σ τ (Stmt.classesList ss') := by
  induction h generalizing ks with
  | nil => exact ⟨hσ, .refl _ _, List.forall_mem_nil _⟩
  | other hs _ ih =>
    rw [Stmt.classesList, Stmt.classes_of_not_isClass hs]
    exact ih hσ hcs hnodup
  | @cls scope body head _ _ ms6 _ _ c _ inner σ σ1 σ2 σ3 σ4 σ5 σ6 σ7 τ _ h1 h2 h3 _ h5 h6 h7 _
      ihms ih =>
    rw [List.forall_mem_cons] at hcs
    rw [List.nodup_cons] at hnodup
    -- the body is opened, then the classes in it
    obtain ⟨hσ2, p2, hbody2, hbody, hlt2⟩ := hoists_openBody hσ hcs.1 h1 h2
    obtain ⟨hσ3, p3, hnodup3, -, hinner⟩ := hoists_registerClasses hσ2
      (fun k hk body' hbody' => hbody ▸ hσ.tracked.bodies k hk hbody') h3
    have hsize3 := Nat.le_trans (Nat.le_of_lt hlt2) p3.scopes.size_le
    have o4 := ihms hσ3 (fun c hc => (hinner c hc).2) hnodup3
    have p24 := p3.trans o4.hoists hsize3
    have r5 := (quiet_of_note h5).reaches o4.consistent.valid
    have hsize4 := Nat.le_trans hsize3 o4.hoists.scopes.size_le
    have p25 := p24.trans (.of_grows r5.grows) hsize4
    have hlt5 := Nat.lt_of_lt_of_le hlt2 p25.scopes.size_le
    -- its functions and fields are made known
    obtain ⟨hσ7, p7, hclasses⟩ := hoists_announceMembers head (o4.consistent.reaches r5)
      (hbody2.hoists p25) hlt5 h6 h7
    have p27 := p25.trans p7 (Nat.le_of_lt hlt5)
    have p : Session.Hoists σ.scopes.size ([c] ++ inner) σ σ7 := by
      simpa using p2.trans p27 (Nat.le_of_eq hbody.symm)
    have o : Session.Opens ks [c] σ σ7
        (Stmt.cls { head with cls := some c, scope := some body } ms6).classes := by
      refine ⟨hσ7, p.forget fun c hc => p2.class?_eq_none (hinner c hc).1, ?_⟩
      rw [Stmt.classes, List.forall_mem_cons]
      refine ⟨⟨c, body, rfl, rfl, hbody2.hoists p27⟩, fun k hk => ?_⟩
      rw [hclasses] at hk
      exact ((o4.opened k hk).mono r5.grows).hoists p7
    -- then the classes that follow
    have hothers : ∀ c' ∈ _, σ7.Unopened c' := fun c' hc' =>
      (hcs.2 c' hc').hoists o.hoists fun hmem =>
        hnodup.1 (List.mem_singleton.mp hmem ▸ hc')
    exact o.trans (ih o.consistent hothers hnodup.2)

end Check

/-- What holds when the declarations of a program have been made known. -/
lemma Check.consistent_announce {ss ss' : List Stmt} (hσ : σ.Consistent [])
    (h : Gives (Check.announce scope ss) σ ss' τ) :
    τ.Consistent (Stmt.classesList ss') ∧ ∀ k ∈ Stmt.classesList ss', τ.Opened k.1 := by
  obtain ⟨cs, σ1, ss2, σ2, u, σ3, h1, h2, h3, h4⟩ := Check.opening_of_announce h
  obtain ⟨hσ1, -, hnodup, -, hcs⟩ := Check.hoists_registerClasses hσ (List.forall_mem_nil _) h1
  have o2 := Check.opens_opening hσ1 (fun c hc => (hcs c hc).2) hnodup h2
  have r3 := (Check.quiet_of_note h3).reaches o2.consistent.valid
  obtain ⟨hτ, p4, hclasses⟩ := Check.hoists_bindFunctions (o2.consistent.reaches r3) h4
  rw [hclasses]
  rw [List.append_nil] at hτ
  exact ⟨hτ, fun k hk => ((o2.opened k hk).mono r3.grows).hoists p4⟩

end MiddleEnd
