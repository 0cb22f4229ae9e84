import MiddleEnd.Proofs.Check.Assembled

/-!
The single steps of the analysis and all its declarations lead on, whether they succeed or not.
-/

namespace MiddleEnd

variable {Φ : Cell → Prop} {σ τ : Session} {scope : ScopeId}

namespace Check

open TypeTable (registered_any)

lemma leads_note {e : LogEvent} (hσ : σ.Assembled) :
    Leads (Session.Continues Φ) (note e) σ fun _ _ => True :=
  have h : σ.Continues Φ σ := hσ.stay
  ⟨⟨⟨hσ.types, hσ.scopes, hσ.bodies, hσ.members⟩, h.forms, h.cls, h.known, h.scope, h.frame,
    h.calls⟩, fun _ => trivial⟩

lemma leads_recordCall {name : String} (hσ : σ.Assembled) :
    Leads (Session.Continues Φ) (recordCall scope name) σ fun _ _ => True := by
  refine .bind_scopes ?_
  split
  · have h : σ.Continues Φ σ := hσ.stay
    exact ⟨⟨⟨hσ.types, hσ.scopes, hσ.bodies, hσ.members⟩, h.forms, h.cls, h.known, h.scope,
      h.frame, List.subset_insert _ _⟩, fun _ => trivial⟩
  · exact .pure hσ.stay trivial

lemma leads_updateScopes {f : Scopes → Scopes} (h : σ.Continues Φ { σ with scopes := f σ.scopes }) :
    Leads (Session.Continues Φ) (updateScopes f) σ
      fun _ τ => { σ with scopes := f σ.scopes } = τ :=
  ⟨h, fun h => gives_updateScopes.mp h⟩

lemma leads_addType {f : TypeForm} (hσ : σ.Assembled) (hf : f.isStructural = true)
    (hparts : ∀ p ∈ f.parts, σ.types.Registered p) :
    Leads (Session.Continues Φ) (addType f) σ fun t τ => τ.types.Registered t := by
  refine ⟨hσ.withTypes ⟨.add hσ.types hf hparts, σ.types.forms_prefix_add f, rfl⟩, fun h => ?_⟩
  obtain ⟨rfl, rfl⟩ := gives_addType.mp h
  exact ⟨f, σ.types.form?_add_next f⟩

lemma leads_changeClass {c : ClassId} {f : ClassEntry → ClassEntry} (hσ : σ.Assembled)
    (ht : (σ.types.updateClass c f).Assembled)
    (hf : ∀ e, σ.types.class? c = some e → e.Keeps Φ c (f e))
    (hbody : ∀ {e id}, σ.types.class? c = some e → (f e).body = some id →
      ∃ s, σ.scopes.scope? id = some s ∧ s.cls = some c)
    (hmembers : ∀ {e name b}, σ.types.class? c = some e → (f e).members.find? name = some b →
      b.Present σ.types) :
    Leads (Session.Continues Φ) (changeClass c (·.updateClass · f)) σ
      fun _ τ => σ.updateClass c f = τ := by
  refine (Leads.classEntry hσ.stay).bind ?_
  rintro _ _ - ⟨rfl, -⟩
  exact ⟨hσ.updateClass ht hf hbody hmembers, fun h => gives_updateTypes.mp h⟩

lemma leads_addMember {c : ClassId} {b : Binding} (hσ : σ.Assembled) (hb : b.Valid σ.types)
    (hpresent : b.Present σ.types) (hc : Φ (.member c b.name)) :
    Leads (Session.Continues Φ) (changeClass c (·.addMember · b)) σ fun _ _ => True := by
  have hfind (e : ClassEntry) (n : String) : (e.members.insert b).find? n =
      if b.name = n then some b else e.members.find? n := Bindings.find?_insert _ _ _
  refine (leads_changeClass hσ (.addMember hσ.types c hb)
    (fun e _ => ⟨rfl, rfl, fun n hn => ?_, fun _ => rfl, fun _ => rfl, fun h => h⟩) hσ.bodies
    fun {e n b'} he hb' => ?_).mono fun _ _ _ _ => trivial
  · refine (hfind e n).trans (if_neg ?_)
    rintro rfl
    exact hn hc
  · rw [hfind] at hb'
    split at hb'
    · cases hb'
      exact hpresent
    · exact hσ.members he hb'

lemma leads_addFrame {f : Frame} (hσ : σ.Assembled) :
    Leads (Session.Continues Φ) (addFrame f) σ fun id τ => σ.scopes.frame? id = none ∧
      σ.scopes.nextFrame = id ∧ { σ with scopes := σ.scopes.addFrame f } = τ := by
  refine ⟨hσ.withScopes (hσ.scopes.withFrames rfl fun hg => ⟨_, Scopes.frame?_addFrame_of_some hg⟩)
    (fun hs => ⟨_, hs, .refl _ _⟩)
    fun {id g} hg => ⟨g, Scopes.frame?_addFrame_of_some hg, .refl _ _⟩, fun h => ?_⟩
  obtain ⟨rfl, rfl⟩ := gives_addFrame.mp h
  exact ⟨Scopes.frame?_nextFrame _, rfl, rfl⟩

lemma leads_openIn {kind : ScopeKind} (hσ : σ.Assembled) (hkind : kind.Present σ.types σ.scopes) :
    Leads (Session.Continues Φ) (openIn scope kind) σ fun id τ =>
      σ.scopes.scope? id = none ∧ ∃ base, σ.scopes.scope? scope = some base ∧
        τ.scopes.scope? id = some (base.inner scope kind) := by
  refine .bind_scopes (.bind_rule hσ.stay fun larger hlarger => ?_)
  have hscope (id : ScopeId) := Scopes.scope?_openIn hlarger id
  have hlt {id : ScopeId} {s : Scope} (hs : σ.scopes.scope? id = some s) : id ≠ σ.scopes.next := by
    rintro rfl
    exact Nat.lt_irrefl _ (Scopes.lt_size hs)
  have hcontinues : σ.Continues Φ { σ with scopes := larger } := by
    refine hσ.withScopes (hσ.scopes.openIn hlarger hkind) (fun {id s} hs => ⟨s, ?_, .refl _ _⟩)
      fun {id f} hf => ⟨f, (Scopes.frame?_openIn hlarger id).trans hf, .refl _ _⟩
    obtain ⟨base, -, hid⟩ := hscope id
    rw [hid, if_neg (hlt hs)]
    exact hs
  obtain ⟨base, hbase, hnext⟩ := hscope σ.scopes.next
  rw [if_pos rfl] at hnext
  refine (leads_updateScopes hcontinues).bind_pure ?_
  rintro _ _ - rfl
  exact ⟨List.getElem?_eq_none (Nat.le_refl _), base, hbase, hnext⟩

lemma leads_openBlock {kind : ScopeKind} (hσ : σ.Assembled) (hroom : σ.Room Φ)
    (hreturning : σ.Returning Φ scope) (hkind : kind = .block ∨ kind = .loop) :
    Leads (Session.Continues Φ) (openIn scope kind) σ fun id τ => τ.Open Φ id := by
  have hpresent : kind.Present σ.types σ.scopes := by
    rcases hkind with rfl | rfl <;> trivial
  refine (leads_openIn hσ hpresent).mono fun id τ hτ ⟨hnone, base, hbase, hid⟩ => ?_
  refine ⟨fun n => (hroom.declaring hσ hnone n).mono hτ, fun f => ?_⟩
  refine (hreturning f).imp_right fun ⟨s, hs, hframe⟩ => ⟨_, hid, ?_⟩
  cases hbase.symm.trans hs
  rcases hkind with rfl | rfl <;> exact hframe

/-- The body of a function is opened, with a frame of its own. -/
lemma leads_openFunction {f : Frame} (hσ : σ.Assembled) (hroom : σ.Room Φ) :
    Leads (Session.Continues Φ) (do
      let frame ← addFrame f
      openIn scope (.function frame)) σ fun id τ => τ.Open Φ id := by
  refine (leads_addFrame hσ).bind fun frame σ1 h1 ⟨hframe, hnext, hσ1⟩ => ?_
  have hpresent : (ScopeKind.function frame).Present σ1.types σ1.scopes := by
    subst hσ1 hnext
    exact ⟨f, Scopes.frame?_addFrame _ f⟩
  refine (leads_openIn h1.assembled hpresent).mono fun id τ hτ ⟨hnone, base, hbase, hid⟩ => ?_
  refine ⟨fun n => ((hroom.mono h1).declaring h1.assembled hnone n).mono hτ, fun g => ?_⟩
  by_cases hg : g = frame
  · exact Or.inl (hg ▸ hroom.settled hframe)
  · exact Or.inr ⟨_, hid, fun heq => hg (Option.some.inj heq).symm⟩

lemma leads_declare {b : Binding} {span : Span} (hσ : σ.Assembled) (hb : b.Valid σ.types)
    (hpresent : b.Present σ.types) (hdeclaring : σ.Declaring Φ scope b.name) :
    Leads (Session.Continues Φ) (declare scope b span) σ fun _ _ => True := by
  unfold declare owner?
  simp only [bind_assoc, pure_bind]
  refine .bind_scopes (.bind_rule hσ.stay fun s hs => .bind_types (.bind_scopes ?_))
  refine .bind_rule hσ.stay fun larger hlarger => ?_
  have hscope (id : ScopeId) := Scopes.scope?_declare hlarger id
  have hcontinues : σ.Continues Φ { σ with scopes := larger } := by
    refine hσ.withScopes (hσ.scopes.declare hlarger hb hpresent) (fun {id s'} hs' => ?_)
      fun {id f} hf => ⟨f, (Scopes.frame?_declare hlarger id).trans hf, .refl _ _⟩
    rw [hscope, hs']
    refine ⟨_, rfl, ?_⟩
    split
    · -- only the cell of the new name changes in the scope
      rename_i hid
      refine ⟨rfl, rfl, rfl, rfl, fun n hn => ?_⟩
      rw [Bindings.find?_insert, if_neg]
      rintro rfl
      exact hn (hid ▸ hdeclaring.1)
    · exact .refl _ _
  refine (leads_updateScopes hcontinues).bind fun _ τ hτ heq => ?_
  subst heq
  split
  · rename_i c hc
    -- the class whose body the scope is
    obtain ⟨-, hbody⟩ := Option.filter_eq_some_iff.mp hc
    refine leads_addMember hτ.assembled hb hpresent ((hdeclaring.2 c).resolve_right ?_)
    rintro ⟨e, he, hne, -⟩
    rw [he] at hbody
    exact hne (by simpa using hbody)
  · exact .pure hτ.assembled.stay trivial

/-! ### Written types and parameters -/

/-- Reading a written type gives a type that is there; the types that it adds stay when it fails. -/
lemma leads_readType {s : Scopes} {t : TypeTable} {e : TypeExpr} (ht : t.Assembled)
    (hs : ∀ {id name b}, s.bindingAt? name id = some b → b.Valid t) :
    Leads TypeTable.Continues (s.typeOf scope e) t fun ty u => u.Registered ty := by
  have stay {u : TypeTable} (hu : u.Assembled) : u.Continues u := ⟨hu, List.prefix_refl _, rfl⟩
  have add {u : TypeTable} {f : TypeForm} (hu : u.Assembled) (hf : f.isStructural = true)
      (hparts : ∀ p ∈ f.parts, u.Registered p) :
      Leads TypeTable.Continues (TypeStep.add f) u fun ty v => v.Registered ty := by
    refine ⟨⟨.add hu hf hparts, u.forms_prefix_add f, rfl⟩, fun h => ?_⟩
    obtain ⟨rfl, rfl⟩ := Scopes.gives_add.mp h
    exact ⟨f, u.form?_add_next f⟩
  induction e generalizing t with
  | named name span =>
    refine ⟨stay ht, fun h => ?_⟩
    obtain ⟨hname, rfl⟩ := gives_mk.mp h
    obtain ⟨b, hb, -, rfl⟩ := Scopes.namedType_eq_ok hname
    obtain ⟨i, hi⟩ := Scopes.exists_bindingAt? hb
    exact (hs hi).type
  | array e ih =>
    refine (ih ht hs).bind fun te u hu hte => add hu.assembled rfl ?_
    simpa [TypeForm.parts] using hte
  | dictionary k v ihk ihv =>
    refine (ihk ht hs).bind fun tk u hu htk => ?_
    refine (ihv hu.assembled fun hb => (hs hb).mono hu.forms).bind fun tv w hw htv => ?_
    refine add hw.assembled rfl ?_
    simpa [TypeForm.parts] using ⟨htk.mono hw.forms, htv⟩

lemma leads_typeOf {e : TypeExpr} (hσ : σ.Assembled) :
    Leads (Session.Continues Φ) (typeOf scope e) σ fun t τ => τ.types.Registered t := by
  have hread : Leads TypeTable.Continues (σ.scopes.typeOf scope e) σ.types
      fun t u => u.Registered t := leads_readType hσ.types hσ.bindings
  refine .bind_scopes (.bind_types ?_)
  rcases hrun : (σ.scopes.typeOf scope e).run.run σ.types with ⟨r, table⟩
  have htable := hread.changes
  rw [hrun] at htable
  have hupdate : Leads (Session.Continues Φ) (updateTypes fun _ => table) σ
      fun _ τ => { σ with types := table } = τ :=
    ⟨hσ.withTypes htable, fun h => gives_updateTypes.mp h⟩
  refine hupdate.bind fun _ τ hτ heq => .rule hτ.assembled.stay ?_
  subst heq
  rintro t rfl
  exact hread.result hrun

lemma leads_typeOf? {e : Option TypeExpr} (hσ : σ.Assembled) :
    Leads (Session.Continues Φ) (typeOf? scope e) σ
      fun t τ => τ.types.Registered (t.getD .any) := by
  cases e with
  | none => exact .pure hσ.stay registered_any
  | some e =>
    rw [typeOf?, map_eq_pure_bind]
    exact (leads_typeOf hσ).bind_pure fun t τ _ ht => ht

lemma leads_params {ps : List Param} (hσ : σ.Assembled)
    (hdeclaring : ∀ n, σ.Declaring Φ scope n) :
    Leads (Session.Continues Φ) (params scope ps) σ
      fun ps' τ => ∀ t ∈ Param.types ps', τ.types.Registered t := by
  induction ps generalizing σ with
  | nil => exact .pure hσ.stay nofun
  | cons p ps ih =>
    rw [params]
    refine (leads_typeOf? hσ).bind fun t σ1 h1 ht => ?_
    refine (leads_declare h1.assembled (Binding.valid_of_isValue ht rfl)
      (Binding.present_of_isValue rfl) ((hdeclaring p.name).mono h1)).bind fun _ σ2 h2 _ => ?_
    refine (ih h2.assembled fun n => (hdeclaring n).mono (h1.trans h2)).bind_pure
      fun rest σ3 h3 hrest => ?_
    rw [Param.types, List.map_cons, List.forall_mem_cons]
    exact ⟨ht.mono (h2.forms.trans h3.forms), hrest⟩

/-! ### Declarations -/

lemma leads_registerClass {head : ClassHead} (hσ : σ.Assembled)
    (hnew : Φ (.cls σ.types.nextClass))
    (hdeclaring : σ.Declaring Φ scope head.name) :
    Leads (Session.Continues Φ) (registerClass scope head) σ fun c τ =>
      c = σ.types.nextClass ∧ ∃ e, τ.types.class? c = some e ∧ e.name = head.name := by
  have hadds : Leads (Session.Continues Φ) (updateTypes (·.addClass head.name)) σ
      fun _ τ => σ.addClass head.name = τ :=
    ⟨hσ.addClass _ hnew, fun h => gives_updateTypes.mp h⟩
  refine .bind_types (hadds.bind fun _ τ hτ heq => ?_)
  subst heq
  have hnominal : (σ.addClass head.name).types.Nominal σ.types.next :=
    ⟨_, σ.types.form?_add_next _, rfl⟩
  have hknown : ∃ e, (σ.addClass head.name).types.class? σ.types.nextClass = some e ∧
      e.name = head.name := by
    rw [Session.addClass, TypeTable.class?_addClass, if_pos rfl]
    exact ⟨_, rfl, rfl⟩
  refine (leads_declare hτ.assembled (Binding.valid_of_denotesType rfl hnominal) ?_
    (hdeclaring.mono hτ)).bind_pure fun _ υ hυ _ => ⟨rfl, ?_⟩
  · rintro _ ⟨⟩
    obtain ⟨e, he, -⟩ := hknown
    exact ⟨e, he⟩
  · obtain ⟨e, he, hname⟩ := hknown
    obtain ⟨e', he', hkeeps⟩ := hυ.cls he
    exact ⟨e', he', hkeeps.name.trans hname⟩

lemma leads_registerClasses {ss : List Stmt} (hσ : σ.Assembled) (hnew : σ.Registering Φ)
    (hdeclaring : ∀ n, σ.Declaring Φ scope n) :
    Leads (Session.Continues Φ) (registerClasses scope ss) σ
      fun cs τ => ∀ c ∈ cs, σ.types.class? c = none ∧ ∃ e, τ.types.class? c = some e := by
  refine Leads.mapM hσ.stay (fun {c τ υ} hυ ⟨hnone, e, he⟩ => ⟨hnone, ?_⟩) fun head _ τ hτ => ?_
  · obtain ⟨e', he', -⟩ := hυ.cls he
    exact ⟨e', he'⟩
  · refine (leads_registerClass hτ.assembled (hnew.mono hτ τ.types.class?_nextClass)
      ((hdeclaring _).mono hτ)).mono ?_
    rintro c υ - ⟨rfl, e, he, -⟩
    exact ⟨hτ.class?_eq_none τ.types.class?_nextClass, e, he⟩

/-- A function stands for what its declaration says. -/
lemma leads_outlineFunction {kind : FrameKind} {head : FuncHead} (hσ : σ.Assembled)
    (hroom : σ.Room Φ) :
    Leads (Session.Continues Φ) (outlineFunction scope kind head) σ fun head' τ =>
      τ.types.Registered (head'.type.getD .any) ∧
        ∀ t ∈ Param.types head'.params, τ.types.Registered t := by
  unfold outlineFunction
  refine (leads_typeOf? hσ).bind fun t σ1 h1 ht => ?_
  rw [← bind_assoc]
  refine (leads_openFunction h1.assembled (hroom.mono h1)).bind fun body σ2 h2 hbody => ?_
  refine (leads_params h2.assembled hbody.declaring).bind_pure fun ps σ3 h3 hps => ?_
  exact ⟨ht.mono (h2.forms.trans h3.forms), hps⟩

lemma leads_outlineConstructor {head : CtorHead} (hσ : σ.Assembled) (hroom : σ.Room Φ)
    (hctor : σ.Constructing Φ scope) :
    Leads (Session.Continues Φ) (outlineConstructor scope head) σ fun _ _ => True := by
  unfold outlineConstructor
  refine .bind_scopes (.bind_rule hσ.stay fun c hc => ?_)
  have hΦ : Φ (.constructors c) := by
    obtain ⟨s, hs, hc⟩ := Rule.inClass_eq_ok.mp hc
    refine (hctor c).resolve_right fun ⟨s', hs', hcls⟩ => hcls ?_
    cases hs.symm.trans hs'
    exact hc
  refine (Leads.classEntry hσ.stay).bind fun e τ hτ _ => .bind_rule hτ.assembled.stay fun _ _ => ?_
  rw [← bind_assoc]
  refine (leads_openFunction hτ.assembled (hroom.mono hτ)).bind fun _ σ1 h1 hbody => ?_
  refine (leads_params h1.assembled hbody.declaring).bind fun ps σ2 h2 hps => ?_
  exact (leads_changeClass h2.assembled (.addConstructor h2.assembled.types c hps)
    (fun e _ => ⟨rfl, rfl, fun _ _ => rfl, fun hn => absurd hΦ hn, fun _ => rfl, fun h => h⟩)
    h2.assembled.bodies h2.assembled.members).bind_pure fun _ _ _ _ => trivial

lemma leads_outline {kind : FrameKind} {s : Stmt} (hσ : σ.Assembled) (hroom : σ.Room Φ)
    (hctor : σ.Constructing Φ scope) :
    Leads (Session.Continues Φ) (outline scope kind s) σ fun s' τ =>
      ∀ b ∈ functionBinding? s', b.1.Valid τ.types ∧ ∃ sig, b.1.kind = .function sig := by
  cases s with
  | func head body =>
    refine (leads_outlineFunction hσ hroom).bind_pure fun head' τ hτ hhead b hb => ?_
    cases hb
    exact ⟨Binding.valid_of_function rfl rfl hhead.1 hhead.2, _, rfl⟩
  | ctor head body =>
    exact (leads_outlineConstructor hσ hroom hctor).bind_pure fun head' τ hτ _ => nofun
  | _ => exact .pure hσ.stay nofun

lemma leads_owner? (hσ : σ.Assembled) :
    Leads (Session.Continues Φ) (owner? scope) σ fun _ _ => True :=
  .bind_scopes (.bind_rule hσ.stay fun _ _ => .bind_types (.pure hσ.stay trivial))

/-- When all signatures have been read, what functions stand for is known. -/
lemma leads_outlines {kind : FrameKind} {ss : List Stmt} (hσ : σ.Assembled) (hroom : σ.Room Φ)
    (hctor : σ.Constructing Φ scope) :
    Leads (Session.Continues Φ) (ss.mapM (outline scope kind)) σ fun ss' τ =>
      ∀ b ∈ ss'.filterMap functionBinding?,
        b.1.Valid τ.types ∧ ∃ sig, b.1.kind = .function sig := by
  refine (Leads.mapM hσ.stay (fun h hb b hmem => ⟨(hb b hmem).1.mono h.forms, (hb b hmem).2⟩)
    fun s _ τ hτ => leads_outline hτ.assembled (hroom.mono hτ) (hctor.mono hτ)).mono ?_
  intro ss' _ _ hss b hb
  obtain ⟨s, hs, hb⟩ := List.mem_filterMap.mp hb
  exact hss s hs b hb

lemma leads_bindings {bs : List (Binding × Span)} (hσ : σ.Assembled)
    (hdeclaring : ∀ n, σ.Declaring Φ scope n)
    (hbs : ∀ b ∈ bs, b.1.Valid σ.types ∧ ∃ sig, b.1.kind = .function sig) :
    Leads (Session.Continues Φ) (bs.forM fun (b, span) => declare scope b span) σ
      fun _ _ => True :=
  Leads.forM hσ.stay fun b hb _ hτ => leads_declare hτ.assembled ((hbs b hb).1.mono hτ.forms)
    (Binding.present_of_function (hbs b hb).2.choose_spec) ((hdeclaring _).mono hτ)

lemma leads_bindFunctions {ss : List Stmt} (hσ : σ.Assembled) (hroom : σ.Room Φ)
    (hctor : σ.Constructing Φ scope) (hdeclaring : ∀ n, σ.Declaring Φ scope n) :
    Leads (Session.Continues Φ) (bindFunctions scope ss) σ fun _ _ => True := by
  refine (leads_owner? hσ).bind fun owner σ0 h0 _ => ?_
  refine (leads_outlines h0.assembled (hroom.mono h0) (hctor.mono h0)).bind fun ss' σ1 h1 hss => ?_
  exact (leads_bindings h1.assembled (fun n => (hdeclaring n).mono (h0.trans h1)) hss).bind
    fun _ σ2 h2 _ => (leads_note h2.assembled).bind_pure fun _ _ _ _ => trivial

lemma leads_announceField {c : ClassId} {body : ScopeId} {s : Stmt} (hσ : σ.Assembled)
    (hmembers : ∀ n, Φ (.member c n)) :
    Leads (Session.Continues Φ) (announceField c body s) σ fun _ _ => True := by
  cases s with
  | var head init =>
    refine (leads_typeOf? hσ).bind fun t τ hτ ht => ?_
    cases t with
    | none => exact .pure hτ.assembled.stay trivial
    | some t =>
      exact leads_addMember hτ.assembled (Binding.valid_of_isValue ht rfl)
        (Binding.present_of_isValue rfl) (hmembers _)
  | _ => exact .pure hσ.stay trivial

lemma leads_openBody {c : ClassId} {β : Type} {k : ScopeId → Check β} {goal : β → Session → Prop}
    (hσ : σ.Assembled) (hroom : σ.Room Φ) (hc : σ.Opening Φ c)
    (hk : ∀ body τ, σ.Continues Φ τ → (∀ n, τ.Declaring Φ body n) → τ.Constructing Φ body →
      Leads (Session.Continues Φ) (k body) τ goal) :
    Leads (Session.Continues Φ) (do
      let body ← openIn scope (.cls c)
      changeClass c (·.updateClass · fun e => { e with body := some body })
      k body) σ goal := by
  have hpresent : (ScopeKind.cls c).Present σ.types σ.scopes := hc.known
  refine (leads_openIn hσ hpresent).bind fun body σ1 h1 ⟨hnone, base, hbase, hbody⟩ => ?_
  refine (leads_changeClass h1.assembled (.openBody h1.assembled.types c body)
    (fun e _ => ⟨rfl, rfl, fun _ _ => rfl, fun _ => rfl, fun hn => absurd hc.body hn, fun h => h⟩)
    ?_ h1.assembled.members).bind
      fun _ σ2 h2 _ => hk body σ2 (h1.trans h2) (fun n => ?_) (Session.Constructing.mono ?_ h2)
  · rintro e id - ⟨rfl⟩
    exact ⟨_, hbody, rfl⟩
  · exact (hroom.declaring hσ hnone n).mono (h1.trans h2)
  · intro d
    by_cases hd : d = c
    · exact Or.inl (hd ▸ hc.constructors)
    · exact Or.inr ⟨_, hbody, fun heq => hd (Option.some.inj heq).symm⟩

lemma continues_openBody {c : ClassId} {body : ScopeId} {υ : Session} {u : Unit} (hσ : σ.Assembled)
    (hroom : σ.Room Φ) (hc : σ.Opening Φ c) (h1 : Gives (openIn scope (.cls c)) σ body τ)
    (h2 : Gives (changeClass c (·.updateClass · fun e => { e with body := some body })) τ u υ) :
    σ.Continues Φ υ := by
  have hbody : Leads (Session.Continues Φ) (do
      let body ← openIn scope (.cls c)
      changeClass c (·.updateClass · fun e => { e with body := some body })
      pure body) σ fun _ _ => True :=
    leads_openBody hσ hroom hc fun body υ hυ _ _ => .pure hυ.assembled.stay trivial
  refine hbody.changes_of_gives (a := body) ?_
  simp only [gives_bind, gives_pure]
  exact ⟨body, τ, h1, u, υ, h2, rfl, rfl⟩

/-- Opening the classes of a statement leads on. -/
def OpensOn (Φ : Cell → Prop) (s : Stmt) : Prop :=
  ∀ {scope cs σ}, σ.Assembled → σ.Room Φ → σ.Registering Φ → (∀ c ∈ cs, σ.Opening Φ c) →
    Leads (Session.Continues Φ) (openClass scope s cs) σ fun r _ => r.2 ⊆ cs

lemma leads_openClasses {ss : List Stmt} {cs : List ClassId} (hss : ∀ s ∈ ss, OpensOn Φ s)
    (hσ : σ.Assembled) (hroom : σ.Room Φ) (hnew : σ.Registering Φ)
    (hcs : ∀ c ∈ cs, σ.Opening Φ c) :
    Leads (Session.Continues Φ) (openClasses scope ss cs) σ fun _ _ => True := by
  induction ss generalizing σ cs with
  | nil => exact .pure hσ.stay trivial
  | cons s ss ih =>
    rw [List.forall_mem_cons] at hss
    rw [openClasses]
    refine (hss.1 hσ hroom hnew hcs).bind fun ⟨s', others⟩ σ1 h1 hothers => ?_
    exact (ih hss.2 h1.assembled (hroom.mono h1) (hnew.mono h1)
      fun c hc => (hcs c (hothers hc)).mono h1).bind_pure fun _ _ _ _ => trivial

lemma opensOn (s : Stmt) : OpensOn Φ s := by
  induction s using Stmt.members_induction with
  | other s hs =>
    intro scope cs σ hσ _ _ _
    rw [openClass_eq_pure hs]
    exact .pure hσ.stay (List.Subset.refl _)
  | cls head ms ih =>
    intro scope cs σ hσ hroom hnew hcs
    cases cs with
    | nil => exact .pure hσ.stay (List.Subset.refl _)
    | cons c others =>
      rw [List.forall_mem_cons] at hcs
      rw [openClass]
      refine leads_openBody hσ hroom hcs.1 fun body σ1 h1 hdeclaring hctor => ?_
      have hroom1 := hroom.mono h1
      refine (leads_registerClasses h1.assembled (hnew.mono h1) hdeclaring).bind
        fun inner σ2 h2 hinner => ?_
      refine (leads_openClasses ih h2.assembled (hroom1.mono h2) (hnew.mono (h1.trans h2))
        fun d hd => hroom1.opening (hinner d hd).1 (hinner d hd).2).bind fun ms' σ3 h3 _ => ?_
      refine (leads_note h3.assembled).bind fun _ σ4 h4 _ => ?_
      have h14 := h2.trans (h3.trans h4)
      refine (leads_bindFunctions h4.assembled (hroom1.mono h14) (hctor.mono h14)
        fun n => (hdeclaring n).mono h14).bind fun ms'' σ5 h5 _ => ?_
      exact (Leads.forM h5.assembled.stay fun s _ τ hτ =>
        leads_announceField hτ.assembled hcs.1.members).bind_pure
          fun _ _ _ _ => List.subset_cons_self _ _

lemma leads_announce {ss : List Stmt} (hσ : σ.Assembled) (hroom : σ.Room Φ)
    (hnew : σ.Registering Φ) (hctor : σ.Constructing Φ scope)
    (hdeclaring : ∀ n, σ.Declaring Φ scope n) :
    Leads (Session.Continues Φ) (announce scope ss) σ fun _ _ => True := by
  refine (leads_registerClasses hσ hnew hdeclaring).bind fun cs σ1 h1 hcs => ?_
  refine (leads_openClasses (fun s _ => opensOn s) h1.assembled (hroom.mono h1) (hnew.mono h1)
    fun c hc => hroom.opening (hcs c hc).1 (hcs c hc).2).bind fun ss' σ2 h2 _ => ?_
  refine (leads_note h2.assembled).bind fun _ σ3 h3 _ => ?_
  have h13 := h1.trans (h2.trans h3)
  exact leads_bindFunctions h3.assembled (hroom.mono h13) (hctor.mono h13)
    fun n => (hdeclaring n).mono h13

end Check

end MiddleEnd
