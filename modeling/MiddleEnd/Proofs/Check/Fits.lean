import MiddleEnd.Proofs.Check.Blame

/-!
Declarations are judged fairly. Making them known finds out whether constructors stand in classes of
their name, and whenever it fails, the program is to blame.
-/

namespace MiddleEnd

variable {β : Type} {hoisted : Bool} {Q : Prop} {S : List Span} {base σ τ : Session}
  {scope : ScopeId} {place : Surroundings} {owner : Option String}

/-- The class that the scope is in bears this name, or there is none. -/
def Session.Owned (σ : Session) (scope : ScopeId) : Option String → Prop
  | none => ∃ s, σ.scopes.scope? scope = some s ∧ s.cls = none
  | some name => ∃ s c e, σ.scopes.scope? scope = some s ∧ s.cls = some c ∧
    σ.types.class? c = some e ∧ e.name = name

lemma Session.Owned.mono {Φ : Cell → Prop} (h : σ.Owned scope owner) (hτ : σ.Continues Φ τ) :
    τ.Owned scope owner := by
  cases owner with
  | none =>
    obtain ⟨s, hs, hcls⟩ := h
    obtain ⟨s', hs', hkeeps⟩ := hτ.scope hs
    exact ⟨s', hs', hkeeps.cls.trans hcls⟩
  | some name =>
    obtain ⟨s, c, e, hs, hcls, he, hname⟩ := h
    obtain ⟨s', hs', hkeeps⟩ := hτ.scope hs
    obtain ⟨e', he', hsame⟩ := hτ.cls he
    exact ⟨s', c, e', hs', hkeeps.cls.trans hcls, he', hsame.name.trans hname⟩

namespace Check

open Session (room_all)

lemma judges_openFunction {f : Frame} {ps : List Param} {k : ScopeId → List Param → Check β}
    (hσ : σ.Assembled) (hat : σ.At scope place) (hspans : Param.spansList ps ⊆ S)
    (hk : ∀ frame σ1 body σ2 ps' τ, Gives (addFrame f) σ frame σ1 →
      Gives (openIn scope (.function frame)) σ1 body σ2 → Gives (params body ps) σ2 ps' τ →
      Judges hoisted Q S (k body ps') τ) :
    Judges hoisted Q S (do
      let frame ← addFrame f
      let body ← openIn scope (.function frame)
      let ps ← params body ps
      k body ps) σ := by
  refine judges_addFrame.bind_plain fun frame σ1 h1 => ?_
  have c1 := (leads_addFrame (Φ := fun _ => True) hσ).changes_of_gives h1
  refine (judges_openIn (hat.mono c1)).bind_plain fun body σ2 h2 => ?_
  obtain ⟨c2, hbody, -⟩ := opened_function (Φ := fun _ => True) hσ hat h1 h2
  exact (judges_params c2.assembled hbody hspans).bind_plain fun ps' τ h3 =>
    hk frame σ1 body σ2 ps' τ h1 h2 h3

lemma judges_outlineFunction {kind : FrameKind} {head : FuncHead} (hσ : σ.Assembled)
    (hat : σ.At scope place) (hspans : head.spans ⊆ S) :
    Judges hoisted True S (outlineFunction scope kind head) σ := by
  rw [FuncHead.spans, List.cons_subset, List.append_subset] at hspans
  unfold outlineFunction
  refine (judges_typeOf? hσ hat hspans.2.2).bind_plain fun t σ1 h1 => ?_
  have c1 := (leads_typeOf? (Φ := fun _ => True) hσ).changes_of_gives h1
  exact judges_openFunction c1.assembled (hat.mono c1) hspans.2.1
    fun _ _ _ _ _ _ _ _ _ => .pure trivial

/-- A constructor stands in a class and bears its name. -/
lemma judges_outlineConstructor {head : CtorHead} (hσ : σ.Assembled) (hat : σ.At scope place)
    (howner : σ.Owned scope owner) (hspans : head.spans ⊆ S) :
    Judges false (owner = some head.name) S (outlineConstructor scope head) σ := by
  rw [CtorHead.spans, List.cons_subset] at hspans
  refine .bind_scopes ?_
  cases owner with
  | none =>
    -- outside of a class the rule fails, and so does the claim
    obtain ⟨s, hs, hcls⟩ := howner
    refine (Judges.bind_rule (Q := False) (Rule.fair_inClass hs hspans.1 (Or.inl rfl))
      fun c hc => ?_).congr (by simp)
    obtain ⟨s', hs', hc⟩ := Rule.inClass_eq_ok.mp hc
    cases hs.symm.trans hs'
    cases hcls.symm.trans hc
  | some name =>
    -- the class around the scope is the owner, so their names are compared
    obtain ⟨s, c, e, hs, hcls, he, rfl⟩ := howner
    refine (Judges.bind_rule (Rule.fair_inClass hs hspans.1 (Or.inl rfl)) fun c' hc' => ?_).congr
      (Q := some e.name = some head.name) (and_iff_right (by rw [hcls]; rfl))
    obtain ⟨s', hs', hc'⟩ := Rule.inClass_eq_ok.mp hc'
    cases hs.symm.trans hs'
    cases hcls.symm.trans hc'
    refine (judges_classEntry ⟨e, he⟩).bind_plain fun e' τ h' => ?_
    obtain ⟨he', rfl⟩ := gives_classEntry.mp h'
    cases he.symm.trans he'
    refine (Judges.bind_rule (Verdict.ensure hspans.1 rfl) fun _ _ => ?_).congr
      (P := decide (head.name = e.name) = true ∧ True) (by simp [eq_comm])
    refine judges_openFunction hσ hat hspans.2 fun frame σ1 body σ2 ps σ3 h1 h2 h3 => ?_
    obtain ⟨c2, -⟩ := opened_function (Φ := fun _ => True) hσ hat h1 h2
    obtain ⟨c3, -⟩ := typed_params c2.assembled h3
    obtain ⟨e', he', -⟩ := (c2.trans c3).cls he
    exact (judges_changeClass ⟨e', he'⟩).bind_pure

lemma judges_outline {kind : FrameKind} {s : Stmt} (hσ : σ.Assembled) (hat : σ.At scope place)
    (howner : σ.Owned scope owner) (hspans : s.spans ⊆ S) :
    Judges false (s.fits owner = true) S (outline scope kind s) σ := by
  cases s with
  | func head body =>
    replace hspans := Collector.add_subset.mp hspans
    exact (judges_outlineFunction hσ hat hspans.1).bind_pure.congr (by simp [Stmt.fits])
  | ctor head body =>
    replace hspans := Collector.add_subset.mp hspans
    exact (judges_outlineConstructor hσ hat howner hspans.1).bind_pure.congr (by simp [Stmt.fits])
  | _ => exact .pure rfl

lemma judges_outlines {kind : FrameKind} {ss : List Stmt} (hσ : σ.Assembled)
    (hat : σ.At scope place) (howner : σ.Owned scope owner) (hspans : Stmt.spansList ss ⊆ S) :
    Judges false (∀ s ∈ ss, s.fits owner = true) S (ss.mapM (outline scope kind)) σ := by
  induction ss generalizing σ with
  | nil => exact .pure (List.forall_mem_nil _)
  | cons s ss ih =>
    rw [Stmt.spansList_cons, List.append_subset] at hspans
    rw [List.mapM_cons, List.forall_mem_cons]
    refine (judges_outline hσ hat howner hspans.1).bind fun s' σ1 h1 => ?_
    have c1 := (leads_outline (Φ := fun _ => True) hσ room_all
      fun _ => Or.inl trivial).changes_of_gives h1
    exact (ih c1.assembled (hat.mono c1) (howner.mono c1) hspans.2).bind_pure

/-- A function is blamed for its name at its declaration. -/
lemma span_of_functionBinding? {s : Stmt} {b : Binding × Span} (h : functionBinding? s = some b) :
    b.2 ∈ s.spans := by
  cases s with
  | func head body =>
    cases h
    exact List.mem_cons_self
  | _ => cases h

lemma judges_bindings {bs : List (Binding × Span)} (hσ : σ.Assembled) (hat : σ.At scope place)
    (hbs : ∀ b ∈ bs, b.1.Valid σ.types ∧ ∃ sig, b.1.kind = .function sig)
    (hspans : ∀ b ∈ bs, b.2 ∈ S) :
    Judges hoisted True S (bs.forM fun (b, span) => declare scope b span) σ := by
  induction bs generalizing σ with
  | nil => exact .pure trivial
  | cons b bs ih =>
    rw [List.forall_mem_cons] at hbs hspans
    refine (judges_declare hat fun _ => hspans.1).bind_plain fun _ σ1 h1 => ?_
    obtain ⟨sig, hsig⟩ := hbs.1.2
    have c1 := (leads_declare hσ hbs.1.1 (Binding.present_of_function hsig)
      (Cell.free_all.declaring b.1.name)).changes_of_gives h1
    exact ih c1.assembled (hat.mono c1) (fun b hb => ⟨(hbs.2 b hb).1.mono c1.forms, (hbs.2 b hb).2⟩)
      hspans.2

lemma judges_bindFunctions {ss : List Stmt} (hσ : σ.Assembled) (hat : σ.At scope place)
    (howner : σ.Owned scope owner) (hspans : Stmt.spansList ss ⊆ S) :
    Judges false (∀ s ∈ ss, s.fits owner = true) S (bindFunctions scope ss) σ := by
  have howner' : Judges false True S (owner? scope) σ := by
    obtain ⟨s, hs, -⟩ := hat
    exact .bind_scopes (.bind_plain_rule (.scope hs) fun _ _ => .bind_types (.pure trivial))
  refine howner'.bind_plain fun _ σ0 h0 => ?_
  obtain ⟨rfl, -⟩ := gives_owner? h0
  refine (judges_outlines hσ hat howner hspans).bind_left fun ss' σ1 h1 => ?_
  obtain ⟨c1, hbs⟩ := (leads_outlines (Φ := fun _ => True) hσ room_all
    fun _ => Or.inl trivial).gives h1
  have hspans' : ∀ b ∈ ss'.filterMap functionBinding?, b.2 ∈ S := by
    intro b hb
    obtain ⟨s, hs, hb⟩ := List.mem_filterMap.mp hb
    have hmem := Stmt.spans_subset_spansList hs (span_of_functionBinding? hb)
    rw [Stmt.spansList_congr (erase_mapM (fun s _ => erase_outline) h1)] at hmem
    exact hspans hmem
  refine (judges_bindings c1.assembled (hat.mono c1) hbs hspans').bind_plain
    fun _ σ2 h2 => judges_note.bind_pure

lemma judges_registerClasses {heads : List ClassHead} (hσ : σ.Assembled) (hat : σ.At scope place)
    (hspans : ∀ head ∈ heads, head.extent.span ∈ S) :
    Judges hoisted True S (heads.mapM (registerClass scope)) σ := by
  induction heads generalizing σ with
  | nil => exact .pure trivial
  | cons head heads ih =>
    rw [List.forall_mem_cons] at hspans
    have hregister : Judges hoisted True S (registerClass scope head) σ := by
      refine .bind_types ((Judges.of_gives (a := ()) (gives_updateTypes.mpr rfl) trivial).bind_plain
        fun _ τ hτ => ?_)
      obtain rfl := gives_updateTypes.mp hτ
      have hat' : (σ.addClass head.name).At scope place := hat
      exact (judges_declare hat' fun _ => hspans.1).bind_pure
    rw [List.mapM_cons]
    refine hregister.bind_plain fun c σ1 h1 => ?_
    have c1 := (leads_registerClass hσ trivial
      (Cell.free_all.declaring head.name)).changes_of_gives h1
    exact (ih c1.assembled (hat.mono c1) hspans.2).bind_pure

lemma judges_announceFields {c : ClassId} {ss : List Stmt} (hσ : σ.Assembled)
    (hat : σ.At scope place) (hc : ∃ e, σ.types.class? c = some e)
    (hspans : Stmt.spansList ss ⊆ S) :
    Judges hoisted True S (ss.forM (announceField c scope)) σ := by
  induction ss generalizing σ with
  | nil => exact .pure trivial
  | cons s ss ih =>
    rw [Stmt.spansList_cons, List.append_subset] at hspans
    have hannounce : Judges hoisted True S (announceField c scope s) σ := by
      cases s with
      | var head init =>
        have hwritten := (List.cons_subset.mp (Collector.add_subset.mp hspans.1).1).2
        refine (judges_typeOf? hσ hat hwritten).bind_plain fun t σ1 h1 => ?_
        have c1 := (leads_typeOf? (Φ := fun _ => True) hσ).changes_of_gives h1
        obtain ⟨e, he⟩ := hc
        obtain ⟨e', he', -⟩ := c1.cls he
        cases t with
        | none => exact .pure trivial
        | some t => exact judges_changeClass ⟨e', he'⟩
      | _ => exact .pure trivial
    refine hannounce.bind_plain fun _ σ1 h1 => ?_
    have c1 := (leads_announceField (Φ := fun _ => True) hσ fun _ => trivial).changes_of_gives h1
    obtain ⟨e, he⟩ := hc
    obtain ⟨e', he', -⟩ := c1.cls he
    exact ih c1.assembled (hat.mono c1) ⟨e', he'⟩ hspans.2

lemma registers_others {s s' : Stmt} {cs others : List ClassId} {rest : List ClassHead}
    (hσ : base.Continues (fun _ => True) σ)
    (hcs : base.Registers σ (s.classHead?.toList ++ rest) cs)
    (h : Gives (openClass scope s cs) σ (s', others) τ) :
    σ.Continues (fun _ => True) τ ∧ base.Registers τ rest others := by
  obtain ⟨hthere, -⟩ :=
    (List.forall₂_and_left (p := fun c => ∃ e, σ.types.class? c = some e) _ _).mp
    (hcs.flip.imp fun c head h => ⟨h.2.imp fun _ he => he.1, h⟩)
  have c1 := (opensOn s hσ.assembled room_all (fun _ => trivial)
    fun c hc => ⟨hthere c hc, trivial, trivial, fun _ => trivial⟩).changes_of_gives h
  refine ⟨c1, Session.Registers.mono ?_ c1⟩
  cases s with
  | cls head ms =>
    cases hcs with
    | cons _ hothers =>
      simp only [openClass_cls, gives_bind, gives_pure] at h
      obtain ⟨_, _, -, _, _, -, _, _, -, _, _, -, heq, -⟩ := h
      cases heq
      exact hothers
  | _ =>
    obtain ⟨heq, -⟩ := gives_pure.mp h
    cases heq
    exact hcs

/-- Opening the classes of a statement finds out whether their constructors fit. -/
def OpensJudged (S : List Span) (s : Stmt) : Prop :=
  ∀ {base σ : Session} {scope place cs rest}, base.Continues (fun _ => True) σ →
    σ.At scope place → base.Registers σ (s.classHead?.toList ++ rest) cs → s.spans ⊆ S →
    Judges false (s.fit = true) S (openClass scope s cs) σ

lemma judges_openClasses {ss : List Stmt} {cs : List ClassId} (hss : ∀ s ∈ ss, OpensJudged S s)
    (hσ : base.Continues (fun _ => True) σ) (hat : σ.At scope place)
    (hcs : base.Registers σ (ss.filterMap Stmt.classHead?) cs) (hspans : Stmt.spansList ss ⊆ S) :
    Judges false (∀ s ∈ ss, s.fit = true) S (openClasses scope ss cs) σ := by
  induction ss generalizing σ cs with
  | nil => exact .pure (List.forall_mem_nil _)
  | cons s ss ih =>
    rw [List.forall_mem_cons] at hss
    rw [Stmt.spansList_cons, List.append_subset] at hspans
    rw [Stmt.classHeads_cons] at hcs
    rw [openClasses, List.forall_mem_cons]
    refine (hss.1 hσ hat hcs hspans.1).bind fun r σ1 h1 => ?_
    obtain ⟨c1, hothers⟩ := registers_others hσ hcs h1
    exact (ih hss.2 (hσ.trans c1) (hat.mono c1) hothers hspans.2).bind_pure

/-- What is declared in a scope is made known, or blamed. -/
lemma judges_declarations {ss : List Stmt} (hss : ∀ s ∈ ss, OpensJudged S s)
    (hσ : base.Continues (fun _ => True) σ) (hat : σ.At scope place) (howner : σ.Owned scope owner)
    (hspans : Stmt.spansList ss ⊆ S) :
    Judges false (Stmt.fitList owner ss = true) S (announce scope ss) σ := by
  have hheads : ∀ head ∈ ss.filterMap Stmt.classHead?, head.extent.span ∈ S := by
    intro head hhead
    obtain ⟨s, hs, hhead⟩ := List.mem_filterMap.mp hhead
    refine hspans (Stmt.spans_subset_spansList hs ?_)
    cases s with
    | cls head' ms =>
      cases hhead
      exact List.mem_cons_self
    | _ => cases hhead
  rw [Stmt.fitList_iff]
  refine (judges_registerClasses hσ.assembled hat hheads).bind_plain fun cs σ1 h1 => ?_
  obtain ⟨c1, hcs⟩ := registers_registerClasses hσ.assembled h1
  have hbase := hcs.older hσ
  refine (judges_openClasses hss (hσ.trans c1) (hat.mono c1) hbase hspans).bind fun ss2 σ2 h2 => ?_
  have hopening := opening_of_gives (length_of_mapM h1) h2
  obtain ⟨c2, -⟩ := hoisted_opening hopening (hσ.trans c1) (hat.mono c1) hbase
  have herase := erase_opening hopening
  refine judges_note.bind_plain fun _ σ3 h3 => ?_
  have c3 := c1.trans (c2.trans ((leads_note c2.assembled).changes_of_gives h3))
  -- the constructors are looked at on the opened statements, which differ in annotations only
  rw [← Stmt.forall_mem_congr (fun s => by rw [Stmt.fits_erase]) herase]
  refine judges_bindFunctions c3.assembled (hat.mono c3) (howner.mono c3) ?_
  rwa [Stmt.spansList_congr herase]

lemma opensJudged (S : List Span) (s : Stmt) : OpensJudged S s := by
  induction s using Stmt.members_induction with
  | other s hs =>
    intro base σ scope place cs rest _ _ _ _
    rw [openClass_eq_pure hs]
    refine .pure ?_
    cases s with
    | cls => cases hs
    | _ => rfl
  | cls head ms ih =>
    intro base σ scope place cs rest hσ hat hcs hspans
    replace hspans := Collector.add_subset.mp hspans
    cases hcs with
    | @cons _ c _ _ hc hothers =>
      obtain ⟨-, e, he, hname⟩ := hc
      rw [openClass_cls]
      refine (judges_openIn hat).bind_plain fun body σ1 h1 => ?_
      obtain ⟨-, -, htypes, -⟩ := quiet_of_openIn h1
      refine (judges_changeClass ⟨e, htypes ▸ he⟩).bind_plain fun _ σ2 h2 => ?_
      obtain ⟨c2, hat2, s, hs, hcls⟩ := opened_class hσ.assembled ⟨e, he⟩ hat h1 h2
      obtain ⟨e2, he2, hkeeps⟩ := c2.cls he
      -- the constructors among the members have to bear the name of this class
      have howner : σ2.Owned body (some head.name) :=
        ⟨s, c, e2, hs, hcls, he2, hkeeps.name.trans hname⟩
      refine (judges_declarations ih (hσ.trans c2) hat2 howner hspans.2).bind_left
        fun ms3 σ3 h3 => ?_
      obtain ⟨c3, -⟩ := hoisted_announce c2.assembled hat2 h3
      obtain ⟨e3, he3, -⟩ := c3.cls he2
      refine (judges_announceFields c3.assembled (hat2.mono c3) ⟨e3, he3⟩ ?_).bind_pure
      rw [Stmt.spansList_congr (erase_announce h3)]
      exact hspans.2

/-- The declarations of a program are made known, or one of them is to blame. -/
lemma judges_announce {ss : List Stmt} (hσ : σ.Assembled) :
    Judges false (Stmt.fitList none ss = true) (Stmt.spansList ss) (announce .root ss) σ := by
  obtain ⟨s, hs, -, -, hcls⟩ := hσ.scopes.root
  have howner : σ.Owned .root none := ⟨s, hs, hcls⟩
  exact judges_declarations (fun s _ => opensJudged _ s) hσ.stay hσ.at_root howner
    (List.Subset.refl _)

end Check

end MiddleEnd
