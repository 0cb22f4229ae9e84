import MiddleEnd.Proofs.Check.Places

/-!
The members of classes. Members are entered when fields are announced, when names are declared in
the body of a class, and when the class is closed. From the moment on when all fields have been
declared, the members of a class are the names in its body, and nothing changes them any more.
-/

namespace MiddleEnd

variable {A F σ τ : Session} {scope : ScopeId} {place : Surroundings}

/-- The classes have the same members. -/
def TypeTable.SameMembers (t u : TypeTable) : Prop :=
  ∀ c e, t.class? c = some e → ∃ e', u.class? c = some e' ∧
    ∀ name, e'.members.find? name = e.members.find? name

/-- All classes have a body, and their members are the names in it. -/
def Analysis.Mirrored (a : Analysis) : Prop :=
  ∀ c e, a.types.class? c = some e → ∃ body s, e.body = some body ∧
    a.scopes.scope? body = some s ∧ ∀ name, e.members.find? name = s.bindings.find? name

mutual
/-- What the declarations have left on a statement: the heads of classes, functions and
constructors. -/
def Stmt.shell : Stmt → List Stmt
  | .func head _ => [.func head []]
  | .ctor head _ => [.ctor head []]
  | .cls head ms => [.cls head (Stmt.shellList ms)]
  | _ => []

def Stmt.shellList : List Stmt → List Stmt
  | [] => []
  | s :: ss => s.shell ++ Stmt.shellList ss
end

/-! ### Announced fields -/

namespace Session

def HasMember (σ : Session) (c : ClassId) (name : String) : Prop :=
  ∃ e b, σ.types.class? c = some e ∧ e.members.find? name = some b

/-- The fields of the class for which a type is written are among its members. -/
def Announces (σ : Session) (k : ClassHead × List Stmt) : Prop :=
  ∀ head init, Stmt.var head init ∈ k.2 → head.annotation ≠ none →
    ∃ c, k.1.cls = some c ∧ σ.HasMember c head.name

namespace HasMember

variable {c d : ClassId} {name : String} {outlining : Prop}

lemma updateClass {f : ClassEntry → ClassEntry} (h : σ.HasMember c name)
    (hf : ∀ {e b}, e.members.find? name = some b → ∃ b', (f e).members.find? name = some b') :
    (σ.updateClass d f).HasMember c name := by
  obtain ⟨e, b, he, hb⟩ := h
  by_cases hcd : c = d
  · obtain ⟨b', hb'⟩ := hf hb
    exact ⟨f e, b', by rw [class?_updateClass, he, Option.map_some, if_pos hcd], hb'⟩
  · exact ⟨e, b, by rw [class?_updateClass, he, Option.map_some, if_neg hcd], hb⟩

lemma change (h : σ.HasMember c name) (hτ : Change outlining False σ τ) : τ.HasMember c name := by
  cases hτ with
  | event | call | type | scope | frame | settle | name => exact h
  | cls new =>
    obtain ⟨e, b, he, hb⟩ := h
    refine ⟨e, b, ?_, hb⟩
    rw [Session.addClass, TypeTable.class?_addClass, if_neg]
    · exact he
    · rintro rfl
      cases σ.types.class?_nextClass.symm.trans he
  | body hopen d =>
    have hopened : ({ σ with scopes := _ } : Session).HasMember c name := h
    exact hopened.updateClass fun hb => ⟨_, hb⟩
  | member d b' =>
    refine h.updateClass fun {e b} hb => ?_
    rw [Bindings.find?_insert]
    split
    · exact ⟨b', rfl⟩
    · exact ⟨b, hb⟩
  | constructor _ d k => exact h.updateClass fun hb => ⟨_, hb⟩
  | close hclosing => exact hclosing.elim

lemma trace (h : σ.HasMember c name) (hτ : Trace outlining False σ τ) : τ.HasMember c name := by
  induction hτ with
  | refl => exact h
  | tail _ hchange ih => exact ih.change hchange

end HasMember

lemma Announces.trace {outlining : Prop} {k : ClassHead × List Stmt} (h : σ.Announces k)
    (hτ : Trace outlining False σ τ) : τ.Announces k := by
  intro head init hmem hwritten
  obtain ⟨c, hc, hmember⟩ := h head init hmem hwritten
  exact ⟨c, hc, hmember.trace hτ⟩

end Session

namespace Check

open Traced (trace)

lemma announces_fields {c : ClassId} {body : ScopeId} {ms : List Stmt} {u : Unit} {head : ClassHead}
    (h : Gives (ms.forM (announceField c body)) σ u τ) (hc : head.cls = some c) :
    τ.Announces (head, ms) := by
  induction ms generalizing σ with
  | nil => exact fun _ _ hmem => nomatch hmem
  | cons s ms ih =>
    obtain ⟨σ1, h1, h2⟩ := gives_forM_cons.mp h
    intro field init hmem hwritten
    rcases List.mem_cons.mp hmem with rfl | hmem
    · refine ⟨c, hc, ?_⟩
      have hτ : Session.Trace True False σ1 τ := trace h2
      refine Session.HasMember.trace ?_ hτ
      obtain ⟨written, hwritten⟩ := Option.ne_none_iff_exists'.mp hwritten
      simp only [announceField, hwritten, typeOf?, gives_bind, gives_map] at h1
      obtain ⟨_, σ0, ⟨t, -, rfl⟩, h1⟩ := h1
      obtain ⟨⟨e, he⟩, rfl⟩ := gives_changeClass.mp h1
      refine ⟨{ e with members := e.members.insert (.ofVariable field.name t) }, _, ?_,
        (Bindings.find?_insert _ _ _).trans (if_pos rfl)⟩
      rw [TypeTable.addMember, TypeTable.class?_updateClass, if_pos rfl, he]
      rfl
    · exact ih h2 field init hmem hwritten

lemma classesList_bindFunctions {ss ss' : List Stmt} (h : Gives (bindFunctions scope ss) σ ss' τ) :
    Stmt.classesList ss' = Stmt.classesList ss := by
  unfold bindFunctions at h
  simp only [gives_bind, gives_pure] at h
  obtain ⟨_, _, -, _, _, h2, _, _, -, _, _, -, rfl, -⟩ := h
  exact classesList_outlines h2

/-- The fields of classes are announced when the classes have been opened. -/
lemma announces_opening {ss ss' : List Stmt} {cs : List ClassId} (h : Opening scope ss cs σ ss' τ) :
    ∀ k ∈ Stmt.classesList ss', τ.Announces k := by
  induction h with
  | nil => exact List.forall_mem_nil _
  | other hs _ ih => simpa [Stmt.classesList, Stmt.classes_of_not_isClass hs] using ih
  | @cls _ _ _ _ _ _ _ _ _ _ _ _ _ _ _ σ4 _ _ σ7 τ _ _ _ _ _ h5 h6 h7 h ihms ih =>
    have hσ7 : Session.Trace True False σ4 σ7 := ((trace h5).trans (trace h6)).trans (trace h7)
    have hτ : Session.Trace True False σ7 τ := trace h.gives
    rw [← classesList_bindFunctions h6] at ihms
    rw [Stmt.classesList, Stmt.classes, List.cons_append, List.forall_mem_cons,
      List.forall_mem_append]
    exact ⟨(announces_fields h7 rfl).trace hτ, fun k hk => (ihms k hk).trace (hσ7.trans hτ), ih⟩

lemma announces_announce {ss ss' : List Stmt} (h : Gives (announce scope ss) σ ss' τ) :
    ∀ k ∈ Stmt.classesList ss', τ.Announces k := by
  obtain ⟨cs, σ1, ss2, σ2, u, σ3, -, h2, h3, h4⟩ := opening_of_announce h
  rw [classesList_bindFunctions h4]
  have hτ : Session.Trace True False σ2 τ := (trace h3).trans (trace h4)
  exact fun k hk => (announces_opening h2 k hk).trace hτ

end Check

/-! ### Fields that have been declared -/

/-- When all fields have been declared, the members of a class are the names in its body. -/
lemma Session.Consistent.mirrored {ks ks' : List (ClassHead × List Stmt)} (hA : A.Consistent ks)
    (hF : A.DeclaresFields A F ks ks')
    (hbodies : ∀ {c e}, A.types.class? c = some e → ∃ body, e.body = some body) :
    F.analysis.Mirrored := by
  intro c e' he'
  have hfinal := hA.final hF (.refl hF.reaches.valid)
  have hgrows := hF.reaches.grows
  obtain ⟨e, he, hagree⟩ := hgrows.exists_class he'
  obtain ⟨body, hbody⟩ := hbodies he
  have hbody' := hagree.body.trans hbody
  obtain ⟨s, hs, -⟩ := (hF.reaches.valid.classes he').body hbody'
  refine ⟨body, s, hbody', hs, fun name => ?_⟩
  have hmirrors {b : Binding} (hb : s.bindings.find? name = some b) :
      e'.members.find? name = some b :=
    hfinal.mirrors he' hbody' (Scopes.bindingAt?_eq_some.mpr ⟨s, hs, hb⟩)
  have hnames {b : Binding} (hb : F.scopes.bindingAt? name body = some b) :
      s.bindings.find? name = some b := by
    obtain ⟨s', hs', hb'⟩ := Scopes.bindingAt?_eq_some.mp hb
    cases hs.symm.trans hs'
    exact hb'
  cases hb : s.bindings.find? name with
  | some b => exact hmirrors hb
  | none =>
    cases hm : e'.members.find? name with
    | none => rfl
    | some b =>
      -- A member is declared in the body, or it has been announced and then declared.
      have hdeclared : ∃ b', F.scopes.bindingAt? name body = some b' := by
        rcases hgrows.members he he' hm with hm | ⟨id, hid, hb'⟩
        · obtain ⟨body', hbody0, hb' | hann⟩ := hA.tracked.members he hm
          · cases hbody.symm.trans hbody0
            exact ⟨b, hgrows.scopes.bindingAt? hb'⟩
          · cases hbody.symm.trans hbody0
            obtain ⟨head, written, ⟨k, hk, hscope, init, hmem⟩, hname, hwritten, -, hread⟩ := hann
            obtain ⟨t, ht, -⟩ := hread.sameType hwritten (hF.declared k hk hscope hmem) (.refl F)
              hF.reaches.valid hgrows
            have hfind : b.name = name := by simpa using List.find?_some hm
            rw [← hfind, ← hname]
            exact ⟨_, ht⟩
        · cases hbody.symm.trans hid
          exact ⟨b, hb'⟩
      obtain ⟨b', hb'⟩ := hdeclared
      cases hb.symm.trans (hnames hb')

/-! ### The walk -/

namespace Session

def Flat (σ : Session) : Prop :=
  ∀ {c e body s}, σ.types.class? c = some e → e.body = some body →
    σ.scopes.scope? body = some s → s.frame = none

/-- What the walk may change when the fields have been declared: names that are not in the body of a
class, and what functions have given back. -/
def Walked (F : Session) : Cell → Prop
  | .cls _ => False
  | .member c _ | .constructors c | .body c => F.types.class? c = none
  | .name scope _ => F.NotBody scope
  | _ => True

lemma Assembled.room_walked (hF : F.Assembled) : F.Room F.Walked where
  settled _ := trivial
  name n hscope _ _ he hbody := by
    obtain ⟨s, hs, -⟩ := hF.bodies he hbody
    cases hscope.symm.trans hs
  member _ hc := hc
  constructors hc := hc
  body hc := hc
  tidy _ hc := hc

lemma NotBody.opens (h : F.NotBody scope) : F.Open F.Walked scope := by
  refine ⟨fun n => ⟨h, fun c => ?_⟩, fun f => Or.inl trivial⟩
  cases he : F.types.class? c with
  | none => exact Or.inl he
  | some e => exact Or.inr ⟨e, rfl, h he, fun hnone => by cases he.symm.trans hnone⟩

/-- The body of a function is not the body of a class. -/
lemma Flat.opens (h : F.Flat) (hat : F.At scope place) (hplace : place.inFunction = true) :
    F.Open F.Walked scope := by
  refine NotBody.opens fun {c e} he hbody => ?_
  obtain ⟨s, hs, hstands⟩ := hat
  have hframe := hstands.inFunction
  rw [h he hbody hs, hplace] at hframe
  cases hframe

lemma Assembled.opens_root (hF : F.Assembled) : F.Open F.Walked .root := by
  refine NotBody.opens fun {c e} he hbody => ?_
  obtain ⟨s, hs, hcls⟩ := hF.bodies he hbody
  obtain ⟨s', hs', -, -, hnone⟩ := hF.scopes.root
  cases hs.symm.trans hs'
  cases hnone.symm.trans hcls

variable {υ : Session}

lemma Continues.sameMembers (h : F.Continues F.Walked υ) : F.types.SameMembers υ.types := by
  intro c e he
  obtain ⟨e', he', hkeeps⟩ := h.cls he
  exact ⟨e', he', fun name => hkeeps.members name fun hnone => by cases he.symm.trans hnone⟩

lemma Continues.mirrored (h : F.Continues F.Walked υ) (hF : F.analysis.Mirrored) :
    υ.analysis.Mirrored := by
  intro c e' he'
  obtain ⟨e, he⟩ := h.known id he'
  obtain ⟨body, s, hbody, hs, hnames⟩ := hF c e he
  obtain ⟨e0, he0, hkeeps⟩ := h.cls he
  cases he'.symm.trans he0
  obtain ⟨s', hs', hkeeps'⟩ := h.scope hs
  have hknown (hnone : F.types.class? c = none) : False := by cases he.symm.trans hnone
  refine ⟨body, s', (hkeeps.body hknown).trans hbody, hs', fun name => ?_⟩
  rw [hkeeps.members name hknown, hkeeps'.names name fun hnot => hnot he hbody, hnames]

end Session

namespace Stmt

lemma claimsList_append {Φ : Cell → Prop} {ss ts : List Stmt} :
    ClaimsList Φ σ (ss ++ ts) ↔ ClaimsList Φ σ ss ∧ ClaimsList Φ σ ts := by
  simp only [claimsList_iff, List.forall_mem_append]

lemma claims_shell {Φ : Cell → Prop} (s : Stmt) : ClaimsList Φ σ s.shell ↔ s.Claims Φ σ := by
  induction s using members_induction with
  | other s hs =>
    cases s with
    | cls => cases hs
    | func | ctor => exact and_iff_left trivial
    | _ => exact Iff.rfl
  | cls head ms ih =>
    have hms : ClaimsList Φ σ (shellList ms) ↔ ClaimsList Φ σ ms := by
      induction ms with
      | nil => exact Iff.rfl
      | cons s ms ihs =>
        rw [List.forall_mem_cons] at ih
        rw [shellList, claimsList_append, ih.1, ihs ih.2, ClaimsList]
    rw [shell, ClaimsList, Claims, Claims, hms]
    exact and_iff_left trivial

lemma claimsList_shell {Φ : Cell → Prop} {ss ts : List Stmt} (h : shellList ts = shellList ss)
    (hss : ClaimsList Φ σ ss) : ClaimsList Φ σ ts := by
  have hlist (ss : List Stmt) : ClaimsList Φ σ (shellList ss) ↔ ClaimsList Φ σ ss := by
    induction ss with
    | nil => exact Iff.rfl
    | cons s ss ih => rw [shellList, claimsList_append, claims_shell, ih, ClaimsList]
  rwa [← hlist, h, hlist]

/-- Functions have bodies of their own, and classes have the names in their bodies as members. -/
lemma claims_of_hoisted {base : Session} {s : Stmt} (hflat : F.Flat) (hF : F.analysis.Mirrored)
    (h : s.Hoisted base F place) (hopened : ∀ k ∈ s.classes, F.Opened k.1) :
    s.Claims F.Walked F := by
  induction s using members_induction generalizing place with
  | other s hs =>
    cases s with
    | cls => cases hs
    | func head body =>
      intro body hbody
      obtain ⟨body', hbody', hat, -⟩ := h.scope
      cases hbody'.symm.trans hbody
      exact hflat.opens hat rfl
    | ctor head body =>
      intro body hbody
      obtain ⟨body', hbody', hat⟩ := h.scope
      cases hbody'.symm.trans hbody
      exact hflat.opens hat rfl
    | _ => trivial
  | cls head ms ih =>
    rw [classes, List.forall_mem_cons] at hopened
    obtain ⟨c, body, hc, hbody, e, he, hebody⟩ := hopened.1
    have hms := hoistedList_iff.mp h.2
    refine ⟨fun c' hc' body' hbody' name => Or.inr ?_, fun _ _ _ => Or.inl trivial, ?_⟩
    · -- the members of the class are the names of its body
      cases hc.symm.trans hc'
      cases hbody.symm.trans hbody'
      obtain ⟨body', s, hebody', hs, hnames⟩ := hF c e he
      cases hebody.symm.trans hebody'
      exact ⟨fun hnot => hnot he hebody, e, s, he, hs, (hnames name).symm⟩
    · rw [claimsList_iff]
      refine fun s hs => ih s hs (hms s hs) fun k hk => hopened.2 k ?_
      exact mem_classesList.mpr ⟨s, hs, hk⟩

end Stmt

namespace Check

/-- Whatever the bodies of functions are, and whatever else is looked at, the members of classes
stay as they are. -/
lemma leads_walked {base : Session} {ss ts : List Stmt} (hF : F.Assembled) (hflat : F.Flat)
    (hmirrored : F.analysis.Mirrored) (hss : ∀ s ∈ ss, s.Hoisted base F place)
    (hopened : ∀ k ∈ Stmt.classesList ss, F.Opened k.1)
    (hshell : Stmt.shellList ts = Stmt.shellList ss) :
    Leads (Session.Continues F.Walked) (stmts .root ts) F fun _ _ => True := by
  refine leads_stmts (fun s _ => stmtLeads s) hF hF.room_walked hF.opens_root ?_
  refine Stmt.claimsList_shell hshell (Stmt.claimsList_iff.mpr fun s hs => ?_)
  exact Stmt.claims_of_hoisted hflat hmirrored (hss s hs) fun k hk =>
    hopened k (Stmt.mem_classesList.mpr ⟨s, hs, hk⟩)

end Check

/-! ### Programs -/

lemma Stmt.Hoisted.classes {base : Session} {s : Stmt} (h : s.Hoisted base σ place)
    (hplace : place.inFunction = false) :
    ∀ k ∈ s.classes, ∃ inner : Surroundings,
      inner.inFunction = false ∧ k.1.Hoisted base σ inner := by
  induction s using members_induction generalizing place with
  | other s hs =>
    rw [classes_of_not_isClass hs]
    exact List.forall_mem_nil _
  | cls head ms ih =>
    rw [Stmt.classes, List.forall_mem_cons]
    refine ⟨⟨place, hplace, h.1⟩, fun k hk => ?_⟩
    obtain ⟨s, hs, hk⟩ := mem_classesList.mp hk
    exact ih s hs (hoistedList_iff.mp h.2 s hs) hplace k hk

namespace Check

variable {log : List LogEvent} {ss ss' : List Stmt}

/-- All classes are listed in the program with their bodies. -/
lemma class_of_announce (h : Gives (announce .root ss) { log } ss' A) {c : ClassId} {e : ClassEntry}
    (he : A.types.class? c = some e) :
    ∃ k ∈ Stmt.classesList ss', ∃ body, k.1.scope = some body ∧ e.body = some body := by
  obtain ⟨-, hcovers⟩ := covers_announce (Session.assembled_new log) h
  obtain ⟨-, hopened⟩ := consistent_announce (Session.consistent_start log) h
  obtain ⟨k, hk, hc⟩ := List.mem_filterMap.mp ((hcovers c e he).resolve_left nofun)
  obtain ⟨c', body, hc', hbody, e', he', hebody⟩ := hopened k hk
  cases hc'.symm.trans hc
  cases he.symm.trans he'
  exact ⟨k, hk, body, hbody, hebody⟩

/-- When the fields have been declared, no class stands in a function. -/
lemma flat_of_fields (h1 : Gives (announce .root ss) { log } ss' A) {ss2 : List Stmt}
    (h2 : Gives (ss'.mapM classFields) A ss2 F) : F.Flat := by
  have hnew := Session.assembled_new log
  obtain ⟨hA, hhoisted, -⟩ := hoisted_announce hnew hnew.at_root h1
  rw [Stmt.hoistedList_iff] at hhoisted
  have hfree : Cell.Free A.Declared := Session.free_declared
  have hF := (leads_fields hfree hA.assembled hA.assembled.stay.room_declared).changes_of_gives h2
  intro c e' body s he' hbody hs
  obtain ⟨e, he⟩ := hF.known id he'
  obtain ⟨e0, he0, hkeeps⟩ := hF.cls he
  cases he'.symm.trans he0
  rw [hkeeps.body fun hnone => by cases he.symm.trans hnone] at hbody
  obtain ⟨k, hk, body', hscope, hbody'⟩ := class_of_announce h1 he
  cases hbody.symm.trans hbody'
  obtain ⟨s0, hs0, hk⟩ := Stmt.mem_classesList.mp hk
  obtain ⟨inner, hinner, _, _, -, hscope', -, -, hat, -⟩ := (hhoisted s0 hs0).classes rfl k hk
  cases hscope.symm.trans hscope'
  obtain ⟨s', hs', hstands⟩ := hat.mono hF
  cases hs.symm.trans hs'
  have hframe : s.frame.isSome = false := hstands.inFunction.trans hinner
  simpa using hframe

/-- When the fields have been declared, the members of classes are the names in their bodies, and
the walk keeps them. -/
lemma walked_of_fields (h1 : Gives (announce .root ss) { log } ss' A) {ss2 : List Stmt}
    (h2 : Gives (ss'.mapM classFields) A ss2 F) :
    F.analysis.Mirrored ∧ ∀ ts, Stmt.shellList ts = Stmt.shellList ss2 →
      Leads (Session.Continues F.Walked) (stmts .root ts) F fun _ _ => True := by
  have hnew := Session.assembled_new log
  obtain ⟨hA, hhoisted, -⟩ := hoisted_announce hnew hnew.at_root h1
  rw [Stmt.hoistedList_iff] at hhoisted
  obtain ⟨hcons, hopened⟩ := consistent_announce (Session.consistent_start log) h1
  have hdeclares := declaresFields (.refl hcons.valid) h2
  have hfree : Cell.Free A.Declared := Session.free_declared
  have hF := (leads_fields hfree hA.assembled hA.assembled.stay.room_declared).changes_of_gives h2
  have hmirrored : F.analysis.Mirrored := hcons.mirrored hdeclares fun he => by
    obtain ⟨-, -, body, -, hbody⟩ := class_of_announce h1 he
    exact ⟨body, hbody⟩
  refine ⟨hmirrored, fun ts hts => ?_⟩
  exact leads_walked hF.assembled (flat_of_fields h1 h2) hmirrored
    (fun s hs => (hoisted_fields h2 hhoisted s hs).mono hF)
    (fun k hk => (hdeclares.prepared hopened k hk).opened) hts

end Check

/-- A field for which a type is written is a variable from the moment on when it is announced, and
its type stays the same. -/
lemma Session.Consistent.sameField {Ω : Session} {ks ks' : List (ClassHead × List Stmt)}
    (hA : A.Consistent ks) (hF : A.DeclaresFields A F ks ks') (hΩ : F.Reaches Ω)
    {k : ClassHead × List Stmt} (hk : k ∈ ks) (hopened : A.Opened k.1) (hann : A.Announces k)
    {head : VarHead} {init : Option Expr} (hmem : Stmt.var head init ∈ k.2)
    (hwritten : head.annotation ≠ none) :
    ∃ c e e' b b', k.1.cls = some c ∧ A.types.class? c = some e ∧ Ω.types.class? c = some e' ∧
      e.members.find? head.name = some b ∧ e'.members.find? head.name = some b' ∧
      b.kind = .variable ∧ b'.kind = .variable ∧ Ω.types.sameType b.type b'.type = true := by
  obtain ⟨c, hc, e, b, he, hb⟩ := hann head init hmem hwritten
  obtain ⟨c', body, hc', hbody, e0, he0, hebody⟩ := hopened
  cases hc.symm.trans hc'
  cases he.symm.trans he0
  obtain ⟨e', b', he', hb', hsame⟩ := (hA.final hF hΩ).kept he hb
  have hkind : b.kind = .variable := by
    obtain ⟨body', hebody', hbinding | ⟨-, -, -, -, -, hkind, -⟩⟩ := hA.tracked.members he hb
    · -- The field itself is declared later.
      cases hebody.symm.trans hebody'
      obtain ⟨σ₀, τ₀, hσ₀, hdecl, -⟩ := hF.declared k hk hbody hmem
      cases hdecl.fresh.symm.trans (hσ₀.grows.scopes.bindingAt? hbinding)
    · exact hkind
  refine ⟨c, e, e', b, b', hc, he, he', hb, hb', hkind, ?_⟩
  rcases hsame with rfl | ⟨-, hkind', htype⟩
  · exact ⟨hkind, TypeTable.sameType_refl _ _⟩
  · exact ⟨hkind', htype⟩

/-- **Members mirror bodies.** When the fields of an accepted program have been declared, the
members of every class are the names in its body. The walk does not change them: neither the walk
through the program, nor a walk that differs from it in anything but the heads of classes, functions
and constructors, wherever it may be stopped by a fault. At the end all classes are finalized. A
field for which a type is written has the same type when it is announced as at the end, and so has
every expression that refers to it. -/
theorem members_mirror_bodies (p q : Program) (a : Analysis) (h : analyze p = .ok (q, a)) :
    ∃ ss A ss' F, Gives (Check.announce .root p.stmts) { log := [.analyzing p.stmts.length] } ss A ∧
      Gives (ss.mapM Check.classFields) A ss' F ∧ F.analysis.Mirrored ∧
      (∀ ts, Stmt.shellList ts = Stmt.shellList ss' →
        F.types.SameMembers ((Check.stmts .root ts).on F).2.types ∧
        ((Check.stmts .root ts).on F).2.analysis.Mirrored) ∧
      F.types.SameMembers a.types ∧ a.Mirrored ∧
      (∀ c e, a.types.class? c = some e → e.finalized = true) ∧
      (∀ k ∈ Stmt.classesList ss, ∀ head init, Stmt.var head init ∈ k.2 → head.annotation ≠ none →
        ∃ c e e' b b', k.1.cls = some c ∧ A.types.class? c = some e ∧ a.types.class? c = some e' ∧
          e.members.find? head.name = some b ∧ e'.members.find? head.name = some b' ∧
          b.kind = .variable ∧ b'.kind = .variable ∧ a.types.sameType b.type b'.type = true) ∧
      ∀ m o name c cls e b, Node.expr (.member m o name) ∈ q.nodes →
        a.types.form? o.type = some (.object c cls) → a.types.class? c = some e →
        e.members.find? name = some b → b.kind = .variable →
        ∃ t, m.type = some t ∧ a.types.sameType t b.type = true := by
  obtain ⟨Ω, hrun, rfl⟩ := analyze_eq_ok.mp h
  have hclosed := (Check.closed_program hrun).2
  have hchecks := Check.settled_program (Session.consistent_start _) hrun
  unfold Check.program at hrun
  simp only [gives_bind, gives_pure] at hrun
  obtain ⟨ss1, A, h1, ss2, F, h2, ss3, σ3, h3, _, Ω, h4, rfl, rfl⟩ := hrun
  obtain ⟨hmirrored, hwalk⟩ := Check.walked_of_fields h1 h2
  have hσ3 := (hwalk ss2 rfl).changes_of_gives h3
  have hΩ := hσ3.trans ((Check.leads_note hσ3.assembled).changes_of_gives h4)
  refine ⟨ss1, A, ss2, F, h1, h2, hmirrored, fun ts hts => ?_, hΩ.sameMembers,
    hΩ.mirrored hmirrored,
    fun c e he => (hclosed c e he).finalized he, fun k hk head init hmem hwritten => ?_, ?_⟩
  · -- the check of the statements changes no member
    have hυ : F.Continues F.Walked ((Check.stmts .root ts).on F).2 := (hwalk ts hts).changes
    exact ⟨hυ.sameMembers, hυ.mirrored hmirrored⟩
  · -- the type of a field has been read twice, and both readings are the same type
    obtain ⟨hA, hopened⟩ := Check.consistent_announce (Session.consistent_start _) h1
    have hF := Check.declaresFields (.refl hA.valid) h2
    have s3 := Check.annotates_stmts (fun s _ => s.sound A) hF.reaches (hF.prepared hopened) h3
    have hreaches := s3.reaches.trans ((Check.quiet_of_note h4).reaches s3.reaches.valid)
    exact hA.sameField hF hreaches hk (hopened k hk)
      (Check.announces_announce h1 k hk) hmem hwritten
  · -- what the check of a member asks for, spelled out
    intro m o name c cls e b hmem hform he hb hkind
    obtain ⟨t, ht, hmember⟩ := hchecks _ hmem
    refine ⟨t, ht, ?_⟩
    rw [Analysis.MemberChecks, hform] at hmember
    obtain ⟨e', b', he', hb', htype⟩ := hmember
    cases he.symm.trans he'
    cases hb.symm.trans hb'
    rwa [if_pos hkind] at htype

/-- A class whose field has the labels of a class that comes later as initial value, with a class in
it that refers back to the outer one. -/
def cabinets : Program where
  stmts :=
    [.cls { name := "Drawer" }
      [.var { name := "labels", annotation := some (.array (.named "String" {})) }
          (some (.member {} (.call {} (.name {} "Cabinet") [] none) "labels")),
        .cls { name := "Knob" }
          [.var { name := "on", annotation := some (.named "Drawer" {}) } none],
        .func { name := "open", params := [{ name := "labels" }] } []],
      .cls { name := "Cabinet" }
      [.var { name := "labels", annotation := some (.array (.named "String" {})) } none]]

/-- The analysis accepts `cabinets`; its three classes are finalized, and their members are the
names in their bodies. -/
theorem members_mirror_cabinets : ∃ q a, analyze cabinets = .ok (q, a) ∧
    a.types.classes.length = 3 ∧ a.Mirrored ∧
    ∀ c e, a.types.class? c = some e → e.finalized = true := by
  have haccepted : (analyze cabinets).toOption.map (·.2.types.classes.length) = some 3 := by
    decide +kernel
  obtain ⟨r, h, hlength⟩ := Except.exists_ok_of_map haccepted
  obtain ⟨-, -, -, -, -, -, -, -, -, hmirrored, hfinalized, -⟩ :=
    members_mirror_bodies cabinets r.1 r.2 h
  exact ⟨r.1, r.2, h, hlength, hmirrored, hfinalized⟩

end MiddleEnd
