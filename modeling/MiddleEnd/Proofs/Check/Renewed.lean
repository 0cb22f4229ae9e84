import MiddleEnd.Proofs.Check.Members
import MiddleEnd.Proofs.Check.FieldTypes
import MiddleEnd.Proofs.Check.Nested

/-!
What changes when fields are declared. Every class has a body of its own, and the fields of some
classes only change the names in the bodies of these classes, and their members. A field for which a
type is written then gets the type that has been announced for it once more: of the same shape, but
with new collections in it.
-/

namespace MiddleEnd

variable {A base σ τ υ : Session} {scope : ScopeId}

/-! ### The bodies of classes -/

lemma Stmt.classesList_append (ss ts : List Stmt) :
    classesList (ss ++ ts) = classesList ss ++ classesList ts := by
  induction ss with
  | nil => rfl
  | cons s ss ih => rw [List.cons_append, classesList, classesList, ih, List.append_assoc]

def Stmt.classScopes (ss : List Stmt) : List ScopeId := (classesList ss).filterMap (·.1.scope)

lemma Stmt.classScopes_append (ss ts : List Stmt) :
    classScopes (ss ++ ts) = classScopes ss ++ classScopes ts := by
  rw [classScopes, classesList_append, List.filterMap_append, classScopes, classScopes]

lemma Stmt.mem_classScopes {ss : List Stmt} {id : ScopeId} :
    id ∈ classScopes ss ↔ ∃ k ∈ classesList ss, k.1.scope = some id := by
  simp [classScopes, List.mem_filterMap]

lemma Stmt.classScopes_mono {ss : List Stmt} {s : Stmt} (hs : s ∈ ss) :
    classScopes [s] ⊆ classScopes ss := by
  intro id hid
  obtain ⟨k, hk, hscope⟩ := mem_classScopes.mp hid
  rw [classesList, classesList, List.append_nil] at hk
  exact mem_classScopes.mpr ⟨k, mem_classesList.mpr ⟨s, hs, hk⟩, hscope⟩

lemma Stmt.classScopes_member {head : ClassHead} {ms : List Stmt} {s : Stmt} (hs : s ∈ ms) :
    classScopes [s] ⊆ classScopes [.cls head ms] := by
  intro id hid
  obtain ⟨k, hk, hscope⟩ := mem_classScopes.mp (classScopes_mono hs hid)
  refine mem_classScopes.mpr ⟨k, ?_, hscope⟩
  rw [classesList, classesList, List.append_nil, classes]
  exact List.mem_cons_of_mem _ hk

/-- The scopes are new, and different from each other. -/
structure Session.Gains (σ τ : Session) (ids : List ScopeId) : Prop where
  nodup : ids.Nodup
  fresh : ∀ id ∈ ids, σ.scopes.scope? id = none
  present : ∀ id ∈ ids, ∃ s, τ.scopes.scope? id = some s

namespace Session.Gains

variable {ids ids' : List ScopeId}

lemma nil : σ.Gains τ [] := ⟨.nil, List.forall_mem_nil _, List.forall_mem_nil _⟩

lemma mono (h : σ.Gains τ ids) (hυ : τ.Later υ) : σ.Gains υ ids where
  nodup := h.nodup
  fresh := h.fresh
  present id hid := by
    obtain ⟨s, hs⟩ := h.present id hid
    obtain ⟨s', hs', -⟩ := hυ.scopes.scope? hs
    exact ⟨s', hs'⟩

lemma earlier (h : σ.Gains τ ids) (hσ : base.Later σ) : base.Gains τ ids :=
  ⟨h.nodup, fun id hid => hσ.scope?_eq_none (h.fresh id hid), h.present⟩

/-- What is new after some scopes are there is different from them. -/
lemma append (h : σ.Gains τ ids) (hτ : σ.Later τ) (h' : τ.Gains υ ids') (hυ : τ.Later υ) :
    σ.Gains υ (ids ++ ids') where
  nodup := by
    refine List.nodup_append.mpr ⟨h.nodup, h'.nodup, ?_⟩
    rintro id hid _ hid' rfl
    obtain ⟨s, hs⟩ := h.present id hid
    cases hs.symm.trans (h'.fresh id hid')
  fresh := List.forall_mem_append.mpr ⟨h.fresh, (h'.earlier hτ).fresh⟩
  present := List.forall_mem_append.mpr ⟨(h.mono hυ).present, h'.present⟩

end Session.Gains

namespace Check

lemma gains_opening {ss ss' : List Stmt} {cs : List ClassId} (h : Opening scope ss cs σ ss' τ) :
    σ.Gains τ (Stmt.classScopes ss') := by
  induction h with
  | nil => exact .nil
  | other hs _ ih =>
    simpa [Stmt.classScopes, Stmt.classesList, Stmt.classes_of_not_isClass hs] using ih
  | @cls scope body _ _ _ ms6 _ _ _ _ _ σ σ1 σ2 _ _ _ _ _ _ _ h1 h2 h3 h4 h5 h6 h7 h ihms ih =>
    have hopen : σ.Later σ2 := .of_trace (trace_openBody h1 h2 : Session.Trace True True σ σ2)
    have hbody : σ.Gains σ2 [body] := by
      obtain ⟨-, rfl⟩ := gives_changeClass.mp h2
      obtain ⟨⟨s, hs, -⟩, -, -⟩ := inside_openIn h1
      obtain ⟨-, rfl, -, -⟩ := quiet_of_openIn h1
      exact ⟨List.pairwise_singleton _ _,
        List.forall_mem_singleton.mpr (List.getElem?_eq_none (Nat.le_refl _)),
        List.forall_mem_singleton.mpr ⟨s, hs⟩⟩
    rw [Stmt.classScopes, ← classesList_bindFunctions h6] at ihms
    have hinner : σ2.Gains _ (Stmt.classScopes ms6) :=
      (((ihms.earlier (.of_gives h3)).mono (.of_gives h5)).mono (.of_gives h6)).mono (.of_gives h7)
    have hlater := ((((Session.Later.of_gives h3).trans (.of_gives h4.gives)).trans
      (.of_gives h5)).trans (.of_gives h6)).trans (.of_gives h7)
    have hall := (hbody.append hopen hinner hlater).append (hopen.trans hlater) ih
      (.of_gives h.gives)
    simpa [Stmt.classScopes, Stmt.classesList, Stmt.classes] using hall

/-- When the declarations of a program have been made known, every class has a new body of its
own. -/
lemma gains_announce {ss ss' : List Stmt} (h : Gives (announce scope ss) σ ss' τ) :
    σ.Gains τ (Stmt.classScopes ss') := by
  obtain ⟨cs, σ1, ss2, σ2, u, σ3, h1, h2, h3, h4⟩ := opening_of_announce h
  rw [Stmt.classScopes, classesList_bindFunctions h4]
  exact (((gains_opening h2).earlier (.of_gives h1)).mono (.of_gives h3)).mono (.of_gives h4)

end Check

/-! ### Cells of fields -/

namespace Session

/-- What may change when the fields of the classes `ks` are declared: the names in the bodies of the
classes and their members. No class is new. -/
def FieldCells (A : Session) (ks : List (ClassHead × List Stmt)) : Cell → Prop
  | .name id n => A.scopes.scope? id = none ∨ ∃ head, HasField ks id head ∧ head.name = n
  | .member c n => A.types.class? c = none ∨
    ∃ body head, A.IsBody c body ∧ HasField ks body head ∧ head.name = n
  | .constructors c | .body c => A.types.class? c = none
  | .settled f => A.scopes.frame? f = none
  | _ => False

variable {ks ls : List (ClassHead × List Stmt)}

lemma room_fieldCells : A.Room (A.FieldCells ks) where
  settled hf := hf
  name _ hs := Or.inl hs
  member _ hc := Or.inl hc
  constructors hc := hc
  body hc := hc
  tidy _ hc := Or.inl hc

lemma fieldClaims_fieldCells {s : Stmt} (h : s.classes ⊆ ks) :
    Check.FieldClaims (A.FieldCells ks) A s := by
  induction s using Stmt.members_induction with
  | other s hs =>
    cases s with
    | cls => cases hs
    | _ => trivial
  | cls head ms ih =>
    rw [Stmt.classes, List.cons_subset] at h
    refine ⟨fun body hbody s hs n hn => ?_, Check.fieldClaimsList_iff.mpr fun s hs => ih s hs ?_⟩
    · have hfield : ∃ head, HasField ks body head ∧ head.name = n := by
        cases s with
        | var vhead init =>
          cases hn
          exact ⟨vhead, ⟨_, h.1, hbody, init, hs⟩, rfl⟩
        | _ => cases hn
      refine ⟨Or.inr hfield, fun c => ?_⟩
      cases he : A.types.class? c with
      | none => exact Or.inl (Or.inl he)
      | some e =>
        by_cases hc : e.body = some body
        · exact Or.inl (Or.inr ⟨body, hfield.choose, ⟨e, he, hc⟩, hfield.choose_spec⟩)
        · exact Or.inr ⟨e, rfl, hc, fun hnone => by cases he.symm.trans hnone⟩
    · exact fun k hk => h.2 (Stmt.mem_classesList.mpr ⟨s, hs, hk⟩)

end Session

/-- Declaring the fields of some classes changes nothing else. -/
lemma Check.continues_fields {ss ss' : List Stmt} (hA : A.Assembled)
    (h : Gives (ss.mapM classFields) A ss' σ) :
    A.Continues (A.FieldCells (Stmt.classesList ss)) σ := by
  have hleads : Leads (Session.Continues (A.FieldCells (Stmt.classesList ss)))
      (ss.mapM classFields) A fun ss' _ => ∀ s ∈ ss', True := by
    refine Leads.mapM hA.stay (fun _ _ => trivial) fun s hs τ hτ => ?_
    refine fieldsLead s hτ.assembled (Session.room_fieldCells.mono hτ)
      (fieldClaims_mono (Session.fieldClaims_fieldCells ?_) hτ)
    exact fun k hk => Stmt.mem_classesList.mpr ⟨s, hs, hk⟩
  exact hleads.changes_of_gives h

/-! ### New collections -/

/-- The values of classes are those that were there before, or all collections in their types are
new. -/
structure TypeTable.Renewed (t u : TypeTable) : Prop where
  forms : t.forms <+: u.forms
  values : ∀ {c n b}, u.HasValue c n b → t.HasValue c n b ∨
    ∀ {p v}, u.at? b.type p = some v → u.Nominal v ∨ t.form? v = none
  sole : u.Sole

namespace TypeTable.Renewed

variable {t u v : TypeTable} {c : ClassId} {n : String} {a : TypeId}

lemma refl (h : t.Sole) : t.Renewed t := ⟨List.prefix_refl _, Or.inl, h⟩

lemma quiet (h : t.Renewed u) (hu : u.Assembled) (hforms : u.forms <+: v.forms)
    (hvalues : ∀ {c n b}, v.HasValue c n b → u.HasValue c n b) : t.Renewed v where
  forms := h.forms.trans hforms
  values {c n b} hb := by
    have hb := hvalues hb
    refine (h.values hb).imp_right fun hyoung p x hx => ?_
    exact (hyoung (hu.wellFormed.at?_before hforms (hb.registered hu) hx)).imp_left (.mono hforms)
  sole c n b p c' n' b' p' x hb hb' hx hx' hn := by
    have hb := hvalues hb
    have hb' := hvalues hb'
    exact h.sole hb hb' (hu.wellFormed.at?_before hforms (hb.registered hu) hx)
      (hu.wellFormed.at?_before hforms (hb'.registered hu) hx')
      fun hnominal => hn (hnominal.mono hforms)

/-- A value gets a type that has just been read. -/
lemma addMember (h : t.Renewed u) (hu : u.Assembled) (hforms : u.forms <+: v.forms)
    (hvalues : ∀ {c n b}, v.HasValue c n b → u.HasValue c n b)
    (hyoung : ∀ {p x}, v.at? a p = some x → v.Nominal x ∨ u.form? x = none)
    (honce : ∀ {p q x}, v.at? a p = some x → v.at? a q = some x → ¬v.Nominal x → p = q) :
    t.Renewed (v.addMember c (.ofVariable n a)) where
  forms := h.forms.trans hforms
  values {d m b} hb := by
    simp only [at?_addMember]
    rcases value_of_addMember hb with hb | ⟨-, -, rfl⟩
    · exact (h.quiet hu hforms hvalues).values hb
    · exact Or.inr fun hx => (hyoung hx).imp_right (form?_eq_none_of_forms h.forms)
  sole := h.sole.addMember hu hforms hvalues hyoung honce

end TypeTable.Renewed

namespace Check

/-- A variable with a written type is declared: the type is read, the initial value looked at, and
the name declared. -/
lemma gives_written_var {head : VarHead} {written : TypeExpr} {init : Option Expr}
    {r : VarHead × Option Expr} (hσ : σ.Assembled) (hwritten : head.annotation = some written)
    (h : Gives (var scope head init) σ r τ) :
    ∃ t σ1 σ2 u, Gives (typeOf scope written) σ t σ1 ∧ σ1.Continues (σ1.FieldCells []) σ2 ∧
      Gives (declare scope (.ofVariable head.name t) head.span) σ2 u τ := by
  have htype {t : Option TypeId} {σ1 : Session} (h : Gives (typeOf? scope head.annotation) σ t σ1) :
      ∃ t0, t = some t0 ∧ Gives (typeOf scope written) σ t0 σ1 := by
    rw [hwritten, typeOf?, map_eq_pure_bind] at h
    simp only [gives_bind, gives_pure] at h
    obtain ⟨t0, _, h1, rfl, rfl⟩ := h
    exact ⟨t0, rfl, h1⟩
  cases init with
  | none =>
    obtain ⟨_, σ1, h1, h2, -⟩ := h.var_none
    obtain ⟨t, rfl, hread⟩ := htype h1
    have c1 := (leads_typeOf (Φ := fun _ => True) hσ).changes_of_gives hread
    simp only [declareVar, gives_bind, gives_pure] at h2
    obtain ⟨_, _, h2, -, rfl⟩ := h2
    exact ⟨t, σ1, σ1, _, hread, c1.assembled.stay, h2⟩
  | some e =>
    -- between reading the type and declaring the name the value is checked
    obtain ⟨_, σ1, h1, e', σ2, h2, h3, -⟩ := h.var_some
    obtain ⟨t, rfl, hread⟩ := htype h1
    have c1 := (leads_typeOf (Φ := fun _ => True) hσ).changes_of_gives hread
    have c2 : σ1.Continues (σ1.FieldCells []) σ2 :=
      (exprLeads e c1.assembled Session.room_fieldCells).changes_of_gives h2
    simp only [declareVar, gives_bind, gives_types, gives_rule, gives_pure] at h3
    obtain ⟨_, _, ⟨-, rfl⟩, _, _, ⟨-, rfl⟩, _, _, h3, -, rfl⟩ := h3
    exact ⟨t, σ1, σ2, _, hread, c2, h3⟩

lemma value_of_continues {c : ClassId} {n : String} {b : Binding}
    (h : σ.Continues (σ.FieldCells []) τ) (hb : τ.types.HasValue c n b) :
    σ.types.HasValue c n b := by
  obtain ⟨e', he', hb, hkind⟩ := hb
  obtain ⟨e, he⟩ := h.known (fun hnew => hnew) he'
  obtain ⟨e0, he0, hkeeps⟩ := h.cls he
  cases he'.symm.trans he0
  rw [hkeeps.members n] at hb
  · exact ⟨e, he, hb, hkind⟩
  · rintro (hnone | ⟨-, -, -, ⟨k, hk, -⟩, -⟩)
    · cases he.symm.trans hnone
    · cases hk

lemma renewed_var {head : VarHead} {init : Option Expr} {r : VarHead × Option Expr}
    (hσ : σ.Assembled) (h : A.types.Renewed σ.types) (hwritten : head.annotation ≠ none)
    (hgives : Gives (var scope head init) σ r τ) : A.types.Renewed τ.types := by
  obtain ⟨written, hwritten⟩ := Option.ne_none_iff_exists'.mp hwritten
  obtain ⟨t, σ1, σ2, _, h1, c2, h3⟩ := gives_written_var hσ hwritten hgives
  have c1 := (leads_typeOf (Φ := fun _ => True) hσ).changes_of_gives h1
  obtain ⟨table, rfl, hadds, ht, hsprouts⟩ := sprouts_typeOf hσ h1
  have hforms : σ.types.forms <+: σ2.types.forms := hadds.forms.trans c2.forms
  have hvalues {c : ClassId} {n : String} {b : Binding} (hb : σ2.types.HasValue c n b) :
      σ.types.HasValue c n b := by
    obtain ⟨e, he, hb⟩ := value_of_continues c2 hb
    exact ⟨e, (hadds.class? c).symm.trans he, hb⟩
  have hpast {p : List ℕ} {x : TypeId} (hx : σ2.types.at? t p = some x) : table.at? t p = some x :=
    c1.assembled.types.wellFormed.at?_before c2.forms ht hx
  obtain ⟨larger, -, hτ⟩ := session_of_declare h3
  rcases hτ with rfl | ⟨c, rfl⟩
  · exact h.quiet hσ.types hforms hvalues
  · refine h.addMember hσ.types hforms hvalues (fun hx => ?_) fun hx hx' hn => ?_
    · exact (hsprouts.young (hpast hx)).imp_left (.mono c2.forms)
    · exact hsprouts.once (hpast hx) (hpast hx') fun hnominal => hn (hnominal.mono c2.forms)

end Check

/-- A type is written for every field of the class. -/
def Written (k : ClassHead × List Stmt) : Prop :=
  ∀ head init, Stmt.var head init ∈ k.2 → head.annotation ≠ none

namespace Check

def FieldsRenew (A : Session) (s : Stmt) : Prop :=
  ∀ {σ s' τ}, σ.Assembled → A.types.Renewed σ.types → (∀ k ∈ s.classes, Written k) →
    Gives (classFields s) σ s' τ → τ.Assembled ∧ A.types.Renewed τ.types

lemma renewed_memberFields {ms ms' : List Stmt} (hms : ∀ s ∈ ms, FieldsRenew A s)
    (hσ : σ.Assembled) (h : A.types.Renewed σ.types)
    (hfields : ∀ head init, Stmt.var head init ∈ ms → head.annotation ≠ none)
    (hclasses : ∀ k ∈ Stmt.classesList ms, Written k)
    (hgives : Gives (memberFields scope ms) σ ms' τ) : τ.Assembled ∧ A.types.Renewed τ.types := by
  induction ms generalizing σ ms' with
  | nil =>
    rw [memberFields, gives_pure] at hgives
    obtain ⟨-, rfl⟩ := hgives
    exact ⟨hσ, h⟩
  | cons s ms ih =>
    rw [List.forall_mem_cons] at hms
    rw [Stmt.classesList, List.forall_mem_append] at hclasses
    have hrest : ∀ head init, Stmt.var head init ∈ ms → head.annotation ≠ none :=
      fun head init hmem => hfields head init (List.mem_cons_of_mem _ hmem)
    by_cases hvar : s.isVar = true
    · -- a field renews the member that was announced for it
      obtain ⟨head, init, rfl⟩ := Stmt.isVar_iff.mp hvar
      obtain ⟨_, _, σ1, h1, rest, h2, -⟩ := hgives.memberFields_var
      have c1 := (leads_var (Φ := fun _ => True) (fun e _ => exprLeads e) hσ Session.room_all
        (Cell.free_all.declaring _)).changes_of_gives h1
      exact ih hms.2 c1.assembled
        (renewed_var hσ h (hfields head init List.mem_cons_self) h1) hrest hclasses.2 h2
    · rw [Bool.not_eq_true] at hvar
      obtain ⟨s', σ1, h1, rest, h2, -⟩ := hgives.memberFields_cons hvar
      obtain ⟨hσ1, hrenewed⟩ := hms.1 hσ h hclasses.1 h1
      exact ih hms.2 hσ1 hrenewed hrest hclasses.2 h2

lemma fieldsRenew (A : Session) (s : Stmt) : FieldsRenew A s := by
  induction s using Stmt.members_induction with
  | other s hs =>
    intro σ s' τ hσ h _ hgives
    rw [classFields_eq_pure hs] at hgives
    obtain ⟨-, rfl⟩ := gives_pure.mp hgives
    exact ⟨hσ, h⟩
  | cls head ms ih =>
    intro σ s' τ hσ h hclasses hgives
    rw [Stmt.classes, List.forall_mem_cons] at hclasses
    obtain ⟨body, -, ms', σ1, h1, _, h2, -⟩ := hgives.classFields_cls
    obtain ⟨hσ1, hrenewed⟩ := renewed_memberFields ih hσ h hclasses.1 hclasses.2 h1
    obtain rfl := gives_note.mp h2
    exact ⟨((leads_note (Φ := fun _ => True) hσ1).changes_of_gives h2).assembled, hrenewed⟩

lemma renewed_fields {ss ss' : List Stmt} (hσ : σ.Assembled) (h : A.types.Renewed σ.types)
    (hclasses : ∀ k ∈ Stmt.classesList ss, Written k)
    (hgives : Gives (ss.mapM classFields) σ ss' τ) : A.types.Renewed τ.types := by
  induction ss generalizing σ ss' with
  | nil =>
    obtain ⟨-, rfl⟩ := gives_pure.mp hgives
    exact h
  | cons s ss ih =>
    rw [Stmt.classesList, List.forall_mem_append] at hclasses
    obtain ⟨s', rest, σ1, h1, h2, -⟩ := gives_mapM_cons.mp hgives
    obtain ⟨hσ1, hrenewed⟩ := fieldsRenew A s hσ h hclasses.1 h1
    exact ih hσ1 hrenewed hclasses.2 h2

end Check

/-! ### What has been announced -/

namespace Session

/-- The declarations of the statements of a program have been made known. -/
structure Knows (A : Session) (ss : List Stmt) : Prop where
  assembled : A.Assembled
  consistent : A.Consistent (Stmt.classesList ss)
  opened : ∀ k ∈ Stmt.classesList ss, A.Opened k.1
  announces : ∀ k ∈ Stmt.classesList ss, A.Announces k
  apart : A.FieldTypesApart
  distinct : (Stmt.classScopes ss).Nodup
  nested : ∀ s ∈ ss, s.Nested A .root

/-- The members of classes are as before, or they are values and have been given types of the same
shape with new collections in them. -/
structure Renews (A σ : Session) : Prop where
  types : A.types.Renewed σ.types
  members : ∀ {c e e'} n, A.types.class? c = some e → σ.types.class? c = some e' →
    e'.members.find? n = e.members.find? n ∨ ∃ b t x, e.members.find? n = some b ∧
      b.kind = .variable ∧ e'.members.find? n = some (.ofVariable n t) ∧
      A.types.Unfolds b.type x ∧ σ.types.Unfolds t x

lemma IsBody.unique {c d : ClassId} {body : ScopeId} (h : σ.IsBody c body) (h' : σ.IsBody d body)
    (hσ : σ.Assembled) : c = d := by
  obtain ⟨e, he, hbody⟩ := h
  obtain ⟨e', he', hbody'⟩ := h'
  obtain ⟨s, hs, hc⟩ := hσ.bodies he hbody
  obtain ⟨s', hs', hd⟩ := hσ.bodies he' hbody'
  cases hs.symm.trans hs'
  exact Option.some.inj (hc.symm.trans hd)

end Session

namespace Check

lemma knows_announce {ss ss' : List Stmt} {log : List LogEvent}
    (h : Gives (announce .root ss) { log := log } ss' A) : A.Knows ss' := by
  have hnew := Session.assembled_new log
  obtain ⟨hconsistent, hopened⟩ := consistent_announce (Session.consistent_start log) h
  exact {
    assembled := (hoisted_announce hnew hnew.at_root h).1.assembled
    consistent := hconsistent
    opened := hopened
    announces := announces_announce h
    apart := fieldTypesApart_announce hnew (Session.fieldTypesApart_new log) h
    distinct := (gains_announce h).nodup
    nested := (nested_announce h).1 }

/-- The fields of the first statements are declared: all of them have been announced before. -/
lemma renews_fields {ss ts ss' : List Stmt} (hA : A.Knows (ss ++ ts))
    (hwritten : ∀ k ∈ Stmt.classesList ss, Written k) (h : Gives (ss.mapM classFields) A ss' σ) :
    A.Renews σ := by
  refine ⟨renewed_fields hA.assembled (.refl hA.apart.sole) hwritten h, fun {c e e'} n he he' => ?_⟩
  have hcontinues := continues_fields hA.assembled h
  have hdeclares := declaresFields (.refl hA.consistent.valid) h
  obtain ⟨e0, he0, hkeeps⟩ := hcontinues.cls he
  cases he'.symm.trans he0
  by_cases hcell : A.FieldCells (Stmt.classesList ss) (.member c n)
  swap
  · exact Or.inl (hkeeps.members n hcell)
  rcases hcell with hnone | ⟨body, head, hbody, ⟨k, hk, hscope, init, hmem⟩, rfl⟩
  · cases he.symm.trans hnone
  have hall {k : ClassHead × List Stmt} (hk : k ∈ Stmt.classesList ss) :
      k ∈ Stmt.classesList (ss ++ ts) := by
    rw [Stmt.classesList_append]
    exact List.mem_append_left _ hk
  -- The field has been announced, since its name was not declared before.
  obtain ⟨d, hd, e1, b, he1, hb⟩ :=
    hA.announces k (hall hk) head init hmem (hwritten k hk head init hmem)
  obtain ⟨d', body', hd', hscope', hbody'⟩ := hA.opened k (hall hk)
  cases hd.symm.trans hd'
  cases hscope.symm.trans hscope'
  cases hbody.unique hbody' hA.assembled
  cases he.symm.trans he1
  have hgrows := hdeclares.reaches.grows
  -- a field is declared only where its name is free
  have hfresh : A.scopes.bindingAt? head.name body = none := by
    obtain ⟨σ₀, τ₀, hσ₀, hdecl, -⟩ := hdeclares.declared k hk hscope hmem
    exact hσ₀.grows.scopes.bindingAt?_eq_none hdecl.fresh
  obtain ⟨e2, he2, hbody⟩ := hbody
  cases he.symm.trans he2
  obtain ⟨body2, hbody2, hb2 | hann⟩ := hA.consistent.tracked.members he hb
  · cases hbody.symm.trans hbody2
    cases hfresh.symm.trans hb2
  cases hbody.symm.trans hbody2
  obtain ⟨head2, written, ⟨k2, hk2, hscope2, init2, hmem2⟩, hname, hann, hkind, hread⟩ := hann
  -- The field it has been announced for is one of the class, so it has been declared as well.
  have hk2 : k2 ∈ Stmt.classesList ss := by
    rw [Stmt.classesList_append] at hk2
    refine (List.mem_append.mp hk2).resolve_right fun hk2 => ?_
    have hdistinct := hA.distinct
    rw [Stmt.classScopes_append] at hdistinct
    exact (List.nodup_append.mp hdistinct).2.2 body (Stmt.mem_classScopes.mpr ⟨k, hk, hscope⟩) body
      (Stmt.mem_classScopes.mpr ⟨k2, hk2, hscope2⟩) rfl
  obtain ⟨t, x, ht, hx, hx'⟩ := hread.again hann (hdeclares.declared k2 hk2 hscope2 hmem2)
  have hbname : b.name = head.name := by simpa using List.find?_some hb
  rw [hname, hbname] at ht
  refine Or.inr ⟨b, t, x, hb, hkind, ?_, hx, hx'⟩
  refine (hgrows.mirror he he' hbody ht).resolve_right fun hold => ?_
  cases hfresh.symm.trans hold.1

end Check

namespace Session.Renews

variable {ks : List (ClassHead × List Stmt)} {c : ClassId} {n : String} {b : Binding}

/-- A value has been one before, with a type of the same shape. -/
lemma before (h : A.Renews σ) (hA : A.Assembled) (hσ : A.Continues (A.FieldCells ks) σ)
    (hb : σ.types.HasValue c n b) : ∃ b0 x, A.types.HasValue c n b0 ∧ A.types.Unfolds b0.type x ∧
      σ.types.Unfolds b.type x := by
  obtain ⟨e', he', hb, hkind⟩ := hb
  obtain ⟨e, he⟩ := hσ.known (fun hnew => hnew) he'
  rcases h.members n he he' with hsame | ⟨b0, t, x, hb0, hkind0, ht, hx, hx'⟩
  · have hvalue : A.types.HasValue c n b := ⟨e, he, hsame ▸ hb, hkind⟩
    obtain ⟨x, hx⟩ := hA.types.wellFormed.exists_unfolds (hvalue.registered hA.types)
    exact ⟨b, x, hvalue, hx, hx.mono hσ.forms⟩
  · cases ht.symm.trans hb
    exact ⟨b0, x, ⟨e, he, hb0, hkind0⟩, hx, hx'⟩

lemma now (h : A.Renews σ) (hσ : A.Continues (A.FieldCells ks) σ) (hb : A.types.HasValue c n b) :
    ∃ b1, σ.types.HasValue c n b1 := by
  obtain ⟨e, he, hb, hkind⟩ := hb
  obtain ⟨e', he', -⟩ := hσ.cls he
  rcases h.members n he he' with hsame | ⟨-, t, -, -, -, ht, -⟩
  · exact ⟨b, e', he', hsame.trans hb, hkind⟩
  · exact ⟨_, e', he', ht, rfl⟩

/-- The values are variables of the program. -/
lemma plain (h : A.Renews σ) (hapart : A.FieldTypesApart) (hσ : A.Continues (A.FieldCells ks) σ)
    (hb : σ.types.HasValue c n b) : b.builtin = false := by
  obtain ⟨e', he', hb, hkind⟩ := hb
  obtain ⟨e, he⟩ := hσ.known (fun hnew => hnew) he'
  rcases h.members n he he' with hsame | ⟨-, t, -, -, -, ht, -⟩
  · exact hapart.plain ⟨e, he, hsame ▸ hb, hkind⟩
  · cases ht.symm.trans hb
    rfl

/-- What stands in the type of a value was there before only if it belonged to the value. -/
lemma stays {p : List ℕ} {t : TypeId} (h : A.Renews σ) (hA : A.Assembled)
    (hb : σ.types.HasValue c n b) (ht : σ.types.at? b.type p = some t)
    (hn : ¬σ.types.Nominal t) (hold : A.types.Registered t) :
    A.types.HasValue c n b ∧ A.types.at? b.type p = some t := by
  rcases h.types.values hb with hb | hyoung
  · exact ⟨hb, hA.types.wellFormed.at?_before h.types.forms (hb.registered hA.types) ht⟩
  · obtain ⟨f, hf⟩ := hold
    cases hf.symm.trans ((hyoung ht).resolve_left hn)

end Session.Renews

end MiddleEnd
