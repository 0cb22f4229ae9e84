import MiddleEnd.Proofs.Check.Used

/-!
All classes are looked at. The classes of a table are those that are declared in the program, the
ones inside other classes included; the walk comes to each of them, and what it has checked of a
class when it leaves the class still holds at the end.
-/

namespace MiddleEnd

variable {σ τ υ : Session} {scope : ScopeId}

/-- The handles of the classes in statements, which the declarations have left there. -/
def Stmt.classIds (ss : List Stmt) : List ClassId := (Stmt.classesList ss).filterMap (·.1.cls)

lemma Stmt.classIds_cons (s : Stmt) (ss : List Stmt) :
    classIds (s :: ss) = classIds [s] ++ classIds ss := by
  simp [classIds, classesList]

lemma Stmt.classIds_cls (head : ClassHead) (ms : List Stmt) :
    classIds [.cls head ms] = head.cls.toList ++ classIds ms := by
  cases hc : head.cls <;> simp [classIds, classesList, classes, hc]

namespace Session

/-- All classes that are new are among these. -/
def Covers (σ τ : Session) (ids : List ClassId) : Prop :=
  ∀ c e, τ.types.class? c = some e → (∃ e', σ.types.class? c = some e') ∨ c ∈ ids

lemma Covers.trans {ids more : List ClassId} (h : σ.Covers τ ids) (h' : τ.Covers υ more) :
    σ.Covers υ (ids ++ more) := by
  intro c e he
  rcases h' c e he with ⟨e', he'⟩ | hc
  · exact (h c e' he').imp_right (List.mem_append_left _)
  · exact Or.inr (List.mem_append_right _ hc)

lemma Covers.mono {ids more : List ClassId} (h : σ.Covers τ ids) (hsub : ids ⊆ more) :
    σ.Covers τ more :=
  fun c e he => (h c e he).imp_right fun hc => hsub hc

/-- Everything may change but which classes there are. -/
def SameClasses : Cell → Prop
  | .cls _ => False
  | _ => True

lemma free_sameClasses : Cell.Free SameClasses :=
  ⟨fun _ _ => trivial, fun _ _ => trivial, fun _ => trivial⟩

lemma room_sameClasses : σ.Room SameClasses :=
  free_sameClasses.room (fun _ => trivial) fun _ => trivial

lemma Continues.covers (h : σ.Continues SameClasses τ) : σ.Covers τ [] :=
  fun _ _ he => Or.inl (h.known id he)

end Session

open Session (SameClasses free_sameClasses room_sameClasses)

namespace Check

lemma covers_registerClass {head : ClassHead} {c : ClassId} (hσ : σ.Assembled)
    (h : Gives (registerClass scope head) σ c τ) : τ.Assembled ∧ σ.Covers τ [c] := by
  unfold registerClass at h
  simp only [gives_bind, gives_types, gives_updateTypes, gives_pure] at h
  obtain ⟨_, σ0, ⟨rfl, rfl⟩, _, σ1, rfl, _, σ2, h2, rfl, rfl⟩ := h
  have hadds := hσ.addClass (Φ := fun _ => True) head.name trivial
  have hvalid : (Binding.ofClass head.name σ.types.nextClass σ.types.next).Valid
      (σ.addClass head.name).types :=
    Binding.valid_of_denotesType rfl ⟨_, σ.types.form?_add_next _, rfl⟩
  have hpresent : (Binding.ofClass head.name σ.types.nextClass σ.types.next).Present
      (σ.addClass head.name).types := by
    rintro _ ⟨⟩
    rw [Session.addClass, TypeTable.class?_addClass, if_pos rfl]
    exact ⟨_, rfl⟩
  have hτ := (leads_declare (Φ := SameClasses) hadds.assembled hvalid hpresent
    (free_sameClasses.declaring head.name)).changes_of_gives h2
  refine ⟨hτ.assembled, fun d e he => ?_⟩
  obtain ⟨e', he'⟩ := hτ.known id he
  rw [show (σ.addClass head.name).types = σ.types.addClass head.name from rfl,
    TypeTable.class?_addClass] at he'
  split at he'
  · rename_i hd
    exact Or.inr (by simp [hd])
  · exact Or.inl ⟨e', he'⟩

lemma covers_registerClasses {heads : List ClassHead} {cs : List ClassId} (hσ : σ.Assembled)
    (h : Gives (heads.mapM (registerClass scope)) σ cs τ) :
    τ.Assembled ∧ σ.Covers τ cs ∧ cs.length = heads.length := by
  induction heads generalizing σ cs with
  | nil =>
    obtain ⟨rfl, rfl⟩ := gives_pure.mp h
    exact ⟨hσ, fun _ _ he => Or.inl ⟨_, he⟩, rfl⟩
  | cons head heads ih =>
    obtain ⟨c, rest, σ1, h1, h2, rfl⟩ := gives_mapM_cons.mp h
    obtain ⟨hσ1, hc⟩ := covers_registerClass hσ h1
    obtain ⟨hτ, hrest, hlength⟩ := ih hσ1 h2
    exact ⟨hτ, hc.trans hrest, by rw [List.length_cons, List.length_cons, hlength]⟩

lemma classes_outline {kind : FrameKind} {s s' : Stmt} (h : Gives (outline scope kind s) σ s' τ) :
    s'.classes = s.classes := by
  cases s with
  | func head body =>
    simp only [outline, gives_bind, gives_pure] at h
    obtain ⟨head', _, -, rfl, -⟩ := h
    rfl
  | ctor head body =>
    simp only [outline, gives_bind, gives_pure] at h
    obtain ⟨head', _, -, rfl, -⟩ := h
    rfl
  | _ =>
    simp only [outline, gives_pure] at h
    rw [h.1]

lemma classesList_outlines {kind : FrameKind} {ss ss' : List Stmt}
    (h : Gives (ss.mapM (outline scope kind)) σ ss' τ) :
    Stmt.classesList ss' = Stmt.classesList ss := by
  induction ss generalizing σ ss' with
  | nil =>
    obtain ⟨rfl, -⟩ := gives_pure.mp h
    rfl
  | cons s ss ih =>
    obtain ⟨s', rest, σ1, h1, h2, rfl⟩ := gives_mapM_cons.mp h
    rw [Stmt.classesList, Stmt.classesList, classes_outline h1, ih h2]

lemma covers_bindFunctions {ss ss' : List Stmt} (hσ : σ.Assembled)
    (h : Gives (bindFunctions scope ss) σ ss' τ) :
    τ.Assembled ∧ σ.Covers τ [] ∧ Stmt.classIds ss' = Stmt.classIds ss := by
  have hleads : Leads (Session.Continues SameClasses) (bindFunctions scope ss) σ fun _ _ => True :=
    leads_bindFunctions hσ room_sameClasses (fun _ => Or.inl trivial) free_sameClasses.declaring
  have hτ := hleads.changes_of_gives h
  refine ⟨hτ.assembled, hτ.covers, ?_⟩
  unfold bindFunctions at h
  simp only [gives_bind, gives_pure] at h
  obtain ⟨_, σ1, -, ss1, σ2, h2, _, σ3, -, _, σ4, -, rfl, -⟩ := h
  rw [Stmt.classIds, classesList_outlines h2, Stmt.classIds]

/-- The classes of a statement are among those that it lists once they have been opened. -/
lemma covers_opening {ss ss' : List Stmt} {cs : List ClassId} (hσ : σ.Assembled)
    (h : Opening scope ss cs σ ss' τ) :
    τ.Assembled ∧ σ.Covers τ (Stmt.classIds ss') ∧ cs ⊆ Stmt.classIds ss' := by
  induction h with
  | nil => exact ⟨hσ, fun _ _ he => Or.inl ⟨_, he⟩, List.nil_subset _⟩
  | other hs _ ih =>
    simpa [Stmt.classIds, Stmt.classesList, Stmt.classes_of_not_isClass hs] using ih hσ
  | @cls scope body head _ _ ms6 _ ss' c _ inner σ σ1 σ2 _ _ _ σ6 _ _ _ h1 h2 h3 _ h5 h6 h7 _
      ihms ih =>
    have hknown : ∃ e, σ.types.class? c = some e := by
      obtain ⟨he, -⟩ := gives_changeClass.mp h2
      rwa [(quiet_of_openIn h1).2.2.1] at he
    have hσ2 : σ.Continues SameClasses σ2 := continues_openBody hσ room_sameClasses
      ⟨hknown, trivial, trivial, fun _ => trivial⟩ h1 h2
    obtain ⟨hσ3, hcovers3, -⟩ := covers_registerClasses hσ2.assembled h3
    obtain ⟨hσ4, hcovers4, hinner⟩ := ihms hσ3
    -- no classes are new but those that are registered in the body
    have hσ5 := (leads_note (Φ := SameClasses) hσ4).changes_of_gives h5
    obtain ⟨hσ6, hcovers6, hids⟩ := covers_bindFunctions hσ5.assembled h6
    have hfields : Leads (Session.Continues SameClasses) (ms6.forM (announceField c body)) σ6
        fun _ _ => True :=
      .forM hσ6.stay fun s _ _ hυ => leads_announceField hυ.assembled fun _ => trivial
    have hσ7 := hfields.changes_of_gives h7
    obtain ⟨hτ, hcovers, hsub⟩ := ih hσ7.assembled
    have hall := hσ2.covers.trans (hcovers3.trans (hcovers4.trans (hσ5.covers.trans
      (hcovers6.trans (hσ7.covers.trans hcovers)))))
    rw [Stmt.classIds_cons, Stmt.classIds_cls, hids]
    refine ⟨hτ, hall.mono ?_, ?_⟩
    · simpa using List.subset_cons_of_subset c
        (List.append_subset.mpr ⟨List.subset_append_of_subset_left _ hinner, List.Subset.refl _⟩)
    · exact List.cons_subset.mpr ⟨List.mem_cons_self, List.subset_append_of_subset_right _ hsub⟩

/-- When the declarations of a program have been made known, all classes are listed in it. -/
lemma covers_announce {ss ss' : List Stmt} (hσ : σ.Assembled)
    (h : Gives (announce scope ss) σ ss' τ) :
    τ.Assembled ∧ σ.Covers τ (Stmt.classIds ss') := by
  obtain ⟨cs, σ1, ss2, σ2, u, σ3, h1, h2, h3, h4⟩ := opening_of_announce h
  obtain ⟨hσ1, hcovers1, -⟩ := covers_registerClasses hσ h1
  obtain ⟨hσ2, hcovers2, hsub⟩ := covers_opening hσ1 h2
  have hσ3 := (leads_note (Φ := SameClasses) hσ2).changes_of_gives h3
  obtain ⟨hτ, hcovers4, hids⟩ := covers_bindFunctions hσ3.assembled h4
  refine ⟨hτ, (hcovers1.trans (hcovers2.trans (hσ3.covers.trans hcovers4))).mono ?_⟩
  rw [hids]
  simpa using hsub

end Check

/-! ### Fields -/

mutual
/-- The statement without the fields of its classes. -/
def Stmt.fieldless : Stmt → Stmt
  | .cls head ms => .cls head (Stmt.fieldlessList ms)
  | s => s

def Stmt.fieldlessList : List Stmt → List Stmt
  | [] => []
  | .var _ _ :: ss => Stmt.fieldlessList ss
  | s :: ss => s.fieldless :: Stmt.fieldlessList ss
end

namespace Stmt

lemma fieldless_of_not_isClass {s : Stmt} (h : s.isClass = false) : s.fieldless = s := by
  cases s with
  | cls => cases h
  | _ => rfl

lemma fieldlessList_cons {s : Stmt} (h : s.isVar = false) (ss : List Stmt) :
    fieldlessList (s :: ss) = s.fieldless :: fieldlessList ss := by
  cases s with
  | var => cases h
  | _ => rfl

/-- What is collected from a class comes from its head and its members, and not from its fields. -/
lemma collected_fieldless {α : Type} {F : Stmt → List α} (own : ClassHead → List α)
    (hvar : ∀ head init, F (.var head init) = [])
    (hcls : ∀ head ms, F (.cls head ms) = own head ++ ms.flatMap F) (s : Stmt) :
    F s.fieldless = F s := by
  induction s using members_induction with
  | other s hs => rw [fieldless_of_not_isClass hs]
  | cls head ms ih =>
    have hms : (fieldlessList ms).flatMap F = ms.flatMap F := by
      induction ms with
      | nil => rfl
      | cons s ms ihs =>
        rw [List.forall_mem_cons] at ih
        by_cases hs : s.isVar = true
        · obtain ⟨head, init, rfl⟩ := isVar_iff.mp hs
          rw [fieldlessList, ihs ih.2, List.flatMap_cons, hvar, List.nil_append]
        · rw [fieldlessList_cons (Bool.eq_false_iff.mpr hs), List.flatMap_cons, List.flatMap_cons,
            ih.1, ihs ih.2]
    rw [fieldless, hcls, hcls, hms]

end Stmt

namespace Check

lemma fieldless_memberFields {body : ScopeId} {ms ms' : List Stmt}
    (hms : ∀ s ∈ ms, ∀ {σ s' τ}, Gives (classFields s) σ s' τ →
      s'.fieldless = s.fieldless ∧ s'.isVar = s.isVar)
    (h : Gives (memberFields body ms) σ ms' τ) :
    Stmt.fieldlessList ms' = Stmt.fieldlessList ms := by
  induction ms generalizing σ ms' with
  | nil =>
    rw [memberFields, gives_pure] at h
    rw [← h.1]
  | cons s ms ih =>
    rw [List.forall_mem_cons] at hms
    by_cases hvar : s.isVar = true
    · obtain ⟨head, init, rfl⟩ := Stmt.isVar_iff.mp hvar
      obtain ⟨_, _, σ1, -, rest, h2, rfl⟩ := h.memberFields_var
      rw [Stmt.fieldlessList, Stmt.fieldlessList]
      exact ih hms.2 h2
    · rw [Bool.not_eq_true] at hvar
      obtain ⟨s', σ1, h1, rest, h2, rfl⟩ := h.memberFields_cons hvar
      obtain ⟨hs, hvar'⟩ := hms.1 h1
      rw [Stmt.fieldlessList_cons hvar, Stmt.fieldlessList_cons (hvar'.trans hvar), hs, ih hms.2 h2]

lemma fieldless_classFields (s : Stmt) : ∀ {σ s' τ}, Gives (classFields s) σ s' τ →
    s'.fieldless = s.fieldless ∧ s'.isVar = s.isVar := by
  induction s using Stmt.members_induction with
  | other s hs =>
    intro σ s' τ h
    rw [classFields_eq_pure hs, gives_pure] at h
    rw [h.1]
    exact ⟨rfl, rfl⟩
  | cls head ms ih =>
    intro σ s' τ h
    obtain ⟨body, -, ms', σ1, h1, _, -, rfl⟩ := h.classFields_cls
    rw [Stmt.fieldless, Stmt.fieldless, fieldless_memberFields ih h1]
    exact ⟨rfl, rfl⟩

lemma fieldless_fields {ss ss' : List Stmt} (h : Gives (ss.mapM classFields) σ ss' τ) :
    ss'.map Stmt.fieldless = ss.map Stmt.fieldless := by
  induction ss generalizing σ ss' with
  | nil =>
    obtain ⟨rfl, -⟩ := gives_pure.mp h
    rfl
  | cons s ss ih =>
    obtain ⟨s', rest, σ1, h1, h2, rfl⟩ := gives_mapM_cons.mp h
    rw [List.map_cons, List.map_cons, (fieldless_classFields s h1).1, ih h2]

/-- What is collected from a program stays when its fields are looked at. -/
lemma collected_fields {α : Type} {F : Stmt → List α} {ss ss' : List Stmt}
    (own : ClassHead → List α) (hvar : ∀ head init, F (.var head init) = [])
    (hcls : ∀ head ms, F (.cls head ms) = own head ++ ms.flatMap F)
    (h : Gives (ss.mapM classFields) σ ss' τ) : ss'.flatMap F = ss.flatMap F := by
  have hlist (ss : List Stmt) : (ss.map Stmt.fieldless).flatMap F = ss.flatMap F := by
    simp only [List.flatMap_map, Stmt.collected_fieldless own hvar hcls]
  rw [← hlist ss', fieldless_fields h, hlist ss]

lemma classIds_fields {ss ss' : List Stmt} (h : Gives (ss.mapM classFields) σ ss' τ) :
    Stmt.classIds ss' = Stmt.classIds ss := by
  have hflat (ss : List Stmt) : Stmt.classIds ss = ss.flatMap fun s => Stmt.classIds [s] := by
    induction ss with
    | nil => rfl
    | cons s ss ih => rw [Stmt.classIds_cons, ih, List.flatMap_cons]
  rw [hflat ss', hflat ss]
  exact collected_fields (·.cls.toList) (fun _ _ => rfl)
    (fun head ms => hflat ms ▸ Stmt.classIds_cls head ms) h

end Check
end MiddleEnd
