import MiddleEnd.Proofs.Check.Hoisted

/-!
The bodies of functions and constructors. Each declaration gets a scope and a frame that were not
there before, so that no two of them share a body or a frame.
-/

namespace MiddleEnd

variable {base σ τ υ : Session} {scope id i j : ScopeId}

mutual
/-- The bodies that a statement has been given, those of the methods of classes included. -/
def Stmt.bodies : Stmt → List ScopeId
  | .func head _ => head.scope.toList
  | .ctor head _ => head.scope.toList
  | .cls _ ms => Stmt.bodiesList ms
  | _ => []

def Stmt.bodiesList : List Stmt → List ScopeId
  | [] => []
  | s :: ss => s.bodies ++ Stmt.bodiesList ss
end

lemma Stmt.mem_bodiesList {ss : List Stmt} : id ∈ bodiesList ss ↔ ∃ s ∈ ss, id ∈ s.bodies := by
  induction ss with
  | nil => simp [bodiesList]
  | cons s ss ih => simp [bodiesList, ih]

lemma Stmt.bodiesList_eq_flatMap (ss : List Stmt) : bodiesList ss = ss.flatMap bodies := by
  induction ss with
  | nil => rfl
  | cons s ss ih => rw [bodiesList, List.flatMap_cons, ih]

lemma Stmt.bodiesList_filter_perm (ss : List Stmt) (p : Stmt → Bool) :
    (bodiesList (ss.filter p) ++ bodiesList (ss.filter (!p ·))).Perm (bodiesList ss) := by
  simp only [bodiesList_eq_flatMap, ← List.flatMap_append]
  exact (List.filter_append_perm p ss).flatMap_right _

namespace Session

/-- The scope is there and in a function. -/
def HasBody (σ : Session) (id : ScopeId) : Prop :=
  ∃ s f g, σ.scopes.scope? id = some s ∧ s.frame = some f ∧ σ.scopes.frame? f = some g

/-- The scope is new, and in a function that is new. -/
structure Lodges (σ τ : Session) (id : ScopeId) : Prop where
  fresh : σ.scopes.scope? id = none
  frame : ∀ {s f}, τ.scopes.scope? id = some s → s.frame = some f → σ.scopes.frame? f = none
  body : τ.HasBody id

/-- The scopes are different and in different functions. -/
def Apart (σ : Session) (i j : ScopeId) : Prop :=
  i ≠ j ∧ ∀ s s', σ.scopes.scope? i = some s → σ.scopes.scope? j = some s' → s.frame ≠ s'.frame

lemma HasBody.mono (h : σ.HasBody id) (hτ : σ.Later τ) : τ.HasBody id := by
  obtain ⟨s, f, g, hs, hf, hg⟩ := h
  obtain ⟨s', hs', hext⟩ := hτ.scopes.scope? hs
  cases hg' : τ.scopes.frame? f with
  | none => cases hg.symm.trans (hτ.frame hg')
  | some g' => exact ⟨s', f, g', hs', hext.frame.trans hf, hg'⟩

lemma Lodges.mono (h : σ.Lodges τ id) (hυ : τ.Later υ) : σ.Lodges υ id where
  fresh := h.fresh
  frame hs hf := by
    obtain ⟨s', -, -, hs', -⟩ := h.body
    obtain ⟨s'', hs'', hext⟩ := hυ.scopes.scope? hs'
    cases hs.symm.trans hs''
    exact h.frame hs' (hext.frame.symm.trans hf)
  body := h.body.mono hυ

lemma Lodges.earlier (h : σ.Lodges τ id) (hσ : base.Later σ) : base.Lodges τ id :=
  ⟨hσ.scope?_eq_none h.fresh, fun hs hf => hσ.frame (h.frame hs hf), h.body⟩

lemma Apart.symm (h : σ.Apart i j) : σ.Apart j i :=
  ⟨h.1.symm, fun s s' hs hs' => (h.2 s' s hs' hs).symm⟩

lemma Apart.mono (h : σ.Apart i j) (hi : σ.HasBody i) (hj : σ.HasBody j) (hτ : σ.Later τ) :
    τ.Apart i j := by
  refine ⟨h.1, fun t t' ht ht' => ?_⟩
  obtain ⟨s, -, -, hs, -⟩ := hi
  obtain ⟨s', -, -, hs', -⟩ := hj
  obtain ⟨_, ht0, hext⟩ := hτ.scopes.scope? hs
  obtain ⟨_, ht0', hext'⟩ := hτ.scopes.scope? hs'
  cases ht.symm.trans ht0
  cases ht'.symm.trans ht0'
  rw [hext.frame, hext'.frame]
  exact h.2 s s' hs hs'

/-- A body that was there before is apart from a new one. -/
lemma HasBody.apart (hi : σ.HasBody i) (hτ : σ.Later τ) (hj : σ.Lodges τ j) : τ.Apart i j := by
  obtain ⟨s, f, g, hs, hf, hg⟩ := hi
  refine ⟨?_, fun t t' ht ht' heq => ?_⟩
  · rintro rfl
    cases hs.symm.trans hj.fresh
  · obtain ⟨s', hs', hext⟩ := hτ.scopes.scope? hs
    cases ht.symm.trans hs'
    rw [hext.frame, hf] at heq
    cases hg.symm.trans (hj.frame ht' heq.symm)

/-- The scopes are new bodies that are apart from each other. -/
structure Rooms (σ τ : Session) (ids : List ScopeId) : Prop where
  lodges : ∀ id ∈ ids, σ.Lodges τ id
  apart : ids.Pairwise τ.Apart

namespace Rooms

variable {ids ids' : List ScopeId}

lemma nil : σ.Rooms τ [] := ⟨List.forall_mem_nil _, .nil⟩

lemma mono (h : σ.Rooms τ ids) (hυ : τ.Later υ) : σ.Rooms υ ids where
  lodges id hid := (h.lodges id hid).mono hυ
  apart := h.apart.imp_of_mem fun hi hj hij =>
    hij.mono (h.lodges _ hi).body (h.lodges _ hj).body hυ

lemma earlier (h : σ.Rooms τ ids) (hσ : base.Later σ) : base.Rooms τ ids :=
  ⟨fun id hid => (h.lodges id hid).earlier hσ, h.apart⟩

lemma perm (h : σ.Rooms τ ids) (hperm : ids.Perm ids') : σ.Rooms τ ids' where
  lodges id hid := h.lodges id (hperm.mem_iff.mpr hid)
  apart := h.apart.perm hperm Apart.symm

lemma singleton (h : σ.Lodges τ id) : σ.Rooms τ [id] :=
  ⟨List.forall_mem_singleton.mpr h, List.pairwise_singleton _ _⟩

/-- What is new after some bodies are there is apart from them. -/
lemma append (h : σ.Rooms τ ids) (hτ : σ.Later τ) (h' : τ.Rooms υ ids') (hυ : τ.Later υ) :
    σ.Rooms υ (ids ++ ids') where
  lodges := List.forall_mem_append.mpr
    ⟨(h.mono hυ).lodges, (h'.earlier hτ).lodges⟩
  apart := List.pairwise_append.mpr ⟨(h.mono hυ).apart, h'.apart,
    fun _ hi _ hj => (h.lodges _ hi).body.apart hυ (h'.lodges _ hj)⟩

end Rooms
end Session

namespace Check

open Session (Rooms Lodges room_all)

/-! ### Functions and constructors -/

/-- The new body of a function or constructor that stands in `scope`. -/
structure Houses (σ τ : Session) (scope id : ScopeId) : Prop where
  lodges : σ.Lodges τ id
  inside : ∃ s, τ.scopes.scope? id = some s ∧ s.parent = some scope
  notBody : τ.NotBody id

lemma Houses.mono (h : Houses σ τ scope id) (hυ : τ.Later υ) : Houses σ υ scope id where
  lodges := h.lodges.mono hυ
  inside := by
    obtain ⟨s, hs, hp⟩ := h.inside
    obtain ⟨s', hs', hext⟩ := hυ.scopes.scope? hs
    exact ⟨s', hs', hext.parent.trans hp⟩
  notBody := by
    obtain ⟨s, hs, -⟩ := h.inside
    exact hυ.notBody hs h.notBody

lemma Houses.earlier (h : Houses σ τ scope id) (hσ : base.Later σ) : Houses base τ scope id :=
  ⟨h.lodges.earlier hσ, h.inside, h.notBody⟩

lemma houses_openFunction {f : Frame} {frame : FrameId} (hσ : σ.Assembled)
    (h1 : Gives (addFrame f) σ frame τ) (h2 : Gives (openIn scope (.function frame)) τ id υ) :
    Houses σ υ scope id := by
  obtain ⟨rfl, rfl⟩ := gives_addFrame.mp h1
  obtain ⟨-, rfl, htypes, hopen⟩ := quiet_of_openIn h2
  obtain ⟨s, hs, hnext⟩ := Scopes.scope?_openIn hopen (σ.scopes.addFrame f).next
  rw [if_pos rfl] at hnext
  have hnone : σ.scopes.scope? (σ.scopes.addFrame f).next = none :=
    List.getElem?_eq_none (Nat.le_refl _)
  refine ⟨⟨hnone, fun ht hf => ?_, _, _, f, hnext, rfl, ?_⟩, ⟨_, hnext, Scopes.inner_parent s⟩, ?_⟩
  · cases ht.symm.trans hnext
    cases hf
    exact σ.scopes.frame?_nextFrame
  · rw [Scopes.frame?_openIn hopen]
    exact σ.scopes.frame?_addFrame f
  · intro c e he hbody
    rw [htypes] at he
    obtain ⟨t, ht, -⟩ := hσ.bodies he hbody
    cases ht.symm.trans hnone

lemma houses_outlineFunction {kind : FrameKind} {head head' : FuncHead} (hσ : σ.Assembled)
    (h : Gives (outlineFunction scope kind head) σ head' τ) :
    ∃ id, head'.scope = some id ∧ head'.name = head.name ∧ Houses σ τ scope id := by
  simp only [outlineFunction, gives_bind, gives_pure] at h
  obtain ⟨ty, σ1, h1, frame, σ2, h2, body, σ3, h3, ps, σ4, h4, rfl, rfl⟩ := h
  have c1 := (leads_typeOf? (Φ := fun _ => True) hσ).changes_of_gives h1
  have hhouses := houses_openFunction c1.assembled h2 h3
  exact ⟨body, rfl, rfl, (hhouses.earlier (.of_gives h1)).mono (.of_gives h4)⟩

lemma houses_outlineConstructor {head head' : CtorHead} (hσ : σ.Assembled)
    (h : Gives (outlineConstructor scope head) σ head' τ) :
    ∃ id, head'.scope = some id ∧ Houses σ τ scope id := by
  simp only [outlineConstructor, gives_bind, gives_scopes, gives_rule, gives_classEntry,
    gives_pure] at h
  obtain ⟨_, _, ⟨rfl, rfl⟩, c, _, ⟨-, rfl⟩, e, _, ⟨-, rfl⟩, _, _, ⟨-, rfl⟩, frame, σ2, h2, body, σ3,
    h3, ps, σ4, h4, _, _, h5, rfl, rfl⟩ := h
  have hhouses := houses_openFunction hσ h2 h3
  exact ⟨body, rfl, (hhouses.mono (.of_gives h4)).mono (.of_gives h5)⟩

/-! ### Declarations -/

lemma rooms_outline {kind : FrameKind} {s s' : Stmt} (hσ : σ.Assembled) (hs : s.isClass = false)
    (h : Gives (outline scope kind s) σ s' τ) : s'.isClass = false ∧ σ.Rooms τ s'.bodies := by
  cases s with
  | func head body =>
    simp only [outline, gives_bind, gives_pure] at h
    obtain ⟨head', _, h1, rfl, rfl⟩ := h
    obtain ⟨id, hid, -, hhouses⟩ := houses_outlineFunction hσ h1
    rw [Stmt.bodies, hid]
    exact ⟨rfl, .singleton hhouses.lodges⟩
  | ctor head body =>
    simp only [outline, gives_bind, gives_pure] at h
    obtain ⟨head', _, h1, rfl, rfl⟩ := h
    obtain ⟨id, hid, hhouses⟩ := houses_outlineConstructor hσ h1
    rw [Stmt.bodies, hid]
    exact ⟨rfl, .singleton hhouses.lodges⟩
  | cls => cases hs
  | _ =>
    obtain ⟨rfl, rfl⟩ := gives_pure.mp h
    exact ⟨rfl, .nil⟩

lemma rooms_outlines {kind : FrameKind} {ss ss' : List Stmt} (hσ : σ.Assembled)
    (h : Gives (ss.mapM (outline scope kind)) σ ss' τ) :
    ss'.filter Stmt.isClass = ss.filter Stmt.isClass ∧
      σ.Rooms τ (Stmt.bodiesList (ss'.filter (!·.isClass))) := by
  induction ss generalizing σ ss' with
  | nil =>
    obtain ⟨rfl, rfl⟩ := gives_pure.mp h
    exact ⟨rfl, .nil⟩
  | cons s ss ih =>
    obtain ⟨s', rest, σ1, h1, h2, rfl⟩ := gives_mapM_cons.mp h
    have c1 := (leads_outline (Φ := fun _ => True) hσ room_all
      fun _ => Or.inl trivial).changes_of_gives h1
    obtain ⟨hsame, hrest⟩ := ih c1.assembled h2
    cases hs : s.isClass with
    | true =>
      -- classes stay as they are
      have heq : s' = s ∧ σ = σ1 := by
        cases s with
        | cls =>
          obtain ⟨rfl, rfl⟩ := gives_pure.mp h1
          exact ⟨rfl, rfl⟩
        | _ => cases hs
      obtain ⟨rfl, rfl⟩ := heq
      rw [List.filter_cons_of_pos hs, List.filter_cons_of_pos hs, hsame,
        List.filter_cons_of_neg (by simp [hs])]
      exact ⟨rfl, hrest⟩
    | false =>
      -- the new bodies are apart from those that are opened later
      obtain ⟨hs', hnew⟩ := rooms_outline hσ hs h1
      rw [List.filter_cons_of_neg (by simp [hs']), List.filter_cons_of_neg (by simp [hs]),
        List.filter_cons_of_pos (by simp [hs']), Stmt.bodiesList]
      exact ⟨hsame, hnew.append (.of_gives h1) hrest (.of_gives h2)⟩

lemma rooms_bindFunctions {ss ss' : List Stmt} (hσ : σ.Assembled) (hbase : base.Later σ)
    (hcls : base.Rooms σ (Stmt.bodiesList (ss.filter Stmt.isClass)))
    (h : Gives (bindFunctions scope ss) σ ss' τ) : base.Rooms τ (Stmt.bodiesList ss') := by
  unfold bindFunctions at h
  simp only [gives_bind, gives_pure] at h
  obtain ⟨owner, _, h1, ss', σ2, h2, _, σ3, h3, _, σ4, h4, rfl, rfl⟩ := h
  obtain ⟨rfl, -⟩ := gives_owner? h1
  obtain ⟨hsame, hnew⟩ := rooms_outlines hσ h2
  rw [← hsame] at hcls
  have hall := (hcls.append hbase hnew (.of_gives h2)).perm (Stmt.bodiesList_filter_perm ss' _)
  exact (hall.mono (.of_gives h3)).mono (.of_gives h4)

lemma rooms_declarations {ss ss2 ss' : List Stmt} {cs : List ClassId} {e : LogEvent} {u : Unit}
    {σ1 σ2 σ3 : Session} (h1 : Gives (registerClasses scope ss) σ cs σ1)
    (hlater : σ1.Later σ2) (hσ2 : σ2.Assembled)
    (hcls : σ1.Rooms σ2 (Stmt.bodiesList (ss2.filter Stmt.isClass)))
    (h3 : Gives (note e) σ2 u σ3) (h4 : Gives (bindFunctions scope ss2) σ3 ss' τ) :
    σ.Rooms τ (Stmt.bodiesList ss') := by
  have c3 := (leads_note (Φ := fun _ => True) hσ2).changes_of_gives h3
  exact (rooms_bindFunctions c3.assembled (hlater.trans (.of_gives h3)) (hcls.mono (.of_gives h3))
    h4).earlier (.of_gives h1)

lemma rooms_opening {ss ss' : List Stmt} {cs : List ClassId} (hσ : σ.Assembled)
    (h : Opening scope ss cs σ ss' τ) :
    σ.Continues (fun _ => True) τ ∧ σ.Rooms τ (Stmt.bodiesList (ss'.filter Stmt.isClass)) := by
  induction h with
  | nil => exact ⟨hσ.stay, .nil⟩
  | other hs _ ih =>
    rw [List.filter_cons_of_neg (by simp [hs])]
    exact ih hσ
  | @cls _ body _ _ _ ms6 _ ss' c _ _ σ σ1 σ2 σ3 σ4 σ5 σ6 σ7 _ _ h1 h2 h3 h4 h5 h6 h7 h ihms ih =>
    -- the walk through the declarations in the class leads from `σ2` to `σ7`
    have hknown : ∃ e, σ.types.class? c = some e := by
      obtain ⟨he, -⟩ := gives_changeClass.mp h2
      rwa [(quiet_of_openIn h1).2.2.1] at he
    have c2 := continues_openBody hσ room_all ⟨hknown, trivial, trivial, fun _ => trivial⟩ h1 h2
    obtain ⟨c3, -⟩ := registers_registerClasses c2.assembled h3
    obtain ⟨c4, hinner⟩ := ihms c3.assembled
    have c5 := (leads_note (Φ := fun _ => True) c4.assembled).changes_of_gives h5
    have c6 := (leads_bindFunctions (Φ := fun _ => True) c5.assembled room_all
      (fun _ => Or.inl trivial) Cell.free_all.declaring).changes_of_gives h6
    have hfields : Leads (Session.Continues fun _ => True) (ms6.forM (announceField c body)) σ6
        fun _ _ => True :=
      .forM c6.assembled.stay fun s _ _ hυ => leads_announceField hυ.assembled fun _ => trivial
    have c7 := hfields.changes_of_gives h7
    have hσ7 := c2.trans (c3.trans (c4.trans (c5.trans (c6.trans c7))))
    -- all bodies in the class are new after its own has been opened
    have hopen : Session.Trace True True σ σ2 := trace_openBody h1 h2
    have hrooms := ((rooms_declarations h3 (.of_gives h4.gives) c4.assembled hinner h5 h6).earlier
      (.of_trace hopen)).mono (.of_gives h7)
    obtain ⟨hτ, hrest⟩ := ih c7.assembled
    refine ⟨hσ7.trans hτ, ?_⟩
    rw [List.filter_cons_of_pos rfl, Stmt.bodiesList, Stmt.bodies]
    have hlater : σ.Later σ7 := (Session.Later.of_trace hopen).trans (((((Session.Later.of_gives
      h3).trans (.of_gives h4.gives)).trans (.of_gives h5)).trans
      (.of_gives h6)).trans (.of_gives h7))
    exact hrooms.append hlater hrest (.of_gives h.gives)

/-- When the declarations of a program have been made known, all functions and constructors have
bodies that are new and apart from each other. -/
lemma rooms_announce {ss ss' : List Stmt} (hσ : σ.Assembled)
    (h : Gives (announce scope ss) σ ss' τ) : σ.Rooms τ (Stmt.bodiesList ss') := by
  obtain ⟨cs, σ1, ss2, σ2, u, σ3, h1, h2, h3, h4⟩ := opening_of_announce h
  obtain ⟨c1, -⟩ := registers_registerClasses hσ h1
  obtain ⟨c2, hcls⟩ := rooms_opening c1.assembled h2
  exact rooms_declarations h1 (.of_gives h2.gives) c2.assembled hcls h3 h4

end Check

/-! ### Fields -/

lemma Check.bodiesList_fields {ss ss' : List Stmt} (h : Gives (ss.mapM classFields) σ ss' τ) :
    Stmt.bodiesList ss' = Stmt.bodiesList ss := by
  simp only [Stmt.bodiesList_eq_flatMap]
  exact collected_fields (fun _ => []) (fun _ _ => rfl)
    (fun _ ms => Stmt.bodiesList_eq_flatMap ms) h

end MiddleEnd
