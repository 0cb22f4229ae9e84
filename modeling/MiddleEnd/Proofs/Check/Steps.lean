import MiddleEnd.Proofs.Check.Growth

/-!
The steps that the analysis is made of: each of them leads from a valid session to a valid one
that has only grown.
-/

namespace MiddleEnd

/-- A step between valid sessions. -/
structure Session.Reaches (σ τ : Session) : Prop where
  valid : τ.Valid
  grows : σ.Grows τ

/-- The entry of a class that is closed with these members. -/
def ClassEntry.close (members : Bindings) (e : ClassEntry) : ClassEntry :=
  { e with members, finalized := true }

namespace Session

variable {σ τ υ : Session}

lemma Reaches.refl (hσ : σ.Valid) : σ.Reaches σ := ⟨hσ, .refl σ⟩

lemma Reaches.trans (h : σ.Reaches τ) (h' : τ.Reaches υ) : σ.Reaches υ :=
  ⟨h'.valid, h.grows.trans h'.grows⟩

lemma Quiet.reaches (h : σ.Quiet τ) (hσ : σ.Valid) : σ.Reaches τ := ⟨h.valid hσ, h.grows⟩

/-! ### Declarations -/

/-- A name is declared, and becomes a member of the class whose body the scope is. -/
structure Declares (σ : Session) (scope : ScopeId) (b : Binding) (τ : Session) : Prop where
  scopes : ∃ span, σ.scopes.declare scope b span = .ok τ.scopes
  forms : τ.types.forms = σ.types.forms
  wellFormed : σ.types.WellFormed → τ.types.WellFormed
  class? : ∀ c, τ.types.class? c = (σ.types.class? c).map fun e =>
    if e.body = some scope then { e with members := e.members.insert b } else e

namespace Declares

variable {scope : ScopeId} {b : Binding}

lemma fresh (h : σ.Declares scope b τ) : σ.scopes.bindingAt? b.name scope = none := by
  obtain ⟨span, hspan⟩ := h.scopes
  exact Scopes.bindingAt?_of_declare hspan

lemma bindingAt? (h : σ.Declares scope b τ) (name : String) (id : ScopeId) :
    τ.scopes.bindingAt? name id =
      if id = scope ∧ b.name = name then some b else σ.scopes.bindingAt? name id := by
  obtain ⟨span, hspan⟩ := h.scopes
  exact Scopes.bindingAt?_declare hspan name id

lemma bindingAt?_self (h : σ.Declares scope b τ) : τ.scopes.bindingAt? b.name scope = some b := by
  rw [h.bindingAt?, if_pos ⟨rfl, rfl⟩]

lemma extends_scopes (h : σ.Declares scope b τ) : σ.scopes.Extends τ.scopes := by
  obtain ⟨span, hspan⟩ := h.scopes
  exact Scopes.extends_declare hspan

/-- A class of the new session is one of the old session, possibly with one more member. -/
lemma exists_class (h : σ.Declares scope b τ) {c : ClassId} {e' : ClassEntry}
    (he' : τ.types.class? c = some e') :
    ∃ e, σ.types.class? c = some e ∧ e.Agrees e' ∧ ∀ name, e'.members.find? name =
      if e.body = some scope ∧ b.name = name then some b else e.members.find? name := by
  rw [h.class?, Option.map_eq_some_iff] at he'
  obtain ⟨e, he, rfl⟩ := he'
  refine ⟨e, he, ?_, fun name => ?_⟩
  · split <;> exact ⟨rfl, rfl, rfl, rfl⟩
  · split
    · rename_i hbody
      rw [Bindings.find?_insert]
      simp [hbody]
    · rename_i hbody
      simp [hbody]

lemma extends_session (h : σ.Declares scope b τ) : σ.Extends τ where
  forms := h.forms ▸ List.prefix_refl _
  scopes := h.extends_scopes
  cls {c e} he := by
    obtain ⟨e', he'⟩ : ∃ e', τ.types.class? c = some e' := ⟨_, by rw [h.class?, he]; rfl⟩
    obtain ⟨e0, he0, hagree, -⟩ := h.exists_class he'
    rw [he] at he0
    cases he0
    exact ⟨e', he', hagree⟩
  known he' := by
    obtain ⟨e, he, -⟩ := h.exists_class he'
    exact ⟨e, he⟩
  members {c e e' name b'} he he' hb' := by
    obtain ⟨e0, he0, -, hmembers⟩ := h.exists_class he'
    rw [he] at he0
    cases he0
    rw [hmembers] at hb'
    split at hb'
    · -- the new name, a member since it stands in the body
      rename_i hcond
      cases hb'
      exact Or.inr ⟨scope, hcond.1, by rw [← hcond.2]; exact h.bindingAt?_self⟩
    · exact Or.inl hb'
  mirror {c e e' id name b'} he he' hid hb' := by
    obtain ⟨e0, he0, -, hmembers⟩ := h.exists_class he'
    rw [he] at he0
    cases he0
    rw [h.bindingAt?] at hb'
    rw [hmembers]
    split at hb'
    · rename_i hcond
      rw [if_pos ⟨hcond.1 ▸ hid, hcond.2⟩]
      exact Or.inl hb'
    · rename_i hcond
      rw [if_neg fun hc => hcond ⟨Option.some.inj (hid.symm.trans hc.1), hc.2⟩]
      by_cases hm : e.members.find? name = some b'
      · exact Or.inl hm
      · exact Or.inr ⟨hb', hm⟩

lemma valid (h : σ.Declares scope b τ) (hσ : σ.Valid) (hb : b.Valid σ.types)
    (hp : b.kind = .parameter → σ.NotBody scope) : τ.Valid := by
  refine h.extends_session.valid hσ (h.wellFormed hσ.types) fun {id name b'} hb' => ?_
  rw [h.bindingAt?] at hb'
  split at hb'
  · rename_i hcond
    cases hb'
    exact Or.inr ⟨hb.mono h.extends_session.forms, hcond.1 ▸ hp⟩
  · exact Or.inl hb'

lemma grows (h : σ.Declares scope b τ) (hd : b.denotesType = false) : σ.Grows τ where
  toExtends := h.extends_session
  typeNames := by
    obtain ⟨span, hspan⟩ := h.scopes
    exact Scopes.sameTypeNames_declare hspan (Or.inl hd)

end Declares

/-! ### Entries of classes -/

/-- The body of a class is a scope in that class. -/
def Housed (σ : Session) : Prop :=
  ∀ {c e id}, σ.types.class? c = some e → e.body = some id →
    ∃ s, σ.scopes.scope? id = some s ∧ s.cls = some c

lemma Valid.housed (hσ : σ.Valid) : σ.Housed := fun he hbody => (hσ.classes he).body hbody

def updateClass (σ : Session) (c : ClassId) (f : ClassEntry → ClassEntry) : Session :=
  { σ with types := σ.types.updateClass c f }

lemma class?_updateClass (σ : Session) (c d : ClassId) (f : ClassEntry → ClassEntry) :
    (σ.updateClass c f).types.class? d =
      (σ.types.class? d).map fun e => if d = c then f e else e := by
  rw [updateClass, TypeTable.class?_updateClass]
  by_cases hdc : d = c <;> cases σ.types.class? d <;> simp [hdc]

/-- Closing a class gives it the names of its body as members. -/
lemma grows_closed {scope : ScopeId} {c : ClassId} {e : ClassEntry} {s : Scope}
    (he : σ.types.class? c = some e) (hbody : e.body = some scope)
    (hs : σ.scopes.scope? scope = some s) : σ.Grows (σ.updateClass c (.close s.bindings)) where
  forms := List.prefix_refl _
  scopes := .refl _
  typeNames := .refl _ _
  cls {d e0} he0 := by
    rw [class?_updateClass, he0]
    refine ⟨_, rfl, ?_⟩
    split <;> exact ⟨rfl, rfl, rfl, rfl⟩
  known he' := by
    rw [class?_updateClass, Option.map_eq_some_iff] at he'
    obtain ⟨e0, he0, -⟩ := he'
    exact ⟨e0, he0⟩
  members {d e0 e' name b} he0 he' hb := by
    rw [class?_updateClass, he0] at he'
    cases he'
    split at hb
    · -- the members of the closed class are the names of its body
      rename_i hdc
      subst hdc
      rw [he] at he0
      cases he0
      exact Or.inr ⟨scope, hbody, Scopes.bindingAt?_eq_some.mpr ⟨s, hs, hb⟩⟩
    · exact Or.inl hb
  mirror {d e0 e' id name b} he0 he' hid hb := by
    rw [class?_updateClass, he0] at he'
    cases he'
    split
    · rename_i hdc
      subst hdc
      rw [he] at he0
      cases he0
      rw [hbody] at hid
      cases hid
      obtain ⟨s', hs', hb⟩ := Scopes.bindingAt?_eq_some.mp hb
      cases hs.symm.trans hs'
      exact Or.inl hb
    · by_cases hm : e0.members.find? name = some b
      · exact Or.inl hm
      · exact Or.inr ⟨hb, hm⟩

end Session

namespace Check

variable {σ τ : Session} {scope : ScopeId}

lemma gives_owner? {c : Option ClassId} (h : Gives (owner? scope) σ c τ) :
    σ = τ ∧ ∃ s, σ.scopes.scope? scope = some s ∧
      c = s.cls.filter fun c => (σ.types.class? c).any (·.body = some scope) := by
  unfold owner? at h
  simp only [gives_bind, gives_scopes, gives_types, gives_rule, gives_pure] at h
  obtain ⟨_, _, ⟨rfl, rfl⟩, s, _, ⟨hs, rfl⟩, _, _, ⟨rfl, rfl⟩, rfl, rfl⟩ := h
  exact ⟨rfl, s, Scopes.scope_eq_ok.mp hs, rfl⟩

/-- The owner of a scope is the class whose body it is. -/
lemma owner?_iff (hσ : σ.Housed) {s : Scope} (hs : σ.scopes.scope? scope = some s) {c : ClassId}
    {e : ClassEntry} (he : σ.types.class? c = some e) :
    (s.cls.filter fun c => (σ.types.class? c).any (·.body = some scope)) = some c ↔
      e.body = some scope := by
  rw [Option.filter_eq_some_iff, he]
  constructor
  · rintro ⟨-, hbody⟩
    simpa using hbody
  · intro hbody
    obtain ⟨s', hs', hc⟩ := hσ he hbody
    rw [hs] at hs'
    cases hs'
    exact ⟨hc, by simpa using hbody⟩

lemma declares_of_declare {b : Binding} {span : Span} {u : Unit} (hσ : σ.Housed)
    (h : Gives (declare scope b span) σ u τ) : σ.Declares scope b τ := by
  unfold declare at h
  simp only [gives_bind, gives_scopes, gives_rule, gives_updateScopes] at h
  obtain ⟨owner, _, howner, _, _, ⟨rfl, rfl⟩, larger, _, ⟨hlarger, rfl⟩, _, _, rfl, h⟩ := h
  obtain ⟨rfl, s, hs, rfl⟩ := gives_owner? howner
  split at h
  · -- the scope is the body of a class, which gets the name as a member
    rename_i c hc
    obtain ⟨-, rfl⟩ := gives_changeClass.mp h
    refine ⟨⟨span, hlarger⟩, rfl, fun hwf => hwf.updateClass c fun e => ⟨rfl, rfl⟩, fun d => ?_⟩
    show (TypeTable.addMember _ c b).class? d = _
    rw [TypeTable.addMember, TypeTable.class?_updateClass]
    cases he : σ.types.class? d with
    | none => simp
    | some e =>
      have hiff := owner?_iff hσ hs he
      rw [hc, Option.some.injEq] at hiff
      by_cases hdc : d = c
      · simp [hdc, hiff.mp hdc.symm]
      · have hbody : e.body ≠ some scope := fun hb => hdc (hiff.mpr hb).symm
        simp [hdc, hbody]
  · -- the scope is the body of no class
    rename_i hnone
    rw [gives_pure] at h
    obtain ⟨-, rfl⟩ := h
    refine ⟨⟨span, hlarger⟩, rfl, id, fun d => ?_⟩
    cases he : σ.types.class? d with
    | none => simp
    | some e =>
      have hbody : e.body ≠ some scope := by
        intro hb
        rw [(owner?_iff hσ hs he).mpr hb] at hnone
        cases hnone
      simp [hbody]

lemma reaches_of_declare {b : Binding} {span : Span} {u : Unit} (hσ : σ.Valid)
    (hb : b.Valid σ.types) (hd : b.denotesType = false)
    (hp : b.kind = .parameter → σ.NotBody scope) (h : Gives (declare scope b span) σ u τ) :
    σ.Reaches τ :=
  have hdecl := declares_of_declare hσ.housed h
  ⟨hdecl.valid hσ hb hp, hdecl.grows hd⟩

/-! ### Written types and parameters -/

lemma quiet_of_typeOf {e : TypeExpr} {ty : TypeId} (hσ : σ.Valid)
    (h : Gives (typeOf scope e) σ ty τ) :
    σ.Quiet τ ∧ τ.scopes = σ.scopes ∧
      ∃ x, σ.scopes.Denotes scope e x ∧ τ.types.Unfolds ty x := by
  unfold typeOf at h
  simp only [gives_bind, gives_scopes, gives_types] at h
  obtain ⟨_, _, ⟨rfl, rfl⟩, _, _, ⟨rfl, rfl⟩, h⟩ := h
  rcases hrun : (σ.scopes.typeOf scope e).run.run σ.types with ⟨r, table⟩
  rw [hrun] at h
  simp only [gives_bind, gives_updateTypes, gives_rule] at h
  obtain ⟨_, _, rfl, rfl, rfl⟩ := h
  obtain ⟨hadds, hwf, x, hx, hu⟩ := Scopes.denotes_of_typeOf hσ.types hσ.nominal hrun
  exact ⟨⟨hadds, fun _ => hwf, .refl _, fun _ _ => rfl⟩, rfl, x, hx, hu⟩

lemma quiet_of_typeOf? {e : Option TypeExpr} {ty : Option TypeId} (hσ : σ.Valid)
    (h : Gives (typeOf? scope e) σ ty τ) :
    σ.Quiet τ ∧ τ.scopes = σ.scopes ∧ ty.isSome = e.isSome ∧ ∀ t ∈ ty, ∃ e' ∈ e, ∃ x,
      σ.scopes.Denotes scope e' x ∧ τ.types.Unfolds t x := by
  cases e with
  | none =>
    rw [typeOf?, gives_pure] at h
    obtain ⟨rfl, rfl⟩ := h
    exact ⟨.of_eq rfl rfl, rfl, rfl, nofun⟩
  | some e =>
    rw [typeOf?, gives_map] at h
    obtain ⟨t, h, rfl⟩ := h
    obtain ⟨hquiet, hscopes, hx⟩ := quiet_of_typeOf hσ h
    refine ⟨hquiet, hscopes, rfl, fun t' ht' => ?_⟩
    cases ht'
    exact ⟨e, rfl, hx⟩

lemma registered_of_typeOf? {e : Option TypeExpr} {ty : Option TypeId} (hσ : σ.Valid)
    (h : Gives (typeOf? scope e) σ ty τ) : τ.types.Registered (ty.getD .any) := by
  obtain ⟨-, -, -, hty⟩ := quiet_of_typeOf? hσ h
  cases ty with
  | none => exact ⟨.any, rfl⟩
  | some t =>
    obtain ⟨-, -, x, -, hx⟩ := hty t rfl
    exact hx.registered

lemma reaches_of_params {ps ps' : List Param} (hσ : σ.Valid) (hbody : σ.NotBody scope)
    (h : Gives (params scope ps) σ ps' τ) :
    σ.Reaches τ ∧ ∀ t ∈ Param.types ps', τ.types.Registered t := by
  induction ps generalizing σ ps' with
  | nil =>
    rw [params, gives_pure] at h
    obtain ⟨rfl, rfl⟩ := h
    exact ⟨.refl hσ, nofun⟩
  | cons p ps ih =>
    simp only [params, gives_bind, gives_pure] at h
    obtain ⟨ty, σ1, h1, _, σ2, h2, rest, _, h3, rfl, rfl⟩ := h
    have hreg := registered_of_typeOf? hσ h1
    have r1 := (quiet_of_typeOf? hσ h1).1.reaches hσ
    have r2 : σ1.Reaches σ2 := reaches_of_declare r1.valid
      (Binding.valid_of_isValue hreg rfl) rfl (fun _ => r1.grows.notBody hbody) h2
    obtain ⟨r3, hrest⟩ := ih r2.valid ((r1.trans r2).grows.notBody hbody) h3
    refine ⟨(r1.trans r2).trans r3, ?_⟩
    rw [Param.types, List.map_cons, List.forall_mem_cons]
    exact ⟨(r2.trans r3).grows.registered hreg, hrest⟩

/-! ### Scopes -/

lemma quiet_of_openIn {kind : ScopeKind} {id : ScopeId} (h : Gives (openIn scope kind) σ id τ) :
    σ.Quiet τ ∧ id = σ.scopes.next ∧ τ.types = σ.types ∧
      σ.scopes.openIn scope kind = .ok τ.scopes := by
  unfold openIn at h
  simp only [gives_bind, gives_scopes, gives_rule, gives_updateScopes, gives_pure] at h
  obtain ⟨_, _, ⟨rfl, rfl⟩, larger, _, ⟨hlarger, rfl⟩, _, _, rfl, rfl, rfl⟩ := h
  exact ⟨⟨.refl _, id, Scopes.extends_openIn hlarger,
    fun name id => Scopes.bindingAt?_openIn hlarger name id⟩, rfl, rfl, hlarger⟩

/-- A scope that is just opened is not the body of a class. -/
lemma notBody_of_openIn {kind : ScopeKind} {id : ScopeId} (hσ : σ.Valid)
    (h : Gives (openIn scope kind) σ id τ) : τ.NotBody id := by
  obtain ⟨-, rfl, htypes, -⟩ := quiet_of_openIn h
  intro c e he hbody
  rw [htypes] at he
  obtain ⟨s, hs, -⟩ := (hσ.classes he).body hbody
  exact Nat.lt_irrefl _ (Scopes.lt_size hs)

lemma quiet_of_note {e : LogEvent} {u : Unit} (h : Gives (note e) σ u τ) : σ.Quiet τ := by
  obtain rfl := gives_note.mp h
  exact .of_eq rfl rfl

lemma quiet_of_addFrame {f : Frame} {id : FrameId} (h : Gives (addFrame f) σ id τ) :
    σ.Quiet τ := by
  obtain ⟨-, rfl⟩ := gives_addFrame.mp h
  exact ⟨.refl _, fun h => h, ⟨fun h => ⟨_, h, .refl _⟩⟩, fun _ _ => rfl⟩

lemma reaches_of_openLambda {head head' : LambdaHead} {id : ScopeId} (hσ : σ.Valid)
    (h : Gives (openLambda scope head) σ (id, head') τ) : σ.Reaches τ := by
  unfold openLambda at h
  simp only [gives_bind, gives_pure] at h
  obtain ⟨frame, σ1, h1, body, σ2, h2, ps, σ3, h3, -, rfl⟩ := h
  have r1 := (quiet_of_addFrame h1).reaches hσ
  have r2 := (quiet_of_openIn h2).1.reaches r1.valid
  have r3 := (reaches_of_params r2.valid (notBody_of_openIn r1.valid h2) h3).1
  exact (r1.trans r2).trans r3

/-! ### The ends of functions and classes -/

lemma quiet_of_giveBack {id : FrameId} {frame : Frame} {value : Expr} {u : Unit}
    (h : Gives (giveBack id frame value) σ u τ) : σ.Quiet τ := by
  unfold giveBack at h
  split at h
  · rw [gives_pure] at h
    obtain ⟨-, rfl⟩ := h
    exact .of_eq rfl rfl
  · simp only [gives_bind, gives_types, gives_scopes, gives_rule, gives_updateScopes] at h
    obtain ⟨_, _, ⟨rfl, rfl⟩, _, _, ⟨-, rfl⟩, _, _, ⟨rfl, rfl⟩, _, _, ⟨-, rfl⟩, rfl⟩ := h
    exact ⟨.refl _, fun h => h, ⟨fun h => ⟨_, h, .refl _⟩⟩, fun _ _ => rfl⟩

lemma session_of_returnFrame {value : Option Expr} {span : Span} {r : FrameId × Frame}
    (h : Gives (returnFrame scope value span) σ r τ) : σ = τ := by
  unfold returnFrame at h
  simp only [gives_bind, gives_scopes, gives_rule, gives_pure] at h
  obtain ⟨_, _, ⟨rfl, rfl⟩, _, _, ⟨-, rfl⟩, _, _, ⟨-, rfl⟩, _, _, ⟨-, rfl⟩, -, rfl⟩ := h
  rfl

lemma session_of_closeFunction {head head' : FuncHead}
    (h : Gives (closeFunction head scope) σ head' τ) : σ = τ := by
  unfold closeFunction at h
  simp only [gives_bind, gives_scopes, gives_types, gives_rule, gives_registered, gives_pure] at h
  obtain ⟨_, _, ⟨rfl, rfl⟩, _, _, ⟨-, rfl⟩, _, _, ⟨-, rfl⟩, _, _, ⟨-, rfl⟩, _, _, ⟨-, rfl⟩, _, _,
    ⟨-, rfl⟩, -, rfl⟩ := h
  rfl

lemma reaches_of_closeClass {head head' : ClassHead} {c : ClassId} {e : ClassEntry} (hσ : σ.Valid)
    (he : σ.types.class? c = some e) (hbody : e.body = some scope)
    (h : Gives (closeClass head c scope) σ head' τ) : σ.Reaches τ := by
  unfold closeClass at h
  simp only [gives_bind, gives_scopes, gives_types, gives_rule, gives_changeClass,
    gives_classEntry, gives_pure] at h
  obtain ⟨_, _, ⟨rfl, rfl⟩, s, _, ⟨hs, rfl⟩, _, _, ⟨-, rfl⟩, _, _, ⟨rfl, rfl⟩, _, _, ⟨-, rfl⟩, _, _,
    ⟨-, rfl⟩, -, rfl⟩ := h
  have hgrows : σ.Grows (σ.updateClass c (.close s.bindings)) :=
    Session.grows_closed he hbody (Scopes.scope_eq_ok.mp hs)
  exact ⟨hgrows.valid hσ (hσ.types.updateClass c fun e => ⟨rfl, rfl⟩) Or.inl, hgrows⟩

end Check
end MiddleEnd
