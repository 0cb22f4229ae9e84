import MiddleEnd.Proofs.Check.Changes
import MiddleEnd.Proofs.Tree.Placed
import MiddleEnd.Proofs.Tree.Spans

/-!
What the declarations leave behind. When the classes and functions of a program are known, each of
them has a body that stands where the declaration stands in the program; and frames that wait for a
return, and constructors, are new only where the program declares them.
-/

namespace MiddleEnd

variable {Φ : Cell → Prop} {base σ τ υ : Session} {scope : ScopeId} {place : Surroundings}

/-! ### Scopes and their places -/

/-- The scope tells what is around it. -/
structure Scope.Stands (t : Scopes) (place : Surroundings) (s : Scope) : Prop where
  inLoop : s.inLoop = place.inLoop
  inFunction : s.frame.isSome = place.inFunction
  inConstructor : ∀ f ∈ s.frame, ∃ g, t.frame? f = some g ∧
    (g.kind = .constructor ↔ place.inConstructor = true)
  inClass : s.cls.isSome = place.inClass

/-- The scope is there and stands at the place. -/
def Session.At (σ : Session) (scope : ScopeId) (place : Surroundings) : Prop :=
  ∃ s, σ.scopes.scope? scope = some s ∧ s.Stands σ.scopes place

namespace Session

lemma At.mono (h : σ.At scope place) (hτ : σ.Continues Φ τ) : τ.At scope place := by
  obtain ⟨s, hs, hstands⟩ := h
  obtain ⟨s', hs', hkeeps⟩ := hτ.scope hs
  refine ⟨s', hs', hkeeps.inLoop.trans hstands.inLoop, ?_, fun f hf => ?_, ?_⟩
  · rw [hkeeps.frame, hstands.inFunction]
  · rw [hkeeps.frame] at hf
    obtain ⟨g, hg, hkind⟩ := hstands.inConstructor f hf
    obtain ⟨g', hg', hsame⟩ := hτ.frame hg
    exact ⟨g', hg', hsame.kind ▸ hkind⟩
  · rw [hkeeps.cls, hstands.inClass]

lemma Assembled.at_root (h : σ.Assembled) : σ.At .root {} := by
  obtain ⟨s, hs, hloop, hframe, hcls⟩ := h.scopes.root
  refine ⟨s, hs, hloop, by rw [hframe]; rfl, fun f hf => ?_, by rw [hcls]; rfl⟩
  rw [hframe] at hf
  cases hf

end Session

namespace Scope.Stands

variable {t : Scopes} {s : Scope} {id : ScopeId}

lemma block (h : s.Stands t place) : (s.inner id .block).Stands t place :=
  ⟨h.inLoop, h.inFunction, h.inConstructor, h.inClass⟩

lemma loop (h : s.Stands t place) : (s.inner id .loop).Stands t place.loop :=
  ⟨rfl, h.inFunction, h.inConstructor, h.inClass⟩

lemma cls (h : s.Stands t place) (c : ClassId) : (s.inner id (.cls c)).Stands t place.body :=
  ⟨rfl, h.inFunction, h.inConstructor, rfl⟩

lemma function (h : s.Stands t place) {f : FrameId} {g : Frame} (hg : t.frame? f = some g)
    (hkind : g.kind ≠ .constructor) : (s.inner id (.function f)).Stands t place.function := by
  refine ⟨rfl, rfl, ?_, h.inClass⟩
  rintro _ ⟨⟩
  exact ⟨g, hg, iff_of_false hkind nofun⟩

lemma constructor (h : s.Stands t place) {f : FrameId} {g : Frame} (hg : t.frame? f = some g)
    (hkind : g.kind = .constructor) :
    (s.inner id (.function f)).Stands t place.constructor := by
  refine ⟨rfl, rfl, ?_, h.inClass⟩
  rintro _ ⟨⟩
  exact ⟨g, hg, iff_of_true hkind rfl⟩

end Scope.Stands

namespace Check

/-- A scope that is opened stands inside the scope that it is opened in. -/
lemma at_openIn {kind : ScopeKind} {inner : Surroundings} {id : ScopeId} (hat : σ.At scope place)
    (hinner : ∀ s : Scope, s.Stands σ.scopes place → (s.inner scope kind).Stands σ.scopes inner)
    (h : Gives (openIn scope kind) σ id τ) :
    τ.At id inner ∧ ∃ s, σ.scopes.scope? scope = some s ∧
      τ.scopes.scope? id = some (s.inner scope kind) := by
  obtain ⟨-, rfl, -, hopen⟩ := quiet_of_openIn h
  obtain ⟨s, hs, hnext⟩ := Scopes.scope?_openIn hopen σ.scopes.next
  obtain ⟨s', hs', hstands⟩ := hat
  cases hs.symm.trans hs'
  rw [if_pos rfl] at hnext
  have hin := hinner s hstands
  refine ⟨⟨_, hnext, hin.inLoop, hin.inFunction, fun f hf => ?_, hin.inClass⟩, s, hs, hnext⟩
  rw [Scopes.frame?_openIn hopen]
  exact hin.inConstructor f hf

end Check

/-! ### Declarations with a body -/

/-- All parameters have a type that is there. -/
def Param.Typed (t : TypeTable) (ps : List Param) : Prop :=
  ∀ p ∈ ps, ∃ ty, p.type = some ty ∧ t.Registered ty

lemma Param.Typed.mono {t u : TypeTable} {ps : List Param} (h : Param.Typed t ps)
    (hforms : t.forms <+: u.forms) : Param.Typed u ps := by
  intro p hp
  obtain ⟨ty, hty, hreg⟩ := h p hp
  exact ⟨ty, hty, hreg.mono hforms⟩

/-- The signature of the function has been read, and its body has a frame for it. -/
structure FuncHead.Hoisted (σ : Session) (place : Surroundings) (head : FuncHead) : Prop where
  params : Param.Typed σ.types head.params
  type : ∃ t, head.type = some t ∧ σ.types.Registered t
  scope : ∃ body, head.scope = some body ∧ σ.At body place.function ∧
    ∃ s f g, σ.scopes.scope? body = some s ∧ s.frame = some f ∧ σ.scopes.frame? f = some g ∧
      g.name = head.name ∧ head.type = some g.result

structure CtorHead.Hoisted (σ : Session) (place : Surroundings) (head : CtorHead) : Prop where
  params : Param.Typed σ.types head.params
  scope : ∃ body, head.scope = some body ∧ σ.At body place.constructor

/-- The class is there and was not there in `base`, and its body is a scope in it. -/
def ClassHead.Hoisted (base σ : Session) (place : Surroundings) (head : ClassHead) : Prop :=
  ∃ c body, head.cls = some c ∧ head.scope = some body ∧ base.types.class? c = none ∧
    (∃ e, σ.types.class? c = some e) ∧ σ.At body place.body ∧
    ∃ s, σ.scopes.scope? body = some s ∧ s.cls = some c

mutual
/-- All that the statement declares has its body, also inside of classes. -/
def Stmt.Hoisted (base σ : Session) (place : Surroundings) : Stmt → Prop
  | .func head _ => head.Hoisted σ place
  | .ctor head _ => head.Hoisted σ place
  | .cls head ms => head.Hoisted base σ place ∧ Stmt.HoistedList base σ place.body ms
  | _ => True

def Stmt.HoistedList (base σ : Session) (place : Surroundings) : List Stmt → Prop
  | [] => True
  | s :: ss => s.Hoisted base σ place ∧ Stmt.HoistedList base σ place ss
end

lemma Stmt.hoistedList_iff {ss : List Stmt} :
    HoistedList base σ place ss ↔ ∀ s ∈ ss, s.Hoisted base σ place := by
  induction ss with
  | nil => exact ⟨fun _ => nofun, fun _ => trivial⟩
  | cons s ss ih => rw [HoistedList, ih, List.forall_mem_cons]

lemma FuncHead.Hoisted.mono {head : FuncHead} (h : head.Hoisted σ place)
    (hτ : σ.Continues Φ τ) : head.Hoisted τ place := by
  refine ⟨h.params.mono hτ.forms, ?_, ?_⟩
  · obtain ⟨t, ht, hreg⟩ := h.type
    exact ⟨t, ht, hreg.mono hτ.forms⟩
  · obtain ⟨body, hbody, hat, s, f, g, hs, hf, hg, hname, hresult⟩ := h.scope
    obtain ⟨s', hs', hkeeps⟩ := hτ.scope hs
    obtain ⟨g', hg', hsame⟩ := hτ.frame hg
    exact ⟨body, hbody, hat.mono hτ, s', f, g', hs', hkeeps.frame.trans hf, hg',
      hsame.name.trans hname, by rw [hresult, hsame.result]⟩

lemma CtorHead.Hoisted.mono {head : CtorHead} (h : head.Hoisted σ place)
    (hτ : σ.Continues Φ τ) : head.Hoisted τ place := by
  obtain ⟨body, hbody, hat⟩ := h.scope
  exact ⟨h.params.mono hτ.forms, body, hbody, hat.mono hτ⟩

lemma ClassHead.Hoisted.mono {head : ClassHead} (h : head.Hoisted base σ place)
    (hτ : σ.Continues Φ τ) : head.Hoisted base τ place := by
  obtain ⟨c, body, hc, hbody, hnone, ⟨e, he⟩, hat, s, hs, hcls⟩ := h
  obtain ⟨e', he', -⟩ := hτ.cls he
  obtain ⟨s', hs', hkeeps⟩ := hτ.scope hs
  exact ⟨c, body, hc, hbody, hnone, ⟨e', he'⟩, hat.mono hτ, s', hs', hkeeps.cls.trans hcls⟩

lemma Stmt.Hoisted.mono {s : Stmt} (h : s.Hoisted base σ place) (hτ : σ.Continues Φ τ) :
    s.Hoisted base τ place := by
  induction s using Stmt.members_induction generalizing place with
  | other s hs =>
    cases s with
    | func head body => exact FuncHead.Hoisted.mono h hτ
    | ctor head body => exact CtorHead.Hoisted.mono h hτ
    | cls head ms => cases hs
    | _ => trivial
  | cls head ms ih =>
    obtain ⟨hhead, hms⟩ := h
    refine ⟨hhead.mono hτ, ?_⟩
    rw [hoistedList_iff] at hms ⊢
    exact fun s hs => ih s hs (hms s hs)

lemma Stmt.hoistedList_mono {ss : List Stmt} (h : HoistedList base σ place ss)
    (hτ : σ.Continues Φ τ) : HoistedList base τ place ss := by
  rw [hoistedList_iff] at h ⊢
  exact fun s hs => (h s hs).mono hτ

lemma Stmt.hoisted_of_plain {s : Stmt} (hcls : s.isClass = false) (hfunc : s.isFunction = false) :
    s.Hoisted base σ place := by
  cases s with
  | func | ctor => cases hfunc
  | cls => cases hcls
  | _ => trivial

/-! ### New frames and constructors -/

mutual
def Stmt.functions : Stmt → List FuncHead
  | .func head _ => [head]
  | .cls _ ms => Stmt.functionsList ms
  | _ => []

def Stmt.functionsList : List Stmt → List FuncHead
  | [] => []
  | s :: ss => s.functions ++ Stmt.functionsList ss
end

lemma Stmt.mem_functionsList {ss : List Stmt} {head : FuncHead} :
    head ∈ functionsList ss ↔ ∃ s ∈ ss, head ∈ s.functions := by
  induction ss with
  | nil => simp [functionsList]
  | cons s ss ih => simp [functionsList, ih]

lemma Stmt.functionsList_mono {ss ss' : List Stmt} (h : ss ⊆ ss') :
    functionsList ss ⊆ functionsList ss' := by
  intro head hhead
  obtain ⟨s, hs, hmem⟩ := mem_functionsList.mp hhead
  exact mem_functionsList.mpr ⟨s, h hs, hmem⟩

namespace Session

/-- The frame is that of one of the functions. -/
def Awaited (σ : Session) (heads : List FuncHead) (f : FrameId) : Prop :=
  ∃ head ∈ heads, ∃ body s, head.scope = some body ∧ σ.scopes.scope? body = some s ∧
    s.frame = some f

lemma Awaited.mono {heads : List FuncHead} {f : FrameId} (h : σ.Awaited heads f)
    (hτ : σ.Continues Φ τ) : τ.Awaited heads f := by
  obtain ⟨head, hhead, body, s, hbody, hs, hf⟩ := h
  obtain ⟨s', hs', hkeeps⟩ := hτ.scope hs
  exact ⟨head, hhead, body, s', hbody, hs', hkeeps.frame.trans hf⟩

lemma Awaited.subset {heads heads' : List FuncHead} {f : FrameId} (h : σ.Awaited heads f)
    (hsub : heads ⊆ heads') : σ.Awaited heads' f := by
  obtain ⟨head, hhead, hrest⟩ := h
  exact ⟨head, hsub hhead, hrest⟩

/-- Frames that wait for a return are new only if they are awaited, and constructors only if they
are declared at one of these places. -/
structure Outlines (awaited : FrameId → Prop) (sites : List Span) (σ τ : Session) : Prop where
  frame : ∀ {f g}, τ.scopes.frame? f = some g → g.settled = false →
    (∃ g', σ.scopes.frame? f = some g' ∧ g'.settled = false) ∨ awaited f
  constructors : ∀ {c e k}, τ.types.class? c = some e → k ∈ e.constructors →
    (∃ e', σ.types.class? c = some e' ∧ k ∈ e'.constructors) ∨ k.span ∈ sites

namespace Outlines

variable {awaited awaited' : FrameId → Prop} {sites sites' : List Span}

lemma refl (σ : Session) : σ.Outlines awaited sites σ :=
  ⟨fun hf hsettled => Or.inl ⟨_, hf, hsettled⟩, fun he hk => Or.inl ⟨_, he, hk⟩⟩

lemma trans (h : σ.Outlines awaited sites τ) (h' : τ.Outlines awaited sites υ) :
    σ.Outlines awaited sites υ where
  frame hf hsettled := by
    rcases h'.frame hf hsettled with ⟨g', hg', hsettled'⟩ | hawaited
    · exact h.frame hg' hsettled'
    · exact Or.inr hawaited
  constructors he hk := by
    rcases h'.constructors he hk with ⟨e', he', hk'⟩ | hsite
    · exact h.constructors he' hk'
    · exact Or.inr hsite

lemma mono (h : σ.Outlines awaited sites τ) (hframe : ∀ f, awaited f → awaited' f)
    (hsites : sites ⊆ sites') : σ.Outlines awaited' sites' τ where
  frame hf hsettled := (h.frame hf hsettled).imp_right (hframe _)
  constructors he hk := (h.constructors he hk).imp_right fun hsite => hsites hsite

lemma of_eq (hframe : ∀ f, τ.scopes.frame? f = σ.scopes.frame? f)
    (hcls : ∀ {c e}, τ.types.class? c = some e → e.constructors = [] ∨
      ∃ e', σ.types.class? c = some e' ∧ e'.constructors = e.constructors) :
    σ.Outlines awaited sites τ := by
  refine ⟨fun {f g} hf hsettled => Or.inl ⟨g, (hframe f).symm.trans hf, hsettled⟩,
    fun he hk => ?_⟩
  rcases hcls he with hnil | ⟨e', he', heq⟩
  · rw [hnil] at hk
    cases hk
  · exact Or.inl ⟨e', he', heq ▸ hk⟩

lemma updateClass {c : ClassId} {f : ClassEntry → ClassEntry}
    (hf : ∀ e, (f e).constructors = e.constructors) :
    σ.Outlines awaited sites (σ.updateClass c f) := by
  refine .of_eq (fun _ => rfl) fun {d e} he => Or.inr ?_
  rw [class?_updateClass] at he
  obtain ⟨e', he', rfl⟩ := Option.map_eq_some_iff.mp he
  refine ⟨e', he', ?_⟩
  split
  · exact (hf e').symm
  · rfl

/-- Where nothing is outlined, there are no new ones. -/
lemma of_change (h : Change False True σ τ) : σ.Outlines awaited sites τ := by
  have same {t : Scopes} (ht : ∀ f, t.frame? f = σ.scopes.frame? f) :
      σ.Outlines awaited sites { σ with scopes := t } :=
    .of_eq ht fun {c e} he => Or.inr ⟨e, he, rfl⟩
  cases h with
  | event e => exact .of_eq (fun _ => rfl) fun {c e} he => Or.inr ⟨e, he, rfl⟩
  | call name => exact .of_eq (fun _ => rfl) fun {c e} he => Or.inr ⟨e, he, rfl⟩
  | type f => exact .of_eq (fun _ => rfl) fun {c e} he => Or.inr ⟨e, he, rfl⟩
  | cls name =>
    -- a new class has no constructors yet
    refine .of_eq (fun _ => rfl) fun {c e} he => ?_
    rcases class?_addClass_eq_some he with he | ⟨-, rfl⟩
    · exact Or.inr ⟨e, he, rfl⟩
    · exact Or.inl rfl
  | scope h => exact same (Scopes.frame?_openIn h)
  | body h c => exact (same (Scopes.frame?_openIn h)).trans (.updateClass fun e => rfl)
  | frame h =>
    -- a new frame does not wait, since nothing is outlined
    refine ⟨fun {id g} hg hsettled => Or.inl ⟨g, ?_, hsettled⟩,
      fun he hk => Or.inl ⟨_, he, hk⟩⟩
    rcases Scopes.frame?_addFrame_eq_some hg with hg | ⟨-, rfl⟩
    · exact hg
    · exact absurd (h.resolve_right not_false) (by simp [hsettled])
  | settle _ f =>
    -- a frame that is settled does not wait
    refine ⟨fun {id g} hg hsettled => Or.inl ?_, fun he hk => Or.inl ⟨_, he, hk⟩⟩
    rw [Scopes.frame?_settle] at hg
    obtain ⟨g', hg', rfl⟩ := Option.map_eq_some_iff.mp hg
    split at hsettled
    · cases hsettled
    · exact ⟨g', hg', hsettled⟩
  | name h _ => exact same (Scopes.frame?_declare h)
  | member c b => exact .updateClass fun e => rfl
  | constructor h => exact h.elim
  | close _ c members => exact .updateClass fun e => rfl

lemma of_trace (h : Trace False True σ τ) : σ.Outlines awaited sites τ := by
  induction h with
  | refl => exact .refl _
  | tail _ hchange ih => exact ih.trans (.of_change hchange)

lemma of_gives {α : Type} {x : Check α} {a : α} [hx : Traced False True x] (h : Gives x σ a τ) :
    σ.Outlines awaited sites τ :=
  .of_trace (hx.trace h)

lemma of_declares {bs : List (Binding × Span)} {u : Unit}
    (h : Gives (bs.forM fun (b, span) => Check.declare scope b span) σ u τ) :
    σ.Outlines awaited sites τ := by
  induction bs generalizing σ with
  | nil =>
    obtain ⟨-, rfl⟩ := gives_pure.mp h
    exact .refl _
  | cons b bs ih =>
    obtain ⟨σ1, h1, h2⟩ := Check.gives_forM_cons.mp h
    refine .trans ?_ (ih h2)
    obtain ⟨larger, hlarger, hσ1⟩ := Check.session_of_declare h1
    have hname : σ.Outlines awaited sites { σ with scopes := larger } :=
      .of_eq (Scopes.frame?_declare hlarger) fun {c e} he => Or.inr ⟨e, he, rfl⟩
    rcases hσ1 with rfl | ⟨c, rfl⟩
    · exact hname
    · exact hname.trans (.updateClass fun e => rfl)

end Outlines

/-- The classes are those of the declarations, in their order, and were not there in `base`. -/
def Registers (base σ : Session) (heads : List ClassHead) (cs : List ClassId) : Prop :=
  List.Forall₂ (fun head c => base.types.class? c = none ∧
    ∃ e, σ.types.class? c = some e ∧ e.name = head.name) heads cs

lemma Registers.mono {heads : List ClassHead} {cs : List ClassId}
    (h : base.Registers σ heads cs) (hτ : σ.Continues Φ τ) : base.Registers τ heads cs := by
  refine List.Forall₂.imp (fun head c hc => ?_) h
  obtain ⟨hnone, e, he, hname⟩ := hc
  obtain ⟨e', he', hkeeps⟩ := hτ.cls he
  exact ⟨hnone, e', he', hkeeps.name.trans hname⟩

lemma Registers.older {heads : List ClassHead} {cs : List ClassId} (h : σ.Registers τ heads cs)
    (hσ : base.Continues Φ σ) : base.Registers τ heads cs :=
  List.Forall₂.imp (fun _ _ hc => ⟨hσ.class?_eq_none hc.1, hc.2⟩) h

end Session

/-! ### Declarations -/

namespace Check

open Session (Outlines room_all)

lemma exists_type_of_params {ps ps' : List Param} (h : Gives (params scope ps) σ ps' τ) :
    ∀ p ∈ ps', ∃ t, p.type = some t := by
  induction ps generalizing σ ps' with
  | nil =>
    rw [params, gives_pure] at h
    rw [← h.1]
    exact List.forall_mem_nil _
  | cons p ps ih =>
    simp only [params, gives_bind, gives_pure] at h
    obtain ⟨t, _, -, _, _, -, rest, _, h3, rfl, rfl⟩ := h
    exact List.forall_mem_cons.mpr ⟨⟨_, rfl⟩, ih h3⟩

lemma typed_params {ps ps' : List Param} (hσ : σ.Assembled)
    (h : Gives (params scope ps) σ ps' τ) :
    σ.Continues (fun _ => True) τ ∧ Param.Typed τ.types ps' := by
  have hleads : Leads (Session.Continues fun _ => True) (params scope ps) σ
      fun ps' τ => ∀ t ∈ Param.types ps', τ.types.Registered t :=
    leads_params hσ Cell.free_all.declaring
  refine ⟨hleads.changes_of_gives h, fun p hp => ?_⟩
  obtain ⟨t, ht⟩ := exists_type_of_params h p hp
  refine ⟨t, ht, hleads.result h t (List.mem_map.mpr ⟨p, hp, ?_⟩)⟩
  rw [ht]
  rfl

lemma registers_registerClasses {heads : List ClassHead} {cs : List ClassId} (hσ : σ.Assembled)
    (h : Gives (heads.mapM (registerClass scope)) σ cs τ) :
    σ.Continues (fun _ => True) τ ∧ σ.Registers τ heads cs := by
  induction heads generalizing σ cs with
  | nil =>
    obtain ⟨rfl, rfl⟩ := gives_pure.mp h
    exact ⟨hσ.stay, .nil⟩
  | cons head heads ih =>
    obtain ⟨c, rest, σ1, h1, h2, rfl⟩ := gives_mapM_cons.mp h
    have hdeclaring : σ.Declaring (fun _ => True) scope head.name := Cell.free_all.declaring _
    have hleads := leads_registerClass hσ trivial hdeclaring
    have c1 := hleads.changes_of_gives h1
    obtain ⟨rfl, e, he, hname⟩ := hleads.result h1
    obtain ⟨c2, hrest⟩ := ih c1.assembled h2
    obtain ⟨e', he', hkeeps⟩ := c2.cls he
    exact ⟨c1.trans c2, .cons ⟨σ.types.class?_nextClass, e', he', hkeeps.name.trans hname⟩
      (hrest.older c1)⟩

/-- The body of a function is opened: it stands in the function, and has its frame. -/
lemma opened_function {f : Frame} {id : FrameId} {body : ScopeId} (hσ : σ.Assembled)
    (hat : σ.At scope place) (h1 : Gives (addFrame f) σ id τ)
    (h2 : Gives (openIn scope (.function id)) τ body υ) :
    σ.Continues Φ υ ∧
      υ.At body (if f.kind = .constructor then place.constructor else place.function) ∧
      ∃ s, υ.scopes.scope? body = some s ∧ s.frame = some id ∧ υ.scopes.frame? id = some f := by
  have c1 := (leads_addFrame (Φ := Φ) hσ).changes_of_gives h1
  obtain ⟨rfl, rfl⟩ := gives_addFrame.mp h1
  have hframe := σ.scopes.frame?_addFrame f
  have hpresent : (ScopeKind.function σ.scopes.nextFrame).Present σ.types (σ.scopes.addFrame f) :=
    ⟨f, hframe⟩
  have c2 := (leads_openIn (Φ := Φ) c1.assembled hpresent).changes_of_gives h2
  have hinner (s : Scope) (hs : s.Stands (σ.scopes.addFrame f) place) :
      (s.inner scope (.function σ.scopes.nextFrame)).Stands (σ.scopes.addFrame f)
        (if f.kind = .constructor then place.constructor else place.function) := by
    split
    · exact hs.constructor hframe ‹_›
    · exact hs.function hframe ‹_›
  obtain ⟨hat2, s, -, hs⟩ := at_openIn (hat.mono c1) hinner h2
  refine ⟨c1.trans c2, hat2, _, hs, rfl, ?_⟩
  obtain ⟨-, -, -, hopen⟩ := quiet_of_openIn h2
  rw [Scopes.frame?_openIn hopen]
  exact hframe

/-- The body of a class is opened: it stands in the class. -/
lemma opened_class {c : ClassId} {body : ScopeId} {u : Unit} (hσ : σ.Assembled)
    (hc : ∃ e, σ.types.class? c = some e) (hat : σ.At scope place)
    (h1 : Gives (openIn scope (.cls c)) σ body τ)
    (h2 : Gives (changeClass c (·.updateClass · fun e => { e with body := some body })) τ u υ) :
    σ.Continues (fun _ => True) υ ∧ υ.At body place.body ∧
      ∃ s, υ.scopes.scope? body = some s ∧ s.cls = some c := by
  obtain ⟨hat1, s, -, hs⟩ := at_openIn hat (fun s hs => hs.cls c) h1
  refine ⟨continues_openBody hσ room_all ⟨hc, trivial, trivial, fun _ => trivial⟩ h1 h2, ?_⟩
  obtain ⟨-, rfl⟩ := gives_changeClass.mp h2
  exact ⟨hat1, _, hs, rfl⟩

/-- A function gets a frame of its name, which waits for a return unless nothing is promised. -/
lemma hoisted_outlineFunction {kind : FrameKind} {head head' : FuncHead}
    (hkind : kind ≠ .constructor) (hσ : σ.Assembled) (hat : σ.At scope place)
    (h : Gives (outlineFunction scope kind head) σ head' τ) :
    head'.Hoisted τ place ∧ σ.Outlines (τ.Awaited [head']) [] τ := by
  simp only [outlineFunction, gives_bind, gives_pure] at h
  obtain ⟨ty, σ1, h1, frame, σ2, h2, body, σ3, h3, ps, σ4, h4, hhead, rfl⟩ := h
  have hread : Leads (Session.Continues fun _ => True) (typeOf? scope head.result) σ
      fun t τ => τ.types.Registered (t.getD .any) := leads_typeOf? hσ
  have c1 := hread.changes_of_gives h1
  obtain ⟨c3, hat3, s, hs, hframe, hf⟩ := opened_function (Φ := fun _ => True) c1.assembled
    (hat.mono c1) h2 h3
  rw [if_neg hkind] at hat3
  obtain ⟨c4, hps⟩ := typed_params c3.assembled h4
  obtain ⟨s', hs', hkeeps⟩ := c4.scope hs
  obtain ⟨g, hg, hsame⟩ := c4.frame hf
  have hframe' := hkeeps.frame.trans hframe
  -- the only new frame is that of the function
  have hnew : σ1.Outlines (σ4.Awaited [head']) [] σ2 := by
    obtain ⟨rfl, rfl⟩ := gives_addFrame.mp h2
    refine ⟨fun {f g} hg hsettled => ?_, fun he hk => Or.inl ⟨_, he, hk⟩⟩
    rcases Scopes.frame?_addFrame_eq_some hg with hg | ⟨rfl, -⟩
    · exact Or.inl ⟨g, hg, hsettled⟩
    · exact Or.inr ⟨head', List.mem_singleton_self _, body, s', by rw [← hhead], hs', hframe'⟩
  refine ⟨?_, (Outlines.of_gives h1).trans
    (hnew.trans ((Outlines.of_gives h3).trans (.of_gives h4)))⟩
  subst hhead
  exact ⟨hps, ⟨_, rfl, (hread.result h1).mono (c3.trans c4).forms⟩, body, rfl, hat3.mono c4,
    s', frame, g, hs', hframe', hg, hsame.name, by rw [hsame.result]⟩

/-- A constructor promises nothing but the new instance. -/
lemma hoisted_outlineConstructor {head head' : CtorHead} (hσ : σ.Assembled) (hat : σ.At scope place)
    (h : Gives (outlineConstructor scope head) σ head' τ) :
    head'.Hoisted τ place ∧ σ.Outlines (fun _ => False) [head.extent.span] τ := by
  simp only [outlineConstructor, gives_bind, gives_scopes, gives_rule, gives_classEntry,
    gives_pure] at h
  obtain ⟨_, _, ⟨rfl, rfl⟩, c, _, ⟨-, rfl⟩, e, _, ⟨-, rfl⟩, _, _, ⟨-, rfl⟩, frame, σ2, h2, body, σ3,
    h3, ps, σ4, h4, _, _, h5, rfl, rfl⟩ := h
  obtain ⟨c3, hat3, -⟩ := opened_function (Φ := fun _ => True) hσ hat h2 h3
  rw [if_pos rfl] at hat3
  obtain ⟨c4, hps⟩ := typed_params c3.assembled h4
  obtain ⟨⟨e', he'⟩, rfl⟩ := gives_changeClass.mp h5
  have hadds : σ4.Outlines (fun _ => False) [head.extent.span]
      (σ4.updateClass c fun e => { e with
        constructors :=
          e.constructors ++ [{ params := Param.types ps, span := head.extent.span }] }) := by
    refine ⟨fun {f g} hg hsettled => Or.inl ⟨g, hg, hsettled⟩, fun {d e k} he hk => ?_⟩
    rw [Session.class?_updateClass] at he
    obtain ⟨e0, he0, rfl⟩ := Option.map_eq_some_iff.mp he
    -- the constructor is the new one of this class, or it was there
    split at hk
    · rcases List.mem_append.mp hk with hk | hk
      · exact Or.inl ⟨e0, he0, hk⟩
      · obtain rfl := List.mem_singleton.mp hk
        exact Or.inr (List.mem_singleton_self _)
    · exact Or.inl ⟨e0, he0, hk⟩
  have hnew : σ.Outlines (fun _ => False) [head.extent.span] σ2 :=
    .of_trace ((traced_addFrame (Or.inl rfl) (Or.inr trivial)).trace h2)
  have hat4 : σ4.At body place.constructor := hat3.mono c4
  refine ⟨⟨hps, body, rfl, hat4⟩, ?_⟩
  exact hnew.trans ((Outlines.of_gives h3).trans ((Outlines.of_gives h4).trans hadds))

lemma hoisted_outline {kind : FrameKind} {s s' : Stmt} (hkind : kind ≠ .constructor)
    (hσ : σ.Assembled) (hat : σ.At scope place)
    (hcls : s.isClass = true → s.Hoisted base σ place) (h : Gives (outline scope kind s) σ s' τ) :
    s'.Hoisted base τ place ∧ σ.Outlines (τ.Awaited s'.functions) s.spans τ ∧
      (s.isClass = true → s' = s) := by
  cases s with
  | func head body =>
    simp only [outline, gives_bind, gives_pure] at h
    obtain ⟨head', _, h1, rfl, rfl⟩ := h
    obtain ⟨hhead, hnew⟩ := hoisted_outlineFunction hkind hσ hat h1
    exact ⟨hhead, hnew.mono (fun _ hf => hf) (List.nil_subset _), by simp [Stmt.isClass]⟩
  | ctor head body =>
    simp only [outline, gives_bind, gives_pure] at h
    obtain ⟨head', _, h1, rfl, rfl⟩ := h
    obtain ⟨hhead, hnew⟩ := hoisted_outlineConstructor hσ hat h1
    refine ⟨hhead, hnew.mono (fun _ hf => hf.elim) ?_, by simp [Stmt.isClass]⟩
    exact List.cons_subset.mpr ⟨Stmt.span_mem_spans (.ctor head body), List.nil_subset _⟩
  | cls head ms =>
    obtain ⟨rfl, rfl⟩ := gives_pure.mp h
    exact ⟨hcls rfl, .refl _, fun _ => rfl⟩
  | _ =>
    obtain ⟨rfl, rfl⟩ := gives_pure.mp h
    exact ⟨trivial, .refl _, by simp [Stmt.isClass]⟩

lemma hoisted_outlines {kind : FrameKind} {ss ss' : List Stmt} (hkind : kind ≠ .constructor)
    (hσ : σ.Assembled) (hat : σ.At scope place)
    (hcls : ∀ s ∈ ss, s.isClass = true → s.Hoisted base σ place)
    (h : Gives (ss.mapM (outline scope kind)) σ ss' τ) :
    σ.Continues (fun _ => True) τ ∧ Stmt.HoistedList base τ place ss' ∧
      σ.Outlines (τ.Awaited (Stmt.functionsList ss')) (Stmt.spansList ss) τ ∧
      ss.filter Stmt.isClass ⊆ ss' := by
  induction ss generalizing σ ss' with
  | nil =>
    obtain ⟨rfl, rfl⟩ := gives_pure.mp h
    exact ⟨hσ.stay, trivial, .refl _, List.Subset.refl _⟩
  | cons s ss ih =>
    rw [List.forall_mem_cons] at hcls
    obtain ⟨s', rest, σ1, h1, h2, rfl⟩ := gives_mapM_cons.mp h
    have c1 := (leads_outline (Φ := fun _ => True) hσ room_all
      fun _ => Or.inl trivial).changes_of_gives h1
    obtain ⟨hs, ho1, hsame⟩ := hoisted_outline hkind hσ hat hcls.1 h1
    obtain ⟨c2, hrest, ho2, hsub⟩ := ih c1.assembled (hat.mono c1)
      (fun s hs hc => (hcls.2 s hs hc).mono c1) h2
    refine ⟨c1.trans c2, ⟨hs.mono c2, hrest⟩, ?_, ?_⟩
    · -- what the first statement awaits is awaited by the whole list
      refine (ho1.mono (fun f hf => ?_) (List.subset_append_left _ _)).trans
        (ho2.mono (fun f hf => ?_) (List.subset_append_right _ _))
      · exact (hf.mono c2).subset (List.subset_append_left _ _)
      · exact hf.subset (List.subset_append_right _ _)
    · rw [List.filter_cons]
      split
      · rw [hsame ‹_›]
        exact List.cons_subset_cons _ hsub
      · exact List.subset_cons_of_subset _ hsub

lemma hoisted_bindFunctions {ss ss' : List Stmt} (hσ : σ.Assembled) (hat : σ.At scope place)
    (hcls : ∀ s ∈ ss, s.isClass = true → s.Hoisted base σ place)
    (h : Gives (bindFunctions scope ss) σ ss' τ) :
    σ.Continues (fun _ => True) τ ∧ Stmt.HoistedList base τ place ss' ∧
      σ.Outlines (τ.Awaited (Stmt.functionsList ss')) (Stmt.spansList ss) τ ∧
      ss.filter Stmt.isClass ⊆ ss' := by
  unfold bindFunctions at h
  simp only [gives_bind, gives_pure] at h
  obtain ⟨owner, _, h1, ss', σ2, h2, _, σ3, h3, _, σ4, h4, rfl, rfl⟩ := h
  obtain ⟨rfl, -⟩ := gives_owner? h1
  have hkind : (if owner.isSome = true then FrameKind.method else .function) ≠ .constructor := by
    split <;> simp
  obtain ⟨c2, hss, ho2, hsub⟩ := hoisted_outlines hkind hσ hat hcls h2
  have hbindings := (leads_outlines (Φ := fun _ => True) hσ room_all
    fun _ => Or.inl trivial).result h2
  have c3 := (leads_bindings c2.assembled Cell.free_all.declaring hbindings).changes_of_gives h3
  have c4 := c3.trans ((leads_note c3.assembled).changes_of_gives h4)
  refine ⟨c2.trans c4, Stmt.hoistedList_mono hss c4, ?_, hsub⟩
  exact (ho2.mono (fun f hf => hf.mono c4) (List.Subset.refl _)).trans
    ((Outlines.of_declares h3).trans (.of_gives h4))

lemma hoisted_declarations {ss ss2 ss' : List Stmt} {cs : List ClassId}
    {σ1 σ2 σ3 : Session} {u : Unit} (hσ : base.Continues (fun _ => True) σ) (hat : σ.At scope place)
    (h1 : Gives (registerClasses scope ss) σ cs σ1) (h2 : Opening scope ss cs σ1 ss2 σ2)
    (hopened : base.Continues (fun _ => True) σ1 → σ1.At scope place →
      base.Registers σ1 (ss.filterMap Stmt.classHead?) cs → σ1.Continues (fun _ => True) σ2 ∧
        Stmt.HoistedList base σ2 place (ss2.filter Stmt.isClass) ∧
        σ1.Outlines (σ2.Awaited (Stmt.functionsList (ss2.filter Stmt.isClass)))
          (Stmt.spansList ss) σ2)
    (h3 : Gives (note (.classesRegistered cs.length scope)) σ2 u σ3)
    (h4 : Gives (bindFunctions scope ss2) σ3 ss' τ) :
    σ.Continues (fun _ => True) τ ∧ Stmt.HoistedList base τ place ss' ∧
      σ.Outlines (τ.Awaited (Stmt.functionsList ss')) (Stmt.spansList ss) τ := by
  obtain ⟨c1, hcs⟩ := registers_registerClasses hσ.assembled h1
  obtain ⟨c2, hcls, ho2⟩ := hopened (hσ.trans c1) (hat.mono c1) (hcs.older hσ)
  have c3 := (leads_note (Φ := fun _ => True) c2.assembled).changes_of_gives h3
  have hcls3 : ∀ s ∈ ss2, s.isClass = true → s.Hoisted base σ3 place := by
    intro s hs hc
    exact (Stmt.hoistedList_iff.mp hcls s (List.mem_filter.mpr ⟨hs, hc⟩)).mono c3
  obtain ⟨c4, hss', ho4, hsub⟩ :=
    hoisted_bindFunctions c3.assembled (hat.mono (c1.trans (c2.trans c3))) hcls3 h4
  rw [Stmt.spansList_congr (erase_opening h2)] at ho4
  refine ⟨c1.trans (c2.trans (c3.trans c4)), hss', ?_⟩
  refine (Outlines.of_gives h1).trans ((ho2.mono (fun f hf => ?_) (List.Subset.refl _)).trans
    ((Outlines.of_gives h3).trans ho4))
  exact (hf.mono (c3.trans c4)).subset (Stmt.functionsList_mono hsub)

lemma hoisted_opening {ss ss' : List Stmt} {cs : List ClassId} (h : Opening scope ss cs σ ss' τ)
    (hσ : base.Continues (fun _ => True) σ) (hat : σ.At scope place)
    (hcs : base.Registers σ (ss.filterMap Stmt.classHead?) cs) :
    σ.Continues (fun _ => True) τ ∧ Stmt.HoistedList base τ place (ss'.filter Stmt.isClass) ∧
      σ.Outlines (τ.Awaited (Stmt.functionsList (ss'.filter Stmt.isClass)))
        (Stmt.spansList ss) τ := by
  induction h generalizing place with
  | nil => exact ⟨hσ.assembled.stay, trivial, .refl _⟩
  | other hs _ ih =>
    rw [Stmt.classHeads_cons, classHead?_eq_none hs] at hcs
    rw [List.filter_cons_of_neg (by simp [hs])]
    obtain ⟨c, hss, ho⟩ := ih hσ hat hcs
    exact ⟨c, hss, ho.mono (fun _ hf => hf) (List.subset_append_right _ _)⟩
  | @cls _ body _ _ _ ms6 _ _ c _ _ _ _ _ _ _ _ σ6 _ _ _ h1 h2 h3 h4 h5 h6 h7 _ ihms ih =>
    cases hcs with
    | cons hc hothers =>
      obtain ⟨hnone, e, he, -⟩ := hc
      obtain ⟨c2, hat2, s, hs, hcls⟩ := opened_class hσ.assembled ⟨e, he⟩ hat h1 h2
      obtain ⟨c6, hms, ho6⟩ := hoisted_declarations (hσ.trans c2) hat2 h3 h4 ihms h5 h6
      have hfields : Leads (Session.Continues fun _ => True) (ms6.forM (announceField c body)) σ6
          fun _ _ => True :=
        .forM c6.assembled.stay fun s _ _ hυ => leads_announceField hυ.assembled fun _ => trivial
      have c7 := hfields.changes_of_gives h7
      have hσ7 := c2.trans (c6.trans c7)
      -- the body keeps its place while the classes after it are opened
      obtain ⟨c8, hrest, ho8⟩ := ih (hσ.trans hσ7) (hat.mono hσ7)
        (Session.Registers.mono hothers hσ7)
      have hτ := c6.trans (c7.trans c8)
      obtain ⟨s', hs', hkeeps⟩ := hτ.scope hs
      obtain ⟨e', he', -⟩ := (c2.trans hτ).cls he
      rw [List.filter_cons_of_pos rfl]
      refine ⟨c2.trans hτ, ⟨⟨⟨c, body, rfl, rfl, hnone, ⟨e', he'⟩, hat2.mono hτ, s', hs',
        hkeeps.cls.trans hcls⟩, Stmt.hoistedList_mono hms (c7.trans c8)⟩, hrest⟩, ?_⟩
      refine (Outlines.of_trace (trace_openBody h1 h2)).trans ((ho6.mono (fun f hf => ?_) ?_).trans
        ((Outlines.of_gives h7).trans (ho8.mono (fun f hf => ?_) (List.subset_append_right _ _))))
      · exact (hf.mono (c7.trans c8)).subset (List.subset_append_left _ _)
      · exact List.Subset.trans (List.subset_cons_self _ _) (List.subset_append_left _ _)
      · exact hf.subset (List.subset_append_right _ _)

/-- When the declarations of a program have been made known, all that it declares has its body, and
no frames wait for a return and no constructors are there but its own. -/
lemma hoisted_announce {ss ss' : List Stmt} (hσ : σ.Assembled) (hat : σ.At scope place)
    (h : Gives (announce scope ss) σ ss' τ) :
    σ.Continues (fun _ => True) τ ∧ Stmt.HoistedList σ τ place ss' ∧
      σ.Outlines (τ.Awaited (Stmt.functionsList ss')) (Stmt.spansList ss) τ := by
  obtain ⟨cs, σ1, ss2, σ2, u, σ3, h1, h2, h3, h4⟩ := opening_of_announce h
  exact hoisted_declarations hσ.stay hat h1 h2 (hoisted_opening h2) h3 h4

end Check

end MiddleEnd
