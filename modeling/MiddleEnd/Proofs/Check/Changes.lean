import Mathlib.Logic.Relation
import MiddleEnd.Proofs.Check.AllowedChanges
import MiddleEnd.Proofs.Check.Overloads

/-!
What a step of the analysis can do to a session. Whatever a step does, it does by changes of a few
kinds, one after another; so what every change preserves is preserved by the whole analysis. Nothing
is asked of the session that the step starts from.
-/

namespace MiddleEnd

variable {α β : Type} {outlining closing : Prop} {σ τ υ : Session} {scope : ScopeId}

def Binding.IsFunction (b : Binding) : Prop := ∃ signature, b.kind = .function signature

/-- Nobody has given back from the function: it waits for a value if it promises one. -/
def Frame.Untouched (g : Frame) : Prop := g.kind = .constructor ∨ g.settled = g.result.isAny

/-- One change of a session. Only where functions and constructors are outlined are there new
functions, new frames that wait for a return, and new constructors; and only where bodies are looked
at does a function give back or, being closed, a class lose members. -/
inductive Session.Change (outlining closing : Prop) (σ : Session) : Session → Prop where
  | event (e : LogEvent) : Change outlining closing σ { σ with log := σ.log ++ [e] }
  | call (name : String) :
      Change outlining closing σ { σ with callSites := σ.callSites.insert name }
  | type (f : TypeForm) : Change outlining closing σ { σ with types := σ.types.add f }
  | cls (name : String) : Change outlining closing σ (σ.addClass name)
  | scope {parent : ScopeId} {kind : ScopeKind} {larger : Scopes}
      (h : σ.scopes.openIn parent kind = .ok larger) :
      Change outlining closing σ { σ with scopes := larger }
  | body {parent : ScopeId} {kind : ScopeKind} {larger : Scopes}
      (h : σ.scopes.openIn parent kind = .ok larger) (c : ClassId) :
      Change outlining closing σ (({ σ with scopes := larger } : Session).updateClass c
        fun e => { e with body := some σ.scopes.next })
  | frame {f : Frame} (h : f.settled = true ∨ outlining) (hf : f.Untouched ∨ closing) :
      Change outlining closing σ { σ with scopes := σ.scopes.addFrame f }
  | settle (h : closing) (f : FrameId) :
      Change outlining closing σ { σ with scopes := σ.scopes.settle f true }
  | name {id : ScopeId} {b : Binding} {span : Span} {larger : Scopes}
      (h : σ.scopes.declare id b span = .ok larger) (hb : b.IsFunction → outlining) :
      Change outlining closing σ { σ with scopes := larger }
  | member (c : ClassId) (b : Binding) :
      Change outlining closing σ { σ with types := σ.types.addMember c b }
  | constructor (h : outlining) (c : ClassId) (k : Constructor) :
      Change outlining closing σ { σ with types := σ.types.addConstructor c k }
  | close (h : closing) (c : ClassId) (members : Bindings) :
      Change outlining closing σ (σ.updateClass c (.close members))

abbrev Session.Trace (outlining closing : Prop) : Session → Session → Prop :=
  Relation.ReflTransGen (Session.Change outlining closing)

/-! ### What is never lost -/

/-- Nothing that the session has is lost, and what is new as the body of a class is a new scope. -/
structure Session.Later (σ τ : Session) : Prop where
  calls : σ.callSites ⊆ τ.callSites
  scopes : σ.scopes.Extends τ.scopes
  forms : σ.types.forms <+: τ.types.forms
  cls : ∀ {c}, τ.types.class? c = none → σ.types.class? c = none
  frame : ∀ {f}, τ.scopes.frame? f = none → σ.scopes.frame? f = none
  bodies : ∀ {c e id}, τ.types.class? c = some e → e.body = some id →
    (∃ e', σ.types.class? c = some e' ∧ e'.body = some id) ∨ σ.scopes.scope? id = none

namespace Session.Later

lemma refl (σ : Session) : σ.Later σ where
  calls := List.Subset.refl _
  scopes := .refl _
  forms := List.prefix_refl _
  cls h := h
  frame h := h
  bodies he hid := Or.inl ⟨_, he, hid⟩

lemma scope?_eq_none (h : σ.Later τ) {id : ScopeId} (hid : τ.scopes.scope? id = none) :
    σ.scopes.scope? id = none := by
  cases hs : σ.scopes.scope? id with
  | none => rfl
  | some s =>
    obtain ⟨s', hs', -⟩ := h.scopes.scope? hs
    cases hid.symm.trans hs'

lemma trans (h : σ.Later τ) (h' : τ.Later υ) : σ.Later υ where
  calls := List.Subset.trans h.calls h'.calls
  scopes := h.scopes.trans h'.scopes
  forms := h.forms.trans h'.forms
  cls hc := h.cls (h'.cls hc)
  frame hf := h.frame (h'.frame hf)
  bodies he hid := by
    rcases h'.bodies he hid with ⟨e', he', hid'⟩ | hnone
    · exact h.bodies he' hid'
    · exact Or.inr (h.scope?_eq_none hnone)

/-- A scope that is there and not the body of a class does not become one. -/
lemma notBody (h : σ.Later τ) {s : Scope} (hs : σ.scopes.scope? scope = some s)
    (hnot : σ.NotBody scope) : τ.NotBody scope := by
  intro c e he hbody
  rcases h.bodies he hbody with ⟨e', he', hbody'⟩ | hnone
  · exact hnot he' hbody'
  · cases hs.symm.trans hnone

lemma withTypes {t : TypeTable} (h : σ.types.Adds t) : σ.Later { σ with types := t } where
  calls := List.Subset.refl _
  scopes := .refl _
  forms := h.forms
  cls {c} hc := (h.class? c).symm.trans hc
  frame hf := hf
  bodies {c e _} he hid := Or.inl ⟨e, (h.class? c).symm.trans he, hid⟩

lemma withScopes {t : Scopes} (h : σ.scopes.Extends t)
    (hframe : ∀ {f}, t.frame? f = none → σ.scopes.frame? f = none) :
    σ.Later { σ with scopes := t } where
  calls := List.Subset.refl _
  scopes := h
  forms := List.prefix_refl _
  cls hc := hc
  frame := hframe
  bodies he hid := Or.inl ⟨_, he, hid⟩

/-- The entry of one class has changed; its body is the old one or a scope that is not there. -/
lemma updateClass {c : ClassId} {f : ClassEntry → ClassEntry}
    (hbody : ∀ {e id}, (f e).body = some id → e.body = some id ∨ σ.scopes.scope? id = none) :
    σ.Later (σ.updateClass c f) where
  calls := List.Subset.refl _
  scopes := .refl _
  forms := List.prefix_refl _
  cls {d} hd := by
    rw [class?_updateClass, Option.map_eq_none_iff] at hd
    exact hd
  frame hf := hf
  bodies {d e id} he hid := by
    rw [class?_updateClass] at he
    obtain ⟨e0, he0, rfl⟩ := Option.map_eq_some_iff.mp he
    split at hid
    · exact (hbody hid).imp_left fun hid => ⟨e0, he0, hid⟩
    · exact Or.inl ⟨e0, he0, hid⟩

lemma addClass (name : String) : σ.Later (σ.addClass name) where
  calls := List.Subset.refl _
  scopes := .refl _
  forms := σ.types.forms_prefix_add _
  cls {c} hc := by
    rw [Session.addClass, TypeTable.class?_addClass] at hc
    split at hc
    · cases hc
    · exact hc
  frame hf := hf
  bodies he hid := by
    rcases class?_addClass_eq_some he with he | ⟨-, rfl⟩
    · exact Or.inl ⟨_, he, hid⟩
    · cases hid

/-- A class whose body is opened gets a scope that was not there. -/
lemma openBody {parent : ScopeId} {kind : ScopeKind} {larger : Scopes}
    (h : σ.scopes.openIn parent kind = .ok larger) (c : ClassId) :
    σ.Later (({ σ with scopes := larger } : Session).updateClass c
      fun e => { e with body := some σ.scopes.next }) := by
  have hscopes := withScopes (Scopes.extends_openIn h) fun {f} hf =>
    (Scopes.frame?_openIn h f).symm.trans hf
  refine { hscopes with
    cls := fun {d} hd => ?_
    bodies := fun {d e id} he hid => ?_ }
  · rw [class?_updateClass, Option.map_eq_none_iff] at hd
    exact hd
  · rw [class?_updateClass] at he
    obtain ⟨e0, he0, rfl⟩ := Option.map_eq_some_iff.mp he
    split at hid
    · cases hid
      exact Or.inr (List.getElem?_eq_none (Nat.le_refl _))
    · exact Or.inl ⟨e0, he0, hid⟩

lemma of_change (h : Change outlining closing σ τ) : σ.Later τ := by
  cases h with
  | event e => exact { refl σ with }
  | call name => exact { refl σ with calls := List.subset_insert _ _ }
  | type f => exact .withTypes (σ.types.adds_add f)
  | cls name => exact .addClass name
  | scope h =>
    exact .withScopes (Scopes.extends_openIn h) fun hf => (Scopes.frame?_openIn h _).symm.trans hf
  | body h c => exact .openBody h c
  | frame h =>
    refine .withScopes ⟨fun hs => ⟨_, hs, .refl _⟩⟩ fun {id} hid => ?_
    cases hg : σ.scopes.frame? id with
    | none => rfl
    | some g => cases hid.symm.trans (Scopes.frame?_addFrame_of_some hg)
  | settle _ f =>
    refine .withScopes ⟨fun hs => ⟨_, hs, .refl _⟩⟩ fun {id} hid => ?_
    rw [Scopes.frame?_settle, Option.map_eq_none_iff] at hid
    exact hid
  | name h _ =>
    exact .withScopes (Scopes.extends_declare h) fun hf => (Scopes.frame?_declare h _).symm.trans hf
  | member c b => exact .updateClass Or.inl
  | constructor _ c k => exact .updateClass Or.inl
  | close _ c members => exact .updateClass Or.inl

lemma of_trace (h : Trace outlining closing σ τ) : σ.Later τ := by
  induction h with
  | refl => exact .refl _
  | tail _ hchange ih => exact ih.trans (.of_change hchange)

end Session.Later

/-! ### Steps -/

/-- Whatever the step does when it succeeds, it does by changes one after another. -/
class Traced (outlining closing : Prop) (x : Check α) : Prop where
  trace : ∀ {σ a τ}, Gives x σ a τ → Session.Trace outlining closing σ τ

namespace Traced

instance {a : α} : Traced outlining closing (pure a : Check α) where
  trace h := by
    obtain ⟨-, rfl⟩ := gives_pure.mp h
    exact .refl

instance {f : Fault} : Traced outlining closing (throw f : Check α) where
  trace h := (gives_throw.mp h).elim

instance bind {x : Check α} {k : α → Check β} [hx : Traced outlining closing x]
    [hk : ∀ a, Traced outlining closing (k a)] : Traced outlining closing (x >>= k) where
  trace h := by
    obtain ⟨a, τ, ha, hb⟩ := gives_bind.mp h
    exact (hx.trace ha).trans ((hk a).trace hb)

instance map {f : α → β} {x : Check α} [hx : Traced outlining closing x] :
    Traced outlining closing (f <$> x) where
  trace h := by
    obtain ⟨a, ha, -⟩ := gives_map.mp h
    exact hx.trace ha

instance ite {c : Prop} [Decidable c] {x y : Check α} [hx : Traced outlining closing x]
    [hy : Traced outlining closing y] : Traced outlining closing (if c then x else y) := by
  split
  · exact hx
  · exact hy

instance mapM {f : α → Check β} {l : List α} [hf : ∀ a, Traced outlining closing (f a)] :
    Traced outlining closing (l.mapM f) where
  trace {σ bs τ} h := by
    induction l generalizing σ bs with
    | nil => exact trace (x := (pure [] : Check (List β))) h
    | cons a l ih =>
      obtain ⟨b, rest, υ, hb, hrest, -⟩ := Check.gives_mapM_cons.mp h
      exact ((hf a).trace hb).trans (ih hrest)

instance forM {f : α → Check Unit} {l : List α} [hf : ∀ a, Traced outlining closing (f a)] :
    Traced outlining closing (l.forM f) where
  trace {σ u τ} h := by
    induction l generalizing σ with
    | nil => exact trace (x := (pure () : Check Unit)) h
    | cons a l ih =>
      obtain ⟨υ, ha, hl⟩ := Check.gives_forM_cons.mp h
      exact ((hf a).trace ha).trans (ih hl)

lemma later {x : Check α} {a : α} (hx : Traced outlining closing x) (h : Gives x σ a τ) :
    σ.Later τ :=
  .of_trace (hx.trace h)

end Traced

lemma Session.Later.of_gives {x : Check α} {a : α} [hx : Traced True True x] (h : Gives x σ a τ) :
    σ.Later τ :=
  hx.later h

namespace Check

open Traced (trace)

instance traced_rule {r : Except Fault α} : Traced outlining closing (rule r) where
  trace h := by
    obtain ⟨-, rfl⟩ := gives_rule.mp h
    exact .refl

instance traced_types : Traced outlining closing types where
  trace h := by
    obtain ⟨-, rfl⟩ := gives_types.mp h
    exact .refl

instance traced_scopes : Traced outlining closing scopes where
  trace h := by
    obtain ⟨-, rfl⟩ := gives_scopes.mp h
    exact .refl

instance traced_note {e : LogEvent} : Traced outlining closing (note e) where
  trace h := by
    obtain rfl := gives_note.mp h
    exact .single (.event e)

instance traced_classEntry {c : ClassId} : Traced outlining closing (classEntry c) where
  trace h := by
    obtain ⟨-, rfl⟩ := gives_classEntry.mp h
    exact .refl

instance traced_registered {handle : Option α} {name : String} {span : Span} :
    Traced outlining closing (registered handle name span) where
  trace h := by
    obtain ⟨-, rfl⟩ := gives_registered.mp h
    exact .refl

instance traced_addType {f : TypeForm} : Traced outlining closing (addType f) where
  trace h := by
    obtain ⟨-, rfl⟩ := gives_addType.mp h
    exact .single (.type f)

lemma traced_addFrame {f : Frame} (hf : f.settled = true ∨ outlining)
    (huntouched : f.Untouched ∨ closing) : Traced outlining closing (addFrame f) where
  trace h := by
    obtain ⟨-, rfl⟩ := gives_addFrame.mp h
    exact .single (.frame hf huntouched)

instance {f : Frame} : Traced True True (addFrame f) :=
  traced_addFrame (Or.inr trivial) (Or.inr trivial)

instance traced_openIn {kind : ScopeKind} : Traced outlining closing (openIn scope kind) where
  trace h := by
    unfold openIn at h
    simp only [gives_bind, gives_scopes, gives_rule, gives_updateScopes, gives_pure] at h
    obtain ⟨_, _, ⟨rfl, rfl⟩, larger, _, ⟨hlarger, rfl⟩, _, _, rfl, -, rfl⟩ := h
    exact .single (.scope hlarger)

instance traced_recordCall {name : String} : Traced outlining closing (recordCall scope name) where
  trace h := by
    unfold recordCall at h
    simp only [gives_bind, gives_scopes] at h
    obtain ⟨_, _, ⟨rfl, rfl⟩, h⟩ := h
    split at h
    · cases h
      exact .single (.call name)
    · cases h
      exact .refl

instance traced_owner? : Traced outlining closing (owner? scope) := by
  unfold owner?
  infer_instance

instance traced_addMember {c : ClassId} {b : Binding} :
    Traced outlining closing (changeClass c (·.addMember · b)) where
  trace h := by
    obtain ⟨-, rfl⟩ := gives_changeClass.mp h
    exact .single (.member c b)

instance traced_addConstructor {c : ClassId} {k : Constructor} :
    Traced True closing (changeClass c (·.addConstructor · k)) where
  trace h := by
    obtain ⟨-, rfl⟩ := gives_changeClass.mp h
    exact .single (.constructor trivial c k)

instance traced_close {c : ClassId} {members : Bindings} :
    Traced outlining True (changeClass c (·.updateClass · (.close members))) where
  trace h := by
    obtain ⟨-, rfl⟩ := gives_changeClass.mp h
    exact .single (.close trivial c members)

instance traced_settle {f : FrameId} :
    Traced outlining True (updateScopes (·.settle f true)) where
  trace h := by
    obtain rfl := gives_updateScopes.mp h
    exact .single (.settle trivial f)

/-- A name that is declared is entered in its scope, and then possibly as a member of a class. -/
lemma session_of_declare {b : Binding} {span : Span} {u : Unit}
    (h : Gives (declare scope b span) σ u τ) :
    ∃ larger, σ.scopes.declare scope b span = .ok larger ∧
      (τ = { σ with scopes := larger } ∨
        ∃ c, τ = { σ with scopes := larger, types := σ.types.addMember c b }) := by
  unfold declare at h
  obtain ⟨owner, σ1, howner, h⟩ := gives_bind.mp h
  obtain ⟨rfl, -⟩ := gives_owner? howner
  simp only [gives_bind, gives_scopes, gives_rule, gives_updateScopes] at h
  obtain ⟨_, _, ⟨rfl, rfl⟩, larger, _, ⟨hlarger, rfl⟩, _, _, rfl, h⟩ := h
  refine ⟨larger, hlarger, ?_⟩
  cases owner with
  | none =>
    obtain ⟨-, rfl⟩ := gives_pure.mp h
    exact Or.inl rfl
  | some c =>
    obtain ⟨-, rfl⟩ := gives_changeClass.mp h
    exact Or.inr ⟨c, rfl⟩

lemma traced_declare {b : Binding} {span : Span} (hb : b.IsFunction → outlining) :
    Traced outlining closing (declare scope b span) where
  trace h := by
    obtain ⟨larger, hlarger, rfl | ⟨c, rfl⟩⟩ := session_of_declare h
    · exact .single (.name hlarger hb)
    · exact .head (.name hlarger hb) (.single (.member c b))

instance {b : Binding} {span : Span} : Traced True closing (declare scope b span) :=
  traced_declare fun _ => trivial

instance {name : String} {t : TypeId} {span : Span} :
    Traced outlining closing (declare scope (.ofVariable name t) span) :=
  traced_declare nofun

instance {name : String} {t : TypeId} {span : Span} :
    Traced outlining closing (declare scope (.ofParameter name t) span) :=
  traced_declare nofun

instance {name : String} {c : ClassId} {t : TypeId} {span : Span} :
    Traced outlining closing (declare scope (.ofClass name c t) span) :=
  traced_declare nofun

/-! ### Written types -/

instance traced_typeOf {e : TypeExpr} : Traced outlining closing (typeOf scope e) := by
  induction e with
  | named name span =>
    rw [typeOf_named]
    infer_instance
  | array e ih =>
    rw [typeOf_array]
    infer_instance
  | dictionary k v ihk ihv =>
    rw [typeOf_dictionary]
    infer_instance

instance traced_typeOf? {e : Option TypeExpr} : Traced outlining closing (typeOf? scope e) := by
  cases e <;> (unfold typeOf?; infer_instance)

instance traced_params {ps : List Param} : Traced outlining closing (params scope ps) := by
  induction ps with
  | nil =>
    unfold params
    infer_instance
  | cons p ps ih =>
    unfold params
    infer_instance

/-! ### Declarations -/

instance traced_addClass {name : String} :
    Traced outlining closing (updateTypes (·.addClass name)) where
  trace h := by
    obtain rfl := gives_updateTypes.mp h
    exact .single (.cls name)

instance traced_registerClass {head : ClassHead} :
    Traced outlining closing (registerClass scope head) := by
  unfold registerClass
  infer_instance

instance traced_registerClasses {ss : List Stmt} :
    Traced outlining closing (registerClasses scope ss) := by
  unfold registerClasses
  infer_instance

/-- A function waits for a value from the beginning, unless it promises nothing. -/
instance traced_outlineFunction {kind : FrameKind} {head : FuncHead} :
    Traced True closing (outlineFunction scope kind head) := by
  have hframe (t : TypeId) : Traced True closing
      (addFrame { name := head.name, kind, result := t, settled := t.isAny }) :=
    traced_addFrame (Or.inr trivial) (Or.inl (Or.inr rfl))
  unfold outlineFunction
  infer_instance

set_option synthInstance.maxSize 256 in
instance traced_outlineConstructor {head : CtorHead} :
    Traced True closing (outlineConstructor scope head) := by
  have hframe (t : TypeId) : Traced True closing
      (addFrame { name := head.name, kind := .constructor, result := t, settled := true }) :=
    traced_addFrame (Or.inr trivial) (Or.inl (Or.inl rfl))
  unfold outlineConstructor
  dsimp only
  infer_instance

instance traced_outline {kind : FrameKind} {s : Stmt} :
    Traced True closing (outline scope kind s) := by
  cases s <;> (unfold outline; infer_instance)

instance traced_bindFunctions {ss : List Stmt} : Traced True closing (bindFunctions scope ss) := by
  unfold bindFunctions
  infer_instance

instance traced_announceField {c : ClassId} {s : Stmt} :
    Traced outlining closing (announceField c scope s) := by
  cases s with
  | var head init =>
    unfold announceField
    refine @Traced.bind _ _ _ _ _ _ inferInstance fun t => ?_
    cases t <;> infer_instance
  | _ =>
    unfold announceField
    infer_instance

lemma trace_openBody {kind : ScopeKind} {c : ClassId} {body : ScopeId} {u : Unit}
    (hopen : Gives (openIn scope kind) σ body τ)
    (hupdate : Gives (changeClass c (·.updateClass · fun e => { e with body := some body }))
      τ u υ) :
    Session.Trace outlining closing σ υ := by
  unfold openIn at hopen
  simp only [gives_bind, gives_scopes, gives_rule, gives_updateScopes, gives_pure] at hopen
  obtain ⟨_, _, ⟨rfl, rfl⟩, larger, _, ⟨hlarger, rfl⟩, _, _, rfl, rfl, rfl⟩ := hopen
  obtain ⟨-, rfl⟩ := gives_changeClass.mp hupdate
  exact .single (.body hlarger c)

lemma traced_openClasses {ss : List Stmt}
    (hss : ∀ s ∈ ss, ∀ scope cs, Traced True closing (openClass scope s cs)) (cs : List ClassId) :
    Traced True closing (openClasses scope ss cs) := by
  induction ss generalizing cs with
  | nil =>
    rw [openClasses]
    infer_instance
  | cons s ss ih =>
    rw [List.forall_mem_cons] at hss
    have := hss.1 scope cs
    have := ih hss.2
    rw [openClasses]
    infer_instance

instance traced_openClass {s : Stmt} {cs : List ClassId} :
    Traced True closing (openClass scope s cs) := by
  induction s using Stmt.members_induction generalizing scope cs with
  | other s hs =>
    rw [openClass_eq_pure hs]
    infer_instance
  | cls head ms ih =>
    cases cs with
    | nil =>
      rw [openClass]
      · infer_instance
      · simp
    | cons c others =>
      have hinner (body : ScopeId) (inner : List ClassId) :
          Traced True closing (openClasses body ms inner) :=
        traced_openClasses (fun s hs _ _ => ih s hs) inner
      refine ⟨fun h => ?_⟩
      rw [openClass] at h
      obtain ⟨body, σ1, hopen, h⟩ := gives_bind.mp h
      obtain ⟨_, σ2, hupdate, h⟩ := gives_bind.mp h
      have hrest : Session.Trace True closing _ σ2 := trace_openBody hopen hupdate
      unfold registerClasses at h
      exact hrest.trans (trace h)

instance {ss : List Stmt} {cs : List ClassId} : Traced True closing (openClasses scope ss cs) :=
  traced_openClasses (fun _ _ _ _ => inferInstance) cs

instance traced_announce {ss : List Stmt} : Traced True closing (announce scope ss) := by
  unfold announce registerClasses
  infer_instance

/-! ### The walk -/

instance traced_declareVar {head : VarHead} {declared : Option TypeId} {init : Option Expr} :
    Traced outlining closing (declareVar scope head declared init) := by
  cases declared <;> cases init <;> (unfold declareVar; infer_instance)

instance traced_giveBack {id : FrameId} {frame : Frame} {value : Expr} :
    Traced outlining True (giveBack id frame value) := by
  unfold giveBack
  infer_instance

instance traced_closeFunction {head : FuncHead} :
    Traced outlining closing (closeFunction head scope) := by
  unfold closeFunction
  infer_instance

instance traced_closeClass {head : ClassHead} {c : ClassId} :
    Traced outlining True (closeClass head c scope) := by
  have hclose (members : Bindings) : Traced outlining True (changeClass c
      (·.updateClass · fun e => { e with members, finalized := true })) := traced_close
  unfold closeClass
  infer_instance

instance traced_blockRules {ss : List Stmt} : Traced outlining closing (blockRules ss) := by
  unfold blockRules
  infer_instance

/-- The changes that the walk is made of. -/
def changing (outlining : Prop) : AllowedChanges where
  rel := Session.Trace outlining True
  sees _ := True
  works _ := True
  holds _ := True
  owns _ := True
  binds b := b.IsFunction → outlining
  opens f := f.settled = true ∨ outlining
  given _ := True
  lasting := ⟨.trans, fun _ => .refl⟩
  seen _ := trivial
  value {b} h := by
    rintro ⟨_, hb⟩
    rw [Binding.isValue, hb] at h
    cases h
  settled := Or.inl
  event _ e := .single (.event e)
  call _ name := .single (.call name)
  type _ f := .single (.type f)
  frame _ hf := ⟨.single (.frame hf (Or.inr trivial)), trivial⟩
  inner _ _ _ _ h := ⟨.single (.scope h), trivial⟩
  around _ _ _ _ := trivial
  settle _ _ := .single (.settle trivial _)
  name _ _ hb h := .single (.name h hb)
  member b _ _ _ _ := .single (.member _ b)
  close _ _ members := .single (.close trivial _ members)
  plain _ := trivial
  func _ _ _ := trivial
  ctor _ _ _ := trivial
  body _ _ _ := trivial
  members _ _ _ := trivial
  cls _ _ _ := trivial
  renew _ _ := trivial

lemma traced_of_follows {x : Check α} {post : α → Prop}
    (h : Follows (changing outlining).rel x post) : Traced outlining True x :=
  ⟨fun hgives => (h.leads .refl).changes_of_gives hgives⟩

instance {e : Expr} : Traced outlining True (expr scope e) :=
  traced_of_follows (exprFollows e trivial)

instance {es : List Expr} : Traced outlining True (exprs scope es) :=
  traced_of_follows (follows_exprs trivial fun e _ => exprFollows e)

instance {es : List (Expr × Expr)} : Traced outlining True (entries scope es) :=
  traced_of_follows (follows_entries trivial fun e _ => ⟨exprFollows e.1, exprFollows e.2⟩)

instance {head : VarHead} {init : Option Expr} : Traced outlining True (var scope head init) :=
  traced_of_follows (follows_var trivial fun e _ => exprFollows e)

instance {s : Stmt} : Traced outlining True (stmt scope s) :=
  traced_of_follows (stmtFollows s trivial (fun _ => trivial) trivial)

instance {init : Option (VarHead × Option Expr)} : Traced outlining True (loopInit scope init) := by
  cases init <;> (rw [loopInit]; infer_instance)

instance {c : Option Expr} : Traced outlining True (loopCondition scope c) := by
  cases c <;> (rw [loopCondition]; infer_instance)

instance {update : Option Stmt} : Traced outlining True (loopUpdate scope update) := by
  cases update <;> (rw [loopUpdate]; infer_instance)

instance {ss : List Stmt} : Traced outlining True (stmts scope ss) :=
  traced_of_follows (follows_stmts trivial (fun s _ => stmtFollows s) fun _ _ => trivial)

instance {ss : List Stmt} : Traced outlining True (block scope ss) := by
  unfold block
  infer_instance

instance {kind : ScopeKind} {ss : List Stmt} : Traced outlining True (inner scope kind ss) := by
  unfold inner
  infer_instance

instance {role : String} {kind : ScopeKind} {c : Expr} {ss : List Stmt} :
    Traced outlining True (arm scope role kind c ss) := by
  unfold arm
  infer_instance

instance {ss : List Stmt} : Traced outlining True (members scope ss) :=
  traced_of_follows (follows_members trivial (fun s _ => stmtFollows s) fun _ _ => trivial)

instance {ch : Chain} : Traced outlining True (chain scope ch) :=
  traced_of_follows ((tree_follows _).chain_holds ch trivial)

instance {s : Stmt} : Traced outlining True (classFields s) :=
  traced_of_follows (follows_classFields s trivial)

instance {ms : List Stmt} : Traced outlining True (memberFields scope ms) :=
  traced_of_follows (follows_memberFields trivial (fun s _ => follows_classFields s)
    fun _ _ => trivial)

end Check

end MiddleEnd
