import MiddleEnd.Proofs.Check.MayFail

/-!
What holds of every session, whatever happens in it: all that is in it refers to what is there. And
how sessions go on: nothing is lost, and only some things change.
-/

namespace MiddleEnd

/-! ### Tables of types -/

/-- The tables that the analysis builds: types are made of types that are there, and the parameters
of constructors and what the members of classes stand for are known when they are added. -/
inductive TypeTable.Assembled : TypeTable → Prop where
  | empty : Assembled {}
  | add {t : TypeTable} {f : TypeForm} (ht : Assembled t) (hf : f.isStructural = true)
      (hparts : ∀ p ∈ f.parts, t.Registered p) : Assembled (t.add f)
  | addClass {t : TypeTable} (ht : Assembled t) (name : String) : Assembled (t.addClass name)
  | openBody {t : TypeTable} (ht : Assembled t) (c : ClassId) (body : ScopeId) :
      Assembled (t.updateClass c fun e => { e with body := some body })
  | addConstructor {t : TypeTable} {k : Constructor} (ht : Assembled t) (c : ClassId)
      (hk : ∀ p ∈ k.params, t.Registered p) : Assembled (t.addConstructor c k)
  | addMember {t : TypeTable} {b : Binding} (ht : Assembled t) (c : ClassId) (hb : b.Valid t) :
      Assembled (t.addMember c b)
  | close {t : TypeTable} {members : Bindings} (ht : Assembled t) (c : ClassId)
      (hmembers : ∀ {name b}, members.find? name = some b → b.Valid t) :
      Assembled (t.updateClass c (.close members))

/-- What is known of a class refers to types that the table has. -/
structure ClassEntry.Known (t : TypeTable) (e : ClassEntry) : Prop where
  type : t.Registered e.type
  constructors : ∀ k ∈ e.constructors, ∀ p ∈ k.params, t.Registered p
  members : ∀ {name b}, e.members.find? name = some b → b.Valid t

lemma ClassEntry.Known.mono {t u : TypeTable} {e : ClassEntry} (h : e.Known t)
    (hforms : t.forms <+: u.forms) : e.Known u where
  type := h.type.mono hforms
  constructors k hk p hp := (h.constructors k hk p hp).mono hforms
  members hb := (h.members hb).mono hforms

namespace TypeTable

variable {t u : TypeTable} {c : ClassId} {e : ClassEntry}

lemma Assembled.wellFormed (h : t.Assembled) : t.WellFormed := by
  induction h with
  | empty => exact .empty
  | add _ hf hparts ih => exact ih.add hf hparts
  | addClass _ name ih => exact ih.addClass name
  | openBody _ c body ih => exact ih.updateClass c fun e => ⟨rfl, rfl⟩
  | addConstructor _ c _ ih => exact ih.updateClass c fun e => ⟨rfl, rfl⟩
  | addMember _ c _ ih => exact ih.updateClass c fun e => ⟨rfl, rfl⟩
  | close _ c _ ih => exact ih.updateClass c fun e => ⟨rfl, rfl⟩

/-- What is known of all classes stays known when one of them is changed. -/
lemma known_updateClass {f : ClassEntry → ClassEntry} {d : ClassId}
    (h : ∀ {c e}, t.class? c = some e → e.Known t) (hf : ∀ {e}, e.Known t → (f e).Known t)
    (he : (t.updateClass c f).class? d = some e) : e.Known (t.updateClass c f) := by
  rw [class?_updateClass] at he
  split at he
  · obtain ⟨e', he', rfl⟩ := Option.map_eq_some_iff.mp he
    exact (hf (h he')).mono (List.prefix_refl _)
  · exact (h he).mono (List.prefix_refl _)

lemma Assembled.known (h : t.Assembled) {c : ClassId} {e : ClassEntry}
    (he : t.class? c = some e) : e.Known t := by
  induction h generalizing c e with
  | empty => cases he
  | @add t f _ _ _ ih => exact (ih he).mono (t.forms_prefix_add f)
  | @addClass t _ name ih =>
    have hforms : t.forms <+: (t.addClass name).forms := t.forms_prefix_add _
    rw [class?_addClass] at he
    -- the new class, of which only the type is known, or one from before
    split at he
    · cases he
      exact ⟨⟨_, t.form?_add_next _⟩, nofun, nofun⟩
    · exact (ih he).mono hforms
  | openBody _ c body ih =>
    exact known_updateClass ih (fun h => ⟨h.type, h.constructors, h.members⟩) he
  | addConstructor _ c hk ih =>
    refine known_updateClass ih (fun h => ⟨h.type, fun k' hk' => ?_, h.members⟩) he
    rcases List.mem_append.mp hk' with hk' | hk'
    · exact h.constructors k' hk'
    · obtain rfl := List.mem_singleton.mp hk'
      exact hk
  | addMember _ c hb ih =>
    refine known_updateClass ih (fun h => ⟨h.type, h.constructors, fun {name b'} hb' => ?_⟩) he
    rw [Bindings.find?_insert] at hb'
    split at hb'
    · cases hb'
      exact hb
    · exact h.members hb'
  | close _ c hmembers ih =>
    exact known_updateClass ih (fun h => ⟨h.type, h.constructors, hmembers⟩) he

/-- The type of the instances of a class is not built from others. -/
lemma Assembled.nominal (h : t.Assembled) {c : ClassId} {e : ClassEntry}
    (he : t.class? c = some e) : t.Nominal e.type := by
  have update {t : TypeTable} {c d : ClassId} {e : ClassEntry} {f : ClassEntry → ClassEntry}
      (ih : ∀ {c e}, t.class? c = some e → t.Nominal e.type) (hf : ∀ e, (f e).type = e.type)
      (he : (t.updateClass c f).class? d = some e) : (t.updateClass c f).Nominal e.type := by
    rw [class?_updateClass] at he
    split at he
    · obtain ⟨e', he', rfl⟩ := Option.map_eq_some_iff.mp he
      rw [hf]
      exact ih he'
    · exact ih he
  induction h generalizing c e with
  | empty => cases he
  | @add t f _ _ _ ih => exact (ih he).mono (t.forms_prefix_add f)
  | @addClass t _ name ih =>
    have hforms : t.forms <+: (t.addClass name).forms := t.forms_prefix_add _
    rw [class?_addClass] at he
    split at he
    · cases he
      exact ⟨_, t.form?_add_next _, rfl⟩
    · exact (ih he).mono hforms
  | openBody _ c body ih => exact update ih (fun _ => rfl) he
  | addConstructor _ c hk ih => exact update ih (fun _ => rfl) he
  | addMember _ c hb ih => exact update ih (fun _ => rfl) he
  | close _ c hmembers ih => exact update ih (fun _ => rfl) he

end TypeTable

/-! ### Cells -/

/-- A cell of a session, in which one thing is kept. -/
inductive Cell where
  | type (id : TypeId)
  | cls (id : ClassId)
  | scope (id : ScopeId)
  | frame (id : FrameId)
  | name (scope : ScopeId) (name : String)
  | member (cls : ClassId) (name : String)
  | constructors (cls : ClassId)
  | body (cls : ClassId)
  | settled (frame : FrameId)
  deriving DecidableEq

section Keeps

variable {Φ : Cell → Prop}

/-- A class keeps its name and its type, and all else but what may change. -/
structure ClassEntry.Keeps (Φ : Cell → Prop) (c : ClassId) (e e' : ClassEntry) : Prop where
  name : e'.name = e.name
  type : e'.type = e.type
  members : ∀ n, ¬Φ (.member c n) → e'.members.find? n = e.members.find? n
  constructors : ¬Φ (.constructors c) → e'.constructors = e.constructors
  body : ¬Φ (.body c) → e'.body = e.body
  finalized : e.finalized = true → e'.finalized = true

lemma ClassEntry.Keeps.refl (c : ClassId) (e : ClassEntry) : e.Keeps Φ c e :=
  ⟨rfl, rfl, fun _ _ => rfl, fun _ => rfl, fun _ => rfl, fun h => h⟩

lemma ClassEntry.Keeps.trans {c : ClassId} {e e' e'' : ClassEntry} (h : e.Keeps Φ c e')
    (h' : e'.Keeps Φ c e'') : e.Keeps Φ c e'' where
  name := h'.name.trans h.name
  type := h'.type.trans h.type
  members n hn := (h'.members n hn).trans (h.members n hn)
  constructors hc := (h'.constructors hc).trans (h.constructors hc)
  body hc := (h'.body hc).trans (h.body hc)
  finalized hf := h'.finalized (h.finalized hf)

/-- A scope stays where it is, and keeps its names but those that may change. -/
structure Scope.Keeps (Φ : Cell → Prop) (id : ScopeId) (s s' : Scope) : Prop where
  parent : s'.parent = s.parent
  inLoop : s'.inLoop = s.inLoop
  frame : s'.frame = s.frame
  cls : s'.cls = s.cls
  names : ∀ n, ¬Φ (.name id n) → s'.bindings.find? n = s.bindings.find? n

lemma Scope.Keeps.refl (id : ScopeId) (s : Scope) : s.Keeps Φ id s :=
  ⟨rfl, rfl, rfl, rfl, fun _ _ => rfl⟩

lemma Scope.Keeps.trans {id : ScopeId} {s s' s'' : Scope} (h : s.Keeps Φ id s')
    (h' : s'.Keeps Φ id s'') : s.Keeps Φ id s'' where
  parent := h'.parent.trans h.parent
  inLoop := h'.inLoop.trans h.inLoop
  frame := h'.frame.trans h.frame
  cls := h'.cls.trans h.cls
  names n hn := (h'.names n hn).trans (h.names n hn)

structure Frame.Keeps (Φ : Cell → Prop) (id : FrameId) (f f' : Frame) : Prop where
  name : f'.name = f.name
  kind : f'.kind = f.kind
  result : f'.result = f.result
  settled : ¬Φ (.settled id) → f'.settled = f.settled

lemma Frame.Keeps.refl (id : FrameId) (f : Frame) : f.Keeps Φ id f :=
  ⟨rfl, rfl, rfl, fun _ => rfl⟩

lemma Frame.Keeps.trans {id : FrameId} {f f' f'' : Frame} (h : f.Keeps Φ id f')
    (h' : f'.Keeps Φ id f'') : f.Keeps Φ id f'' where
  name := h'.name.trans h.name
  kind := h'.kind.trans h.kind
  result := h'.result.trans h.result
  settled hf := (h'.settled hf).trans (h.settled hf)

end Keeps

/-! ### Sessions -/

/-- What stands for a class stands for one that is there. -/
def Binding.Present (t : TypeTable) (b : Binding) : Prop :=
  ∀ c, b.kind = .cls c → ∃ e, t.class? c = some e

/-- All names stand for something that is known, a scope stands in an older one, and the functions
and classes that scopes are in are there. The root scope is in none of them. -/
structure Scopes.Assembled (t : TypeTable) (s : Scopes) : Prop where
  bindings : ∀ {id name b}, s.bindingAt? name id = some b → b.Valid t
  present : ∀ {id name b}, s.bindingAt? name id = some b → b.Present t
  parents : ∀ {id sc p}, s.scope? id = some sc → sc.parent = some p → p.index < id.index
  frames : ∀ {id sc f}, s.scope? id = some sc → sc.frame = some f → ∃ g, s.frame? f = some g
  classes : ∀ {id sc c}, s.scope? id = some sc → sc.cls = some c → ∃ e, t.class? c = some e
  root : ∃ sc, s.scope? .root = some sc ∧ sc.inLoop = false ∧ sc.frame = none ∧ sc.cls = none

/-- The table of types is built up from what was there, all that scopes and members refer to is
known, and a class knows its body. -/
structure Session.Assembled (σ : Session) : Prop where
  types : σ.types.Assembled
  scopes : σ.scopes.Assembled σ.types
  bodies : σ.Housed
  members : ∀ {c e name b}, σ.types.class? c = some e → e.members.find? name = some b →
    b.Present σ.types

/-- The function or class that a scope is opened for is there. -/
def ScopeKind.Present (t : TypeTable) (s : Scopes) : ScopeKind → Prop
  | .function f => ∃ g, s.frame? f = some g
  | .cls c => ∃ e, t.class? c = some e
  | .loop | .block => True

namespace Binding

variable {t u : TypeTable} {b : Binding}

lemma Present.mono (h : b.Present t)
    (hclasses : ∀ {c e}, t.class? c = some e → ∃ e', u.class? c = some e') : b.Present u := by
  intro c hc
  obtain ⟨e, he⟩ := h c hc
  exact hclasses he

lemma present_of_isValue (h : b.isValue = true) : b.Present t := by
  intro c hc
  simp [isValue, hc] at h

lemma present_of_function {sig : Signature} (h : b.kind = .function sig) : b.Present t := by
  intro c hc
  cases h.symm.trans hc

end Binding

namespace Scopes

variable {t u : TypeTable} {s larger : Scopes} {id : ScopeId}

lemma frame?_nextFrame (s : Scopes) : s.frame? s.nextFrame = none :=
  List.getElem?_eq_none (Nat.le_refl _)

lemma frame?_addFrame (s : Scopes) (f : Frame) : (s.addFrame f).frame? s.nextFrame = some f :=
  List.getElem?_concat_length

lemma frame?_addFrame_of_some {f g : Frame} {id : FrameId} (hg : s.frame? id = some g) :
    (s.addFrame f).frame? id = some g := by
  show (s.frames ++ [f])[id.index]? = some g
  rw [List.getElem?_append_left (List.getElem?_eq_some_iff.mp hg).1]
  exact hg

lemma frame?_addFrame_eq_some {f g : Frame} {id : FrameId}
    (hg : (s.addFrame f).frame? id = some g) : s.frame? id = some g ∨ id = s.nextFrame ∧ g = f := by
  change (s.frames ++ [f])[id.index]? = some g at hg
  rw [List.getElem?_append] at hg
  split at hg
  · exact Or.inl hg
  · rename_i hlt
    obtain ⟨hzero, hgf⟩ := List.getElem?_eq_some_iff.mp hg
    rw [List.length_singleton] at hzero
    obtain ⟨i⟩ := id
    have hid : i = s.frames.length := by
      dsimp only at hlt hzero
      omega
    exact Or.inr ⟨congrArg FrameId.mk hid, by simpa using hgf.symm⟩

lemma frame?_settle (s : Scopes) (f id : FrameId) (done : Bool) :
    (s.settle f done).frame? id =
      (s.frame? id).map fun g => if id = f then { g with settled := done } else g := by
  show (s.frames.modify f.index _)[id.index]? = s.frames[id.index]?.map _
  rw [List.getElem?_modify]
  obtain ⟨f⟩ := f
  obtain ⟨id⟩ := id
  simp only [FrameId.mk.injEq]
  by_cases h : f = id
  · subst h
    simp
  · cases s.frames[id]? <;> simp [h, Ne.symm h]

lemma frame?_openIn {parent : ScopeId} {kind : ScopeKind} (h : s.openIn parent kind = .ok larger)
    (f : FrameId) : larger.frame? f = s.frame? f := by
  obtain ⟨_, -, rfl⟩ := openIn_eq_ok h
  rfl

lemma frame?_declare {b : Binding} {span : Span} (h : s.declare id b span = .ok larger)
    (f : FrameId) : larger.frame? f = s.frame? f := by
  obtain ⟨_, -, -, rfl⟩ := declare_eq_ok h
  rfl

namespace Assembled

lemma mono (h : s.Assembled t) (hforms : t.forms <+: u.forms)
    (hclasses : ∀ {c e}, t.class? c = some e → ∃ e', u.class? c = some e') : s.Assembled u where
  bindings hb := (h.bindings hb).mono hforms
  present hb := (h.present hb).mono hclasses
  parents := h.parents
  frames := h.frames
  classes hs hc := by
    obtain ⟨e, he⟩ := h.classes hs hc
    exact hclasses he
  root := h.root

lemma withFrames (h : s.Assembled t) (hscopes : larger.scopes = s.scopes)
    (hframes : ∀ {f g}, s.frame? f = some g → ∃ g', larger.frame? f = some g') :
    larger.Assembled t := by
  have hscope (id : ScopeId) : larger.scope? id = s.scope? id := by
    rw [scope?, hscopes, scope?]
  have hbinding (name : String) (id : ScopeId) :
      larger.bindingAt? name id = s.bindingAt? name id := by
    rw [bindingAt?, hscope, bindingAt?]
  refine ⟨fun hb => h.bindings ((hbinding _ _).symm.trans hb),
    fun hb => h.present ((hbinding _ _).symm.trans hb),
    fun hs => h.parents ((hscope _).symm.trans hs), fun hs hf => ?_,
    fun hs => h.classes ((hscope _).symm.trans hs), ?_⟩
  · obtain ⟨g, hg⟩ := h.frames ((hscope _).symm.trans hs) hf
    exact hframes hg
  · rw [hscope]
    exact h.root

lemma openIn {parent : ScopeId} {kind : ScopeKind} (h : s.Assembled t)
    (hopen : s.openIn parent kind = .ok larger) (hkind : kind.Present t s) :
    larger.Assembled t := by
  -- a scope is as before, or it is the new one
  have cases {id : ScopeId} {sc : Scope} (hs : larger.scope? id = some sc) :
      s.scope? id = some sc ∨ id = s.next ∧ ∃ base, s.scope? parent = some base ∧
        sc = base.inner parent kind := by
    obtain ⟨base, hbase, hid⟩ := scope?_openIn hopen id
    rw [hid] at hs
    split at hs
    · rename_i heq
      exact Or.inr ⟨heq, base, hbase, (Option.some.inj hs).symm⟩
    · exact Or.inl hs
  refine ⟨fun hb => h.bindings (by rwa [bindingAt?_openIn hopen] at hb),
    fun hb => h.present (by rwa [bindingAt?_openIn hopen] at hb), fun hs hp => ?_, fun hs hf => ?_,
    fun hs hc => ?_, ?_⟩
  · -- parents are older
    rcases cases hs with hs | ⟨rfl, base, hbase, rfl⟩
    · exact h.parents hs hp
    · cases kind <;> cases hp <;> exact lt_size hbase
  · -- the function is the one that the scope is opened for, or the one around the parent
    rw [frame?_openIn hopen]
    rcases cases hs with hs | ⟨rfl, base, hbase, rfl⟩
    · exact h.frames hs hf
    · cases kind with
      | function f => cases hf; exact hkind
      | _ => exact h.frames hbase hf
  · rcases cases hs with hs | ⟨rfl, base, hbase, rfl⟩
    · exact h.classes hs hc
    · cases kind with
      | cls c => cases hc; exact hkind
      | _ => exact h.classes hbase hc
  · -- the new scope is not the root
    obtain ⟨sc, hroot, hrest⟩ := h.root
    obtain ⟨base, -, hid⟩ := scope?_openIn hopen .root
    refine ⟨sc, ?_, hrest⟩
    rw [hid, if_neg, hroot]
    exact fun heq => Nat.ne_of_lt (lt_size hroot) (congrArg ScopeId.index heq)

lemma declare {b : Binding} {span : Span} (h : s.Assembled t)
    (hdeclare : s.declare id b span = .ok larger) (hb : b.Valid t) (hpresent : b.Present t) :
    larger.Assembled t := by
  -- the scopes stand where they stood
  have cases {i : ScopeId} {sc : Scope} (hs : larger.scope? i = some sc) :
      ∃ sc', s.scope? i = some sc' ∧ sc.parent = sc'.parent ∧ sc.frame = sc'.frame ∧
        sc.cls = sc'.cls := by
    rw [scope?_declare hdeclare] at hs
    obtain ⟨sc', hsc', rfl⟩ := Option.map_eq_some_iff.mp hs
    refine ⟨sc', hsc', ?_⟩
    split <;> exact ⟨rfl, rfl, rfl⟩
  have binding {i : ScopeId} {name : String} {b' : Binding}
      (hb' : larger.bindingAt? name i = some b') : b' = b ∨ s.bindingAt? name i = some b' := by
    rw [bindingAt?_declare hdeclare] at hb'
    split at hb'
    · exact Or.inl (Option.some.inj hb').symm
    · exact Or.inr hb'
  refine ⟨fun hb' => ?_, fun hb' => ?_, fun hs hp => ?_, fun hs hf => ?_, fun hs hc => ?_, ?_⟩
  · rcases binding hb' with rfl | hb'
    · exact hb
    · exact h.bindings hb'
  · rcases binding hb' with rfl | hb'
    · exact hpresent
    · exact h.present hb'
  · obtain ⟨sc', hsc', hparent, -, -⟩ := cases hs
    exact h.parents hsc' (hparent ▸ hp)
  · obtain ⟨sc', hsc', -, hframe, -⟩ := cases hs
    rw [frame?_declare hdeclare]
    exact h.frames hsc' (hframe ▸ hf)
  · obtain ⟨sc', hsc', -, -, hcls⟩ := cases hs
    exact h.classes hsc' (hcls ▸ hc)
  · obtain ⟨sc, hroot, hloop, hframe, hcls⟩ := h.root
    rw [scope?_declare hdeclare, hroot]
    refine ⟨_, rfl, ?_⟩
    split <;> exact ⟨hloop, hframe, hcls⟩

end Assembled
end Scopes

/-- More collections may be there, all of them built from what was there before. -/
structure TypeTable.Continues (t u : TypeTable) : Prop where
  assembled : u.Assembled
  forms : t.forms <+: u.forms
  classes : u.classes = t.classes

/-- The session has gone on: nothing is lost, and in cells that were there before nothing has
changed but where `Φ` allows it. Classes are new only where `Φ` allows it. -/
structure Session.Continues (Φ : Cell → Prop) (σ τ : Session) : Prop where
  assembled : τ.Assembled
  forms : σ.types.forms <+: τ.types.forms
  cls : ∀ {c e}, σ.types.class? c = some e → ∃ e', τ.types.class? c = some e' ∧ e.Keeps Φ c e'
  known : ∀ {c e'}, ¬Φ (.cls c) → τ.types.class? c = some e' → ∃ e, σ.types.class? c = some e
  scope : ∀ {id s}, σ.scopes.scope? id = some s →
    ∃ s', τ.scopes.scope? id = some s' ∧ s.Keeps Φ id s'
  frame : ∀ {id f}, σ.scopes.frame? id = some f →
    ∃ f', τ.scopes.frame? id = some f' ∧ f.Keeps Φ id f'
  calls : σ.callSites ⊆ τ.callSites

instance : Lasting TypeTable.Continues where
  trans h h' := ⟨h'.assembled, h.forms.trans h'.forms, h'.classes.trans h.classes⟩
  stay h := ⟨h.assembled, List.prefix_refl _, rfl⟩

variable {Φ : Cell → Prop} {σ τ υ : Session} {scope : ScopeId}

namespace Session

lemma Assembled.bindings (h : σ.Assembled) {id : ScopeId} {name : String} {b : Binding}
    (hb : σ.scopes.bindingAt? name id = some b) : b.Valid σ.types :=
  h.scopes.bindings hb

lemma Assembled.stay (h : σ.Assembled) : σ.Continues Φ σ where
  assembled := h
  forms := List.prefix_refl _
  cls he := ⟨_, he, .refl _ _⟩
  known _ he := ⟨_, he⟩
  scope hs := ⟨_, hs, .refl _ _⟩
  frame hf := ⟨_, hf, .refl _ _⟩
  calls := List.Subset.refl _

lemma Continues.trans (h : σ.Continues Φ τ) (h' : τ.Continues Φ υ) : σ.Continues Φ υ where
  assembled := h'.assembled
  forms := h.forms.trans h'.forms
  cls he := by
    obtain ⟨e', he', hkeeps⟩ := h.cls he
    obtain ⟨e'', he'', hkeeps'⟩ := h'.cls he'
    exact ⟨e'', he'', hkeeps.trans hkeeps'⟩
  known hc he := by
    obtain ⟨e', he'⟩ := h'.known hc he
    exact h.known hc he'
  scope hs := by
    obtain ⟨s', hs', hkeeps⟩ := h.scope hs
    obtain ⟨s'', hs'', hkeeps'⟩ := h'.scope hs'
    exact ⟨s'', hs'', hkeeps.trans hkeeps'⟩
  frame hf := by
    obtain ⟨f', hf', hkeeps⟩ := h.frame hf
    obtain ⟨f'', hf'', hkeeps'⟩ := h'.frame hf'
    exact ⟨f'', hf'', hkeeps.trans hkeeps'⟩
  calls := List.Subset.trans h.calls h'.calls

lemma Continues.imp {Ψ : Cell → Prop} (h : σ.Continues Φ τ) (hΦ : ∀ c, Φ c → Ψ c) :
    σ.Continues Ψ τ where
  assembled := h.assembled
  forms := h.forms
  cls he := by
    obtain ⟨e', he', hk⟩ := h.cls he
    exact ⟨e', he', hk.name, hk.type, fun n hn => hk.members n (mt (hΦ _) hn),
      fun hn => hk.constructors (mt (hΦ _) hn), fun hn => hk.body (mt (hΦ _) hn), hk.finalized⟩
  known hc := h.known (mt (hΦ _) hc)
  scope hs := by
    obtain ⟨s', hs', hk⟩ := h.scope hs
    exact ⟨s', hs', hk.parent, hk.inLoop, hk.frame, hk.cls, fun n hn => hk.names n (mt (hΦ _) hn)⟩
  frame hf := by
    obtain ⟨f', hf', hk⟩ := h.frame hf
    exact ⟨f', hf', hk.name, hk.kind, hk.result, fun hn => hk.settled (mt (hΦ _) hn)⟩
  calls := h.calls

instance : Lasting (Session.Continues Φ) := ⟨.trans, fun h => h.assembled.stay⟩

end Session

/-! ### What may change -/

/-- Whatever is new may change, and the members of a class whose body may still be opened. -/
structure Session.Room (Φ : Cell → Prop) (σ : Session) : Prop where
  settled : ∀ {id}, σ.scopes.frame? id = none → Φ (.settled id)
  name : ∀ {id} n, σ.scopes.scope? id = none → Φ (.name id n)
  member : ∀ {c} n, σ.types.class? c = none → Φ (.member c n)
  constructors : ∀ {c}, σ.types.class? c = none → Φ (.constructors c)
  body : ∀ {c}, σ.types.class? c = none → Φ (.body c)
  tidy : ∀ {c} n, Φ (.body c) → Φ (.member c n)

/-- The name may be declared in the scope, and become a member of the class whose body it is. -/
def Session.Declaring (Φ : Cell → Prop) (σ : Session) (scope : ScopeId) (n : String) : Prop :=
  Φ (.name scope n) ∧ ∀ c, Φ (.member c n) ∨
    ∃ e, σ.types.class? c = some e ∧ e.body ≠ some scope ∧ ¬Φ (.body c)

/-- The function around the scope may be given back from. -/
def Session.Returning (Φ : Cell → Prop) (σ : Session) (scope : ScopeId) : Prop :=
  ∀ f, Φ (.settled f) ∨ ∃ s, σ.scopes.scope? scope = some s ∧ s.frame ≠ some f

/-- The class whose body the scope is in may get constructors. -/
def Session.Constructing (Φ : Cell → Prop) (σ : Session) (scope : ScopeId) : Prop :=
  ∀ c, Φ (.constructors c) ∨ ∃ s, σ.scopes.scope? scope = some s ∧ s.cls ≠ some c

def Session.Registering (Φ : Cell → Prop) (σ : Session) : Prop :=
  ∀ {c}, σ.types.class? c = none → Φ (.cls c)

/-- The class is there, and its body may be opened. -/
structure Session.Opening (Φ : Cell → Prop) (σ : Session) (c : ClassId) : Prop where
  known : ∃ e, σ.types.class? c = some e
  body : Φ (.body c)
  constructors : Φ (.constructors c)
  members : ∀ n, Φ (.member c n)

/-- Statements may be looked at in the scope. -/
structure Session.Open (Φ : Cell → Prop) (σ : Session) (scope : ScopeId) : Prop where
  declaring : ∀ n, σ.Declaring Φ scope n
  returning : σ.Returning Φ scope

namespace Session

lemma Continues.class?_eq_none (h : σ.Continues Φ τ) {c : ClassId} (hc : τ.types.class? c = none) :
    σ.types.class? c = none := by
  cases he : σ.types.class? c with
  | none => rfl
  | some e =>
    obtain ⟨e', he', -⟩ := h.cls he
    cases hc.symm.trans he'

lemma Continues.scope?_eq_none (h : σ.Continues Φ τ) {id : ScopeId}
    (hid : τ.scopes.scope? id = none) : σ.scopes.scope? id = none := by
  cases hs : σ.scopes.scope? id with
  | none => rfl
  | some s =>
    obtain ⟨s', hs', -⟩ := h.scope hs
    cases hid.symm.trans hs'

lemma Continues.frame?_eq_none (h : σ.Continues Φ τ) {id : FrameId}
    (hid : τ.scopes.frame? id = none) : σ.scopes.frame? id = none := by
  cases hf : σ.scopes.frame? id with
  | none => rfl
  | some f =>
    obtain ⟨f', hf', -⟩ := h.frame hf
    cases hid.symm.trans hf'

lemma Room.mono (h : σ.Room Φ) (hτ : σ.Continues Φ τ) : τ.Room Φ where
  settled hid := h.settled (hτ.frame?_eq_none hid)
  name n hid := h.name n (hτ.scope?_eq_none hid)
  member n hc := h.member n (hτ.class?_eq_none hc)
  constructors hc := h.constructors (hτ.class?_eq_none hc)
  body hc := h.body (hτ.class?_eq_none hc)
  tidy := h.tidy

lemma Declaring.mono {n : String} (h : σ.Declaring Φ scope n) (hτ : σ.Continues Φ τ) :
    τ.Declaring Φ scope n := by
  refine ⟨h.1, fun c => (h.2 c).imp_right fun ⟨e, he, hbody, hc⟩ => ?_⟩
  obtain ⟨e', he', hkeeps⟩ := hτ.cls he
  exact ⟨e', he', hkeeps.body hc ▸ hbody, hc⟩

lemma Returning.mono (h : σ.Returning Φ scope) (hτ : σ.Continues Φ τ) : τ.Returning Φ scope := by
  refine fun f => (h f).imp_right fun ⟨s, hs, hframe⟩ => ?_
  obtain ⟨s', hs', hkeeps⟩ := hτ.scope hs
  exact ⟨s', hs', hkeeps.frame ▸ hframe⟩

lemma Constructing.mono (h : σ.Constructing Φ scope) (hτ : σ.Continues Φ τ) :
    τ.Constructing Φ scope := by
  refine fun c => (h c).imp_right fun ⟨s, hs, hcls⟩ => ?_
  obtain ⟨s', hs', hkeeps⟩ := hτ.scope hs
  exact ⟨s', hs', hkeeps.cls ▸ hcls⟩

lemma Registering.mono (h : σ.Registering Φ) (hτ : σ.Continues Φ τ) : τ.Registering Φ :=
  fun hc => h (hτ.class?_eq_none hc)

lemma Opening.mono {c : ClassId} (h : σ.Opening Φ c) (hτ : σ.Continues Φ τ) : τ.Opening Φ c := by
  obtain ⟨e, he⟩ := h.known
  obtain ⟨e', he', -⟩ := hτ.cls he
  exact ⟨⟨e', he'⟩, h.body, h.constructors, h.members⟩

lemma Room.opening (h : σ.Room Φ) {c : ClassId} (hc : σ.types.class? c = none)
    (hknown : ∃ e, τ.types.class? c = some e) : τ.Opening Φ c :=
  ⟨hknown, h.body hc, h.constructors hc, fun n => h.member n hc⟩

lemma Open.mono (h : σ.Open Φ scope) (hτ : σ.Continues Φ τ) : τ.Open Φ scope :=
  ⟨fun n => (h.declaring n).mono hτ, h.returning.mono hτ⟩

/-- Everything may be declared in a scope that is new: it is not yet the body of a class. -/
lemma Room.declaring (h : σ.Room Φ) (hσ : σ.Assembled) (hscope : σ.scopes.scope? scope = none)
    (n : String) : σ.Declaring Φ scope n := by
  refine ⟨h.name n hscope, fun c => ?_⟩
  cases he : σ.types.class? c with
  | none => exact Or.inl (h.member n he)
  | some e =>
    by_cases hc : Φ (.body c)
    · exact Or.inl (h.tidy n hc)
    · refine Or.inr ⟨e, rfl, fun hbody => ?_, hc⟩
      obtain ⟨s, hs, -⟩ := hσ.bodies he hbody
      cases hscope.symm.trans hs

/-! ### Single changes -/

lemma Assembled.withTypes (h : σ.Assembled) {t : TypeTable} (ht : σ.types.Continues t) :
    σ.Continues Φ { σ with types := t } := by
  have hclass (c : ClassId) : t.class? c = σ.types.class? c := by
    rw [TypeTable.class?, ht.classes, TypeTable.class?]
  have hpresent {c : ClassId} {e : ClassEntry} (he : σ.types.class? c = some e) :
      ∃ e', t.class? c = some e' := ⟨e, (hclass c).trans he⟩
  refine ⟨⟨ht.assembled, h.scopes.mono ht.forms hpresent,
    fun {c e id} he => h.bodies ((hclass c).symm.trans he),
    fun {c e name b} he hb => (h.members ((hclass c).symm.trans he) hb).mono hpresent⟩, ht.forms,
    fun {c e} he => ⟨e, (hclass c).trans he, .refl c e⟩,
    fun {c e'} _ he => ⟨e', (hclass c).symm.trans he⟩,
    fun hs => ⟨_, hs, .refl _ _⟩, fun hf => ⟨_, hf, .refl _ _⟩, List.Subset.refl _⟩

lemma Assembled.updateClass (h : σ.Assembled) {c : ClassId} {f : ClassEntry → ClassEntry}
    (ht : (σ.types.updateClass c f).Assembled)
    (hf : ∀ e, σ.types.class? c = some e → e.Keeps Φ c (f e))
    (hbody : ∀ {e id}, σ.types.class? c = some e → (f e).body = some id →
      ∃ s, σ.scopes.scope? id = some s ∧ s.cls = some c)
    (hmembers : ∀ {e name b}, σ.types.class? c = some e → (f e).members.find? name = some b →
      b.Present σ.types) :
    σ.Continues Φ (σ.updateClass c f) := by
  have hpresent {d : ClassId} {e : ClassEntry} (he : σ.types.class? d = some e) :
      ∃ e', (σ.updateClass c f).types.class? d = some e' :=
    ⟨_, by rw [class?_updateClass, he]; rfl⟩
  refine {
    assembled := ⟨ht, h.scopes.mono (List.prefix_refl _) hpresent, fun {d e id} he hid => ?_,
      fun {d e name b} he hb => ?_⟩
    forms := List.prefix_refl _
    cls {d e} he := ?_
    known _ he := ?_
    scope hs := ⟨_, hs, .refl _ _⟩
    frame hf := ⟨_, hf, .refl _ _⟩
    calls := List.Subset.refl _ }
  · rw [class?_updateClass] at he
    obtain ⟨e0, he0, rfl⟩ := Option.map_eq_some_iff.mp he
    -- the body of the changed class is asked for, that of another one was there
    split at hid
    · rename_i hdc
      subst hdc
      exact hbody he0 hid
    · exact h.bodies he0 hid
  · rw [class?_updateClass] at he
    obtain ⟨e0, he0, rfl⟩ := Option.map_eq_some_iff.mp he
    split at hb
    · rename_i hdc
      subst hdc
      exact (hmembers he0 hb).mono hpresent
    · exact (h.members he0 hb).mono hpresent
  · -- what may not change is as it was
    rw [class?_updateClass, he]
    refine ⟨_, rfl, ?_⟩
    split
    · rename_i hdc
      subst hdc
      exact hf e he
    · exact .refl _ _
  · rw [class?_updateClass] at he
    obtain ⟨e0, he0, -⟩ := Option.map_eq_some_iff.mp he
    exact ⟨e0, he0⟩

lemma Assembled.addClass (h : σ.Assembled) (name : String) (hc : Φ (.cls σ.types.nextClass)) :
    σ.Continues Φ (σ.addClass name) := by
  have hkept {c : ClassId} {e : ClassEntry} (he : σ.types.class? c = some e) :
      (σ.addClass name).types.class? c = some e := by
    rw [Session.addClass, TypeTable.class?_addClass, if_neg]
    · exact he
    · rintro rfl
      cases σ.types.class?_nextClass.symm.trans he
  refine {
    assembled := ⟨.addClass h.types name,
      h.scopes.mono (σ.types.forms_prefix_add _) fun he => ⟨_, hkept he⟩, fun he hid => ?_,
      fun he hb => ?_⟩
    forms := σ.types.forms_prefix_add _
    cls {c e} he := ⟨e, hkept he, .refl _ _⟩
    known {c e'} hnew he := ?_
    scope hs := ⟨_, hs, .refl _ _⟩
    frame hf := ⟨_, hf, .refl _ _⟩
    calls := List.Subset.refl _ }
  · -- the new class has neither a body nor members
    rcases class?_addClass_eq_some he with he | ⟨-, he⟩
    · exact h.bodies he hid
    · rw [he] at hid
      cases hid
  · rcases class?_addClass_eq_some he with he | ⟨-, he⟩
    · exact (h.members he hb).mono fun he => ⟨_, hkept he⟩
    · rw [he] at hb
      cases hb
  · rcases class?_addClass_eq_some he with he | ⟨rfl, -⟩
    · exact ⟨e', he⟩
    · exact absurd hc hnew

lemma Assembled.withScopes (h : σ.Assembled) {t : Scopes} (ht : t.Assembled σ.types)
    (hscope : ∀ {id s}, σ.scopes.scope? id = some s → ∃ s', t.scope? id = some s' ∧ s.Keeps Φ id s')
    (hframe : ∀ {id f}, σ.scopes.frame? id = some f →
      ∃ f', t.frame? id = some f' ∧ f.Keeps Φ id f') :
    σ.Continues Φ { σ with scopes := t } where
  assembled := {
    types := h.types
    scopes := ht
    bodies he hid := by
      obtain ⟨s, hs, hc⟩ := h.bodies he hid
      obtain ⟨s', hs', hkeeps⟩ := hscope hs
      exact ⟨s', hs', hkeeps.cls.trans hc⟩
    members := h.members }
  forms := List.prefix_refl _
  cls he := ⟨_, he, .refl _ _⟩
  known _ he := ⟨_, he⟩
  scope := hscope
  frame := hframe
  calls := List.Subset.refl _

end Session

end MiddleEnd
