import Mathlib.Tactic.Lemma
import MiddleEnd.Check.Program

/-!
Runs of the analysis that succeed. A step gives a value and leads from one session to another; a
sequence of steps is taken apart into the sessions between them.
-/

namespace MiddleEnd

variable {α β : Type} {σ τ υ : Session}

/-- An outcome of a rule comes from the outcomes of its parts. -/
lemma Except.bind_eq_ok {ε : Type} {x : Except ε α} {k : α → Except ε β} {b : β} :
    x >>= k = .ok b ↔ ∃ a, x = .ok a ∧ k a = .ok b := by
  cases x with
  | error e => exact ⟨nofun, nofun⟩
  | ok a => exact ⟨fun h => ⟨a, rfl, h⟩, fun ⟨_, ha, hk⟩ => by cases ha; exact hk⟩

/-- What is read off an outcome is read off a success. -/
lemma Except.exists_ok_of_map {ε : Type} {x : Except ε α} {f : α → β} {b : β}
    (h : x.toOption.map f = some b) : ∃ a, x = .ok a ∧ f a = b := by
  cases x with
  | error e => cases h
  | ok a => exact ⟨a, rfl, Option.some.inj h⟩

lemma Except.forM_eq_ok {ε : Type} {f : α → Except ε Unit} {l : List α} :
    l.forM f = .ok () ↔ ∀ a ∈ l, f a = .ok () := by
  induction l with
  | nil => exact ⟨fun _ _ h => (nomatch h), fun _ => rfl⟩
  | cons a l ih =>
    show (f a >>= fun _ => l.forM f) = .ok () ↔ _
    rw [Except.bind_eq_ok, List.forall_mem_cons]
    exact ⟨fun ⟨_, ha, hl⟩ => ⟨ha, ih.mp hl⟩, fun ⟨ha, hl⟩ => ⟨(), ha, ih.mpr hl⟩⟩

/-- The step succeeds: it gives `a` and leads from the state `σ` to `τ`. -/
def Gives {S : Type} (step : ExceptT Fault (StateM S) α) (σ : S) (a : α) (τ : S) : Prop :=
  step.run.run σ = (.ok a, τ)

section Steps

variable {S : Type} {σ τ υ : S}

@[simp] lemma gives_pure {a b : α} :
    Gives (pure b : ExceptT Fault (StateM S) α) σ a τ ↔ b = a ∧ σ = τ := by
  show (Except.ok b, σ) = (Except.ok a, τ) ↔ _
  rw [Prod.mk.injEq, Except.ok.injEq]

@[simp] lemma gives_throw {f : Fault} {a : α} :
    Gives (throw f : ExceptT Fault (StateM S) α) σ a τ ↔ False := by
  show (Except.error f, σ) = (Except.ok a, τ) ↔ _
  simp

lemma run_bind (x : ExceptT Fault (StateM S) α) (k : α → ExceptT Fault (StateM S) β) (σ : S) :
    (x >>= k).run.run σ =
      match x.run.run σ with
      | (.ok a, τ) => (k a).run.run τ
      | (.error f, τ) => (.error f, τ) := by
  simp only [ExceptT.run_bind, StateT.run_bind]
  rcases x.run.run σ with ⟨_ | a, τ⟩ <;> rfl

lemma gives_bind {x : ExceptT Fault (StateM S) α} {k : α → ExceptT Fault (StateM S) β} {b : β} :
    Gives (x >>= k) σ b υ ↔ ∃ a τ, Gives x σ a τ ∧ Gives (k a) τ b υ := by
  unfold Gives
  rw [run_bind]
  rcases x.run.run σ with ⟨f | a, τ⟩
  · exact ⟨nofun, nofun⟩
  · exact ⟨fun h => ⟨a, τ, rfl, h⟩, fun ⟨a', τ', hx, hk⟩ => by cases hx; exact hk⟩

lemma gives_map {x : ExceptT Fault (StateM S) α} {f : α → β} {b : β} :
    Gives (f <$> x) σ b τ ↔ ∃ a, Gives x σ a τ ∧ f a = b := by
  rw [map_eq_pure_bind, gives_bind]
  simp only [gives_pure]
  exact ⟨fun ⟨a, _, hx, hb, hτ⟩ => ⟨a, hτ ▸ hx, hb⟩, fun ⟨a, hx, hb⟩ => ⟨a, τ, hx, hb, rfl⟩⟩

def Fails (step : ExceptT Fault (StateM S) α) (σ : S) (f : Fault) : Prop :=
  (step.run.run σ).1 = .error f

section Fails

variable {x : ExceptT Fault (StateM S) α} {k : α → ExceptT Fault (StateM S) β} {f : Fault}

lemma Fails.bind (h : Fails x σ f) : Fails (x >>= k) σ f := by
  rw [Fails, run_bind]
  rcases hx : x.run.run σ with ⟨r, τ⟩
  rw [Fails, hx] at h
  cases h
  rfl

lemma Fails.after {a : α} (hx : Gives x σ a τ) (h : Fails (k a) τ f) : Fails (x >>= k) σ f := by
  rw [Fails, run_bind, show x.run.run σ = (.ok a, τ) from hx]
  exact h

end Fails

@[simp] lemma gives_mk {r : Except Fault α} {a : α} :
    Gives (ExceptT.mk (pure r) : ExceptT Fault (StateM S) α) σ a τ ↔ r = .ok a ∧ σ = τ := by
  show (r, σ) = (Except.ok a, τ) ↔ _
  rw [Prod.mk.injEq]

end Steps

namespace Check

@[simp] lemma gives_rule {r : Except Fault α} {a : α} :
    Gives (rule r) σ a τ ↔ r = .ok a ∧ σ = τ :=
  gives_mk

@[simp] lemma gives_types {t : TypeTable} : Gives types σ t τ ↔ σ.types = t ∧ σ = τ := by
  show (Except.ok σ.types, σ) = (Except.ok t, τ) ↔ _
  rw [Prod.mk.injEq, Except.ok.injEq]

@[simp] lemma gives_scopes {t : Scopes} : Gives scopes σ t τ ↔ σ.scopes = t ∧ σ = τ := by
  show (Except.ok σ.scopes, σ) = (Except.ok t, τ) ↔ _
  rw [Prod.mk.injEq, Except.ok.injEq]

@[simp] lemma gives_note {e : LogEvent} {u : Unit} :
    Gives (note e) σ u τ ↔ { σ with log := σ.log ++ [e] } = τ := by
  show (Except.ok (), _) = (Except.ok u, τ) ↔ _
  simp

@[simp] lemma gives_updateTypes {f : TypeTable → TypeTable} {u : Unit} :
    Gives (updateTypes f) σ u τ ↔ { σ with types := f σ.types } = τ := by
  show (Except.ok (), _) = (Except.ok u, τ) ↔ _
  simp

@[simp] lemma gives_updateScopes {f : Scopes → Scopes} {u : Unit} :
    Gives (updateScopes f) σ u τ ↔ { σ with scopes := f σ.scopes } = τ := by
  show (Except.ok (), _) = (Except.ok u, τ) ↔ _
  simp

/-- A step over a list is a step for each of its members, one after another. -/
lemma gives_mapM_cons {f : α → Check β} {a : α} {l : List α} {bs : List β} :
    Gives ((a :: l).mapM f) σ bs υ ↔
      ∃ b rest τ, Gives (f a) σ b τ ∧ Gives (l.mapM f) τ rest υ ∧ bs = b :: rest := by
  rw [List.mapM_cons, gives_bind]
  simp only [gives_bind, gives_pure]
  constructor
  · rintro ⟨b, τ, hb, rest, _, hrest, rfl, rfl⟩
    exact ⟨b, rest, τ, hb, hrest, rfl⟩
  · rintro ⟨b, rest, τ, hb, hrest, rfl⟩
    exact ⟨b, τ, hb, rest, υ, hrest, rfl, rfl⟩

lemma gives_forM_cons {f : α → Check Unit} {a : α} {l : List α} {u : Unit} :
    Gives ((a :: l).forM f) σ u υ ↔ ∃ τ, Gives (f a) σ () τ ∧ Gives (l.forM f) τ () υ := by
  show Gives (f a >>= fun _ => l.forM f) σ u υ ↔ _
  rw [gives_bind]
  exact ⟨fun ⟨_, τ, ha, hl⟩ => ⟨τ, ha, hl⟩, fun ⟨τ, ha, hl⟩ => ⟨(), τ, ha, hl⟩⟩

@[simp] lemma gives_registered {handle : Option α} {name : String} {span : Span} {a : α} :
    Gives (registered handle name span) σ a τ ↔ handle = some a ∧ σ = τ := by
  cases handle with
  | none => simp [registered]
  | some b => simp [registered]

@[simp] lemma gives_classEntry {c : ClassId} {e : ClassEntry} :
    Gives (classEntry c) σ e τ ↔ σ.types.class? c = some e ∧ σ = τ := by
  unfold classEntry
  simp only [gives_bind, gives_types]
  constructor
  · rintro ⟨_, _, ⟨rfl, rfl⟩, h⟩
    split at h
    · rename_i e' he
      rw [gives_pure] at h
      exact ⟨by rw [he, h.1], h.2⟩
    · rw [gives_throw] at h
      exact h.elim
  · rintro ⟨he, rfl⟩
    refine ⟨_, _, ⟨rfl, rfl⟩, ?_⟩
    rw [he]
    exact gives_pure.mpr ⟨rfl, rfl⟩

@[simp] lemma gives_changeClass {c : ClassId} {f : TypeTable → ClassId → TypeTable} {u : Unit} :
    Gives (changeClass c f) σ u τ ↔
      (∃ e, σ.types.class? c = some e) ∧ { σ with types := f σ.types c } = τ := by
  unfold changeClass
  simp only [gives_bind, gives_classEntry, gives_updateTypes]
  constructor
  · rintro ⟨e, _, ⟨he, rfl⟩, rfl⟩
    exact ⟨⟨e, he⟩, rfl⟩
  · rintro ⟨⟨e, he⟩, rfl⟩
    exact ⟨e, _, ⟨he, rfl⟩, rfl⟩

@[simp] lemma gives_addType {f : TypeForm} {t : TypeId} :
    Gives (addType f) σ t τ ↔ σ.types.next = t ∧ { σ with types := σ.types.add f } = τ := by
  unfold addType
  simp only [gives_bind, gives_types, gives_updateTypes, gives_pure]
  constructor
  · rintro ⟨_, _, ⟨rfl, rfl⟩, _, _, rfl, rfl, rfl⟩
    exact ⟨rfl, rfl⟩
  · rintro ⟨rfl, rfl⟩
    exact ⟨_, _, ⟨rfl, rfl⟩, (), _, rfl, rfl, rfl⟩

@[simp] lemma gives_addFrame {f : Frame} {id : FrameId} :
    Gives (addFrame f) σ id τ ↔
      σ.scopes.nextFrame = id ∧ { σ with scopes := σ.scopes.addFrame f } = τ := by
  unfold addFrame
  simp only [gives_bind, gives_scopes, gives_updateScopes, gives_pure]
  constructor
  · rintro ⟨_, _, ⟨rfl, rfl⟩, _, _, rfl, rfl, rfl⟩
    exact ⟨rfl, rfl⟩
  · rintro ⟨rfl, rfl⟩
    exact ⟨_, _, ⟨rfl, rfl⟩, (), _, rfl, rfl, rfl⟩

/-- Recording a call touches neither types nor scopes. -/
lemma gives_recordCall {scope : ScopeId} {name : String} {u : Unit}
    (h : Gives (recordCall scope name) σ u τ) :
    τ.types = σ.types ∧ τ.scopes = σ.scopes := by
  unfold recordCall at h
  simp only [gives_bind, gives_scopes] at h
  obtain ⟨_, _, ⟨rfl, rfl⟩, h⟩ := h
  split at h
  · cases h
    exact ⟨rfl, rfl⟩
  · cases h
    exact ⟨rfl, rfl⟩

/-! ### Equations of the walk -/

section Equations

-- The equations of the functions that go through a tree are derived here, once; otherwise every
-- lemma that takes one of them apart would wait for its own derivation.
attribute [local simp] expr exprs entries stmt stmts members chain var
attribute [local simp] loopInit loopCondition loopUpdate
attribute [local simp] openClass openClasses classFields memberFields

end Equations

/-! ### Cases that are left over -/

lemma expr_call {f : Expr} (hname : ∀ g n, f ≠ .name g n) (hmember : ∀ g o n, f ≠ .member g o n)
    (scope : ScopeId) (m : Mark) (args : List Expr) (target : Option CallTarget) :
    expr scope (.call m f args target) = do
      let f ← expr scope f
      rule (Call.computed (← types) f)
      let args ← exprs scope args
      return .call (m.typed .any) (f.typed .any) args (some .dynamic) := by
  cases f with
  | name g n => exact absurd rfl (hname g n)
  | member g o n => exact absurd rfl (hmember g o n)
  | _ => rfl

lemma members_cons {s : Stmt} (hs : s.isVar = false) (scope : ScopeId) (rest : List Stmt) :
    members scope (s :: rest) = do
      let s ← stmt scope s
      let rest ← members scope rest
      return s :: rest := by
  cases s with
  | var => cases hs
  | _ => rfl

lemma memberFields_cons {s : Stmt} (hs : s.isVar = false) (body : ScopeId) (rest : List Stmt) :
    memberFields body (s :: rest) = do
      let s ← classFields s
      let rest ← memberFields body rest
      return s :: rest := by
  cases s with
  | var => cases hs
  | _ => rfl

lemma classFields_eq_pure {s : Stmt} (hs : s.isClass = false) : classFields s = pure s := by
  cases s with
  | cls => cases hs
  | _ => rfl

lemma openClass_eq_pure {s : Stmt} (hs : s.isClass = false) (scope : ScopeId)
    (cs : List ClassId) : openClass scope s cs = pure (s, cs) := by
  cases s with
  | cls => cases hs
  | _ => rfl

lemma classHead?_eq_none {s : Stmt} (hs : s.isClass = false) : s.classHead? = none := by
  cases s with
  | cls => cases hs
  | _ => rfl

/-- What is declared in the body of a class is made known as at the top of a program. -/
lemma openClass_cls (scope : ScopeId) (head : ClassHead) (ms : List Stmt) (c : ClassId)
    (others : List ClassId) :
    openClass scope (.cls head ms) (c :: others) = do
      let body ← openIn scope (.cls c)
      changeClass c (·.updateClass · fun e => { e with body := some body })
      let ms ← announce body ms
      ms.forM (announceField c body)
      return (.cls { head with cls := some c, scope := some body } ms, others) := by
  rw [openClass]
  unfold announce
  simp only [bind_assoc]

end Check

/-- A program is analyzed in a session of its own. -/
lemma analyze_eq_ok {p q : Program} {a : Analysis} :
    analyze p = .ok (q, a) ↔
      ∃ Ω, Gives (Check.program p) { log := [.analyzing p.stmts.length] } q Ω ∧ Ω.analysis = a := by
  unfold analyze analyzeLogged Gives
  show (match (Check.program p).run.run { log := [.analyzing p.stmts.length] } with
    | (.ok p, s) => (Except.ok (p, s.analysis), s.log)
    | (.error f, s) => (.error f, _)).1 = _ ↔ _
  rcases (Check.program p).run.run { log := [.analyzing p.stmts.length] } with ⟨f | q', Ω⟩
  · exact ⟨nofun, nofun⟩
  · constructor
    · rintro ⟨⟩
      exact ⟨Ω, rfl, rfl⟩
    · rintro ⟨_, ⟨⟩, rfl⟩
      rfl

lemma analyze_eq_error {p : Program} {f : Fault} : analyze p = .error f ↔
    ((Check.program p).on { log := [.analyzing p.stmts.length] }).1 = .error f := by
  rcases h : (Check.program p).on { log := [.analyzing p.stmts.length] } with ⟨f' | q, Ω⟩
  · simp [analyze, analyzeLogged, h]
  · simp [analyze, analyzeLogged, h]

lemma Stmt.isVar_iff {s : Stmt} : s.isVar = true ↔ ∃ head init, s = .var head init := by
  cases s <;> simp [isVar]

end MiddleEnd
