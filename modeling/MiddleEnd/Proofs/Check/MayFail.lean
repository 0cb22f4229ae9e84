import MiddleEnd.Proofs.Check.Soundness

/-!
Steps that may fail. A run that fails leaves behind what it had collected, and the next program is
looked at in the same session; so what holds of every session is followed through runs that succeed
and runs that fail.
-/

namespace MiddleEnd

variable {α β : Type}

/-- Changes that may follow one another. What they lead to may also stay as it is. -/
class Lasting {S : Type} (rel : S → S → Prop) : Prop where
  trans {σ τ υ : S} : rel σ τ → rel τ υ → rel σ υ
  stay {σ τ : S} : rel σ τ → rel τ τ

/-- The step changes the state as `rel` says, also when it fails, and if it succeeds then its result
is as `post` says. -/
structure Leads {S : Type} (rel : S → S → Prop) (step : ExceptT Fault (StateM S) α) (σ : S)
    (post : α → S → Prop) : Prop where
  changes : rel σ (step.run.run σ).2
  result : ∀ {a τ}, Gives step σ a τ → post a τ

namespace Leads

section Steps

variable {S : Type} {rel : S → S → Prop} {σ : S} {x : ExceptT Fault (StateM S) α}
  {post : α → S → Prop} {goal : β → S → Prop}

lemma pure {a : α} (h : rel σ σ) (ha : post a σ) :
    Leads rel (Pure.pure a : ExceptT Fault (StateM S) α) σ post :=
  ⟨h, fun h => by obtain ⟨rfl, rfl⟩ := gives_pure.mp h; exact ha⟩

lemma throw {f : Fault} (h : rel σ σ) :
    Leads rel (MonadExcept.throw f : ExceptT Fault (StateM S) α) σ post :=
  ⟨h, fun h => (gives_throw.mp h).elim⟩

/-- A step that succeeds leads to the state that `rel` speaks of. -/
lemma changes_of_gives (h : Leads rel x σ post) {a : α} {τ : S} (hgives : Gives x σ a τ) :
    rel σ τ := by
  have hrel := h.changes
  rw [show x.run.run σ = (.ok a, τ) from hgives] at hrel
  exact hrel

lemma gives (h : Leads rel x σ post) {a : α} {τ : S} (hgives : Gives x σ a τ) :
    rel σ τ ∧ post a τ :=
  ⟨h.changes_of_gives hgives, h.result hgives⟩

lemma mono {post' : α → S → Prop} (h : Leads rel x σ post)
    (himp : ∀ a τ, rel σ τ → post a τ → post' a τ) : Leads rel x σ post' :=
  ⟨h.changes, fun {a τ} hgives => himp a τ (h.changes_of_gives hgives) (h.result hgives)⟩

variable [Lasting rel]

lemma bind {k : α → ExceptT Fault (StateM S) β} (h : Leads rel x σ post)
    (hk : ∀ a τ, rel σ τ → post a τ → Leads rel (k a) τ goal) : Leads rel (x >>= k) σ goal := by
  refine ⟨?_, fun {b υ} hb => ?_⟩
  · rw [run_bind]
    rcases hx : x.run.run σ with ⟨f | a, τ⟩
    · have hrel := h.changes
      rwa [hx] at hrel
    · have hrel := h.changes_of_gives hx
      exact Lasting.trans hrel (hk a τ hrel (h.result hx)).changes
  · obtain ⟨a, τ, ha, hb⟩ := gives_bind.mp hb
    exact (hk a τ (h.changes_of_gives ha) (h.result ha)).result hb

/-- What remains to be done changes neither the state nor the outcome. -/
lemma bind_pure {f : α → β} (h : Leads rel x σ post)
    (hf : ∀ a τ, rel σ τ → post a τ → goal (f a) τ) :
    Leads rel (x >>= fun a => Pure.pure (f a)) σ goal :=
  h.bind fun a τ hτ ha => .pure (Lasting.stay hτ) (hf a τ hτ ha)

lemma mapM {f : α → ExceptT Fault (StateM S) β} {l : List α} {post : β → S → Prop}
    (hσ : rel σ σ) (hstable : ∀ {b τ υ}, rel τ υ → post b τ → post b υ)
    (h : ∀ a ∈ l, ∀ {τ}, rel σ τ → Leads rel (f a) τ post) :
    Leads rel (l.mapM f) σ fun bs τ => ∀ b ∈ bs, post b τ := by
  induction l generalizing σ with
  | nil => exact .pure hσ nofun
  | cons a l ih =>
    rw [List.forall_mem_cons] at h
    rw [List.mapM_cons]
    refine (h.1 hσ).bind fun b τ hτ hb => ?_
    have hrest := ih (Lasting.stay hτ) fun a ha υ hυ => h.2 a ha (Lasting.trans hτ hυ)
    exact hrest.bind_pure fun bs υ hυ hbs => List.forall_mem_cons.mpr ⟨hstable hυ hb, hbs⟩

lemma forM {f : α → ExceptT Fault (StateM S) Unit} {l : List α} {post : Unit → S → Prop}
    (hσ : rel σ σ) (h : ∀ a ∈ l, ∀ {τ}, rel σ τ → Leads rel (f a) τ post) :
    Leads rel (l.forM f) σ fun _ _ => True := by
  induction l generalizing σ with
  | nil => exact .pure hσ trivial
  | cons a l ih =>
    rw [List.forall_mem_cons] at h
    show Leads rel (f a >>= fun _ => l.forM f) σ _
    exact (h.1 hσ).bind fun _ τ hτ _ =>
      ih (Lasting.stay hτ) fun a ha υ hυ => h.2 a ha (Lasting.trans hτ hυ)

end Steps

variable {rel : Session → Session → Prop} {σ : Session} {goal : β → Session → Prop}

lemma rule {r : Except Fault α} {post : α → Session → Prop} (h : rel σ σ)
    (hr : ∀ a, r = .ok a → post a σ) : Leads rel (Check.rule r) σ post :=
  ⟨h, fun h => by obtain ⟨rfl, rfl⟩ := Check.gives_rule.mp h; exact hr _ rfl⟩

lemma bind_rule {r : Except Fault α} {k : α → Check β} (h : rel σ σ)
    (hk : ∀ a, r = .ok a → Leads rel (k a) σ goal) : Leads rel (Check.rule r >>= k) σ goal := by
  cases r with
  | error f => exact ⟨h, fun hgives => nomatch hgives⟩
  | ok a => exact hk a rfl

lemma bind_types {k : TypeTable → Check β} (h : Leads rel (k σ.types) σ goal) :
    Leads rel (Check.types >>= k) σ goal :=
  ⟨h.changes, fun hgives => h.result hgives⟩

lemma bind_scopes {k : Scopes → Check β} (h : Leads rel (k σ.scopes) σ goal) :
    Leads rel (Check.scopes >>= k) σ goal :=
  ⟨h.changes, fun hgives => h.result hgives⟩

lemma bind_registered {handle : Option α} {name : String} {span : Span} {k : α → Check β}
    (h : rel σ σ) (hk : ∀ a, handle = some a → Leads rel (k a) σ goal) :
    Leads rel (Check.registered handle name span >>= k) σ goal := by
  cases handle with
  | none => exact ⟨h, fun hgives => nomatch hgives⟩
  | some a => exact hk a rfl

lemma classEntry {c : ClassId} (h : rel σ σ) :
    Leads rel (Check.classEntry c) σ fun e τ => σ = τ ∧ σ.types.class? c = some e := by
  have hrule : Check.classEntry c = Check.types >>= fun t => Check.rule (t.classEntry c) := by
    unfold Check.classEntry
    refine bind_congr fun t => ?_
    unfold TypeTable.classEntry
    cases t.class? c <;> rfl
  rw [hrule]
  exact .bind_types (.rule h fun e he => ⟨rfl, TypeTable.classEntry_eq_ok.mp he⟩)

end Leads

end MiddleEnd
