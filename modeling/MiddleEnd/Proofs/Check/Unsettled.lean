import MiddleEnd.Proofs.Check.Hoisted
import MiddleEnd.Proofs.Check.Returned

/-!
Nothing is given back before the bodies of functions are looked at. When the declarations of a
program have been made known, each function still waits for a value if it promises one.
-/

namespace MiddleEnd

variable {σ τ : Session}

/-- Where no bodies are looked at, nobody gives back. -/
lemma Session.Trace.untouched {outlining : Prop} (h : σ.Trace outlining False τ) {f : FrameId}
    {g : Frame} (hg : τ.scopes.frame? f = some g) :
    σ.scopes.frame? f = some g ∨ g.Untouched := by
  induction h with
  | refl => exact Or.inl hg
  | tail _ hchange ih =>
    cases hchange with
    | event | call | type | cls | member | constructor => exact ih hg
    | scope hopen | body hopen => exact ih ((Scopes.frame?_openIn hopen f).symm.trans hg)
    | frame _ huntouched =>
      rcases Scopes.frame?_addFrame_eq_some hg with hg | ⟨-, rfl⟩
      · exact ih hg
      · exact Or.inr (huntouched.resolve_right id)
    | name hdeclare => exact ih ((Scopes.frame?_declare hdeclare f).symm.trans hg)
    | settle h | close h => exact h.elim

/-! ### Functions that wait -/

/-- The function has a body with a frame for what it promises, from which nobody has given back. -/
def FuncHead.Waits (σ : Session) (head : FuncHead) : Prop :=
  ∃ body s f g, head.scope = some body ∧ σ.scopes.scope? body = some s ∧ s.frame = some f ∧
    σ.scopes.frame? f = some g ∧ head.type = some g.result ∧ g.settled = g.result.isAny

lemma FuncHead.Hoisted.waits {place : Surroundings} {head : FuncHead} (h : head.Hoisted σ place)
    (hframes : ∀ {f g}, σ.scopes.frame? f = some g → g.Untouched) : head.Waits σ := by
  obtain ⟨body, hbody, hat, s, f, g, hs, hf, hg, -, htype⟩ := h.scope
  obtain ⟨s', hs', hstands⟩ := hat
  cases hs.symm.trans hs'
  obtain ⟨g', hg', hkind⟩ := hstands.inConstructor f hf
  cases hg.symm.trans hg'
  refine ⟨body, s, f, g, hbody, hs, hf, hg, htype, (hframes hg).resolve_left fun hconstructor => ?_⟩
  cases hkind.mp hconstructor

lemma Stmt.Hoisted.waits {base : Session} {place : Surroundings} {s : Stmt}
    (h : s.Hoisted base σ place) (hframes : ∀ {f g}, σ.scopes.frame? f = some g → g.Untouched) :
    ∀ r ∈ s.routines, r.1.Waits σ := by
  induction s using Stmt.members_induction generalizing place with
  | other s hs =>
    cases s with
    | func head body => exact List.forall_mem_singleton.mpr (FuncHead.Hoisted.waits h hframes)
    | cls => cases hs
    | _ => exact List.forall_mem_nil _
  | cls head ms ih =>
    intro r hr
    obtain ⟨s, hs, hr⟩ := mem_routinesList.mp hr
    exact ih s hs (hoistedList_iff.mp h.2 s hs) r hr

/-- When the declarations of a program have been made known, all functions wait. -/
lemma Check.waits_announce {log : List LogEvent} {ss ss' : List Stmt}
    (h : Gives (announce .root ss) { log } ss' τ) : ∀ r ∈ Stmt.routinesList ss', r.1.Waits τ := by
  have hσ := Session.assembled_new log
  have hframes {f : FrameId} {g : Frame} (hg : τ.scopes.frame? f = some g) : g.Untouched := by
    have htrace : Session.Trace True False { log } τ := Traced.trace h
    refine (htrace.untouched hg).resolve_left fun hbefore => ?_
    cases hbefore
  intro r hr
  obtain ⟨s, hs, hr⟩ := Stmt.mem_routinesList.mp hr
  obtain ⟨-, hhoisted, -⟩ := hoisted_announce hσ hσ.at_root h
  exact (Stmt.hoistedList_iff.mp hhoisted s hs).waits hframes r hr

end MiddleEnd
