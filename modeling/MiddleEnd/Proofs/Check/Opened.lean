import MiddleEnd.Proofs.Check.Parts
import MiddleEnd.Proofs.Tree.Induction

/-!
The classes of a program are opened from the outside to the inside, each with the class that has
been registered for it, and with all that is declared in it.
-/

namespace MiddleEnd

variable {σ τ : Session} {scope : ScopeId}

lemma Stmt.classHeads_cons (s : Stmt) (ss : List Stmt) :
    (s :: ss).filterMap classHead? = s.classHead?.toList ++ ss.filterMap classHead? := by
  rw [List.filterMap_cons]
  cases s.classHead? <;> rfl

namespace Check

/-- A run through the statements of a scope in which the classes have been registered. -/
inductive Opening : ScopeId → List Stmt → List ClassId → Session → List Stmt → Session → Prop where
  | nil {scope : ScopeId} {σ : Session} : Opening scope [] [] σ [] σ
  | other {scope : ScopeId} {s : Stmt} {ss ss' : List Stmt} {cs : List ClassId} {σ τ : Session}
      (hs : s.isClass = false) (h : Opening scope ss cs σ ss' τ) :
      Opening scope (s :: ss) cs σ (s :: ss') τ
  | cls {scope body : ScopeId} {head : ClassHead} {ms ms4 ms6 ss ss' : List Stmt} {c : ClassId}
      {cs inner : List ClassId} {σ σ1 σ2 σ3 σ4 σ5 σ6 σ7 τ : Session} {u : Unit}
      (h1 : Gives (openIn scope (.cls c)) σ body σ1)
      (h2 : Gives (changeClass c (·.updateClass · fun e => { e with body := some body })) σ1 u σ2)
      (h3 : Gives (registerClasses body ms) σ2 inner σ3) (h4 : Opening body ms inner σ3 ms4 σ4)
      (h5 : Gives (note (.classesRegistered inner.length body)) σ4 u σ5)
      (h6 : Gives (bindFunctions body ms4) σ5 ms6 σ6)
      (h7 : Gives (ms6.forM (announceField c body)) σ6 u σ7)
      (h : Opening scope ss cs σ7 ss' τ) :
      Opening scope (.cls head ms :: ss) (c :: cs) σ
        (.cls { head with cls := some c, scope := some body } ms6 :: ss') τ

lemma length_of_mapM {α β : Type} {f : α → Check β} {l : List α} {bs : List β}
    (h : Gives (l.mapM f) σ bs τ) : bs.length = l.length := by
  induction l generalizing σ bs with
  | nil =>
    obtain ⟨rfl, -⟩ := gives_pure.mp h
    rfl
  | cons a l ih =>
    obtain ⟨b, rest, σ1, -, h2, rfl⟩ := gives_mapM_cons.mp h
    rw [List.length_cons, List.length_cons, ih h2]

def Opens (s : Stmt) : Prop :=
  ∀ {scope ss cs σ s' others σ1 ss' τ}, s.classHead?.toList.length ≤ cs.length →
    Gives (openClass scope s cs) σ (s', others) σ1 →
    cs.length = s.classHead?.toList.length + others.length ∧
      (Opening scope ss others σ1 ss' τ → Opening scope (s :: ss) cs σ (s' :: ss') τ)

lemma opening_of_opens {ss ss' : List Stmt} {cs : List ClassId} (hss : ∀ s ∈ ss, Opens s)
    (hlength : cs.length = (ss.filterMap Stmt.classHead?).length)
    (h : Gives (openClasses scope ss cs) σ ss' τ) : Opening scope ss cs σ ss' τ := by
  induction ss generalizing σ ss' cs with
  | nil =>
    obtain rfl := List.length_eq_zero_iff.mp hlength
    rw [openClasses, gives_pure] at h
    obtain ⟨rfl, rfl⟩ := h
    exact .nil
  | cons s ss ih =>
    rw [List.forall_mem_cons] at hss
    rw [Stmt.classHeads_cons, List.length_append] at hlength
    simp only [openClasses, gives_bind, gives_pure] at h
    obtain ⟨⟨s', others⟩, σ1, h1, rest, _, h2, rfl, rfl⟩ := h
    obtain ⟨hothers, hopening⟩ := hss.1 (by omega) h1
    exact hopening (ih hss.2 (by omega) h2)

lemma opens (s : Stmt) : Opens s := by
  induction s using Stmt.members_induction with
  | other s hs =>
    intro scope ss cs σ s' others σ1 ss' τ _ h
    rw [openClass_eq_pure hs] at h
    obtain ⟨heq, rfl⟩ := gives_pure.mp h
    cases heq
    exact ⟨by simp [classHead?_eq_none hs], .other hs⟩
  | cls head ms ih =>
    intro scope ss cs σ s' others σ1 ss' τ hlength h
    cases cs with
    | nil => cases hlength
    | cons c cs =>
      simp only [openClass, gives_bind, gives_pure] at h
      obtain ⟨body, σ1, h1, _, σ2, h2, inner, σ3, h3, ms4, σ4, h4, _, σ5, h5, ms6, σ6, h6, _, _,
        h7, heq, rfl⟩ := h
      cases heq
      exact ⟨Nat.add_comm _ _,
        .cls h1 h2 h3 (opening_of_opens ih (length_of_mapM h3) h4) h5 h6 h7⟩

lemma opening_of_gives {ss ss' : List Stmt} {cs : List ClassId}
    (hlength : cs.length = (ss.filterMap Stmt.classHead?).length)
    (h : Gives (openClasses scope ss cs) σ ss' τ) : Opening scope ss cs σ ss' τ :=
  opening_of_opens (fun s _ => opens s) hlength h

lemma Opening.gives {ss ss' : List Stmt} {cs : List ClassId} (h : Opening scope ss cs σ ss' τ) :
    Gives (openClasses scope ss cs) σ ss' τ := by
  induction h with
  | nil => exact gives_pure.mpr ⟨rfl, rfl⟩
  | other hs _ ih =>
    simp only [openClasses, openClass_eq_pure hs, gives_bind, gives_pure]
    exact ⟨_, _, ⟨rfl, rfl⟩, _, _, ih, rfl, rfl⟩
  | cls h1 h2 h3 _ h5 h6 h7 _ ihms ih =>
    simp only [openClasses, openClass, gives_bind, gives_pure]
    exact ⟨_, _, ⟨_, _, h1, _, _, h2, _, _, h3, _, _, ihms, _, _, h5, _, _, h6, _, _, h7, rfl, rfl⟩,
      _, _, ih, rfl, rfl⟩

/-- What is declared in a scope is made known: classes are registered and opened, then functions
are bound. -/
lemma opening_of_announce {ss ss' : List Stmt} (h : Gives (announce scope ss) σ ss' τ) :
    ∃ cs σ1 ss2 σ2 u σ3, Gives (registerClasses scope ss) σ cs σ1 ∧ Opening scope ss cs σ1 ss2 σ2 ∧
      Gives (note (.classesRegistered cs.length scope)) σ2 u σ3 ∧
      Gives (bindFunctions scope ss2) σ3 ss' τ := by
  simp only [announce, gives_bind] at h
  obtain ⟨cs, σ1, h1, ss2, σ2, h2, u, σ3, h3, h4⟩ := h
  exact ⟨cs, σ1, ss2, σ2, u, σ3, h1, opening_of_gives (length_of_mapM h1) h2, h3, h4⟩

end Check
end MiddleEnd
