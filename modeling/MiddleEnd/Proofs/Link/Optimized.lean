import MiddleEnd.Proofs.Check.Nested
import MiddleEnd.Proofs.Check.Stale
import MiddleEnd.Proofs.Link.Programs

/-!
What the passes make of an accepted program is accepted, or found to lack a return. The functions
that are removed have never been used as functions, and their names stand for nothing else.
-/

namespace MiddleEnd

variable {σ τ : Session} {scope : ScopeId}

/-! ### The names of functions -/

namespace Check

lemma names_of_declares {bs : List (Binding × Span)} {u : Unit}
    (h : Gives (bs.forM fun (b, span) => declare scope b span) σ u τ) :
    (bs.map (·.1.name)).Nodup ∧ ∀ b ∈ bs, σ.scopes.bindingAt? b.1.name scope = none ∧
      τ.scopes.bindingAt? b.1.name scope = some b.1 := by
  induction bs generalizing σ with
  | nil => exact ⟨.nil, List.forall_mem_nil _⟩
  | cons b bs ih =>
    obtain ⟨σ1, h1, h2⟩ := gives_forM_cons.mp h
    obtain ⟨larger, hlarger, hσ1⟩ := session_of_declare h1
    have hscopes : σ1.scopes = larger := by rcases hσ1 with rfl | ⟨c, rfl⟩ <;> rfl
    have hdeclared : σ1.scopes.bindingAt? b.1.name scope = some b.1 := by
      rw [hscopes, Scopes.bindingAt?_declare hlarger, if_pos ⟨rfl, rfl⟩]
    have traced : Traced True True (bs.forM fun (b, span) => declare scope b span) := inferInstance
    obtain ⟨hnodup, hrest⟩ := ih h2
    refine ⟨List.nodup_cons.mpr ⟨fun hmem => ?_, hnodup⟩, List.forall_mem_cons.mpr
      ⟨⟨Scopes.bindingAt?_of_declare hlarger, (traced.later h2).scopes.bindingAt? hdeclared⟩,
        fun b' hb' => ⟨?_, (hrest b' hb').2⟩⟩⟩
    · -- a second declaration of the name would have failed
      obtain ⟨b', hb', heq⟩ := List.mem_map.mp hmem
      have hnone := (hrest b' hb').1
      rw [heq, hdeclared] at hnone
      cases hnone
    · have hnone := (hrest b' hb').1
      rw [hscopes, Scopes.bindingAt?_declare hlarger] at hnone
      split at hnone
      · cases hnone
      · exact hnone

lemma functionNames_eq (ss : List Stmt) :
    (ss.filterMap functionBinding?).map (·.1.name) = Stmt.functionNames ss := by
  rw [List.map_filterMap, Stmt.functionNames]
  congr 1
  funext s
  cases s <;> rfl

/-- In an accepted program all functions have different names, which stand for them in the root
scope. -/
lemma functions_declared {p q : Program} (h : Gives (program p) σ q τ) :
    (Stmt.functionNames p.stmts).Nodup ∧ ∀ n ∈ Stmt.functionNames p.stmts, ∃ b sig,
      τ.scopes.bindingAt? n .root = some b ∧ b.kind = .function sig := by
  obtain ⟨ss1, A, h1, ss2, F, h2, ss3, G, h3, _, h4, rfl⟩ := h.program
  have hlater : A.Later τ :=
    ((Session.Later.of_gives h2).trans (.of_gives h3)).trans (.of_gives h4)
  rw [← Stmt.functionNames_congr (erase_announce h1), ← functionNames_eq]
  unfold announce bindFunctions at h1
  simp only [gives_bind, gives_pure] at h1
  obtain ⟨_, _, -, _, _, -, _, _, -, _, _, -, ss, B, -, _, C, hdeclare, _, _, hnote, rfl, rfl⟩ := h1
  obtain ⟨hnodup, hdeclared⟩ := names_of_declares hdeclare
  refine ⟨hnodup, fun n hn => ?_⟩
  obtain ⟨b, hb, rfl⟩ := List.mem_map.mp hn
  have hat := ((Session.Later.of_gives hnote).trans hlater).scopes.bindingAt? (hdeclared b hb).2
  obtain ⟨s, -, hs⟩ := List.mem_filterMap.mp hb
  cases s with
  | func head body =>
    cases hs
    exact ⟨_, _, hat, rfl⟩
  | _ => cases hs

end Check

/-! ### What gets lost -/

/-- Where the members of a list have different keys, the key of a lost one does not come back. -/
lemma Thinned.keys {α β κ : Type} {r : α → β → Prop} {lost : α → Prop} {l : List α} {l' : List β}
    {f : α → Option κ} {g : β → Option κ} (h : Thinned r lost l l')
    (hr : ∀ {a b}, r a b → g b = f a) (hnodup : (l.filterMap f).Nodup) :
    Thinned (fun a b => r a b ∧ b ∈ l') (fun a => lost a ∧ ∀ k ∈ f a, k ∉ l'.filterMap g) l l' := by
  have hsub {l : List α} {l' : List β} (h : Thinned r lost l l') {k : κ}
      (hk : k ∈ l'.filterMap g) : k ∈ l.filterMap f := by
    obtain ⟨b, hb, hgb⟩ := List.mem_filterMap.mp hk
    obtain ⟨a, ha, hab⟩ := h.exists_of_mem hb
    exact List.mem_filterMap.mpr ⟨a, ha, (hr hab).symm.trans hgb⟩
  have htail {a : α} {l : List α} (hnodup : ((a :: l).filterMap f).Nodup) :
      (l.filterMap f).Nodup ∧ ∀ k ∈ f a, k ∉ l.filterMap f := by
    rw [List.filterMap_cons] at hnodup
    cases hk : f a with
    | none =>
      rw [hk] at hnodup
      exact ⟨hnodup, nofun⟩
    | some k =>
      rw [hk] at hnodup
      obtain ⟨hnot, hnodup⟩ := List.nodup_cons.mp hnodup
      exact ⟨hnodup, by rintro _ ⟨⟩; exact hnot⟩
  induction h with
  | nil => exact .nil
  | @keep a b l l' hab hl ih =>
    obtain ⟨hnodup, hnot⟩ := htail hnodup
    refine .keep ⟨hab, List.mem_cons_self⟩ ((ih hnodup).mono
      (fun _ _ _ hr => ⟨hr.1, List.mem_cons_of_mem _ hr.2⟩) fun a' ha' hlost => ⟨hlost.1, ?_⟩)
    intro k hk hmem
    obtain ⟨b', hb', hgb⟩ := List.mem_filterMap.mp hmem
    -- the key is not the one just kept, and not one of the others by induction
    rcases List.mem_cons.mp hb' with rfl | hb'
    · exact hnot k ((hr hab).symm.trans hgb) (List.mem_filterMap.mpr ⟨a', ha', hk⟩)
    · exact hlost.2 k hk (List.mem_filterMap.mpr ⟨b', hb', hgb⟩)
  | lose ha hl ih =>
    obtain ⟨hnodup, hnot⟩ := htail hnodup
    exact .lose ⟨ha, fun k hk hmem => hnot k hk (hsub hl hmem)⟩ (ih hnodup)

/-- Returns may get lost, and so may functions that are not called. -/
def Law.removal (called : List String) (p p' : Program) : Law where
  lax := True
  dropped n := n ∉ called ∧ n ∈ Stmt.functionNames p.stmts ∧ n ∉ Stmt.functionNames p'.stmts
  apart := False

/-- The law describes what is removed from a program whose functions have different names. -/
lemma Program.Thins.removal {called : List String} {p p' : Program} (h : p.Thins called p')
    (hnodup : (Stmt.functionNames p.stmts).Nodup) :
    Thinned (Kept (.removal called p p') .root) (Lost (.removal called p p') .root)
      p.stmts p'.stmts := by
  have hname {s s' : Stmt} (hs : s.Trims True s') : s'.functionName? = s.functionName? := by
    cases hs <;> rfl
  refine (Thinned.keys h hname hnodup).mono (fun s _ s' hs => ⟨hs.1, fun _ head body heq hn => ?_⟩)
    fun s hs hlost => ⟨trivial, ?_⟩
  · subst heq
    exact hn.2.2 (List.mem_filterMap.mpr ⟨s', hs.2, hname hs.1⟩)
  · obtain ⟨hbranch | huncalled, hnot⟩ := hlost
    · exact Or.inl hbranch
    · cases s with
      | func head body =>
        have hcalled : head.name ∉ called := by simpa [Stmt.isUncalled] using huncalled
        exact Or.inr ⟨rfl, head, body, rfl, hcalled, List.mem_filterMap.mpr ⟨_, hs, rfl⟩,
          hnot head.name rfl⟩
      | _ => cases huncalled

/-- **Optimized programs stay valid up to missing returns.** Branches are pruned, unreachable code
is cut and uncalled functions are dropped from an accepted program, in any order and any number of
times. What is left is accepted, or a function is found not to return; no other fault arises. -/
theorem analyze_optimized {p q : Program} {a : Analysis} (h : analyze p = .ok (q, a))
    {passes : List Pass}
    (hpasses : passes ⊆ [.pruneBranches, .cutUnreachable, .dropUncalled a.callSites]) :
    (∃ q' a', analyze (Pass.runAll passes q).value = .ok (q', a')) ∨
      ∃ name type span, analyze (Pass.runAll passes q).value =
        .error (.user (.missingReturn name type) span) := by
  obtain ⟨_, hfirst, -⟩ := analyze_eq_ok.mp h
  -- the annotated program is accepted as it stands, with the same analysis
  have hq : analyze q = .ok (q, a) := by
    rw [← analyze_erase q, Check.erase_program hfirst, analyze_erase p, h]
  obtain ⟨Ω, hrun, rfl⟩ := analyze_eq_ok.mp hq
  have hsteady := Check.steady_of_program hrun
  have hthins : q.Thins Ω.callSites (Pass.runAll passes q).value := by
    refine Pass.thins_runAll (fun pass hpass => ?_) hsteady
    have hmem := hpasses hpass
    simp only [List.mem_cons, List.not_mem_nil, or_false] at hmem
    rcases hmem with rfl | rfl | rfl
    · trivial
    · trivial
    · rfl
  generalize (Pass.runAll passes q).value = p' at hthins
  obtain ⟨hnodup, hdeclared⟩ := Check.functions_declared hrun
  -- what is dropped is called nowhere, and its name is that of a function
  have hclean : (Law.removal Ω.callSites q p').Clean Ω := by
    refine ⟨fun hn _ => hn.1, fun {n b} hn hb => ?_⟩
    obtain ⟨b', sig, hb', hsig⟩ := hdeclared n hn.2.1
    cases hb.symm.trans hb'
    exact ⟨sig, hsig⟩
  have hmirrors := Check.mirrors_program
    (w := World.start (.removal Ω.callSites q p') [.analyzing q.stmts.length]
      [.analyzing p'.stmts.length])
    (fieldSpec_trims _) (fun h => h) id World.full_start World.level_start World.tidy_start hsteady
    (hthins.removal hnodup)
  rcases hmirrors (.refl _) hrun hclean with ⟨r, υ, -, hr, -⟩ | ⟨-, name, type, span, hmiss⟩
  · exact Or.inl ⟨r, υ.right.analysis, analyze_eq_ok.mpr ⟨υ.right, hr, rfl⟩⟩
  · exact Or.inr ⟨name, type, span, analyze_eq_error.mpr hmiss⟩

/-- A function that returns in a branch that is never taken, and one that is not called. -/
def hasty : Program where
  stmts :=
    [.func { name := "guess", result := some (.named "Number" {}) }
      [.ifElse {} (.boolean {} false) [.ret {} (some (.number {} 1))] .done],
      .func { name := "idle" } [.expr (.call {} (.name {} "guess") [] none)],
      .expr (.call {} (.name {} "guess") [] none)]

/-- `hasty` is accepted. When its branch has been pruned, `guess` is found not to return. -/
theorem analyze_optimized_hasty : ∃ q a, analyze hasty = .ok (q, a) ∧ a.callSites = ["guess"] ∧
    ∃ name type span,
      analyze (Pass.runAll [.dropUncalled a.callSites, .pruneBranches, .cutUnreachable] q).value =
        .error (.user (.missingReturn name type) span) := by
  have haccepted : (analyze hasty).toOption.map (fun r => (r.2.callSites,
      (analyze (Pass.runAll [.dropUncalled r.2.callSites, .pruneBranches, .cutUnreachable]
        r.1).value).toOption.isSome)) = some (["guess"], false) := by
    decide +kernel
  obtain ⟨r, h, hr⟩ := Except.exists_ok_of_map haccepted
  obtain ⟨hcalls, hrejected⟩ := Prod.mk.injEq .. ▸ hr
  refine ⟨r.1, r.2, h, hcalls, (analyze_optimized h (by simp)).resolve_left ?_⟩
  rintro ⟨q', a', hok⟩
  rw [hok] at hrejected
  cases hrejected

end MiddleEnd
