import MiddleEnd.Proofs.Check.Judged

/-!
Who is to blame in a whole program. The declarations, the fields and the walk are judged one after
another. So when the analysis fails, something in the program is wrong, and the report points to it;
and the rules on places are broken exactly where the program breaks them.
-/

namespace MiddleEnd

variable {S : List Span} {A base σ τ : Session} {place : Surroundings}

/-! ### Fields -/

lemma Stmt.hoisted_fieldless (s : Stmt) :
    s.fieldless.Hoisted base σ place ↔ s.Hoisted base σ place := by
  induction s using members_induction generalizing place with
  | other s hs => rw [fieldless_of_not_isClass hs]
  | cls head ms ih =>
    have hms : HoistedList base σ place.body (fieldlessList ms) ↔
        HoistedList base σ place.body ms := by
      induction ms with
      | nil => rfl
      | cons s ms ihs =>
        rw [List.forall_mem_cons] at ih
        by_cases hs : s.isVar = true
        · obtain ⟨head, init, rfl⟩ := isVar_iff.mp hs
          rw [fieldlessList, ihs ih.2]
          exact (and_iff_right trivial).symm
        · rw [fieldlessList_cons (Bool.eq_false_iff.mpr hs), HoistedList, HoistedList, ih.1,
            ihs ih.2]
    rw [fieldless, Hoisted, Hoisted, hms]

namespace Check

/-- The fields of the classes in a statement stand where they may stand. -/
def FieldsJudged (A base : Session) (S : List Span) (s : Stmt) : Prop :=
  ∀ {σ : Session} {place : Surroundings}, s.spans ⊆ S → A.Continues A.Declared σ →
    s.Hoisted base σ place → Judges true (s.fieldsPlaced place = true) S (classFields s) σ

lemma continues_classFields {s s' : Stmt} (hσ : A.Continues A.Declared σ)
    (h : Gives (classFields s) σ s' τ) : σ.Continues A.Declared τ :=
  (fieldsLead s hσ.assembled hσ.room_declared
    (Session.free_declared.fieldClaims s)).changes_of_gives h

lemma judges_memberFields {body : ScopeId} {ms : List Stmt} (hsited : base.Sited S A)
    (hms : ∀ s ∈ ms, FieldsJudged A base S s) (hspans : Stmt.spansList ms ⊆ S)
    (hσ : A.Continues A.Declared σ) (hat : σ.At body place)
    (hhoisted : ∀ s ∈ ms, s.Hoisted base σ place) :
    Judges true (Stmt.fieldsPlacedList place ms = true) S (memberFields body ms) σ := by
  induction ms generalizing σ with
  | nil => exact .pure rfl
  | cons s ms ih =>
    rw [List.forall_mem_cons] at hms hhoisted
    rw [Stmt.spansList_cons, List.append_subset] at hspans
    have rest {τ : Session} (hτ : σ.Continues A.Declared τ) :=
      ih hms.2 hspans.2 (hσ.trans hτ) (hat.mono hτ) fun s hs => (hhoisted.2 s hs).mono hτ
    by_cases hvar : s.isVar = true
    · -- a field is declared here
      obtain ⟨head, init, rfl⟩ := Stmt.isVar_iff.mp hvar
      obtain ⟨hown, hinside⟩ := Collector.add_subset.mp hspans.1
      obtain ⟨hspan, hwritten⟩ := List.cons_subset.mp hown
      have hiff : Stmt.fieldsPlacedList place (.var head init :: ms) = true ↔
          Expr.placedOption place init = true ∧ Stmt.fieldsPlacedList place ms = true := by
        rw [Stmt.fieldsPlacedList, Bool.and_eq_true, Bool.and_eq_true]
        exact and_congr_left fun _ => and_iff_left rfl
      have hinit (e : Expr) : ExprJudged A S e := (tree_judged hsited).expr_holds e
      rw [memberFields, hiff]
      refine (judges_var (fun e _ => hinit e) hwritten hinside (fun _ => hspan) hσ hat).bind
        fun r σ1 h1 => ?_
      exact (rest ((leads_var (fun e _ => exprLeads e) hσ.assembled hσ.room_declared
        (Session.free_declared.declaring _)).changes_of_gives h1)).bind_pure
    · -- any other member is searched for classes
      rw [Bool.not_eq_true] at hvar
      rw [memberFields_cons hvar, Stmt.fieldsPlacedList, hvar, Bool.not_false, Bool.true_or,
        Bool.true_and, Bool.and_eq_true]
      exact (hms.1 hspans.1 hσ hhoisted.1).bind fun s' σ1 h1 =>
        (rest (continues_classFields hσ h1)).bind_pure

lemma fieldsJudged (hsited : base.Sited S A) (s : Stmt) : FieldsJudged A base S s := by
  induction s using Stmt.members_induction with
  | other s hs =>
    intro σ place _ _ _
    rw [classFields_eq_pure hs]
    refine .pure ?_
    cases s with
    | cls => cases hs
    | _ => rfl
  | cls head ms ih =>
    intro σ place hspans hσ hhoisted
    obtain ⟨⟨c, body, -, hbody, -, -, hat, -⟩, hms⟩ := hhoisted
    replace hspans := Collector.add_subset.mp hspans
    rw [classFields, Stmt.fieldsPlaced]
    exact judges_registered hbody ((judges_memberFields hsited ih hspans.2 hσ hat
      (Stmt.hoistedList_iff.mp hms)).bind_left fun _ _ _ => judges_note.bind_pure)

lemma judges_fields {ss : List Stmt} (hsited : base.Sited S A) (hspans : Stmt.spansList ss ⊆ S)
    (hσ : A.Continues A.Declared σ) (hhoisted : ∀ s ∈ ss, s.Hoisted base σ place) :
    Judges true (∀ s ∈ ss, s.fieldsPlaced place = true) S (ss.mapM classFields) σ := by
  induction ss generalizing σ with
  | nil => exact .pure (List.forall_mem_nil _)
  | cons s ss ih =>
    rw [List.forall_mem_cons] at hhoisted
    rw [Stmt.spansList_cons, List.append_subset] at hspans
    rw [List.mapM_cons, List.forall_mem_cons]
    refine (fieldsJudged hsited s hspans.1 hσ hhoisted.1).bind fun s' σ1 h1 => ?_
    have c1 := continues_classFields hσ h1
    exact (ih hspans.2 (hσ.trans c1) fun s hs => (hhoisted.2 s hs).mono c1).bind_pure

lemma hoisted_fields {ss ss' : List Stmt} {υ : Session} (h : Gives (ss.mapM classFields) σ ss' τ)
    (hss : ∀ s ∈ ss, s.Hoisted base υ place) : ∀ s ∈ ss', s.Hoisted base υ place := by
  have hlist (ss : List Stmt) : (∀ s ∈ ss.map Stmt.fieldless, s.Hoisted base υ place) ↔
      ∀ s ∈ ss, s.Hoisted base υ place := by
    simp only [List.forall_mem_map, Stmt.hoisted_fieldless]
  rwa [← hlist, fieldless_fields h, hlist]

/-! ### Programs -/

/-- What is left to look at when the declarations of a program have been made known. -/
lemma judges_walk {ss ss' : List Stmt} (hσ : σ.Assembled)
    (hfit : Stmt.fitList none ss = true) (h : Gives (announce .root ss) σ ss' A) :
    Judges true (∀ s ∈ ss, s.placed {} = true) (Stmt.spansList ss)
      (ss'.mapM classFields >>= stmts .root) A := by
  obtain ⟨hA, hhoisted, houtlines⟩ := hoisted_announce hσ hσ.at_root h
  rw [Stmt.hoistedList_iff] at hhoisted
  have hsited : σ.Sited (Stmt.spansList ss) A := by
    intro c e k he hnew hk
    refine (houtlines.constructors he hk).resolve_left fun ⟨e', he', _⟩ => ?_
    cases hnew.symm.trans he'
  have herase := erase_announce h
  have hstay := hA.assembled.stay (Φ := A.Declared)
  -- neither what is announced nor what the fields leave changes where a statement stands
  have hiff : (∀ s ∈ ss, s.placed {} = true) ↔
      (∀ s ∈ ss', s.fieldsPlaced {} = true) ∧ ∀ s ∈ ss', s.placed {} = true := by
    rw [Stmt.forall_mem_congr (fun s => by rw [Stmt.fieldsPlaced_erase]) herase,
      Stmt.forall_mem_congr (fun s => by rw [Stmt.placed_erase]) herase]
    exact (and_iff_right_of_imp fun hplaced s hs => Stmt.fieldsPlaced_of_placed (hplaced s hs)).symm
  have hspans : Stmt.spansList ss' = Stmt.spansList ss := Stmt.spansList_congr herase
  have hjudged := judges_fields hsited (hspans ▸ List.Subset.refl _) hstay hhoisted
  refine (hjudged.bind fun ss2 F hF => ?_).congr hiff.symm
  have herase2 := erase_mapM (fun s _ => erase_classFields s) hF
  have cF :=
    (leads_fields Session.free_declared hA.assembled hstay.room_declared).changes_of_gives hF
  rw [← Stmt.forall_mem_congr (fun s => by rw [Stmt.placed_erase]) herase2]
  have hfit2 : ∀ s ∈ ss2, s.fit = true :=
    (Stmt.forall_mem_congr (fun s => by rw [Stmt.fit_erase]) (herase2.trans herase)).mpr
      (Stmt.fitList_iff.mp hfit).1
  have hfields : ∀ s ∈ ss2, s.fieldsPlaced {} = true :=
    (Stmt.forall_mem_congr (fun s => by rw [Stmt.fieldsPlaced_erase]) herase2).mpr
      (hjudged.accepts hF)
  refine judges_stmts (fun s _ => (tree_judged hsited).stmt_holds s) ?_ cF
    (hA.assembled.at_root.mono cF) fun s hs => ⟨?_, hfit2 s hs, hfields s hs⟩
  · rw [Stmt.spansList_congr herase2, hspans]
    exact List.Subset.refl _
  · exact (hoisted_fields hF hhoisted s hs).mono cF

lemma placed_iff {p : Program} : p.placed = true ↔
    Stmt.fitList none p.stmts = true ∧ ∀ s ∈ p.stmts, s.placed {} = true := by
  rw [Program.placed, Stmt.placedList_iff, Stmt.fitList_iff, forall₂_and, and_assoc]
  exact ⟨fun h => ⟨fun s hs => Stmt.fit_of_placed (h.2 s hs), h⟩, And.right⟩

/-- When the declarations of a program are known, nothing but `this` can be outside of a class. -/
lemma judges_announced {p : Program} {ss : List Stmt} (hσ : σ.Assembled)
    (h : Gives (announce .root p.stmts) σ ss A) :
    Judges true (p.placed = true) p.spans (do
      let ss ← ss.mapM classFields
      let ss ← stmts .root ss
      note (.walkCompleted ss.length)
      return { p with stmts := ss }) A := by
  have hfit : Stmt.fitList none p.stmts = true := (judges_announce hσ).accepts h
  rw [placed_iff, and_iff_right hfit, ← bind_assoc]
  exact (judges_walk hσ hfit h).bind_left fun _ _ _ => judges_note.bind_pure

/-- **A program** is accepted, or it is to blame. -/
lemma judges_program {p : Program} (hσ : σ.Assembled) :
    Judges false (p.placed = true) p.spans (program p) σ := by
  have hiff : p.placed = true ↔ Stmt.fitList none p.stmts = true ∧ p.placed = true :=
    (and_iff_right_of_imp fun h => (placed_iff.mp h).1).symm
  exact ((judges_announce hσ).bind fun ss A h => (judges_announced hσ h).relax).congr hiff.symm

end Check

/-- **The program is to blame.** Whatever has been looked at before in the session, and whatever
annotations are on the program: when it is rejected, something is wrong at a place of that program.
No declaration is found that has not been made known, and when the declarations are known, no
constructor is found without its body. All scopes lead to scopes, functions and classes that are
there. -/
theorem faults_located (σ : Session) (hσ : σ.Used) (p : Program) :
    (∀ f, ((Check.program p).on σ).1 = .error f → ∃ cause span, f = .user cause span ∧
      span ∈ p.spans ∧ (∀ name, cause ≠ .notRegistered name) ∧
      ∀ ss A, Gives (Check.announce .root p.stmts) σ ss A →
        ∀ keyword, cause = .outsideClass keyword → keyword = "this") ∧
    ∀ id s, ((Check.program p).on σ).2.scopes.scope? id = some s →
      (∀ parent, s.parent = some parent → parent.index < id.index) ∧
      (∀ f, s.frame = some f → ∃ g, ((Check.program p).on σ).2.scopes.frame? f = some g) ∧
      ∀ c, s.cls = some c → ∃ e, ((Check.program p).on σ).2.types.class? c = some e := by
  constructor
  · intro f hf
    obtain ⟨cause, span, rfl, hspan, hexpected, -⟩ :=
      (Check.judges_program hσ.assembled).blames hf
    refine ⟨cause, span, rfl, hspan, fun name hname => ?_, fun ss A h keyword hkeyword => ?_⟩
    · rw [hname] at hexpected
      cases hexpected
    · have hrest := Check.judges_announced hσ.assembled h
      have hrun : ((Check.program p).on σ).1 = _ := congrArg Prod.fst (run_bind _ _ σ)
      rw [show (Check.announce .root p.stmts).run.run σ = _ from h] at hrun
      obtain ⟨cause', span', heq, -, hexpected', -⟩ := hrest.blames (hrun.symm.trans hf)
      cases heq
      rw [hkeyword] at hexpected'
      simpa [Cause.expected] using hexpected'
  · intro id s hs
    have hafter := (Session.Used.program hσ p).assembled.scopes
    exact ⟨fun _ => hafter.parents hs, fun _ => hafter.frames hs, fun _ => hafter.classes hs⟩

def Fault.of? {α : Type} : Except Fault α → Option Fault
  | .error f => some f
  | .ok _ => none

lemma Fault.of?_eq_some {α : Type} {r : Except Fault α} {f : Fault} (h : of? r = some f) :
    r = .error f := by
  cases r with
  | error => exact congrArg Except.error (Option.some.inj h)
  | ok => cases h

/-- A class whose constructor bears another name, so that it is left half declared. -/
def misnamed : Program where
  stmts := [.cls { name := "Box" } [.ctor { name := "Crate" } []]]

/-- A class that carries the handles of other analyses. Its constructor gives back a value. -/
def generous : Program where
  stmts := [.cls { name := "Cup", cls := some ⟨7⟩, scope := some ⟨9⟩ }
    [.ctor { name := "Cup", scope := some ⟨5⟩ }
      [.ret { start := { line := 3 } } (some (.number { type := some ⟨40⟩ } 1))]]]

/-- After `misnamed` has been rejected, `generous` is rejected for its return. -/
theorem faults_located_generous : ∃ σ, σ.Used ∧ ((Check.program misnamed).on {}).2 = σ ∧
    ∃ cause span, ((Check.program generous).on σ).1 = .error (.user cause span) ∧
      span ∈ generous.spans ∧ cause = .constructorReturns := by
  have hused : ((Check.program misnamed).on {}).2.Used := .program (.new []) misnamed
  refine ⟨_, hused, rfl, ?_⟩
  have hfails : ((Check.program generous).on ((Check.program misnamed).on {}).2).1 =
      .error (.user .constructorReturns { start := { line := 3 } }) :=
        Fault.of?_eq_some (by decide +kernel)
  obtain ⟨cause, span, heq, hspan, -⟩ := (faults_located _ hused generous).1 _ hfails
  cases heq
  exact ⟨_, _, hfails, hspan, rfl⟩

/-- **The rules on places are kept exactly.** In an accepted program everything stands where it may
stand, and a program of which this is true is never rejected because something is misplaced. -/
theorem placement_exact (p : Program) :
    (∀ q a, analyze p = .ok (q, a) → p.placed = true) ∧
    (p.placed = true → ∀ cause span, analyze p = .error (.user cause span) →
      cause.misplaced = false) := by
  have hjudged := Check.judges_program (p := p)
    (Session.assembled_new [.analyzing p.stmts.length])
  constructor
  · intro q a h
    obtain ⟨Ω, hrun, -⟩ := analyze_eq_ok.mp h
    exact hjudged.accepts hrun
  · intro hplaced cause span h
    obtain ⟨cause', span', heq, -, -, hmisplaced⟩ := hjudged.blames (analyze_eq_error.mp h)
    cases heq
    exact Bool.eq_false_iff.mpr fun hcause => hmisplaced hcause hplaced

/-- Loops that are left from a nested block and from the update of a loop, `this` in a lambda that
is the value of a field, and returns from a constructor and from a lambda outside all functions. -/
def arranged : Program where
  stmts :=
    [.cls { name := "Box" }
      [.var { name := "me" } (some (.exprLambda {} {} (.self {}))),
        .ctor { name := "Box" } [.ret {} none],
        .func { name := "spin" }
          [.whileLoop {} (.boolean {} true) [.ifElse {} (.boolean {} true) [.brk {}] .done],
            .forLoop {} none none (some (.brk {})) []]],
      .expr (.blockLambda {} {} {} [.ret {} (some (.number {} 1))])]

/-- A lambda in a loop is left as if it were the loop. -/
def astray : Program where
  stmts := [.whileLoop {} (.boolean {} true) [.expr (.blockLambda {} {} {} [.brk {}])]]

/-- `arranged` is accepted and keeps the rules, and `astray` breaks them and is rejected. -/
theorem placement_exact_arranged : (∃ q a, analyze arranged = .ok (q, a) ∧ arranged.placed = true) ∧
    ∃ cause span, analyze astray = .error (.user cause span) ∧ cause.misplaced = true ∧
      astray.placed = false := by
  constructor
  · have haccepted : (analyze arranged).toOption.isSome = true := by decide +kernel
    cases h : analyze arranged with
    | error f => simp [h, Except.toOption] at haccepted
    | ok r => exact ⟨r.1, r.2, rfl, (placement_exact arranged).1 r.1 r.2 h⟩
  · have hfails : analyze astray = .error (.user (.outsideLoop "break") {}) :=
      Fault.of?_eq_some (by decide +kernel)
    refine ⟨_, _, hfails, rfl, Bool.eq_false_iff.mpr fun hplaced => ?_⟩
    cases (placement_exact astray).2 hplaced _ _ hfails

end MiddleEnd
