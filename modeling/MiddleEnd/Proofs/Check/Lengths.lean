import MiddleEnd.Proofs.Check.Complete
import MiddleEnd.Proofs.Tree.Collect
import MiddleEnd.Proofs.Check.Soundness
import MiddleEnd.Proofs.Check.Stale

/-!
Writes to the members that come with the language. Strings, arrays and dictionaries have a `length`
and no other member, and the analysis looks at a target like at any other expression; so `length`
can be written to wherever it can be read, as a field of type `Number` could.
-/

namespace MiddleEnd

/-! ### The types that have a length -/

namespace TypeTable

variable {t : TypeTable} {id : TypeId}

/-- Strings, arrays and dictionaries. -/
def hasLength (t : TypeTable) (id : TypeId) : Bool :=
  match t.form? id with
  | some .string | some (.array _) | some (.dictionary ..) => true
  | _ => false

lemma hasLength_iff : t.hasLength id = true ↔ t.form? id = some .string ∨
    (∃ e, t.form? id = some (.array e)) ∨ ∃ k v, t.form? id = some (.dictionary k v) := by
  unfold hasLength
  split <;> simp_all

lemma builtinMember?_of_hasLength (h : t.hasLength id = true) (name : String) :
    t.builtinMember? id name = if name = "length" then some .number else none := by
  rcases hasLength_iff.mp h with hf | ⟨e, hf⟩ | ⟨k, v, hf⟩ <;> simp only [builtinMember?, hf]

lemma memberType_length (h : t.hasLength id = true) : t.memberType id "length" = .number := by
  rcases hasLength_iff.mp h with hf | ⟨e, hf⟩ | ⟨k, v, hf⟩ <;>
    simp only [memberType, builtinMember?, hf, if_true, Option.getD_some]

/-- Nothing but `Number` is the same as `Number`: the texts of collections start with a bracket. -/
lemma sameType_number : t.sameType .number id = true ↔ id = .number := by
  have hnumber : t.isStructural .number = false := rfl
  have hsignature : t.signature .number = "Number" := rfl
  rw [sameType, hnumber, Bool.false_or]
  split
  · rename_i hid
    rw [isStructural, Option.any_eq_true] at hid
    obtain ⟨f, hf, hstructural⟩ := hid
    rw [decide_eq_true_eq, hsignature]
    constructor
    · intro h
      cases f with
      | array e =>
        rw [signature, shape, unfold, hf] at h
        have := congrArg String.toList h
        simp [Shape.signature] at this
      | dictionary k v =>
        rw [signature, shape, unfold, hf] at h
        have := congrArg String.toList h
        simp [Shape.signature] at this
      | _ => cases hstructural
    · rintro rfl
      cases hf
      cases hstructural
  · rw [decide_eq_true_eq, eq_comm]

lemma assignable_number : t.assignable .number id = true ↔ id = .number ∨ id = .any := by
  have hany : TypeId.number.isAny = false := rfl
  rw [assignable, hany, Bool.false_or, Bool.or_eq_true, sameType_number, or_comm]
  simp [TypeId.isAny]

end TypeTable

/-- Such a value has no other member. -/
lemma Rule.member_of_hasLength {t : TypeTable} {id : TypeId} {name : String}
    {span : Span} {u : Unit}
    (h : t.hasLength id = true) : Rule.member t id name span = .ok u ↔ name = "length" := by
  have hrule : Rule.member t id name span = ensure (t.builtinMember? id name).isSome
      (.memberOfNonObject name (t.display id)) span := by
    rcases TypeTable.hasLength_iff.mp h with hf | ⟨e, hf⟩ | ⟨k, v, hf⟩ <;> rw [Rule.member, hf]
  rw [hrule, ensure_eq_ok, TypeTable.builtinMember?_of_hasLength h]
  split <;> simp_all

/-! ### Writes at one place -/

/-- The expression applies `++` or `--` to the target. -/
inductive Expr.Steps : Expr → Expr → Prop where
  | before (m : Mark) {op : UnaryOp} (h : op.writes = true) (target : Expr) :
      Steps (.unary m op target) target
  | after (m : Mark) (op : StepOp) (target : Expr) : Steps (.step m op target) target

namespace Check

variable {scope : ScopeId} {σ τ υ ω : Session} {o o' v v' e e' : Expr} {m : Mark} {name : String}

lemma gives_unique {α : Type} {x : Check α} {a b : α} (h : Gives x σ a τ) (h' : Gives x σ b υ) :
    a = b ∧ τ = υ := by
  have heq : ((.ok a, τ) : Except Fault α × Session) = (.ok b, υ) := h.symm.trans h'
  cases heq
  exact ⟨rfl, rfl⟩

lemma gives_length (ho : Gives (expr scope o) σ o' τ) (h : τ.types.hasLength o'.type = true) :
    Gives (expr scope (.member m o name)) σ e ω ↔
      name = "length" ∧ .member (m.typed .number) o' "length" = e ∧ τ = ω := by
  rw [expr]
  simp only [gives_bind, gives_types, gives_rule, gives_pure]
  constructor
  · rintro ⟨o1, σ1, ho1, _, _, ⟨rfl, rfl⟩, _, _, ⟨hrule, rfl⟩, _, _, ⟨rfl, rfl⟩, rfl, rfl⟩
    obtain ⟨rfl, rfl⟩ := gives_unique ho ho1
    obtain rfl := (Rule.member_of_hasLength h).mp hrule
    exact ⟨rfl, by rw [TypeTable.memberType_length h], rfl⟩
  · rintro ⟨rfl, rfl, rfl⟩
    refine ⟨o', τ, ho, _, _, ⟨rfl, rfl⟩, (), _, ⟨(Rule.member_of_hasLength h).mpr rfl, rfl⟩, _, _,
      ⟨rfl, rfl⟩, ?_, rfl⟩
    rw [TypeTable.memberType_length h]

/-- An assignment to a member of a string, array or dictionary passes if the member is the length
and the value may be a number. -/
lemma gives_assign_length (span : Span) (hv : Gives (expr scope v) σ v' τ)
    (ho : Gives (expr scope o) τ o' υ) (h : υ.types.hasLength o'.type = true) :
    (∃ s ω, Gives (stmt scope (.assign span (.member m o name) v)) σ s ω) ↔
      name = "length" ∧ (v'.type = .number ∨ v'.type = .any) := by
  rw [stmt]
  simp only [gives_bind, gives_types, gives_rule, gives_pure]
  constructor
  · rintro ⟨_, _, v1, σ1, hv1, _, _, ⟨-, rfl⟩, e, σ2, he, _, _, ⟨rfl, rfl⟩, _, _,
      ⟨hfits, rfl⟩, -, -⟩
    obtain ⟨rfl, rfl⟩ := gives_unique hv hv1
    obtain ⟨rfl, rfl, rfl⟩ := (gives_length ho h).mp he
    exact ⟨rfl, TypeTable.assignable_number.mp (ensure_eq_ok.mp hfits)⟩
  · rintro ⟨rfl, hvalue⟩
    exact ⟨_, _, v', τ, hv, (), _, ⟨rfl, rfl⟩, _, υ, (gives_length ho h).mpr ⟨rfl, rfl, rfl⟩, _, _,
      ⟨rfl, rfl⟩, (), _, ⟨ensure_eq_ok.mpr (TypeTable.assignable_number.mpr hvalue), rfl⟩, rfl, rfl⟩

lemma gives_step_length (ho : Gives (expr scope o) σ o' τ) (h : τ.types.hasLength o'.type = true)
    (he : e.Steps (.member m o name)) :
    (∃ e' ω, Gives (expr scope e) σ e' ω) ↔ name = "length" := by
  have hoperand (k : Expr → Expr) : (∃ e' ω, Gives (do
      let e ← expr scope (.member m o name)
      rule (Rule.number e)
      return k e) σ e' ω) ↔ name = "length" := by
    simp only [gives_bind, gives_rule, gives_pure]
    constructor
    · rintro ⟨_, _, e, σ1, he, -⟩
      exact ((gives_length ho h).mp he).1
    · rintro rfl
      exact ⟨_, _, _, τ, (gives_length ho h).mpr ⟨rfl, rfl, rfl⟩, (), _, ⟨rfl, rfl⟩, rfl, rfl⟩
  cases he with
  | @before m' op hop =>
    have hnot : op ≠ .not := by
      rintro rfl
      cases hop
    simp only [expr, if_neg hnot]
    exact hoperand _
  | after m' op =>
    rw [expr]
    exact hoperand _

/-! ### Programs that end with a write -/

/-- A statement that declares nothing does not take part in the declarations. -/
lemma openClasses_concat {s : Stmt} (hs : s.isClass = false) (scope : ScopeId) (ss : List Stmt)
    (cs : List ClassId) :
    openClasses scope (ss ++ [s]) cs = openClasses scope ss cs >>= fun r => pure (r ++ [s]) := by
  induction ss generalizing cs with
  | nil => simp [openClasses, openClass_eq_pure hs]
  | cons s' ss ih =>
    simp only [List.cons_append, openClasses, ih, bind_assoc, pure_bind]

lemma bindFunctions_concat {s : Stmt} (hs : s.isFunction = false) (scope : ScopeId)
    (ss : List Stmt) :
    bindFunctions scope (ss ++ [s]) = bindFunctions scope ss >>= fun r => pure (r ++ [s]) := by
  have houtline (kind : FrameKind) : outline scope kind s = pure s := by
    cases s <;> first | rfl | cases hs
  have hbinding : functionBinding? s = none := by
    cases s <;> first | rfl | cases hs
  simp [bindFunctions, List.mapM_append, houtline, List.filterMap_append, hbinding]

lemma announce_concat {s : Stmt} (hs : s.isDeclaration = false) (scope : ScopeId)
    (ss : List Stmt) :
    announce scope (ss ++ [s]) = announce scope ss >>= fun r => pure (r ++ [s]) := by
  obtain ⟨hcls, hfunc⟩ := Bool.or_eq_false_iff.mp hs
  simp [announce, registerClasses, List.filterMap_append, classHead?_eq_none hcls,
    openClasses_concat hcls, bindFunctions_concat hfunc]

lemma stmts_concat (scope : ScopeId) (ss : List Stmt) (s : Stmt) :
    stmts scope (ss ++ [s]) = do
      let r ← stmts scope ss
      let s ← stmt scope s
      return r ++ [s] := by
  induction ss with
  | nil => simp [stmts]
  | cons s' ss ih => simp [stmts, ih]

/-- The last statement of a program, if it declares nothing, is looked at after all others. -/
lemma program_concat {s : Stmt} (hs : s.isDeclaration = false) (p : Program) :
    program { p with stmts := p.stmts ++ [s] } = do
      let ss ← announce .root p.stmts
      let ss ← ss.mapM classFields
      let ss ← stmts .root ss
      let s ← stmt .root s
      note (.walkCompleted (ss.length + 1))
      return { p with stmts := ss ++ [s] } := by
  have hfields : classFields s = pure s := classFields_eq_pure (Bool.or_eq_false_iff.mp hs).1
  simp [program, announce_concat hs, stmts_concat, List.mapM_append, hfields]

end Check

/-- The statement writes to the length of the value. -/
inductive Stmt.SetsLength (o : Expr) : Stmt → Prop where
  | assign (span : Span) (m m' : Mark) (v : Float) :
      SetsLength o (.assign span (.member m o "length") (.number m' v))
  | step {m : Mark} {e : Expr} (h : e.Steps (.member m o "length")) : SetsLength o (.expr e)

namespace Check

lemma exists_stmt_of_setsLength {scope : ScopeId} {σ τ : Session} {o o' : Expr} {s : Stmt}
    (ho : Gives (expr scope o) σ o' τ) (h : τ.types.hasLength o'.type = true)
    (hs : s.SetsLength o) : ∃ s' υ, Gives (stmt scope s) σ s' υ := by
  cases hs with
  | assign span m m' v =>
    have hv : Gives (expr scope (.number m' v)) σ (.number (m'.typed .number) v) σ := by
      rw [expr]
      exact gives_pure.mpr ⟨rfl, rfl⟩
    exact (gives_assign_length span hv ho h).mpr ⟨rfl, Or.inl rfl⟩
  | step he =>
    obtain ⟨e', υ, he'⟩ := (gives_step_length ho h he).mpr rfl
    refine ⟨.expr e', υ, ?_⟩
    rw [stmt]
    exact gives_bind.mpr ⟨e', υ, he', gives_pure.mpr ⟨rfl, rfl⟩⟩

/-- A last statement that reads a value may be replaced by one that writes to its length. -/
lemma exists_program_of_setsLength {σ Ω : Session} {p q : Program} {o o' : Expr} {s : Stmt}
    {before : List Stmt}
    (hrun : Gives (program { p with stmts := p.stmts ++ [.expr o] }) σ q Ω)
    (hq : q.stmts = before ++ [.expr o']) (h : Ω.types.hasLength o'.type = true)
    (hs : s.SetsLength o) :
    ∃ q' Ω', Gives (program { p with stmts := p.stmts ++ [s] }) σ q' Ω' := by
  rw [program_concat rfl] at hrun
  simp only [gives_bind, gives_note, gives_pure, stmt] at hrun
  obtain ⟨ss1, σ1, h1, ss2, σ2, h2, ss3, σ3, h3, _, σ4, ⟨o1, _, ho, rfl, rfl⟩, _, _,
    rfl, rfl, rfl⟩ := hrun
  obtain ⟨rfl, hlast⟩ := List.append_inj' hq rfl
  cases hlast
  obtain ⟨s', υ, hs'⟩ := exists_stmt_of_setsLength ho h hs
  have hdecl : s.isDeclaration = false := by
    cases hs <;> rfl
  rw [program_concat hdecl]
  simp only [gives_bind, gives_note, gives_pure]
  exact ⟨_, _, ss1, σ1, h1, ss2, σ2, h2, _, σ3, h3, s', υ, hs', (), _, rfl, rfl, rfl⟩

end Check

/-! ### Writes in programs -/

/-- What a node writes to: the target of an assignment, the operand of `++` or `--`. -/
def Node.written? : Node → Option Expr
  | .stmt (.assign _ target _) => some target
  | .expr (.unary _ op e) => if op.writes then some e else none
  | .expr (.step _ _ e) => some e
  | _ => none

lemma Node.mem_nodes_of_written? {n : Node} {e : Expr} (h : n.written? = some e) :
    .expr e ∈ n.nodes := by
  have hself := e.mem_nodes_self
  unfold Node.written? at h
  split at h
  · cases h
    exact List.mem_cons_of_mem _ (List.mem_append_left _ hself)
  · split at h
    · cases h
      exact List.mem_cons_of_mem _ hself
    · cases h
  · cases h
    exact List.mem_cons_of_mem _ hself
  · cases h

lemma Analysis.memberChecks_of_hasLength {a : Analysis} {id t : TypeId} {name : String}
    (h : a.types.hasLength id = true) (hchecks : a.MemberChecks id name t) :
    name = "length" ∧ t = .number := by
  have hmember : a.types.builtinMember? id name = some t := by
    unfold Analysis.MemberChecks at hchecks
    rcases TypeTable.hasLength_iff.mp h with hf | ⟨e, hf⟩ | ⟨k, v, hf⟩ <;> rwa [hf] at hchecks
  rw [TypeTable.builtinMember?_of_hasLength h] at hmember
  split at hmember
  · cases hmember
    exact ⟨‹_›, rfl⟩
  · cases hmember

/-- **Lengths can be written to.** Where an accepted program writes to a member of a string, an
array or a dictionary, by an assignment or by `++` or `--`, the member is `length` of type `Number`,
and what is assigned to it is a number as far as is known. This is all that is asked: at every place
and in every session such a write passes exactly if it is to `length` and of a number, so that a
program which ends with such a value is also accepted when it ends with a write to its length. -/
theorem lengths_written (p : Program) (scope : ScopeId) (σ : Session) :
    (∀ q a, analyze p = .ok (q, a) → ∀ n ∈ q.nodes, ∀ m o name,
      n.written? = some (.member m o name) → a.types.hasLength o.type = true →
        name = "length" ∧ m.type = some .number ∧
        ∀ span t v, n = .stmt (.assign span t v) → v.type = .number ∨ v.type = .any) ∧
    (∀ τ υ span m o o' name v v', Gives (Check.expr scope v) σ v' τ →
      Gives (Check.expr scope o) τ o' υ → υ.types.hasLength o'.type = true →
        ((∃ s ω, Gives (Check.stmt scope (.assign span (.member m o name) v)) σ s ω) ↔
          name = "length" ∧ (v'.type = .number ∨ v'.type = .any))) ∧
    (∀ τ m o o' name e, Gives (Check.expr scope o) σ o' τ →
      τ.types.hasLength o'.type = true → Expr.Steps e (.member m o name) →
        ((∃ e' ω, Gives (Check.expr scope e) σ e' ω) ↔ name = "length")) ∧
    ∀ o q a, analyze { p with stmts := p.stmts ++ [.expr o] } = .ok (q, a) →
      ∀ before o', q.stmts = before ++ [.expr o'] → a.types.hasLength o'.type = true →
        ∀ s, Stmt.SetsLength o s →
          ∃ q' a', analyze { p with stmts := p.stmts ++ [s] } = .ok (q', a') := by
  refine ⟨fun q a h n hn m o name hwritten hlength => ?_,
    fun τ υ span m o o' name v v' hv ho h => Check.gives_assign_length span hv ho h,
    fun τ m o o' name e ho h he => Check.gives_step_length ho h he,
    fun o q a h before o' hq hlength s hs => ?_⟩
  · -- what is written to is a node of the program and passes its check, so the member is a length
    obtain ⟨Ω, hrun, rfl⟩ := analyze_eq_ok.mp h
    have hchecks := Check.settled_program (Session.consistent_start _) hrun
    have hmember := Program.nodes_subset hn (Node.mem_nodes_of_written? hwritten)
    obtain ⟨t, ht, htype⟩ : ∃ t, m.type = some t ∧ _ := hchecks _ hmember
    obtain ⟨rfl, rfl⟩ := Analysis.memberChecks_of_hasLength hlength htype
    refine ⟨rfl, ht, fun span t v hassign => ?_⟩
    subst hassign
    cases hwritten
    have hfits := (hchecks _ hn).2
    rw [show (Expr.member m o "length").type = .number by
      rw [Expr.type, Expr.mark, ht, Option.getD_some]] at hfits
    exact TypeTable.assignable_number.mp hfits
  · -- the two programs run alike up to the last statement
    obtain ⟨Ω, hrun, rfl⟩ := analyze_eq_ok.mp h
    obtain ⟨q', Ω', hrun'⟩ := Check.exists_program_of_setsLength hrun hq hlength hs
    refine ⟨q', Ω'.analysis, analyze_eq_ok.mpr ⟨Ω', ?_, rfl⟩⟩
    simpa using hrun'

/-- A word, followed by one more statement. -/
def worded (last : Stmt) : Program where
  stmts := [.var { name := "word" } (some (.string {} "abc")), last]

def stretch (number string : Mark) : Stmt :=
  .assign {} (.member number (.name string "word") "length") (.number number 5)

/-- The length of a string can be assigned to in an accepted program. -/
theorem stretch_accepted : ∃ q a, analyze (worded (stretch {} {})) = .ok (q, a) ∧
    ∃ n ∈ q.nodes, ∃ m o name, n.written? = some (.member m o name) ∧
      a.types.form? o.type = some .string := by
  refine ⟨_, _, by with_unfolding_all rfl, .stmt (stretch ⟨{}, some .number⟩ ⟨{}, some .string⟩),
    ?_, _, _, _, rfl, rfl⟩
  with_unfolding_all exact .tail _ (.tail _ (.head _))

/-- The assignment in the accepted program is to a `length` of type `Number`, and `++` may stand in
its place, since a program that ends with the word is accepted. -/
theorem lengths_written_word :
    (∃ q a, analyze (worded (stretch {} {})) = .ok (q, a) ∧ ∃ n ∈ q.nodes, ∃ m o name,
      n.written? = some (.member m o name) ∧ a.types.hasLength o.type = true ∧
      name = "length" ∧ m.type = some .number) ∧
    ∃ q a, analyze (worded (.expr (.unary {} .increment
      (.member {} (.name {} "word") "length")))) = .ok (q, a) := by
  constructor
  · obtain ⟨q, a, h, n, hn, m, o, name, hwritten, ho⟩ : ∃ q a,
        analyze (worded (stretch {} {})) = .ok (q, a) ∧ ∃ n ∈ q.nodes, ∃ m o name,
          n.written? = some (.member m o name) ∧ a.types.hasLength o.type = true := by
      refine ⟨_, _, by with_unfolding_all rfl,
        .stmt (stretch ⟨{}, some .number⟩ ⟨{}, some .string⟩), ?_, _, _, _, rfl, rfl⟩
      with_unfolding_all exact .tail _ (.tail _ (.head _))
    obtain ⟨hwrites, -⟩ := lengths_written (worded (stretch {} {})) .root {}
    obtain ⟨hname, htype, -⟩ := hwrites q a h n hn m o name hwritten ho
    exact ⟨q, a, h, n, hn, m, o, name, hwritten, ho, hname, htype⟩
  · obtain ⟨q, a, before, h, hq⟩ : ∃ q a before, analyze (worded (.expr (.name {} "word"))) =
        .ok (q, a) ∧ q.stmts = before ++ [.expr (.name ⟨{}, some .string⟩ "word")] :=
      ⟨_, _, [_], by with_unfolding_all rfl, by with_unfolding_all rfl⟩
    obtain ⟨-, -, -, hreads⟩ :=
      lengths_written { stmts := [.var { name := "word" } (some (.string {} "abc"))] } .root {}
    exact hreads _ q a h before _ hq rfl _ (.step (.before {} rfl _))

end MiddleEnd
