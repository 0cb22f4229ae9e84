import MiddleEnd.Proofs.Check.AllowedChanges
import MiddleEnd.Proofs.Check.Stale
import MiddleEnd.Proofs.Link.Steps

/-!
Nothing leaks out of nested constructs. Arms of conditionals, loops and lambdas declare their names
in scopes that are opened for them; so looking at an expression, or at a statement that is not a
declaration, only adds scopes behind those that are there, however it ends. A variable declaration
adds one name to its own scope, and only if it succeeds. No session is excluded.
-/

namespace MiddleEnd

variable {α : Type} {base σ τ : Session} {scope : ScopeId}

/-! ### Scopes behind those that are there -/

/-- The scopes of `base` are as they were, and the others come after them. -/
def Session.Sealed (base σ : Session) : Prop := base.scopes.scopes <+: σ.scopes.scopes

def Session.Beyond (base : Session) (id : ScopeId) : Prop := base.scopes.size ≤ id.index

namespace Scopes

variable {s t : Scopes} {id : ScopeId}

lemma scope?_before (h : s.scopes <+: t.scopes) (hid : id.index < s.size) :
    t.scope? id = s.scope? id := by
  obtain ⟨more, hmore⟩ := h
  rw [scope?, ← hmore, List.getElem?_append_left hid, scope?]

/-- What a name stands for at a place does not depend on scopes that come later. -/
lemma lookup_before (h : s.scopes <+: t.scopes) (hid : id.index < s.size) (name : String) :
    t.lookup id name = s.lookup id name := by
  have hext : s.Extends t :=
    ⟨fun {i sc} hsc => ⟨sc, (scope?_before h (lt_size hsc)).trans hsc, .refl sc⟩⟩
  have hat : ∀ i ∈ s.chain id, t.bindingAt? name i = s.bindingAt? name i := fun i hi => by
    have hlt := Nat.lt_of_le_of_lt (index_le_of_mem_chain hi) hid
    rw [bindingAt?, scope?_before h hlt, bindingAt?]
  rw [lookup, hext.chain hid, lookup]
  generalize s.chain id = l at hat
  induction l with
  | nil => rfl
  | cons i l ih =>
    rw [List.forall_mem_cons] at hat
    rw [List.findSome?_cons, List.findSome?_cons, hat.1, ih hat.2]

/-- A scope that was there before gets the name, and the others stay as they are. -/
lemma prefix_declare {u : Scopes} {b : Binding} {span : Span}
    (h : s.scopes <+: t.scopes) (hid : id.index < s.size)
    (hdeclare : t.declare id b span = .ok u) :
    ∃ sc, s.scope? id = some sc ∧ sc.bindings.find? b.name = none ∧
      s.scopes.set id.index { sc with bindings := sc.bindings.insert b } <+: u.scopes := by
  obtain ⟨sc, hsc, hnone, rfl⟩ := declare_eq_ok hdeclare
  refine ⟨sc, (scope?_before h hid).symm.trans hsc, hnone, ?_⟩
  obtain ⟨more, hmore⟩ := h
  rw [← hmore, List.set_append_left _ _ hid]
  exact List.prefix_append _ _

end Scopes

/-! ### The walk -/

/-- The scopes of `base` are left alone: names are declared in new scopes only. -/
def Session.sealing (base : Session) : AllowedChanges where
  rel _ τ := base.Sealed τ
  sees _ := True
  works := base.Beyond
  holds _ := True
  owns _ := True
  binds _ := True
  opens _ := True
  given s := s.isDeclaration = false
  lasting := ⟨fun _ h => h, id⟩
  seen _ := trivial
  value _ := trivial
  settled _ := trivial
  event h _ := h
  call h _ := h
  type h _ := h
  frame h _ := ⟨h, trivial⟩
  inner h _ _ _ hopen := by
    obtain ⟨outer, -, rfl⟩ := Scopes.openIn_eq_ok hopen
    exact ⟨h.trans (List.prefix_append _ _), h.length_le⟩
  around _ _ _ _ := trivial
  settle h _ := h
  name {σ id b span larger} h hid _ hdeclare := by
    obtain ⟨s, -, -, hset⟩ := Scopes.declare_eq_ok hdeclare
    obtain ⟨more, hmore⟩ := h
    rw [Session.Sealed, hset, ← hmore, List.set_append_right _ _ hid]
    exact List.prefix_append _ _
  member _ h _ _ _ := h
  close h _ _ := h
  plain := Rule.isDeclaration_of_blockStmt
  func h := by cases h
  ctor h := by cases h
  body h := by cases h
  members h := by cases h
  cls h := by cases h
  renew h := by cases h

/-! ### Variables -/

namespace Check

lemma declare_ends (scope : ScopeId) (b : Binding) (span : Span) (σ : Session) :
    (∃ f, (declare scope b span).run.run σ = (.error f, σ)) ∨
      ∃ τ, Gives (declare scope b span) σ () τ ∧
        σ.scopes.declare scope b span = .ok τ.scopes := by
  cases hlarger : σ.scopes.declare scope b span with
  | error f =>
    obtain ⟨r, hr⟩ : ∃ r, (owner? scope).run.run σ = (r, σ) := by
      show ∃ r, (rule (σ.scopes.scope scope) >>= _).run.run σ = (r, σ)
      cases σ.scopes.scope scope <;> exact ⟨_, rfl⟩
    rw [declare, run_bind, hr]
    cases r with
    | error f' => exact Or.inl ⟨f', rfl⟩
    | ok owner =>
      refine Or.inl ⟨f, ?_⟩
      show (rule (σ.scopes.declare scope b span) >>= _).run.run σ = _
      rw [hlarger]
      rfl
  | ok larger =>
    obtain ⟨s, hs, hb, -⟩ := Scopes.declare_eq_ok hlarger
    obtain ⟨τ, hτ⟩ := exists_declare hs hb span
    obtain ⟨larger', hlarger', hsession⟩ := session_of_declare hτ
    obtain rfl : larger = larger' := Except.ok.inj (hlarger.symm.trans hlarger')
    refine Or.inr ⟨τ, hτ, ?_⟩
    rcases hsession with rfl | ⟨c, rfl⟩ <;> rfl

/-- How the declaration of a variable ends, if all that has happened before to the scopes of `base`
is that others have come after them. -/
def VarEnds (base : Session) (scope : ScopeId) (head : VarHead)
    (r : Except Fault (VarHead × Option Expr) × Session) : Prop :=
  (∃ f τ, r = (.error f, τ) ∧ base.Sealed τ) ∨
    ∃ t init υ τ, r = (.ok ({ head with type := some t }, init), τ) ∧ base.Sealed υ ∧
      υ.scopes.declare scope (.ofVariable head.name t) head.span = .ok τ.scopes

/-- The declaration comes after a step that leaves the scopes alone. -/
lemma VarEnds.after {x : Check α} {k : α → Check (VarHead × Option Expr)} {head : VarHead}
    {post : α → Prop} (hx : Follows base.sealing.rel x post) (hσ : base.Sealed σ)
    (hk : ∀ a τ, base.Sealed τ → VarEnds base scope head ((k a).run.run τ)) :
    VarEnds base scope head ((x >>= k).run.run σ) := by
  have hτ := (hx.leads hσ).changes
  rw [run_bind]
  rcases hrun : x.run.run σ with ⟨f | a, τ⟩
  · rw [hrun] at hτ
    exact Or.inl ⟨f, τ, rfl, hτ⟩
  · rw [hrun] at hτ
    exact hk a τ hτ

lemma varEnds_declareVar (head : VarHead) (declared : Option TypeId) (init init' : Option Expr)
    (hσ : base.Sealed σ) : VarEnds base scope head
      ((declareVar scope head declared init >>= fun h => pure (h, init')).run.run σ) := by
  have declares (t : TypeId) (τ : Session) (hτ : base.Sealed τ) : VarEnds base scope head ((do
      declare scope (.ofVariable head.name t) head.span
      return ({ head with type := some t }, init')).run.run τ) := by
    rw [run_bind]
    rcases declare_ends scope (.ofVariable head.name t) head.span τ with ⟨f, hf⟩ | ⟨υ, hυ, hlarger⟩
    · rw [hf]
      exact Or.inl ⟨f, τ, rfl, hτ⟩
    · rw [show (declare scope _ head.span).run.run τ = _ from hυ]
      exact Or.inr ⟨t, init', τ, υ, rfl, hτ, hlarger⟩
  unfold declareVar
  split
  · have htypes : Follows base.sealing.rel types fun _ => True := ⟨fun h => ⟨h, fun _ => trivial⟩⟩
    have hrule {r : Except Fault Unit} : Follows base.sealing.rel (rule r) fun _ => True :=
      ⟨fun h => .rule h fun _ _ => trivial⟩
    simp only [bind_assoc, pure_bind]
    exact .after htypes hσ fun _ τ hτ => .after hrule hτ fun _ τ hτ => declares _ τ hτ
  · simp only [bind_assoc, pure_bind]
    exact declares _ σ hσ

/-- A variable is declared after its written type and its initial value have been looked at. -/
lemma varEnds_var (scope : ScopeId) (head : VarHead) (init : Option Expr) (σ : Session) :
    VarEnds σ scope head ((var scope head init).run.run σ) := by
  cases init with
  | none =>
    rw [var]
    exact .after follows_typeOf? (List.prefix_refl _) fun _ τ hτ => varEnds_declareVar head _ _ _ hτ
  | some e =>
    rw [var]
    exact .after follows_typeOf? (List.prefix_refl _) fun _ τ hτ =>
      .after (exprFollows e trivial) hτ fun _ τ hτ => varEnds_declareVar head _ _ _ hτ

end Check

/-- **Nothing leaks out of nested constructs.** Whatever the session and however it ends, looking at
an expression or at a statement that declares nothing leaves all scopes as they are and only adds
further ones, so that every name stands for the same as before at every place that was there. A
variable that cannot be declared leaves no trace in the scopes either, and one that is declared is a
new name in its own scope and in no other. -/
theorem nested_scopes_sealed (σ : Session) (scope : ScopeId) :
    (∀ e, σ.Sealed ((Check.expr scope e).on σ).2) ∧
    (∀ s : Stmt, s.isDeclaration = false → s.isVar = false →
      σ.Sealed ((Check.stmt scope s).on σ).2) ∧
    (∀ head init f τ, (Check.stmt scope (.var head init)).on σ = (.error f, τ) → σ.Sealed τ) ∧
    (∀ head init s τ, scope.index < σ.scopes.size →
      (Check.stmt scope (.var head init)).on σ = (.ok s, τ) →
      ∃ t init' sc, s = .var { head with type := some t } init' ∧
        σ.scopes.scope? scope = some sc ∧ sc.bindings.find? head.name = none ∧
        σ.scopes.scopes.set scope.index
          { sc with bindings := sc.bindings.insert (.ofVariable head.name t) } <+:
            τ.scopes.scopes) ∧
    ∀ id name, id.index < σ.scopes.size →
      (∀ e, ((Check.expr scope e).on σ).2.scopes.lookup id name = σ.scopes.lookup id name) ∧
      ∀ s : Stmt, s.isDeclaration = false → s.isVar = false →
        ((Check.stmt scope s).on σ).2.scopes.lookup id name = σ.scopes.lookup id name := by
  have hexpr (e : Expr) : σ.Sealed ((Check.expr scope e).on σ).2 :=
    ((Check.exprFollows (C := σ.sealing) e trivial).leads (List.prefix_refl _)).changes
  have hstmt (s : Stmt) (hdecl : s.isDeclaration = false) (hvar : s.isVar = false) :
      σ.Sealed ((Check.stmt scope s).on σ).2 :=
    ((Check.stmtFollows (C := σ.sealing) s trivial (by simp [hvar]) hdecl).leads
      (List.prefix_refl _)).changes
  refine ⟨hexpr, hstmt, fun head init f τ hrun => ?_, fun head init s τ hscope hrun => ?_,
    fun id name hid => ⟨fun e => Scopes.lookup_before (hexpr e) hid name,
      fun s hdecl hvar => Scopes.lookup_before (hstmt s hdecl hvar) hid name⟩⟩
  · -- a declaration that fails has only added scopes
    have hends := Check.varEnds_var scope head init σ
    rw [Check.on, Check.stmt, run_bind] at hrun
    rcases hends with ⟨f, υ, hvar, hsealed⟩ | ⟨t, init', υ, υ', hvar, -⟩
    · rw [hvar] at hrun
      cases hrun
      exact hsealed
    · rw [hvar] at hrun
      cases hrun
  · -- one that succeeds adds the name last, when the value has been checked
    have hends := Check.varEnds_var scope head init σ
    rw [Check.on, Check.stmt, run_bind] at hrun
    rcases hends with ⟨f, υ, hvar, -⟩ | ⟨t, init', υ, υ', hvar, hsealed, hdeclare⟩
    · rw [hvar] at hrun
      cases hrun
    · rw [hvar] at hrun
      cases hrun
      obtain ⟨sc, hsc, hnone, hset⟩ := Scopes.prefix_declare hsealed hscope hdeclare
      exact ⟨t, init', sc, rfl, hsc, hnone, hset⟩

/-- A loop whose variable and whose inner block shadow a function of the language; its last
statement uses a name that nothing declares. -/
def shadowing : Stmt :=
  .forLoop {} (some ({ name := "print" }, some (.number {} 1))) none none
    [.ifElse {} (.boolean {} true)
      [.var { name := "abs" } (some (.exprLambda {} { params := [{ name := "sqrt" }] }
        (.name {} "sqrt")))] .done,
      .expr (.name {} "nowhere")]

/-- The names that `shadowing` declares do not stay, although it fails; a lambda leaves its variable
as the only new name. -/
theorem nested_scopes_sealed_shadowing :
    let σ : Session := {}
    (∃ f τ, (Check.stmt .root shadowing).on σ = (.error f, τ) ∧ τ.scopes.size = 4) ∧
    σ.Sealed ((Check.stmt .root shadowing).on σ).2 ∧
    ((Check.stmt .root shadowing).on σ).2.scopes.lookup .root "print" =
      σ.scopes.lookup .root "print" ∧
    ∃ s τ, (Check.stmt .root (.var { name := "root" } (some (.exprLambda {}
        { params := [{ name := "sqrt" }] } (.name {} "sqrt"))))).on σ = (.ok s, τ) ∧
      ∃ t sc, σ.scopes.scope? .root = some sc ∧ sc.bindings.find? "root" = none ∧
        σ.scopes.scopes.set 0
          { sc with bindings := sc.bindings.insert (.ofVariable "root" t) } <+:
            τ.scopes.scopes := by
  intro σ
  obtain ⟨-, hstmt, -, hvar, hlookup⟩ := nested_scopes_sealed σ .root
  have hroot : ScopeId.root.index < σ.scopes.size := by decide
  have hfails : ((Check.stmt .root shadowing).on σ).1.toOption.isNone = true ∧
      ((Check.stmt .root shadowing).on σ).2.scopes.size = 4 := by decide +kernel
  refine ⟨?_, hstmt shadowing rfl rfl, (hlookup .root "print" hroot).2 shadowing rfl rfl, ?_⟩
  · rcases h : (Check.stmt .root shadowing).on σ with ⟨f | s, τ⟩
    · exact ⟨f, τ, rfl, by simpa [h] using hfails.2⟩
    · simp [h, Except.toOption] at hfails
  obtain ⟨s, τ, hrun⟩ : ∃ s τ, (Check.stmt .root (.var { name := "root" } (some (.exprLambda {}
      { params := [{ name := "sqrt" }] } (.name {} "sqrt"))))).on σ = (.ok s, τ) :=
    ⟨_, _, by with_unfolding_all rfl⟩
  obtain ⟨t, -, sc, -, hsc, hnone, hset⟩ := hvar _ _ s τ hroot hrun
  exact ⟨s, τ, hrun, t, sc, hsc, hnone, hset⟩

end MiddleEnd
