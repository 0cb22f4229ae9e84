import MiddleEnd.Proofs.Check.Changes
import MiddleEnd.Proofs.Check.Stale

/-!
Lambdas give back for themselves. Nothing is promised for the value of a lambda, so that a return in
it is no more to the analysis than the value that it gives back: with all these returns taken away
the analysis has the same outcome. In particular they do not count for the function around the
lambda, and they are not compared with what it promises.
-/

namespace MiddleEnd

variable {α β : Type} {scope : ScopeId} {σ τ : Session}

mutual
/-- The expression, where values in lambdas are computed and not given back. -/
@[simp] def Expr.hushed : Expr → Expr
  | .number m v => .number m v
  | .string m v => .string m v
  | .boolean m v => .boolean m v
  | .null m => .null m
  | .name m n => .name m n
  | .self m => .self m
  | .binary m op l r => .binary m op l.hushed r.hushed
  | .unary m op e => .unary m op e.hushed
  | .step m op e => .step m op e.hushed
  | .ternary m c y n => .ternary m c.hushed y.hushed n.hushed
  | .call m f args target => .call m f.hushed (Expr.hushedList args) target
  | .member m o n => .member m o.hushed n
  | .subscript m o i => .subscript m o.hushed i.hushed
  | .array m es => .array m (Expr.hushedList es)
  | .dictionary m es => .dictionary m (Expr.hushedEntries es)
  | .blockLambda m head block body => .blockLambda m head block (Stmt.hushedList true body)
  | .exprLambda m head body => .exprLambda m head body.hushed

@[simp] def Expr.hushedList : List Expr → List Expr
  | [] => []
  | e :: es => e.hushed :: Expr.hushedList es

@[simp] def Expr.hushedEntries : List (Expr × Expr) → List (Expr × Expr)
  | [] => []
  | (k, v) :: es => (k.hushed, v.hushed) :: Expr.hushedEntries es

@[simp] def Expr.hushedOption : Option Expr → Option Expr
  | none => none
  | some e => some e.hushed

@[simp] def Expr.hushedInit : Option (VarHead × Option Expr) → Option (VarHead × Option Expr)
  | none => none
  | some (head, e) => some (head, Expr.hushedOption e)

/-- The same for a statement, which stands in a lambda or not. -/
@[simp] def Stmt.hushed (inLambda : Bool) : Stmt → Stmt
  | .var head init => .var head (Expr.hushedOption init)
  | .assign span t v => .assign span t.hushed v.hushed
  | .func head body => .func head (Stmt.hushedList false body)
  | .cls head ms => .cls head (Stmt.hushedList false ms)
  | .ctor head body => .ctor head (Stmt.hushedList false body)
  | .ifElse x c body rest =>
    .ifElse x c.hushed (Stmt.hushedList inLambda body) (rest.hushed inLambda)
  | .whileLoop x c body => .whileLoop x c.hushed (Stmt.hushedList inLambda body)
  | .forLoop x init c update body =>
    .forLoop x (Expr.hushedInit init) (Expr.hushedOption c) (Stmt.hushedUpdate inLambda update)
      (Stmt.hushedList inLambda body)
  | .ret span none => .ret span none
  | .ret span (some e) => if inLambda then .expr e.hushed else .ret span (some e.hushed)
  | .brk span => .brk span
  | .expr e => .expr e.hushed

@[simp] def Stmt.hushedUpdate (inLambda : Bool) : Option Stmt → Option Stmt
  | none => none
  | some s => some (s.hushed inLambda)

@[simp] def Stmt.hushedList (inLambda : Bool) : List Stmt → List Stmt
  | [] => []
  | s :: ss => s.hushed inLambda :: Stmt.hushedList inLambda ss

@[simp] def Chain.hushed (inLambda : Bool) : Chain → Chain
  | .done => .done
  | .elseIf x c body rest =>
    .elseIf x c.hushed (Stmt.hushedList inLambda body) (rest.hushed inLambda)
  | .otherwise block body => .otherwise block (Stmt.hushedList inLambda body)
end

/-- The program without the returns that give back a value from a lambda. -/
def Program.hushed (p : Program) : Program := { p with stmts := Stmt.hushedList false p.stmts }

/-! ### What rules see -/

@[simp] lemma Expr.mark_hushed (e : Expr) : e.hushed.mark = e.mark := by cases e <;> rfl

@[simp] lemma Expr.type_hushed (e : Expr) : e.hushed.type = e.type := by
  rw [Expr.type, mark_hushed, Expr.type]

@[simp] lemma Expr.span_hushed (e : Expr) : e.hushed.span = e.span := by
  rw [Expr.span, mark_hushed, Expr.span]

@[simp] lemma Expr.isTarget_hushed (e : Expr) : e.hushed.isTarget = e.isTarget := by
  cases e <;> rfl

lemma Expr.hushed_typed (e : Expr) (t : TypeId) : (e.typed t).hushed = e.hushed.typed t := by
  cases e <;> rfl

lemma Expr.hushedList_eq_map (es : List Expr) : hushedList es = es.map hushed := by
  induction es with
  | nil => rfl
  | cons e es ih => rw [hushedList, List.map_cons, ih]

lemma Expr.hushedEntries_eq_map (es : List (Expr × Expr)) :
    hushedEntries es = es.map (Prod.map hushed hushed) := by
  induction es with
  | nil => rfl
  | cons e es ih => rw [hushedEntries, List.map_cons, ih, Prod.map]

lemma Stmt.hushedList_eq_map (b : Bool) (ss : List Stmt) : hushedList b ss = ss.map (hushed b) := by
  induction ss with
  | nil => rfl
  | cons s ss ih => rw [hushedList, List.map_cons, ih]

@[simp] lemma Stmt.isVar_hushed (b : Bool) (s : Stmt) : (s.hushed b).isVar = s.isVar := by
  cases s with
  | ret span v => cases v <;> cases b <;> rfl
  | _ => rfl

@[simp] lemma Stmt.isClass_hushed (b : Bool) (s : Stmt) : (s.hushed b).isClass = s.isClass := by
  cases s with
  | ret span v => cases v <;> cases b <;> rfl
  | _ => rfl

@[simp] lemma Expr.map_type_hushedList (es : List Expr) :
    (hushedList es).map Expr.type = es.map Expr.type := by
  rw [hushedList_eq_map, List.map_map]
  exact List.map_congr_left fun e _ => e.type_hushed

lemma Expr.map_type_hushedEntries (es : List (Expr × Expr)) :
    (hushedEntries es).map (·.1.type) = es.map (·.1.type) ∧
      (hushedEntries es).map (·.2.type) = es.map (·.2.type) := by
  rw [hushedEntries_eq_map, List.map_map, List.map_map]
  exact ⟨List.map_congr_left fun e _ => e.1.type_hushed,
    List.map_congr_left fun e _ => e.2.type_hushed⟩

namespace Rule

variable {t : TypeTable} {e : Expr} {args : List Expr}

lemma assignable_hushed (target : TypeId) (cause : Option Cause) :
    assignable t e.hushed target cause = assignable t e target cause := by
  simp only [assignable, Expr.type_hushed, Expr.span_hushed]

lemma number_hushed (cause : Cause) : number e.hushed cause = number e cause := by
  simp only [number, Expr.type_hushed, Expr.span_hushed]

lemma boolean_hushed (role : String) : boolean e.hushed role = boolean e role := by
  simp only [boolean, Expr.type_hushed, Expr.span_hushed]

lemma collection_hushed : collection t e.hushed = collection t e := by
  simp only [collection, Expr.type_hushed, Expr.span_hushed]

lemma arguments_hushed (params : List TypeId) (span : Span) :
    arguments t (Expr.hushedList args) params span = arguments t args params span := by
  simp only [arguments, Expr.hushedList_eq_map, List.length_map, List.zip_map_left]
  refine bind_congr fun _ => ?_
  generalize args.zip params = pairs
  induction pairs with
  | nil => rfl
  | cons pair pairs ih =>
    show (assignable t pair.1.hushed pair.2 >>= fun _ => List.forM _ _) =
      (assignable t pair.1 pair.2 >>= fun _ => List.forM _ _)
    rw [assignable_hushed, ih]

lemma overload_hushed (overloads : List (List TypeId)) (cls : String) (span : Span) :
    overload t (Expr.hushedList args) overloads cls span = overload t args overloads cls span := by
  have hlength : (Expr.hushedList args).length = args.length := by
    rw [Expr.hushedList_eq_map, List.length_map]
  have hfits : fits t (Expr.hushedList args) = fits t args := by
    funext params
    simp only [fits, Expr.hushedList_eq_map, List.zip_map_left, List.all_map]
    refine congrArg (List.all _) (funext fun pair => ?_)
    simp only [Function.comp, Prod.map, Expr.type_hushed, id]
  simp only [overload, hlength, Expr.map_type_hushedList, hfits]

lemma blockStmt_hushed (b : Bool) (s : Stmt) : blockStmt (s.hushed b) = blockStmt s := by
  cases s with
  | ret span v => cases v <;> cases b <;> rfl
  | _ => rfl

end Rule

namespace Call

variable {t : TypeTable} {args : List Expr} {span : Span}

lemma instantiate_hushed (c : ClassId) :
    instantiate t c (Expr.hushedList args) span = instantiate t c args span := by
  simp only [instantiate, Rule.overload_hushed]

lemma named_hushed (b : Binding) :
    named t b (Expr.hushedList args) span = named t b args span := by
  simp only [named, Rule.arguments_hushed, instantiate_hushed]

lemma member_hushed (object : TypeId) (name : String) :
    member t object name (Expr.hushedList args) span = member t object name args span := by
  simp only [member, method, Rule.arguments_hushed, instantiate_hushed]

lemma computed_hushed (f : Expr) : computed t f.hushed = computed t f := by
  simp only [computed, Expr.type_hushed, Expr.span_hushed]

end Call


/-! ### In lambdas -/

namespace Session

/-- The scope is in a lambda, or in a function that promises as little. -/
def InLambda (σ : Session) (scope : ScopeId) : Prop :=
  ∃ s f g, σ.scopes.scope? scope = some s ∧ s.frame = some f ∧ σ.scopes.frame? f = some g ∧
    g.kind ≠ .constructor ∧ g.result.isAny = true

lemma Change.frame? {outlining closing : Prop} {f : FrameId} {g : Frame}
    (h : Change outlining closing σ τ) (hg : σ.scopes.frame? f = some g) :
    ∃ g', τ.scopes.frame? f = some g' ∧ g'.kind = g.kind ∧ g'.result = g.result := by
  have same {t : Scopes} (ht : t.frame? f = σ.scopes.frame? f) :
      ∃ g', t.frame? f = some g' ∧ g'.kind = g.kind ∧ g'.result = g.result :=
    ⟨g, ht.trans hg, rfl, rfl⟩
  cases h with
  | scope h | body h => exact same (Scopes.frame?_openIn h f)
  | frame => exact ⟨g, Scopes.frame?_addFrame_of_some hg, rfl, rfl⟩
  | settle _ f' =>
    refine ⟨_, by rw [Scopes.frame?_settle, hg]; rfl, ?_⟩
    split <;> exact ⟨rfl, rfl⟩
  | name h => exact same (Scopes.frame?_declare h f)
  | _ => exact same rfl

lemma InLambda.of_trace {outlining closing : Prop} (h : σ.InLambda scope)
    (htrace : Trace outlining closing σ τ) : τ.InLambda scope := by
  induction htrace with
  | refl => exact h
  | tail _ hchange ih =>
    obtain ⟨s, f, g, hs, hf, hg, hkind, hresult⟩ := ih
    obtain ⟨s', hs', hext⟩ := (Later.of_change hchange).scopes.scope? hs
    obtain ⟨g', hg', hkind', hresult'⟩ := hchange.frame? hg
    exact ⟨s', f, g', hs', hext.frame.trans hf, hg', hkind' ▸ hkind, hresult' ▸ hresult⟩

lemma InLambda.of_gives {x : Check α} {a : α} [hx : Traced True True x] (h : σ.InLambda scope)
    (hgives : Gives x σ a τ) : τ.InLambda scope :=
  h.of_trace (hx.trace hgives)

end Session

namespace Check

open Session (InLambda)

lemma inLambda_openLambda {head head' : LambdaHead} {inner : ScopeId}
    (h : Gives (openLambda scope head) σ (inner, head') τ) : τ.InLambda inner := by
  obtain ⟨frame, σ1, h1, σ2, h2, ps, h3, rfl⟩ := h.openLambda
  obtain ⟨rfl, rfl⟩ := gives_addFrame.mp h1
  obtain ⟨-, rfl, -, hopen⟩ := quiet_of_openIn h2
  obtain ⟨s, -, hnext⟩ := Scopes.scope?_openIn hopen (σ.scopes.addFrame _).next
  rw [if_pos rfl] at hnext
  have hframe : σ2.scopes.frame? σ.scopes.nextFrame = some _ :=
    (Scopes.frame?_openIn hopen _).trans (σ.scopes.frame?_addFrame _)
  exact InLambda.of_gives ⟨_, _, _, hnext, rfl, hframe, by simp, rfl⟩ h3

/-- The branches and the body of a loop in a lambda are in the lambda. -/
lemma inLambda_openIn {kind : ScopeKind} {inner : ScopeId} (hkind : kind = .block ∨ kind = .loop)
    (h : σ.InLambda scope) (hopen : Gives (openIn scope kind) σ inner τ) : τ.InLambda inner := by
  obtain ⟨s, f, g, hs, hf, hg, hrest⟩ := h
  obtain ⟨-, rfl, -, hopen⟩ := quiet_of_openIn hopen
  obtain ⟨s', hs', hnext⟩ := Scopes.scope?_openIn hopen σ.scopes.next
  cases hs.symm.trans hs'
  rw [if_pos rfl] at hnext
  refine ⟨_, f, g, hnext, ?_, (Scopes.frame?_openIn hopen f).trans hg, hrest⟩
  rcases hkind with rfl | rfl <;> exact hf

/-- The steps do the same in this session. -/
def Same (σ : Session) (x y : Check α) : Prop := x.run.run σ = y.run.run σ

lemma Same.bind {x : Check α} {k l : α → Check β}
    (h : ∀ {a τ}, Gives x σ a τ → Same τ (k a) (l a)) : Same σ (x >>= k) (x >>= l) := by
  unfold Same
  simp only [run_bind]
  rcases hx : x.run.run σ with ⟨f | a, τ⟩
  · rfl
  · exact h hx

lemma Same.trans {x y z : Check α} (h : Same σ x y) (h' : Same σ y z) : Same σ x z :=
  Eq.trans h h'

lemma Same.symm {x y : Check α} (h : Same σ x y) : Same σ y x := Eq.symm h

lemma Same.bind_left {x y : Check α} {k : α → Check β} (h : Same σ x y) :
    Same σ (x >>= k) (y >>= k) := by
  unfold Same at h ⊢
  simp only [run_bind, h]

lemma Same.map {x y : Check α} (h : Same σ x y) (f : α → β) : Same σ (f <$> x) (f <$> y) := by
  simp only [map_eq_pure_bind]
  exact h.bind_left

lemma Same.bind_map {γ : Type} {x : Check α} {y : Check γ} {f : γ → α} {k : α → Check β}
    {l : γ → Check β} (h : Same σ x (f <$> y))
    (hk : ∀ {c τ}, Gives y σ c τ → Same τ (k (f c)) (l c)) : Same σ (x >>= k) (y >>= l) := by
  refine h.bind_left.trans ?_
  rw [bind_map_left]
  exact .bind hk

lemma Same.of_eq {x y : Check α} (h : x = y) : Same σ x y := by rw [h]; exact Eq.refl _

lemma eq_of_same {x y : Check α} (h : ∀ σ, Same σ x y) : x = y := funext h

/-- In a lambda, returning a value is no more than computing it. -/
lemma same_ret (h : σ.InLambda scope) (e : Expr) (span : Span) :
    Same σ (stmt scope (.ret span (some e)))
      (do let e ← expr scope e; return .ret span (some e)) := by
  obtain ⟨s, f, g, hs, hf, hg, hkind, hresult⟩ := h
  have hframe : Gives (returnFrame scope (some e) span) σ (f, g) σ := by
    simp only [returnFrame, gives_bind, gives_scopes, gives_rule, gives_pure]
    refine ⟨_, _, ⟨rfl, rfl⟩, f, _, ⟨Rule.inFunction_eq_ok.mpr ⟨s, hs, hf⟩, rfl⟩, g, _,
      ⟨Scopes.frame_eq_ok.mpr hg, rfl⟩, (), _, ⟨?_, rfl⟩, rfl, rfl⟩
    simp [Rule.constructorReturn, hkind]
  have hgive (e' : Expr) : giveBack f g e' = pure () := by
    unfold giveBack
    rw [if_pos hresult]
  have hrun : Same σ (returnFrame scope (some e) span) (pure (f, g)) := hframe
  rw [stmt]
  refine hrun.bind_left.trans (.of_eq ?_)
  simp only [pure_bind, hgive]

end Check

/-! ### The walk -/

/-- The walk through the expression does not notice returns in lambdas. -/
def Expr.Hushes (e : Expr) : Prop :=
  ∀ scope, Check.expr scope e.hushed = Expr.hushed <$> Check.expr scope e

/-- The walk through the statement does not notice returns in lambdas, nor its own where it stands
in a lambda. -/
def Stmt.Hushes (s : Stmt) : Prop :=
  ∀ b scope σ, (b = true → σ.InLambda scope) →
    Check.Same σ (Check.stmt scope (s.hushed b)) (Stmt.hushed b <$> Check.stmt scope s)

def Chain.Hushes (ch : Chain) : Prop :=
  ∀ b scope σ, (b = true → σ.InLambda scope) →
    Check.Same σ (Check.chain scope (ch.hushed b)) (Chain.hushed b <$> Check.chain scope ch)

namespace Check

lemma exprs_hushed {es : List Expr} (hes : ∀ e ∈ es, e.Hushes) :
    exprs scope (Expr.hushedList es) = Expr.hushedList <$> exprs scope es := by
  induction es with
  | nil => simp only [Expr.hushedList, exprs, map_pure]
  | cons e es ih =>
    rw [List.forall_mem_cons] at hes
    simp only [Expr.hushedList, exprs, hes.1 scope, ih hes.2, bind_map_left, map_bind, map_pure]

lemma entries_hushed {es : List (Expr × Expr)} (hes : ∀ e ∈ es, e.1.Hushes ∧ e.2.Hushes) :
    entries scope (Expr.hushedEntries es) = Expr.hushedEntries <$> entries scope es := by
  induction es with
  | nil => simp only [Expr.hushedEntries, entries, map_pure]
  | cons e es ih =>
    obtain ⟨k, v⟩ := e
    rw [List.forall_mem_cons] at hes
    simp only [Expr.hushedEntries, entries, hes.1.1 scope, hes.1.2 scope, ih hes.2, bind_map_left,
      map_bind, map_pure]

lemma subscriptType_hushed (t : TypeTable) (o i : Expr) :
    subscriptType t o.hushed i.hushed = subscriptType t o i := by
  simp only [subscriptType, Expr.type_hushed, Rule.assignable_hushed]

lemma returnFrame_hushed (e : Expr) (span : Span) :
    returnFrame scope (some e.hushed) span = returnFrame scope (some e) span := rfl

lemma giveBack_hushed (id : FrameId) (frame : Frame) (e : Expr) :
    giveBack id frame e.hushed = giveBack id frame e := by
  simp only [giveBack, Expr.type_hushed, Rule.assignable_hushed]

lemma declareVar_hushed (head : VarHead) (declared : Option TypeId) (e : Expr) :
    declareVar scope head declared (some e.hushed) = declareVar scope head declared (some e) := by
  cases declared <;>
    simp only [declareVar, Option.map_some, Expr.type_hushed, Rule.assignable_hushed]

lemma var_hushed {init : Option Expr} (hinit : ∀ e ∈ init, e.Hushes) (head : VarHead) :
    var scope head (Expr.hushedOption init) =
      Prod.map id Expr.hushedOption <$> var scope head init := by
  cases init with
  | none => simp only [Expr.hushedOption, var, map_bind, map_pure, Prod.map, id]
  | some e =>
    simp only [Expr.hushedOption, var, hinit e rfl scope, declareVar_hushed, bind_map_left,
      map_bind, map_pure, Prod.map, id]

lemma loopInit_hushed {init : Option (VarHead × Option Expr)}
    (hinit : ∀ i ∈ init, ∀ e ∈ i.2, e.Hushes) :
    loopInit scope (Expr.hushedInit init) = Expr.hushedInit <$> loopInit scope init := by
  rcases init with _ | ⟨head, e⟩
  · simp only [Expr.hushedInit, loopInit, map_pure]
  · simp only [Expr.hushedInit, loopInit, var_hushed (hinit _ rfl), Functor.map_map]
    rfl

lemma loopCondition_hushed {c : Option Expr} (hc : ∀ e ∈ c, e.Hushes) :
    loopCondition scope (Expr.hushedOption c) = Expr.hushedOption <$> loopCondition scope c := by
  cases c with
  | none => simp only [Expr.hushedOption, loopCondition, map_pure]
  | some e =>
    simp only [Expr.hushedOption, loopCondition, hc e rfl scope, bind_map_left,
      Rule.boolean_hushed, map_bind, map_pure]

lemma same_loopUpdate {update : Option Stmt} (hupdate : ∀ s ∈ update, s.Hushes) {b : Bool}
    (h : b = true → σ.InLambda scope) :
    Same σ (loopUpdate scope (Stmt.hushedUpdate b update))
      (Stmt.hushedUpdate b <$> loopUpdate scope update) := by
  cases update with
  | none => exact .of_eq (by simp only [Stmt.hushedUpdate, loopUpdate, map_pure])
  | some s =>
    rw [Stmt.hushedUpdate, loopUpdate, loopUpdate, Rule.blockStmt_hushed, map_bind]
    refine .bind fun {u τ} hrule => ?_
    obtain ⟨-, rfl⟩ := gives_rule.mp hrule
    have hs := (hupdate s rfl b scope _ h).map some
    refine hs.trans (.of_eq ?_)
    simp only [Functor.map_map, Stmt.hushedUpdate]

lemma same_stmts {ss : List Stmt} (hss : ∀ s ∈ ss, s.Hushes) {b : Bool}
    (h : b = true → σ.InLambda scope) :
    Same σ (stmts scope (Stmt.hushedList b ss)) (Stmt.hushedList b <$> stmts scope ss) := by
  induction ss generalizing σ with
  | nil => exact .of_eq (by simp only [Stmt.hushedList, stmts, map_pure])
  | cons s ss ih =>
    rw [List.forall_mem_cons] at hss
    rw [Stmt.hushedList, stmts, stmts, map_bind]
    refine (hss.1 b scope σ h).bind_map fun {s' τ} hs => ?_
    rw [map_bind]
    exact (ih hss.2 fun hb => (h hb).of_gives hs).bind_map fun _ =>
      .of_eq (by simp only [map_pure, Stmt.hushedList])

lemma blockRules_hushed (b : Bool) (ss : List Stmt) :
    blockRules (Stmt.hushedList b ss) = blockRules ss := by
  have hrules : (Stmt.hushedList b ss).forM Rule.blockStmt = ss.forM Rule.blockStmt := by
    induction ss with
    | nil => rfl
    | cons s ss ih =>
      show (Rule.blockStmt (s.hushed b) >>= fun _ => List.forM _ _) =
        (Rule.blockStmt s >>= fun _ => List.forM _ _)
      rw [Rule.blockStmt_hushed, ih]
  rw [blockRules, hrules, blockRules]

section Blocks

variable {ss : List Stmt} {b : Bool} {kind : ScopeKind}

lemma same_block (hss : ∀ s ∈ ss, s.Hushes) (h : b = true → σ.InLambda scope) :
    Same σ (block scope (Stmt.hushedList b ss)) (Stmt.hushedList b <$> block scope ss) := by
  rw [block, block, blockRules_hushed, map_bind]
  exact .bind fun hrules => same_stmts hss fun hb => (h hb).of_gives hrules

lemma same_inner (hkind : kind = .block ∨ kind = .loop) (hss : ∀ s ∈ ss, s.Hushes)
    (h : b = true → σ.InLambda scope) :
    Same σ (inner scope kind (Stmt.hushedList b ss))
      (Stmt.hushedList b <$> inner scope kind ss) := by
  rw [inner, inner, map_bind]
  exact .bind fun hopen => same_block hss fun hb => inLambda_openIn hkind (h hb) hopen

lemma same_arm {role : String} {c : Expr} (hkind : kind = .block ∨ kind = .loop) (hc : c.Hushes)
    (hss : ∀ s ∈ ss, s.Hushes) (h : b = true → σ.InLambda scope) :
    Same σ (arm scope role kind c.hushed (Stmt.hushedList b ss))
      (Prod.map Expr.hushed (Stmt.hushedList b) <$> arm scope role kind c ss) := by
  simp only [arm, hc scope, bind_map_left, map_bind, Rule.boolean_hushed]
  refine .bind fun h1 => .bind fun h2 => ?_
  exact (same_inner hkind hss fun hb => ((h hb).of_gives h1).of_gives h2).bind_map fun _ =>
    .of_eq (by simp only [map_pure, Prod.map])

end Blocks

end Check

/-- Outside of lambdas nothing is asked of the session. -/
lemma Stmt.Hushes.stmt_eq {s : Stmt} (h : s.Hushes) (scope : ScopeId) :
    Check.stmt scope (s.hushed false) = Stmt.hushed false <$> Check.stmt scope s :=
  Check.eq_of_same fun σ => h false scope σ (by simp)

lemma Stmt.Hushes.cls {ms : List Stmt} (hms : ∀ s ∈ ms, s.Hushes) (head : ClassHead) :
    (Stmt.cls head ms).Hushes := by
  intro b scope σ _
  have hmembers (scope : ScopeId) : Check.members scope (Stmt.hushedList false ms) =
      Stmt.hushedList false <$> Check.members scope ms := by
    induction ms with
    | nil => simp only [Stmt.hushedList, Check.members, map_pure]
    | cons s ms ih =>
      rw [List.forall_mem_cons] at hms
      by_cases hvar : s.isVar = true
      · obtain ⟨head, init, rfl⟩ := Stmt.isVar_iff.mp hvar
        simp only [Stmt.hushedList, Stmt.hushed, Check.members, ih hms.2, bind_map_left, map_bind,
          map_pure]
      · have hvar := Bool.eq_false_iff.mpr hvar
        rw [Stmt.hushedList, Check.members_cons ((s.isVar_hushed false).trans hvar),
          Check.members_cons hvar]
        simp only [hms.1.stmt_eq, ih hms.2, bind_map_left, map_bind, map_pure, Stmt.hushedList]
  have hlength : (Stmt.hushedList false ms).length = ms.length := by
    rw [Stmt.hushedList_eq_map, List.length_map]
  refine .of_eq ?_
  simp only [Stmt.hushed, Check.stmt, hmembers, hlength, bind_map_left, map_bind, map_pure]

section

open Check

lemma Tree.hushes : Tree.Walk Expr.Hushes Stmt.Hushes Chain.Hushes where
  leaf {e} he := by
    intro scope
    cases e with
    | number | string | boolean | null | name | self =>
      simp only [Expr.hushed, expr, map_bind, map_pure]
    | _ => cases he
  binary hl hr _ _ := by
    intro scope
    simp only [Expr.hushed, expr, hl scope, hr scope, bind_map_left, map_bind, map_pure,
      Expr.type_hushed]
  unary he _ _ := by
    intro scope
    simp only [Expr.hushed, expr, he scope, bind_map_left, map_bind, map_pure,
      Expr.type_hushed, Rule.boolean_hushed, Rule.number_hushed]
  step he _ _ := by
    intro scope
    simp only [Expr.hushed, expr, he scope, bind_map_left, map_bind, map_pure,
      Expr.type_hushed, Rule.number_hushed]
  ternary hc hy hn _ := by
    intro scope
    simp only [Expr.hushed, expr, hc scope, hy scope, hn scope, bind_map_left, map_bind,
      map_pure, Expr.type_hushed, Rule.boolean_hushed]
  call_name hargs m g n target := by
    intro scope
    simp only [Expr.hushed, expr, exprs_hushed hargs, bind_map_left, map_bind, map_pure,
      Call.named_hushed]
  call_member ho hargs m g n target := by
    intro scope
    simp only [Expr.hushed, expr, exprs_hushed hargs, ho scope, bind_map_left, map_bind,
      map_pure, Expr.type_hushed, Call.member_hushed]
  call_computed {f} {args} hname hmember hf hargs m target := by
    intro scope
    -- what is computed is not turned into a name or a member
    have hname' : ∀ g n, f.hushed ≠ .name g n := by cases f <;> simp_all [Expr.hushed]
    have hmember' : ∀ g o n, f.hushed ≠ .member g o n := by cases f <;> simp_all [Expr.hushed]
    rw [Expr.hushed, expr_call hname' hmember', expr_call hname hmember,
      exprs_hushed hargs, hf scope]
    simp only [bind_map_left, map_bind, map_pure, Call.computed_hushed, Expr.hushed,
      Expr.hushed_typed]
  member ho _ _ := by
    intro scope
    simp only [Expr.hushed, expr, ho scope, bind_map_left, map_bind, map_pure,
      Expr.type_hushed]
  subscript ho hi _ := by
    intro scope
    simp only [Expr.hushed, expr, ho scope, hi scope, bind_map_left, map_bind, map_pure,
      Rule.collection_hushed, subscriptType_hushed]
  array hes _ := by
    intro scope
    simp only [Expr.hushed, expr, exprs_hushed hes, bind_map_left, map_bind, map_pure,
      Expr.map_type_hushedList]
  dictionary hes _ := by
    intro scope
    simp only [Expr.hushed, expr, entries_hushed hes, bind_map_left, map_bind, map_pure,
      Expr.map_type_hushedEntries]
  blockLambda hbody _ _ _ := by
    intro scope
    refine eq_of_same fun σ => ?_
    rw [Expr.hushed, expr_blockLambda, expr_blockLambda, map_bind]
    -- the block is in a lambda now, whatever is around it
    refine .bind fun {r τ} hopen => ?_
    rw [map_bind]
    exact (same_block hbody fun _ => inLambda_openLambda hopen).bind_map fun _ =>
      .of_eq (by simp only [map_pure, Expr.hushed])
  exprLambda hbody _ _ := by
    intro scope
    simp only [Expr.hushed, expr, map_bind]
    refine bind_congr fun r => ?_
    simp only [hbody r.1, bind_map_left, map_pure, Expr.hushed]
  var hinit _ b scope σ _ := .of_eq (by
    simp only [Stmt.hushed, stmt, var_hushed hinit, bind_map_left, map_bind, map_pure,
      Prod.map, id])
  assign ht hv _ b scope σ _ := .of_eq (by
    simp only [Stmt.hushed, stmt, ht scope, hv scope, bind_map_left, map_bind, map_pure,
      Expr.isTarget_hushed, Expr.span_hushed, Expr.type_hushed, Rule.assignable_hushed])
  -- the declaration of a function is not in the lambda that it stands in
  func hbody _ := by
    intro b scope σ _
    rw [Stmt.hushed, stmt_func, stmt_func, map_bind]
    refine .bind fun _ => ?_
    rw [map_bind]
    exact (same_block hbody (by simp)).bind_map fun _ =>
      .of_eq (by simp only [map_bind, map_pure, Stmt.hushed])
  cls := .cls
  ctor hbody head := by
    intro b scope σ _
    cases hscope : head.scope with
    | none => exact .of_eq (by simp only [Stmt.hushed, stmt, hscope]; rfl)
    | some inner =>
      rw [Stmt.hushed, stmt_ctor hscope, stmt_ctor hscope, map_bind]
      exact (same_block hbody (by simp)).bind_map fun _ =>
        .of_eq (by simp only [map_pure, Stmt.hushed])
  ifElse hc hbody hrest _ := by
    intro b scope σ h
    rw [Stmt.hushed, stmt_ifElse, stmt_ifElse, map_bind]
    refine (same_arm (Or.inl rfl) hc hbody h).bind_map fun {r τ} hr => ?_
    rw [map_bind]
    exact (hrest b scope τ fun hb => (h hb).of_gives hr).bind_map fun _ =>
      .of_eq (by simp only [map_pure, Stmt.hushed, Prod.map])
  whileLoop hc hbody _ := by
    intro b scope σ h
    rw [Stmt.hushed, stmt_whileLoop, stmt_whileLoop, map_bind]
    exact (same_arm (Or.inr rfl) hc hbody h).bind_map fun _ =>
      .of_eq (by simp only [map_pure, Stmt.hushed, Prod.map])
  forLoop hinit hc hupdate hbody _ := by
    intro b scope σ h
    simp only [Stmt.hushed, stmt_forLoop, loopInit_hushed hinit,
      loopCondition_hushed hc, bind_map_left, map_bind]
    refine .bind fun {inner σ1} h1 => .bind fun {init' σ2} h2 => .bind fun {c' σ3} h3 => ?_
    have h3 (hb : b = true) : σ3.InLambda inner :=
      ((inLambda_openIn (Or.inr rfl) (h hb) h1).of_gives h2).of_gives h3
    refine (same_loopUpdate hupdate h3).bind_map fun {update' σ4} h4 => ?_
    exact (same_block hbody fun hb => (h3 hb).of_gives h4).bind_map fun _ =>
      .of_eq (by simp only [map_pure, Stmt.hushed])
  ret {v} hv span := by
    intro b scope σ h
    cases v with
    | none => exact .of_eq (by simp only [Stmt.hushed, stmt, map_bind, map_pure])
    | some e =>
      cases b with
      | true =>
        -- in a lambda the value is computed and not given back
        refine Same.trans (.of_eq ?_) ((same_ret (h rfl) e span).map _).symm
        simp only [Stmt.hushed, stmt, hv e rfl scope, bind_map_left, map_bind, map_pure,
          if_pos]
      | false =>
        -- the return belongs to a function and stays
        refine .of_eq ?_
        simp only [Stmt.hushed, stmt, hv e rfl scope, returnFrame_hushed,
          giveBack_hushed, bind_map_left, map_bind, map_pure, Bool.false_eq_true, if_false]
  brk _ b scope σ _ := .of_eq (by simp only [Stmt.hushed, stmt, map_bind, map_pure])
  expr he b scope σ _ := .of_eq (by
    simp only [Stmt.hushed, stmt, he scope, bind_map_left, map_bind, map_pure])
  done b scope σ _ := .of_eq (by simp only [Chain.hushed, chain, map_pure])
  elseIf hc hbody hrest _ := by
    intro b scope σ h
    rw [Chain.hushed, chain_elseIf, chain_elseIf, map_bind]
    refine (same_arm (Or.inl rfl) hc hbody h).bind_map fun {r τ} hr => ?_
    rw [map_bind]
    exact (hrest b scope τ fun hb => (h hb).of_gives hr).bind_map fun _ =>
      .of_eq (by simp only [map_pure, Chain.hushed, Prod.map])
  otherwise hbody _ := by
    intro b scope σ h
    rw [Chain.hushed, chain_otherwise, chain_otherwise, map_bind]
    exact (same_inner (Or.inl rfl) hbody h).bind_map fun _ =>
      .of_eq (by simp only [map_pure, Chain.hushed])

end

lemma Expr.hushes (e : Expr) : e.Hushes := Tree.hushes.expr_holds e

lemma Stmt.hushes (s : Stmt) : s.Hushes := Tree.hushes.stmt_holds s

/-! ### Declarations and fields -/

namespace Check

lemma registerClasses_hushed (ss : List Stmt) :
    registerClasses scope (Stmt.hushedList false ss) = registerClasses scope ss := by
  rw [registerClasses, registerClasses, Stmt.hushedList_eq_map, List.filterMap_map]
  congr 2
  funext s
  cases s with
  | ret span v => cases v <;> rfl
  | _ => rfl

lemma outline_hushed (kind : FrameKind) (s : Stmt) :
    outline scope kind (s.hushed false) = Stmt.hushed false <$> outline scope kind s := by
  cases s with
  | func head body | ctor head body => simp only [Stmt.hushed, outline, map_bind, map_pure]
  | ret span v => cases v <;> rfl
  | _ => rfl

lemma bindFunctions_hushed (ss : List Stmt) :
    bindFunctions scope (Stmt.hushedList false ss) =
      Stmt.hushedList false <$> bindFunctions scope ss := by
  have houtlines (kind : FrameKind) : (Stmt.hushedList false ss).mapM (outline scope kind) =
      Stmt.hushedList false <$> ss.mapM (outline scope kind) := by
    have hlist : Stmt.hushedList false = List.map (Stmt.hushed false) :=
      funext (Stmt.hushedList_eq_map false)
    rw [hlist, List.mapM_map, ← mapM_map_results]
    congr 1
    exact funext (outline_hushed kind)
  have hbindings (ss : List Stmt) : (Stmt.hushedList false ss).filterMap functionBinding? =
      ss.filterMap functionBinding? := by
    rw [Stmt.hushedList_eq_map, List.filterMap_map]
    congr 1
    funext s
    cases s with
    | ret span v => cases v <;> rfl
    | _ => rfl
  simp only [bindFunctions, houtlines, map_bind, bind_map_left, map_pure, hbindings]

lemma announceFields_hushed (c : ClassId) (ms : List Stmt) :
    (Stmt.hushedList false ms).forM (announceField c scope) = ms.forM (announceField c scope) := by
  induction ms with
  | nil => rfl
  | cons s ms ih =>
    have hs : announceField c scope (s.hushed false) = announceField c scope s := by
      cases s with
      | ret span v => cases v <;> rfl
      | _ => rfl
    show (announceField c scope (s.hushed false) >>= fun _ => List.forM _ _) =
      (announceField c scope s >>= fun _ => List.forM _ _)
    rw [hs, ih]

lemma openClasses_hushed {ss : List Stmt} {cs : List ClassId}
    (hss : ∀ s ∈ ss, ∀ scope cs, openClass scope (s.hushed false) cs =
      Prod.map (Stmt.hushed false) id <$> openClass scope s cs) :
    openClasses scope (Stmt.hushedList false ss) cs =
      Stmt.hushedList false <$> openClasses scope ss cs := by
  induction ss generalizing cs with
  | nil => simp only [Stmt.hushedList, openClasses, map_pure]
  | cons s ss ih =>
    rw [List.forall_mem_cons] at hss
    simp only [Stmt.hushedList, openClasses, hss.1, ih hss.2, bind_map_left, map_bind, map_pure,
      Prod.map, id]

lemma openClass_hushed (s : Stmt) : ∀ scope cs, openClass scope (s.hushed false) cs =
    Prod.map (Stmt.hushed false) id <$> openClass scope s cs := by
  induction s using Stmt.members_induction with
  | other s hs =>
    intro scope cs
    rw [openClass_eq_pure hs, openClass_eq_pure ((s.isClass_hushed false).trans hs), map_pure]
    rfl
  | cls head ms ih =>
    intro scope cs
    cases cs with
    | nil => rfl
    | cons c cs =>
      simp only [Stmt.hushed, openClass, registerClasses_hushed, openClasses_hushed ih,
        bindFunctions_hushed, announceFields_hushed, bind_map_left, map_bind, map_pure, Prod.map,
        id]

lemma announce_hushed (ss : List Stmt) :
    announce scope (Stmt.hushedList false ss) = Stmt.hushedList false <$> announce scope ss := by
  simp only [announce, registerClasses_hushed, openClasses_hushed fun s _ => openClass_hushed s,
    bindFunctions_hushed, bind_map_left, map_bind]

lemma classFields_hushed (s : Stmt) :
    classFields (s.hushed false) = Stmt.hushed false <$> classFields s := by
  induction s using Stmt.members_induction with
  | other s hs =>
    rw [classFields_eq_pure hs, classFields_eq_pure ((s.isClass_hushed false).trans hs), map_pure]
  | cls head ms ih =>
    have hmembers (body : ScopeId) : memberFields body (Stmt.hushedList false ms) =
        Stmt.hushedList false <$> memberFields body ms := by
      induction ms with
      | nil => simp only [Stmt.hushedList, memberFields, map_pure]
      | cons s ms ihs =>
        rw [List.forall_mem_cons] at ih
        by_cases hvar : s.isVar = true
        · obtain ⟨head, init, rfl⟩ := Stmt.isVar_iff.mp hvar
          simp only [Stmt.hushedList, Stmt.hushed, memberFields, var_hushed fun e _ => e.hushes,
            ihs ih.2, bind_map_left, map_bind, map_pure, Prod.map, id]
        · have hvar := Bool.eq_false_iff.mpr hvar
          rw [Stmt.hushedList, memberFields_cons ((s.isVar_hushed false).trans hvar),
            memberFields_cons hvar]
          simp only [ih.1, ihs ih.2, bind_map_left, map_bind, map_pure, Stmt.hushedList]
    have hcount (ms : List Stmt) :
        (Stmt.hushedList false ms).countP Stmt.isVar = ms.countP Stmt.isVar := by
      rw [Stmt.hushedList_eq_map, List.countP_map]
      exact congrFun (congrArg List.countP (funext fun s => s.isVar_hushed false)) ms
    simp only [Stmt.hushed, classFields, hmembers, hcount, bind_map_left, map_bind, map_pure]

lemma fields_hushed (ss : List Stmt) : (Stmt.hushedList false ss).mapM classFields =
    Stmt.hushedList false <$> ss.mapM classFields := by
  have hlist : Stmt.hushedList false = List.map (Stmt.hushed false) :=
    funext (Stmt.hushedList_eq_map false)
  rw [hlist, List.mapM_map, ← mapM_map_results]
  congr 1
  exact funext classFields_hushed

lemma on_map (f : α → β) (x : Check α) (σ : Session) :
    (f <$> x).on σ = ((x.on σ).1.map f, (x.on σ).2) := by
  show (f <$> x).run.run σ = _
  rw [map_eq_pure_bind, run_bind, on]
  rcases x.run.run σ with ⟨_ | a, τ⟩ <;> rfl

lemma program_hushed (p : Program) : program p.hushed = Program.hushed <$> program p := by
  have hwalk (ss : List Stmt) : stmts .root (Stmt.hushedList false ss) =
      Stmt.hushedList false <$> stmts .root ss :=
    eq_of_same fun _ => same_stmts (fun s _ => s.hushes) (by simp)
  have hlength (ss : List Stmt) : (Stmt.hushedList false ss).length = ss.length := by
    rw [Stmt.hushedList_eq_map, List.length_map]
  simp only [program, Program.hushed, announce_hushed, fields_hushed, hwalk, hlength,
    bind_map_left, map_bind, map_pure]

end Check

/-- **Returns in lambdas do not matter**: without them a program is rejected with the same fault, or
accepted with the same annotations and the same findings. -/
lemma analyze_hushed (p : Program) :
    analyze p.hushed = (analyze p).map fun r => (r.1.hushed, r.2) := by
  have hlength : p.hushed.stmts.length = p.stmts.length := by
    rw [Program.hushed, Stmt.hushedList_eq_map, List.length_map]
  unfold analyze analyzeLogged
  dsimp only
  rw [Check.program_hushed, hlength, Check.on_map]
  rcases (Check.program p).on { log := [.analyzing p.stmts.length] } with ⟨f | q, Ω⟩ <;> rfl

end MiddleEnd
