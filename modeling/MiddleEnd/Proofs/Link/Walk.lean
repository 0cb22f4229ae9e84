import MiddleEnd.Proofs.Link.LeftOnly
import MiddleEnd.Proofs.Passes.Trims

/-!
The walk side by side. Expressions and the statements of blocks are looked at on the left, and what
remains of them on the right. What has been removed is looked at on the left alone, and nothing that
is looked at on both sides can tell.
-/

namespace MiddleEnd

variable {α β γ δ : Type} {L : Law} {base w υ : World L.lax} {scope scope' : ScopeId}

/-- The walk may go on at the two places: all that is known of linked classes is linked, and the
places see the same. -/
structure World.Abreast (L : Law) (w : World L.lax) (scope scope' : ScopeId) : Prop where
  together : ¬L.apart
  full : w.Full
  sees : w.Sees L scope scope'

lemma World.Abreast.mono (h : w.Abreast L scope scope') (hυ : w.Advance L υ) :
    υ.Abreast L scope scope' :=
  ⟨h.together, hυ.full h.together h.full, h.sees.mono hυ⟩

/-- The walk goes on in scopes that are new and not the bodies of classes. -/
structure World.Inside (L : Law) (base w : World L.lax) (scope scope' : ScopeId) : Prop
    extends w.Abreast L scope scope' where
  fresh : base.left.scopes.scope? scope = none
  notBody : w.left.NotBody scope

lemma World.Inside.mono (h : base.Inside L w scope scope') (hυ : w.Advance L υ) :
    base.Inside L υ scope scope' where
  toAbreast := h.toAbreast.mono hυ
  fresh := h.fresh
  notBody := by
    obtain ⟨s, -, hs, -⟩ := w.scope h.sees.scope
    exact hυ.left.notBody hs h.notBody

lemma World.Inside.before (h : υ.Inside L w scope scope') (hυ : base.Advance L υ) :
    base.Inside L w scope scope' :=
  ⟨h.toAbreast, hυ.left.scope?_eq_none h.fresh, h.notBody⟩

lemma Scopes.resolve_eq_ok {t : Scopes} {name : String} {span : Span} {b : Binding} :
    t.resolve scope name span = .ok b ↔
      (∃ s, t.scope? scope = some s) ∧ t.lookup scope name = some b := by
  unfold resolve
  rw [Except.bind_eq_ok]
  constructor
  · rintro ⟨s, hs, h⟩
    refine ⟨⟨s, Scopes.scope_eq_ok.mp hs⟩, ?_⟩
    cases hb : t.lookup scope name with
    | none =>
      rw [hb] at h
      cases h
    | some b' =>
      rw [hb] at h
      cases h
      rfl
  · rintro ⟨⟨s, hs⟩, hb⟩
    exact ⟨s, Scopes.scope_eq_ok.mpr hs, by rw [hb]; rfl⟩

namespace MirrorsFrom

variable {x : Check α} {y : Check β}

/-- The left goes on to change its outcome. -/
lemma map_left {f : α → γ} {post : α → β → World L.lax → Prop} {goal : γ → β → World L.lax → Prop}
    (hx : MirrorsFrom L base x y w post)
    (hgoal : ∀ a b υ, base.Advance L υ → post a b υ → goal (f a) b υ) :
    MirrorsFrom L base (x >>= fun a => Pure.pure (f a)) y w goal := by
  intro hbase c τ hc hclean
  obtain ⟨a, σ, ha, hc⟩ := gives_bind.mp hc
  obtain ⟨rfl, rfl⟩ := gives_pure.mp hc
  rcases hx hbase ha hclean with ⟨b, υ, hυ, hb, hadvance, hpost⟩ | hmiss
  · exact Or.inl ⟨b, υ, hυ, hb, hadvance, hgoal a b υ hadvance hpost⟩
  · exact Or.inr hmiss

lemma pure_left {f : α → γ} (hx : MirrorsFrom L base x y w fun _ _ _ => True) :
    MirrorsFrom L base (x >>= fun a => Pure.pure (f a)) y w fun _ _ _ => True :=
  hx.map_left fun _ _ _ _ h => h

end MirrorsFrom

namespace Check

/-! ### Names -/

/-- A function that is not called on the left is not called in a run that ends clean. -/
lemma not_clean_of_recordCall {k : Unit → Check γ} [hk : ∀ u, Traced True True (k u)]
    {σ τ : Session}
    {n : String} {c : γ} (hn : L.dropped n) (hroot : σ.scopes.declaring? scope n = some .root)
    (h : Gives (recordCall scope n >>= k) σ c τ) : ¬L.Clean τ := by
  intro hclean
  simp only [recordCall, gives_bind, gives_scopes] at h
  obtain ⟨u, _, ⟨_, _, ⟨rfl, rfl⟩, hu⟩, hc⟩ := h
  rw [if_pos hroot] at hu
  cases hu
  have hlater := (hk u).later hc
  have hsome := List.find?_some hroot
  obtain ⟨b, hb⟩ := Option.isSome_iff_exists.mp hsome
  exact hclean.calls hn (hlater.scopes.bindingAt? hb) (hlater.calls List.mem_insert_self)

/-- A name is looked up on both sides. A function that the right lacks may be found on the left. -/
lemma bind_resolve {k : Binding → Check γ} {l : Binding → Check δ} {n : String} {span span' : Span}
    {goal : γ → δ → World L.lax → Prop} [hk : ∀ b, Traced True True (k b)]
    (hsees : w.Sees L scope scope')
    (hgoal : ∀ b b', b.Linked w.link b' → MirrorsFrom L base (k b) (l b') w goal)
    (hdropped : ∀ b sig, b.kind = .function sig → L.dropped n →
      w.left.scopes.declaring? scope n = some .root → ∀ c τ, Gives (k b) w.left c τ → ¬L.Clean τ) :
    MirrorsFrom L base (rule (w.left.scopes.resolve scope n span) >>= k)
      (rule (w.right.scopes.resolve scope' n span') >>= l) w goal := by
  refine .with_clean fun hclean => ?_
  cases hr : w.left.scopes.resolve scope n span with
  | error f => exact .absurd fun _ _ h => nomatch h
  | ok b =>
    obtain ⟨-, hb⟩ := Scopes.resolve_eq_ok.mp hr
    obtain ⟨-, s', -, hs', -⟩ := w.scope hsees.scope
    rcases hsees.lookup hb with ⟨b', hb', hlinked⟩ | ⟨hn, hroot, hat⟩
    · rw [Scopes.resolve_eq_ok.mpr ⟨⟨s', hs'⟩, hb'⟩]
      exact hgoal b b' hlinked
    · obtain ⟨sig, hsig⟩ := hclean.names hn hat
      exact .absurd (hdropped b sig hsig hn hroot)

/-- The type of a name is traced, whatever the name stands for. -/
lemma traced_bindingType (scope : ScopeId) (n : String) (span : Span) (b : Binding) :
    Traced True True (match b.kind with
      | .variable | .parameter => pure b.type
      | .function _ => do
        recordCall scope n
        pure .any
      | .cls _ => pure .any
      | .type => throw (.user (.typeAsValue n) span) : Check TypeId) := by
  cases b.kind <;> infer_instance

lemma mirrors_nameType {n : String} {span span' : Span} (hsees : w.Sees L scope scope') :
    Mirrors L (nameType scope n span) (nameType scope' n span') w
      fun t t' υ => υ.link.type t t' := by
  refine .bind_scopes ?_
  have := traced_bindingType scope n span
  refine bind_resolve hsees (fun b b' hb => ?_) fun b sig hsig hn hroot c τ hc => ?_
  · obtain ⟨name, kind, t, bt⟩ := b
    obtain ⟨name', kind', t', bt'⟩ := b'
    obtain ⟨-, hkind, htype, -⟩ := hb
    cases hkind with
    | type => exact .throw
    | value | parameter => exact .pure htype
    | function => exact mirrors_recordCall.bind_pure fun _ _ υ _ _ => υ.any
    | cls => exact .pure w.any
  · simp only [hsig] at hc
    exact not_clean_of_recordCall hn hroot hc

lemma bind_classEntry {k : ClassEntry → Check γ} {l : ClassEntry → Check δ} {c c' : ClassId}
    {goal : γ → δ → World L.lax → Prop} (hc : w.link.cls c c')
    (hgoal : ∀ e e', w.left.types.class? c = some e → w.right.types.class? c' = some e' →
      e'.name = e.name → w.link.type e.type e'.type → MirrorsFrom L base (k e) (l e') w goal) :
    MirrorsFrom L base (classEntry c >>= k) (classEntry c' >>= l) w goal := by
  obtain ⟨e, e', he, he', hname, htype⟩ := w.classEntry hc
  intro hbase r τ hr hclean
  obtain ⟨e0, _, h0, hr⟩ := gives_bind.mp hr
  obtain ⟨he0, rfl⟩ := gives_classEntry.mp h0
  cases he.symm.trans he0
  rcases hgoal e e' he he' hname htype hbase hr hclean with ⟨b, υ, hυ, hb, hrest⟩ | ⟨hlax, hmiss⟩
  · exact Or.inl ⟨b, υ, hυ, gives_bind.mpr ⟨e', _, gives_classEntry.mpr ⟨he', rfl⟩, hb⟩, hrest⟩
  · exact Or.inr ⟨hlax, hmiss.after (gives_classEntry.mpr ⟨he', rfl⟩)⟩

lemma mirrors_selfType {span span' : Span} (hsees : w.Sees L scope scope') :
    Mirrors L (selfType scope span) (selfType scope' span') w fun t t' υ => υ.link.type t t' := by
  refine .bind_scopes (.bind_rule fun c hc => ?_)
  obtain ⟨c', hc', hcls, -⟩ := w.inClass hsees.scope hc
  exact ⟨c', hc', bind_classEntry hcls fun e e' _ _ _ htype => .pure htype⟩

/-! ### Scopes -/

lemma mirrors_openInside {kind kind' : ScopeKind} (h : w.Abreast L scope scope')
    (hkind : KindLinked L w kind kind') :
    Mirrors L (openIn scope kind) (openIn scope' kind') w fun id id' υ => w.Inside L υ id id' := by
  refine (mirrors_openIn h.sees hkind).with_gives.mono fun id id' υ hυ hpost => ?_
  obtain ⟨hid, -, hsees⟩ := hpost
  obtain ⟨larger, -, rfl, hleft⟩ := gives_openIn.mp hid
  refine ⟨⟨h.together, hυ.full h.together h.full, hsees⟩, Scopes.scope?_next _,
    fun {c e} he hbody => ?_⟩
  -- the bodies of classes have been there before
  rw [← hleft] at he
  obtain ⟨s, hs, -⟩ := w.leftOrdered.bodies he hbody
  cases hs.symm.trans (Scopes.scope?_next _)

lemma mirrors_openLambda {head : LambdaHead} (h : w.Abreast L scope scope') :
    Mirrors L (openLambda scope head) (openLambda scope' head) w
      fun r r' υ => w.Inside L υ r.1 r'.1 := by
  unfold openLambda
  refine (mirrors_addFrame rfl w.any rfl).bind fun f f' υ hυ hframe => ?_
  refine (mirrors_openInside (h.mono hυ) (.function hframe.1 hframe.2)).bind
    fun id id' ω hω hin => ?_
  exact (mirrors_params hin.sees).bind_pure fun _ _ ψ hψ _ => (hin.mono hψ).before hυ

/-! ### The walk -/

/-- An expression is mirrored by what remains of it, and the two get linked types. -/
def ExprMirrors (L : Law) (e : Expr) : Prop :=
  ∀ {w : World L.lax} {scope scope' e'}, w.Abreast L scope scope' → e.Trims L.lax e' →
    Mirrors L (expr scope e) (expr scope' e') w fun r r' υ => υ.Typed r r'

/-- A statement that may stand in a block is mirrored by what remains of it. -/
def StmtMirrors (L : Law) (s : Stmt) : Prop :=
  ∀ {w : World L.lax} {scope scope' s'}, Rule.blockStmt s = .ok () → w.Abreast L scope scope' →
    s.Trims L.lax s' → Mirrors L (stmt scope s) (stmt scope' s') w fun _ _ _ => True

/-- The conditional stands for the further arms: its first arm is the first of them. -/
inductive Stands : Chain → Stmt → Prop
  | elseIf {x y : Extent} {c : Expr} {body : List Stmt} {rest : Chain} :
      Stands (.elseIf y c body rest) (.ifElse x c body rest)
  | otherwise {x : Extent} {m : Mark} {block : Span} {body : List Stmt} :
      Stands (.otherwise block body) (.ifElse x (.boolean m true) body .done)

/-- The further arms are mirrored by what remains of them, or by a conditional that stands for
that. -/
def ChainMirrors (L : Law) (ch : Chain) : Prop :=
  ∀ {w : World L.lax} {scope scope' ch'}, w.Abreast L scope scope' → ch.Trims L.lax ch' →
    (Mirrors L (chain scope ch) (chain scope' ch') w fun _ _ _ => True) ∧
      ∀ s', Stands ch' s' → Mirrors L (chain scope ch) (stmt scope' s') w fun _ _ _ => True

lemma mirrors_exprs {es es' : List Expr} (hes : ∀ e ∈ es, ExprMirrors L e)
    (h : w.Abreast L scope scope') (htrims : List.Forall₂ (Expr.Trims L.lax) es es') :
    Mirrors L (exprs scope es) (exprs scope' es') w
      fun rs rs' υ => List.Forall₂ υ.Typed rs rs' := by
  induction htrims generalizing w with
  | nil => exact .pure .nil
  | cons he _ ih =>
    rw [List.forall_mem_cons] at hes
    rw [exprs, exprs]
    refine (hes.1 h he).bind fun r r' υ hυ hr => ?_
    exact (ih hes.2 (h.mono hυ)).bind_pure fun rs rs' ω hω hrs => .cons (hω.typed hr) hrs

lemma mirrors_entries {es es' : List (Expr × Expr)}
    (hes : ∀ e ∈ es, ExprMirrors L e.1 ∧ ExprMirrors L e.2) (h : w.Abreast L scope scope')
    (hk : List.Forall₂ (Expr.Trims L.lax) (es.map Prod.fst) (es'.map Prod.fst))
    (hv : List.Forall₂ (Expr.Trims L.lax) (es.map Prod.snd) (es'.map Prod.snd)) :
    Mirrors L (entries scope es) (entries scope' es') w fun rs rs' υ =>
      List.Forall₂ υ.link.type (rs.map (·.1.type)) (rs'.map (·.1.type)) ∧
        List.Forall₂ υ.link.type (rs.map (·.2.type)) (rs'.map (·.2.type)) := by
  induction es generalizing w es' with
  | nil =>
    obtain rfl := List.map_eq_nil_iff.mp (List.forall₂_nil_left_iff.mp hk)
    exact .pure ⟨.nil, .nil⟩
  | cons e es ih =>
    cases es' with
    | nil => cases hk
    | cons e' es' =>
      obtain ⟨k, v⟩ := e
      obtain ⟨k', v'⟩ := e'
      rw [List.forall_mem_cons] at hes
      rw [List.map_cons, List.map_cons, List.forall₂_cons] at hk hv
      rw [entries, entries]
      refine (hes.1.1 h hk.1).bind fun r r' υ hυ hr => ?_
      refine (hes.1.2 (h.mono hυ) hv.1).bind fun t t' ω hω ht => ?_
      refine (ih hes.2 (h.mono (hυ.trans hω)) hk.2 hv.2).bind_pure fun rs rs' ψ hψ hrs => ?_
      exact ⟨.cons (hψ.link (hω.link hr)) hrs.1, .cons (hψ.link ht) hrs.2⟩

/-! ### Blocks -/

lemma blockStmt_of_trims {s s' : Stmt} (h : s.Trims L.lax s') (hs : Rule.blockStmt s = .ok ()) :
    Rule.blockStmt s' = .ok () := by
  cases h with
  | func | cls | ctor => cases hs
  | _ => rfl

lemma varName?_of_isBranch {s : Stmt} (h : s.isBranch = true) : s.varName? = none := by
  cases s with
  | var => cases h
  | _ => rfl

/-- A branch that the right lacks. -/
lemma leads_branch {s : Stmt} (hlax : L.lax) (hs : s.isBranch = true) :
    Leads (Session.Continues w.Beside) (stmt scope s) w.left fun _ _ => True := by
  refine stmtLeads s w.leftOrdered w.room_beside (World.returning_beside hlax) ?_ ?_
  · simp [varName?_of_isBranch hs]
  · cases s with
    | ifElse | whileLoop => trivial
    | _ => cases hs

/-- The statements of a block are mirrored by what remains of them. Names may get declared on the
left alone after a terminator, which is why the block has to be one that is left afterwards. -/
lemma mirrors_stmts {ss ss' : List Stmt} (hss : ∀ s ∈ ss, StmtMirrors L s)
    (hrules : ∀ s ∈ ss, Rule.blockStmt s = .ok ()) (h : w.Abreast L scope scope')
    (hnot : w.left.NotBody scope) (hbase : L.lax → base.Hides scope)
    (htrims : Stmt.TrimsList L.lax ss ss') :
    MirrorsFrom L base (stmts scope ss) (stmts scope' ss') w fun _ _ _ => True := by
  induction ss generalizing w ss' with
  | nil =>
    cases htrims
    exact .pure trivial
  | cons s ss ih =>
    rw [List.forall_mem_cons] at hss hrules
    have later {υ : World L.lax} (hυ : w.Advance L υ) : υ.left.NotBody scope := by
      obtain ⟨t, -, ht, -⟩ := w.scope h.sees.scope
      exact hυ.left.notBody ht hnot
    rw [stmts]
    cases htrims with
    | keep hs hrest =>
      rw [stmts]
      refine (hss.1 hrules.1 h hs).bind fun r r' υ hυ _ => ?_
      exact (ih hss.2 hrules.2 (h.mono hυ) (later hυ) hrest).bind_base
        fun _ _ _ _ _ => .pure trivial
    | drop hlax hbranch hrest =>
      -- a branch is walked on the left alone
      refine .bind_beside (leads_branch hlax hbranch) fun r υ hυ _ _ => ?_
      exact (ih hss.2 hrules.2 (h.mono hυ) (later hυ) hrest).pure_left
    | cut hlax _ hs =>
      -- what follows a terminator is walked on the left alone, and the scope is left after it
      rw [stmts, stmts]
      refine (hss.1 hrules.1 h hs).bind fun r r' υ hυ _ => ?_
      have hclaims : Stmt.ClaimsList (υ.leaving [scope]).Beside υ.left ss :=
        Stmt.claimsList_iff.mpr fun t ht => Stmt.claims_of_blockStmt (hrules.2 t ht)
      have hrest := leads_stmts (fun t _ => stmtLeads t) υ.leftOrdered
        (υ.leaving [scope]).room_beside
        (World.open_beside hlax (World.hides_leaving hlax List.mem_cons_self) (later hυ)) hclaims
      exact .pure_left
        (.last_leaving (fun hlax => List.forall_mem_singleton.mpr (hbase hlax)) hrest)

lemma mirrors_hidden {ss ss' : List Stmt} (hss : ∀ s ∈ ss, StmtMirrors L s)
    (h : w.Abreast L scope scope') (hnot : w.left.NotBody scope) (hbase : L.lax → base.Hides scope)
    (htrims : Stmt.TrimsList L.lax ss ss') :
    MirrorsFrom L base (block scope ss) (block scope' ss') w fun _ _ _ => True := by
  have hrules' (hrules : ss.forM Rule.blockStmt = .ok ()) : ss'.forM Rule.blockStmt = .ok () := by
    rw [Except.forM_eq_ok] at hrules ⊢
    intro s' hs'
    obtain ⟨s, hs, htrims⟩ := htrims.exists_of_mem hs'
    exact blockStmt_of_trims htrims (hrules s hs)
  exact .bind_check hrules' fun hrules => mirrors_stmts hss (Except.forM_eq_ok.mp hrules) h
    hnot hbase htrims

lemma mirrors_block {ss ss' : List Stmt} (hss : ∀ s ∈ ss, StmtMirrors L s)
    (h : base.Inside L w scope scope') (htrims : Stmt.TrimsList L.lax ss ss') :
    MirrorsFrom L base (block scope ss) (block scope' ss') w fun _ _ _ => True :=
  mirrors_hidden hss h.toAbreast h.notBody (fun _ => World.hides_of_absent h.fresh) htrims

lemma mirrors_inner {kind : ScopeKind} {ss ss' : List Stmt} (hss : ∀ s ∈ ss, StmtMirrors L s)
    (h : w.Abreast L scope scope') (hkind : KindLinked L w kind kind)
    (htrims : Stmt.TrimsList L.lax ss ss') :
    Mirrors L (inner scope kind ss) (inner scope' kind ss') w fun _ _ _ => True :=
  (mirrors_openInside h hkind).bind fun _ _ _ _ hin => mirrors_block hss hin htrims

lemma arm_true {role : String} {m : Mark} {ss : List Stmt} :
    arm scope role .block (.boolean m true) ss = do
      let ss ← inner scope .block ss
      return (.boolean (m.typed .boolean) true, ss) := by
  rw [arm, expr, pure_bind]
  rfl

lemma mirrors_arm {role role' : String} {kind : ScopeKind} {c c' : Expr} {ss ss' : List Stmt}
    (hc : ExprMirrors L c) (hss : ∀ s ∈ ss, StmtMirrors L s) (h : w.Abreast L scope scope')
    (hkind : ∀ {υ}, KindLinked L υ kind kind) (hcond : c.Trims L.lax c')
    (htrims : Stmt.TrimsList L.lax ss ss') :
    Mirrors L (arm scope role kind c ss) (arm scope' role' kind c' ss') w fun _ _ _ => True := by
  refine (hc h hcond).bind fun r r' υ hυ hr => .bind_check (World.boolean hr) fun _ => ?_
  exact (mirrors_inner hss (h.mono hυ) hkind htrims).bind_pure fun _ _ _ _ _ => trivial

/-- An arm that the right lacks. -/
lemma leads_beside {role : String} {c : Expr} {ss : List Stmt} (hlax : L.lax) :
    Leads (Session.Continues w.Beside) (arm scope role .block c ss) w.left fun _ _ => True :=
  leads_arm (exprLeads c) (fun s _ => stmtLeads s) w.leftOrdered w.room_beside
    (World.returning_beside hlax) (Or.inl rfl)

/-! ### Parts of statements -/

lemma mirrors_declareVar {head : VarHead} {declared declared' : Option TypeId}
    {init init' : Option Expr} (hsees : w.Sees L scope scope')
    (hdeclared : Option.Rel w.link.type declared declared')
    (hinit : Option.Rel w.Typed init init') :
    Mirrors L (declareVar scope head declared init) (declareVar scope' head declared' init') w
      fun _ _ _ => True := by
  have declares {t t' : TypeId} (ht : w.link.type t t') :
      Mirrors L (do
        declare scope (.ofVariable head.name t) head.span
        return { head with type := some t }) (do
        declare scope' (.ofVariable head.name t') head.span
        return { head with type := some t' }) w fun _ _ _ => True := by
    have hb : (Binding.ofVariable head.name t).Linked w.link (.ofVariable head.name t') :=
      ⟨rfl, .value, ht, rfl⟩
    exact (mirrors_declare_seen hsees.scope (hsees.name _) hb (fun hd => nomatch hd)
      fun _ _ sig hsig => nomatch hsig).bind_pure fun _ _ _ _ _ => trivial
  cases hdeclared with
  | none =>
    cases hinit with
    | none => exact declares w.any
    | some he => exact declares he
  | some ht =>
    cases hinit with
    | none => exact declares ht
    | some he => exact .bind_types (.bind_check (World.assignable he ht) fun _ => declares ht)

lemma mirrors_var {head : VarHead} {init init' : Option Expr} (hinit : ∀ e ∈ init, ExprMirrors L e)
    (h : w.Abreast L scope scope') (htrims : Option.Rel (Expr.Trims L.lax) init init') :
    Mirrors L (var scope head init) (var scope' head init') w fun _ _ _ => True := by
  cases htrims with
  | none =>
    rw [var, var]
    refine (mirrors_typeOf? h.sees).bind fun t t' υ hυ ht => ?_
    exact (mirrors_declareVar (h.sees.mono hυ) ht .none).bind_pure fun _ _ _ _ _ => trivial
  | some he =>
    rw [var, var]
    refine (mirrors_typeOf? h.sees).bind fun t t' υ hυ ht => ?_
    refine (hinit _ rfl (h.mono hυ) he).bind fun a a' ω hω ha => ?_
    exact (mirrors_declareVar (h.sees.mono (hυ.trans hω)) (Option.Rel.mono hω.link ht)
      (.some ha)).bind_pure fun _ _ _ _ _ => trivial

lemma mirrors_loopInit {init init' : Option (VarHead × Option Expr)}
    (hinit : ∀ i ∈ init, ∀ e ∈ i.2, ExprMirrors L e) (h : w.Abreast L scope scope')
    (hhead : init'.map Prod.fst = init.map Prod.fst)
    (htrims : Option.Rel (Option.Rel (Expr.Trims L.lax)) (init.map Prod.snd) (init'.map Prod.snd)) :
    Mirrors L (loopInit scope init) (loopInit scope' init') w fun _ _ _ => True := by
  cases init with
  | none =>
    obtain rfl := Option.map_eq_none_iff.mp hhead
    exact .pure trivial
  | some i =>
    cases init' with
    | none => cases hhead
    | some i' =>
      obtain ⟨head, e⟩ := i
      obtain ⟨head', e'⟩ := i'
      cases hhead
      cases htrims with
      | some he =>
        rw [loopInit, loopInit]
        exact (mirrors_var (hinit _ rfl) h he).map fun _ _ _ _ _ => trivial

lemma mirrors_loopCondition {c c' : Option Expr} (hc : ∀ e ∈ c, ExprMirrors L e)
    (h : w.Abreast L scope scope') (htrims : Option.Rel (Expr.Trims L.lax) c c') :
    Mirrors L (loopCondition scope c) (loopCondition scope' c') w fun _ _ _ => True := by
  cases htrims with
  | none => exact .pure trivial
  | some he =>
    rw [loopCondition, loopCondition]
    exact (hc _ rfl h he).bind fun a a' υ hυ ha => .bind_check (World.boolean ha)
      fun _ => .pure trivial

lemma mirrors_loopUpdate {u u' : Option Stmt} (hu : ∀ s ∈ u, StmtMirrors L s)
    (h : w.Abreast L scope scope') (htrims : Option.Rel (Stmt.Trims L.lax) u u') :
    Mirrors L (loopUpdate scope u) (loopUpdate scope' u') w fun _ _ _ => True := by
  cases htrims with
  | none => exact .pure trivial
  | some hs =>
    rw [loopUpdate, loopUpdate]
    exact .bind_check (blockStmt_of_trims hs) fun hrule =>
      (hu _ rfl hrule h hs).map fun _ _ _ _ _ => trivial

/-- The frames around scopes that see the same promise the same. -/
lemma mirrors_returnFrame {v v' : Option Expr} {span span' : Span} (hsees : w.Sees L scope scope')
    (hv : v'.isNone = v.isNone) :
    Mirrors L (returnFrame scope v span) (returnFrame scope' v' span') w fun r r' υ =>
      υ.link.frame r.1 r'.1 ∧ υ.link.type r.2.result r'.2.result ∧
        (¬L.lax → υ.link (.settled r.1) (.settled r'.1)) := by
  refine .bind_scopes (.bind_rule fun f hf => ?_)
  obtain ⟨f', hf', hframe⟩ := World.inFunction hsees.scope hf
  refine ⟨f', hf', .bind_rule fun g hg => ?_⟩
  have hsettled (hstrict : ¬L.lax) : w.link (.settled f) (.settled f') := by
    obtain ⟨s, hs, hsf⟩ := Rule.inFunction_eq_ok.mp hf
    obtain ⟨s', hs', hsf'⟩ := Rule.inFunction_eq_ok.mp hf'
    exact hsees.settled hstrict hs hs' hsf hsf'
  cases w.agree hframe with
  | frame hl hr hkind hresult =>
    cases (Scopes.frame_eq_ok.mp hg).symm.trans hl
    refine ⟨_, Scopes.frame_eq_ok.mpr hr, .bind_check (fun hok => ?_) fun _ => .pure ?_⟩
    · rw [Rule.constructorReturn, ensure_eq_ok] at hok ⊢
      rw [hkind, hv]
      exact hok
    · exact ⟨hframe, hresult, hsettled⟩

lemma mirrors_settle {f f' : FrameId} (hframe : w.link.frame f f')
    (hsettled : ¬L.lax → w.link (.settled f) (.settled f')) :
    Mirrors L (updateScopes (·.settle f true)) (updateScopes (·.settle f' true)) w
      fun _ _ _ => True := by
  refine mirrors_turn fun {u τ} hu => ?_
  obtain rfl := gives_updateScopes.mp hu
  refine ⟨(), _, fun _ _ => False, (· = .settled f), (· = .settled f'), gives_updateScopes.mpr rfl,
    ⟨continues_settle w.leftOrdered rfl, continues_settle w.rightOrdered rfl, fun {c c'} h hc => ?_,
      fun h => h.elim, ⟨fun _ _ _ h => h.elim, fun _ _ _ h => h.elim⟩⟩,
      Law.allows_of_no_class id id,
    fun _ _ _ _ _ => trivial⟩
  have hboth : c = .settled f ∧ c' = .settled f' ∧ ¬L.lax := by
    rcases hc with rfl | rfl
    · cases w.agree h with
      | settled hstrict => exact ⟨rfl, (w.unique.2 (hsettled hstrict) h).symm, hstrict⟩
    · cases w.agree h with
      | settled hstrict => exact ⟨(w.unique.1 (hsettled hstrict) h).symm, rfl, hstrict⟩
  obtain ⟨rfl, rfl, hstrict⟩ := hboth
  cases w.agree hframe with
  | frame hl hr =>
    have settles {t : Scopes} {i : FrameId} {g : Frame} (hg : t.frame? i = some g) :
        (t.settle i true).frame? i = some { g with settled := true } := by
      rw [Scopes.frame?_settle, hg, Option.map_some, if_pos rfl]
    exact .settled hstrict (settles hl) (settles hr) rfl

lemma mirrors_giveBack {f f' : FrameId} {g g' : Frame} {e e' : Expr} (hframe : w.link.frame f f')
    (hresult : w.link.type g.result g'.result)
    (hsettled : ¬L.lax → w.link (.settled f) (.settled f')) (he : w.Typed e e') :
    Mirrors L (giveBack f g e) (giveBack f' g' e') w fun _ _ _ => True := by
  unfold giveBack
  rw [World.isAny_eq hresult]
  split
  · exact .pure trivial
  · refine .bind_types (.bind_check (World.assignable he hresult) fun _ => .bind_scopes ?_)
    refine .bind_rule fun h hh => ?_
    cases w.agree hframe with
    | frame hl hr => exact ⟨_, Scopes.frame_eq_ok.mpr hr, mirrors_settle hframe hsettled⟩

/-- All further arms may have been removed. -/
lemma mirrors_stop {ch : Chain} (hlax : L.lax) :
    Mirrors L (chain scope ch) (chain scope' .done) w fun _ _ _ => True := by
  rw [chain.eq_1]
  exact (MirrorsFrom.beside ((tree_leads _).chain_holds ch w.leftOrdered w.room_beside
    (World.returning_beside hlax))).mono fun _ _ _ _ _ => trivial

/-! ### Expressions and statements -/

lemma ExprMirrors.leaf {e : Expr} (he : e.isLeaf = true) : ExprMirrors L e := by
  intro w scope scope' e' h htrims
  cases htrims with
  | number => exact .pure (w.basic (f := .number) rfl)
  | string => exact .pure (w.basic (f := .string) rfl)
  | boolean => exact .pure (w.basic (f := .boolean) rfl)
  | null => exact .pure (w.basic (f := .null) rfl)
  | name =>
    rw [Check.expr, Check.expr]
    exact (mirrors_nameType h.sees).bind_pure fun t t' υ _ ht => ht
  | self =>
    rw [Check.expr, Check.expr]
    exact (mirrors_selfType h.sees).bind_pure fun t t' υ _ ht => ht
  | _ => cases he

lemma ExprMirrors.binary {l r : Expr} (hl : ExprMirrors L l) (hr : ExprMirrors L r) (m : Mark)
    (op : BinaryOp) : ExprMirrors L (.binary m op l r) := by
  intro w scope scope' e' h htrims
  cases htrims with
  | binary hl' hr' =>
    rw [Check.expr, Check.expr]
    refine (hl h hl').bind fun a a' υ hυ ha => ?_
    refine (hr (h.mono hυ) hr').bind_pure fun b b' ω hω _ => ?_
    show ω.link.type (if op.isArithmetic then a.type else .boolean)
      (if op.isArithmetic then a'.type else .boolean)
    split
    · exact hω.link ha
    · exact ω.basic (f := .boolean) rfl

lemma ExprMirrors.unary {e : Expr} (he : ExprMirrors L e) (m : Mark) (op : UnaryOp) :
    ExprMirrors L (.unary m op e) := by
  intro w scope scope' e' h htrims
  cases htrims with
  | unary he' =>
    rw [Check.expr, Check.expr]
    refine (he h he').bind fun a a' υ hυ ha => .bind_check (fun hok => ?_) fun _ => .pure ha
    split at hok
    · rename_i hop
      rw [if_pos hop]
      exact World.boolean ha hok
    · rename_i hop
      rw [if_neg hop]
      exact World.number ha hok

lemma ExprMirrors.ternary {c y n : Expr} (hc : ExprMirrors L c) (hy : ExprMirrors L y)
    (hn : ExprMirrors L n) (m : Mark) : ExprMirrors L (.ternary m c y n) := by
  intro w scope scope' e' h htrims
  cases htrims with
  | ternary hc' hy' hn' =>
    rw [Check.expr, Check.expr]
    refine (hc h hc').bind fun a a' υ hυ ha => .bind_check (World.boolean ha) fun _ => ?_
    have h1 := h.mono hυ
    refine (hy h1 hy').bind fun b b' ω hω hb => ?_
    refine (hn (h1.mono hω) hn').bind fun d d' ψ hψ hd => .bind_types (.pure ?_)
    have hb := hψ.typed hb
    show ψ.link.type (if ψ.left.types.sameType b.type d.type then b.type else .any)
      (if ψ.right.types.sameType b'.type d'.type then b'.type else .any)
    rw [World.sameType_eq hb hd]
    split
    · exact hb
    · exact ψ.any

/-- A function that the right lacks may be found on the left, but then the run ends unclean. -/
lemma ExprMirrors.call_name {args : List Expr} (hargs : ∀ e ∈ args, ExprMirrors L e) (m f : Mark)
    (n : String) (target : Option CallTarget) :
    ExprMirrors L (.call m (.name f n) args target) := by
  intro w scope scope' e' h htrims
  cases htrims with
  | call hf hargs' =>
    cases hf
    rw [Check.expr, Check.expr]
    refine .bind_scopes (bind_resolve h.sees (fun b b' hb => ?_)
      fun b sig hsig hn hroot c τ hc => ?_)
    · refine .bind_check (World.callable hb) fun _ => mirrors_recordCall.bind fun _ _ υ hυ _ => ?_
      have h1 := h.mono hυ
      refine (mirrors_exprs hargs h1 hargs').bind fun rs rs' ω hω hrs => .bind_types (.bind_rule ?_)
      intro r hr
      obtain ⟨r', hr', htype⟩ := World.named (h1.mono hω).full (hb.mono (hυ.trans hω).within) hrs hr
      exact ⟨r', hr', .pure htype⟩
    · obtain ⟨_, _, hu, hc⟩ := gives_bind.mp hc
      obtain ⟨-, rfl⟩ := gives_rule.mp hu
      exact not_clean_of_recordCall hn hroot hc

lemma ExprMirrors.call_member {o : Expr} {args : List Expr} (ho : ExprMirrors L o)
    (hargs : ∀ e ∈ args, ExprMirrors L e) (m f : Mark) (n : String) (target : Option CallTarget) :
    ExprMirrors L (.call m (.member f o n) args target) := by
  intro w scope scope' e' h htrims
  cases htrims with
  | call hf hargs' =>
    cases hf with
    | member ho' =>
      rw [Check.expr, Check.expr]
      refine (ho h ho').bind fun a a' υ hυ ha => .bind_types ?_
      have h1 := h.mono hυ
      refine .bind_check (World.member h1.full ha) fun _ => ?_
      refine (mirrors_exprs hargs h1 hargs').bind fun rs rs' ω hω hrs => .bind_types (.bind_rule ?_)
      intro r hr
      obtain ⟨r', hr', htype⟩ := World.callMember (h1.mono hω).full (hω.link ha) hrs hr
      exact ⟨r', hr', .pure htype⟩

lemma ExprMirrors.call_computed {f : Expr} {args : List Expr} (hname : ∀ g n, f ≠ .name g n)
    (hmember : ∀ g o n, f ≠ .member g o n) (hf : ExprMirrors L f)
    (hargs : ∀ e ∈ args, ExprMirrors L e) (m : Mark) (target : Option CallTarget) :
    ExprMirrors L (.call m f args target) := by
  intro w scope scope' e' h htrims
  cases htrims with
  | @call _ _ f' _ _ _ hf' hargs' =>
    have hname' : ∀ g n, f' ≠ .name g n := by
      rintro g n rfl
      cases hf'
      exact hname _ _ rfl
    have hmember' : ∀ g o n, f' ≠ .member g o n := by
      rintro g o n rfl
      cases hf'
      exact hmember _ _ _ rfl
    rw [Check.expr_call hname hmember, Check.expr_call hname' hmember']
    refine (hf h hf').bind fun a a' υ hυ ha => .bind_types
      (.bind_check (World.computed ha) fun _ => ?_)
    exact (mirrors_exprs hargs (h.mono hυ) hargs').bind_pure fun _ _ ω _ _ => ω.any

lemma StmtMirrors.assign {t v : Expr} (ht : ExprMirrors L t) (hv : ExprMirrors L v) (span : Span) :
    StmtMirrors L (.assign span t v) := by
  intro w scope scope' s' _ h htrims
  cases htrims with
  | assign ht' hv' =>
    rw [stmt, stmt]
    refine (hv h hv').bind fun a a' υ hυ ha => .bind_check (fun hok => ?_) fun _ => ?_
    · rw [ensure_eq_ok] at hok ⊢
      rw [ht'.isTarget_eq]
      exact hok
    · refine (ht (h.mono hυ) ht').bind fun b b' ω hω hb => .bind_types ?_
      exact .bind_check (World.assignable (hω.typed ha) hb) fun _ => .pure trivial

/-- The first arms may have been removed, and another arm then stands in their place. -/
lemma StmtMirrors.ifElse {c : Expr} {body : List Stmt} {rest : Chain} (hc : ExprMirrors L c)
    (hbody : ∀ s ∈ body, StmtMirrors L s) (hrest : ChainMirrors L rest) (x : Extent) :
    StmtMirrors L (.ifElse x c body rest) := by
  intro w scope scope' s' _ h htrims
  rw [stmt_ifElse]
  cases htrims with
  | ifElse hc' hbody' hrest' =>
    rw [stmt_ifElse]
    refine (mirrors_arm hc hbody h .block hc' hbody').bind fun _ _ υ hυ _ => ?_
    exact (hrest (h.mono hυ) hrest').1.bind_pure fun _ _ _ _ _ => trivial
  | nextArm hlax hrest' =>
    refine .bind_beside (leads_beside hlax) fun _ υ hυ _ _ => .pure_left ?_
    exact ((hrest (h.mono hυ) hrest').2 _ .elseIf).last
  | lastArm hlax hrest' =>
    refine .bind_beside (leads_beside hlax) fun _ υ hυ _ _ => .pure_left ?_
    exact ((hrest (h.mono hυ) hrest').2 _ .otherwise).last

lemma StmtMirrors.forLoop {init : Option (VarHead × Option Expr)} {c : Option Expr}
    {update : Option Stmt} {body : List Stmt} (hinit : ∀ i ∈ init, ∀ e ∈ i.2, ExprMirrors L e)
    (hc : ∀ e ∈ c, ExprMirrors L e) (hupdate : ∀ s ∈ update, StmtMirrors L s)
    (hbody : ∀ s ∈ body, StmtMirrors L s) (x : Extent) :
    StmtMirrors L (.forLoop x init c update body) := by
  intro w scope scope' s' _ h htrims
  cases htrims with
  | forLoop hhead hinit' hc' hupdate' hbody' =>
    rw [stmt_forLoop, stmt_forLoop]
    refine (mirrors_openInside h .loop).bind fun id id' υ hυ hin => ?_
    refine (mirrors_loopInit hinit hin.toAbreast hhead hinit').bind fun _ _ ω hω _ => ?_
    have hin := hin.mono hω
    refine (mirrors_loopCondition hc hin.toAbreast hc').bind fun _ _ ψ hψ _ => ?_
    have hin := hin.mono hψ
    refine (mirrors_loopUpdate hupdate hin.toAbreast hupdate').bind fun _ _ χ hχ _ => ?_
    exact (mirrors_block hbody (hin.mono hχ) hbody').bind_base fun _ _ _ _ _ => .pure trivial

lemma StmtMirrors.ret {v : Option Expr} (hv : ∀ e ∈ v, ExprMirrors L e) (span : Span) :
    StmtMirrors L (.ret span v) := by
  intro w scope scope' s' _ h htrims
  cases htrims with
  | ret hv' =>
    cases hv' with
    | none =>
      rw [stmt, stmt]
      exact (mirrors_returnFrame h.sees rfl).bind_pure fun _ _ _ _ _ => trivial
    | some he =>
      rw [stmt, stmt]
      refine (mirrors_returnFrame h.sees rfl).bind fun r r' υ hυ hr => ?_
      obtain ⟨hframe, hresult, hsettled⟩ := hr
      refine (hv _ rfl (h.mono hυ) he).bind fun a a' ω hω ha => ?_
      exact (mirrors_giveBack (hω.link hframe) (hω.link hresult)
        (fun hstrict => hω.link (hsettled hstrict)) ha).bind_pure fun _ _ _ _ _ => trivial

/-- An arm may have been removed, or all that follow. -/
lemma ChainMirrors.elseIf {c : Expr} {body : List Stmt} {rest : Chain} (hc : ExprMirrors L c)
    (hbody : ∀ s ∈ body, StmtMirrors L s) (hrest : ChainMirrors L rest) (x : Extent) :
    ChainMirrors L (.elseIf x c body rest) := by
  intro w scope scope' ch' h htrims
  cases htrims with
  | elseIf hc' hbody' hrest' =>
    constructor
    · rw [chain_elseIf, chain_elseIf]
      refine (mirrors_arm hc hbody h .block hc' hbody').bind fun _ _ υ hυ _ => ?_
      exact (hrest (h.mono hυ) hrest').1.bind_pure fun _ _ _ _ _ => trivial
    · intro s' hs'
      cases hs' with
      | elseIf =>
        rw [chain_elseIf, stmt_ifElse]
        refine (mirrors_arm hc hbody h .block hc' hbody').bind fun _ _ υ hυ _ => ?_
        exact (hrest (h.mono hυ) hrest').1.bind_pure fun _ _ _ _ _ => trivial
  | skip hlax hrest' =>
    rw [chain_elseIf]
    constructor
    · refine .bind_beside (leads_beside hlax) fun _ υ hυ _ _ => .pure_left ?_
      exact (hrest (h.mono hυ) hrest').1.last
    · intro s' hs'
      refine .bind_beside (leads_beside hlax) fun _ υ hυ _ _ => .pure_left ?_
      exact ((hrest (h.mono hυ) hrest').2 s' hs').last
  | stop hlax => exact ⟨mirrors_stop hlax, fun s' hs' => nomatch hs'⟩

lemma ChainMirrors.otherwise {body : List Stmt} (hbody : ∀ s ∈ body, StmtMirrors L s)
    (block : Span) : ChainMirrors L (.otherwise block body) := by
  intro w scope scope' ch' h htrims
  cases htrims with
  | otherwise hbody' =>
    constructor
    · rw [chain_otherwise, chain_otherwise]
      exact (mirrors_inner hbody h .block hbody').bind_pure fun _ _ _ _ _ => trivial
    · intro s' hs'
      cases hs' with
      | otherwise =>
        -- the condition of the conditional is a literal
        rw [chain_otherwise, stmt_ifElse, arm_true, chain.eq_1]
        simp only [bind_assoc, pure_bind]
        exact (mirrors_inner hbody h .block hbody').bind_pure fun _ _ _ _ _ => trivial
  | stop hlax => exact ⟨mirrors_stop hlax, fun s' hs' => nomatch hs'⟩

lemma tree_mirrors (L : Law) : Tree.Walk (ExprMirrors L) (StmtMirrors L) (ChainMirrors L) where
  leaf := ExprMirrors.leaf
  binary := ExprMirrors.binary
  unary := ExprMirrors.unary
  step he _ _ := by
    intro w scope scope' e' h htrims
    cases htrims with
    | step he' =>
      rw [Check.expr, Check.expr]
      exact (he h he').bind fun a a' υ hυ ha => .bind_check (World.number ha) fun _ => .pure ha
  ternary := ExprMirrors.ternary
  call_name := ExprMirrors.call_name
  call_member := ExprMirrors.call_member
  call_computed := ExprMirrors.call_computed
  member ho _ n := by
    intro w scope scope' e' h htrims
    cases htrims with
    | member ho' =>
      rw [Check.expr, Check.expr]
      refine (ho h ho').bind fun a a' υ hυ ha => .bind_types ?_
      have h1 := h.mono hυ
      exact .bind_check (World.member h1.full ha) fun _ =>
        .bind_types (.pure (World.memberType h1.full ha n))
  subscript ho hi _ := by
    intro w scope scope' e' h htrims
    cases htrims with
    | subscript ho' hi' =>
      rw [Check.expr, Check.expr]
      refine (ho h ho').bind fun a a' υ hυ ha => .bind_types
        (.bind_check (World.collection ha) fun _ => ?_)
      refine (hi (h.mono hυ) hi').bind fun b b' ω hω hb => .bind_types (.bind_rule fun t ht => ?_)
      obtain ⟨t', ht', htype⟩ := World.subscriptType (hω.typed ha) hb ht
      exact ⟨t', ht', .pure htype⟩
  array hes _ := by
    intro w scope scope' e' h htrims
    cases htrims with
    | array hes' =>
      rw [Check.expr, Check.expr]
      refine (mirrors_exprs hes h hes').bind fun rs rs' υ hυ hrs => ?_
      exact (mirrors_addType rfl (.array (World.common (World.types_of_typed hrs)))).bind_pure
        fun t t' ω _ ht => ht
  dictionary hes _ := by
    intro w scope scope' e' h htrims
    cases htrims with
    | dictionary hk hv =>
      rw [Check.expr, Check.expr]
      refine (mirrors_entries hes h hk hv).bind fun rs rs' υ hυ hrs => ?_
      exact (mirrors_addType rfl
        (.dictionary (World.common hrs.1) (World.common hrs.2))).bind_pure fun t t' ω _ ht => ht
  blockLambda hbody _ _ _ := by
    intro w scope scope' e' h htrims
    cases htrims with
    | blockLambda hbody' =>
      rw [expr_blockLambda, expr_blockLambda]
      refine (mirrors_openLambda h).bind fun r r' υ hυ hin => ?_
      exact (mirrors_block hbody hin hbody').bind_base fun _ _ ω _ _ => .pure ω.any
  exprLambda he _ _ := by
    intro w scope scope' e' h htrims
    cases htrims with
    | exprLambda he' =>
      rw [Check.expr, Check.expr]
      refine (mirrors_openLambda h).bind fun r r' υ hυ hin => ?_
      exact (he hin.toAbreast he').bind_pure fun _ _ ω _ _ => ω.any
  var hinit _ := by
    intro w scope scope' s' _ h htrims
    cases htrims with
    | var hinit' =>
      rw [stmt, stmt]
      exact (mirrors_var hinit h hinit').bind_pure fun _ _ _ _ _ => trivial
  assign := StmtMirrors.assign
  func _ _ := fun hrule => nomatch hrule
  cls _ _ := fun hrule => nomatch hrule
  ctor _ _ := fun hrule => nomatch hrule
  ifElse := StmtMirrors.ifElse
  whileLoop hc hbody _ := by
    intro w scope scope' s' _ h htrims
    cases htrims with
    | whileLoop hc' hbody' =>
      rw [stmt_whileLoop, stmt_whileLoop]
      exact (mirrors_arm hc hbody h .loop hc' hbody').bind_pure fun _ _ _ _ _ => trivial
  forLoop := StmtMirrors.forLoop
  ret := StmtMirrors.ret
  brk _ := by
    intro w scope scope' s' _ h htrims
    cases htrims with
    | brk =>
      rw [stmt, stmt]
      exact .bind_scopes (.bind_check (World.inLoop h.sees.scope) fun _ => .pure trivial)
  expr he := by
    intro w scope scope' s' _ h htrims
    cases htrims with
    | expr he' =>
      rw [stmt, stmt]
      exact (he h he').bind_pure fun _ _ _ _ _ => trivial
  done := by
    intro w scope scope' ch' h htrims
    cases htrims with
    | done => exact ⟨.pure trivial, fun s' hs' => nomatch hs'⟩
    | stop hlax => exact ⟨mirrors_stop hlax, fun s' hs' => nomatch hs'⟩
  elseIf := ChainMirrors.elseIf
  otherwise := ChainMirrors.otherwise

lemma exprMirrors (e : Expr) : ExprMirrors L e := (tree_mirrors L).expr_holds e

lemma stmtMirrors (s : Stmt) : StmtMirrors L s := (tree_mirrors L).stmt_holds s

end Check

end MiddleEnd
