import MiddleEnd.Proofs.Check.Places
import MiddleEnd.Proofs.Link.Announce

/-!
Programs side by side. After the declarations come the fields of the classes, and then the walk
through all statements. A program from which parts have been removed goes through all of this as the
program itself does; only a function may be found not to return.
-/

namespace MiddleEnd

variable {α β γ δ : Type} {L : Law} {base w υ : World L.lax} {scope scope' : ScopeId}

/-! ### Scopes that are left -/

lemma Session.Outer.not_hasBody {σ : Session} {id : ScopeId} (h : σ.Outer id) : ¬σ.HasBody id := by
  rintro ⟨s, f, -, hs, hf, -⟩
  cases (h.frame hs).symm.trans hf

/-- The bodies of functions and constructors are there, and different. -/
structure Session.HasBodies (σ : Session) (ids : List ScopeId) : Prop where
  bodies : ∀ id ∈ ids, σ.HasBody id
  nodup : ids.Nodup

namespace Session.HasBodies

variable {σ τ : Session} {ids ids' : List ScopeId}

lemma mono (h : σ.HasBodies ids) (hτ : σ.Later τ) : τ.HasBodies ids :=
  ⟨fun id hid => (h.bodies id hid).mono hτ, h.nodup⟩

lemma left (h : σ.HasBodies (ids ++ ids')) : σ.HasBodies ids :=
  ⟨fun id hid => h.bodies id (List.mem_append_left _ hid), (List.nodup_append.mp h.nodup).1⟩

lemma right (h : σ.HasBodies (ids ++ ids')) : σ.HasBodies ids' :=
  ⟨fun id hid => h.bodies id (List.mem_append_right _ hid), (List.nodup_append.mp h.nodup).2.1⟩

lemma disjoint (h : σ.HasBodies (ids ++ ids')) {id : ScopeId} (hid : id ∈ ids') : id ∉ ids :=
  fun hmem => (List.nodup_append.mp h.nodup).2.2 id hmem id hid rfl

lemma root_not_mem (h : σ.HasBodies ids) (hσ : σ.Assembled) : .root ∉ ids := by
  intro hroot
  obtain ⟨s, hs, -, hframe, -⟩ := hσ.scopes.root
  exact Session.Outer.not_hasBody (.root hs hframe) (h.bodies _ hroot)

end Session.HasBodies

namespace World

variable {ids : List ScopeId} {id id' : ScopeId}

/-- The places of declarations are not left. -/
lemma Sees.leaving (h : w.Sees L id id') (houter : w.left.Outer id)
    (hids : ∀ i ∈ ids, w.left.HasBody i) : (w.leaving ids).Sees L id id' := by
  have stays {i : ScopeId} (hi : w.left.Outer i) {n : String} {c : Cell}
      (hn : w.link (.name i n) c) : (w.leaving ids).link (.name i n) c := by
    refine link_leaving hn ?_
    rintro - j hj m ⟨⟩
    exact hi.not_hasBody (hids _ hj)
  induction h with
  | root hs hframe hscope hnames =>
    exact .root hs hframe (link_leaving hscope nofun) fun hn => stays houter (hnames hn)
  | inner hs hs' hp hp' hscope hnames hsettled _ ih =>
    refine .inner hs hs' hp hp' (link_leaving hscope nofun) (fun n => stays houter (hnames n))
      (fun hstrict f f' hf hf' => link_leaving (hsettled hstrict hf hf') nofun) (ih ?_)
    cases houter with
    | root ht => exact absurd (w.leftOrdered.scopes.parents hs hp) (Nat.not_lt_zero _)
    | inner ht hq _ hparent =>
      cases hs.symm.trans ht
      cases hp.symm.trans hq
      exact hparent

lemma Level.leaving (h : w.Level L scope scope') (hids : ∀ i ∈ ids, w.left.HasBody i) :
    (w.leaving ids).Level L scope scope' :=
  ⟨h.sees.leaving h.outer hids, h.outer⟩

lemma Body.leaving (h : w.Body L id id') (hids : ∀ i ∈ ids, w.left.HasBody i) (hid : id ∉ ids) :
    (w.leaving ids).Body L id id' := by
  refine ⟨?_, h.notBody, h.inside⟩
  obtain ⟨s, p, hs, hp, houter⟩ := h.inside
  cases h.sees with
  | root => exact absurd (w.leftOrdered.scopes.parents hs hp) (Nat.not_lt_zero _)
  | inner ht hs' hq hp' hscope hnames hsettled hparent =>
    cases hs.symm.trans ht
    cases hp.symm.trans hq
    refine .inner hs hs' hp hp' (link_leaving hscope nofun) (fun n => link_leaving (hnames n) ?_)
      (fun hstrict f f' hf hf' => link_leaving (hsettled hstrict hf hf') nofun)
      (hparent.leaving houter hids)
    rintro - j hj m ⟨⟩
    exact hid hj

end World

/-- Declarations with these bodies may be looked at in the two places. -/
structure World.Walking (L : Law) (w : World L.lax) (scope scope' : ScopeId) (ids : List ScopeId) :
    Prop where
  together : ¬L.apart
  full : w.Full
  level : w.Level L scope scope'
  bodies : w.left.HasBodies ids

section After

variable {ids ids' : List ScopeId} {F : ClassId → ClassId → Stmt → Stmt → Prop}

lemma World.full_leaving (h : w.Full) : (w.leaving ids).Full :=
  ⟨fun hc => link_leaving (h.constructors hc.1) nofun,
    fun n hc => link_leaving (h.members n hc.1) nofun⟩

namespace World.Walking

lemma root_not_mem (h : w.Walking L scope scope' ids) : .root ∉ ids :=
  h.bodies.root_not_mem w.leftOrdered

lemma first (h : w.Walking L scope scope' (ids ++ ids')) : w.Walking L scope scope' ids :=
  ⟨h.together, h.full, h.level, h.bodies.left⟩

/-- When some of the bodies have been left, the others may be looked at. -/
lemma after (h : w.Walking L scope scope' (ids ++ ids')) (hυ : (w.leaving ids).Advance L υ) :
    υ.Walking L scope scope' ids' where
  together := h.together
  full := hυ.full h.together (full_leaving h.full)
  level := (h.level.leaving h.bodies.left.bodies).mono hυ
  bodies := h.bodies.right.mono hυ.left

end World.Walking

lemma Ready.after {s s' : Stmt} (h : Ready L w F s s') (hids : w.left.HasBodies (ids ++ ids'))
    (hs : ∀ id ∈ s.bodies, id ∈ ids') (hυ : (w.leaving ids).Advance L υ) : Ready L υ F s s' := by
  have hleft : Ready L (w.leaving ids) F s s' :=
    h.imp rfl (fun hc => World.link_leaving hc nofun) (·.leaving hids.left.bodies) (fun hF => hF)
      fun hid hb => hb.leaving hids.left.bodies (hids.disjoint (hs _ hid))
  exact hleft.mono hυ fun hF => hF

lemma ReadyList.after {c c' : ClassId} {ms ms' : List Stmt} (h : ReadyList L w F c c' ms ms')
    (hids : w.left.HasBodies (ids ++ Stmt.bodiesList ms)) (hυ : (w.leaving ids).Advance L υ) :
    ReadyList L υ F c c' ms ms' :=
  readyList_imp rfl (fun hF => hF) (fun s hs _ _ hready => hready.after hids
    (fun _ hid => Stmt.mem_bodiesList.mpr ⟨s, hs, hid⟩) hυ) h

end After

namespace Check

/-! ### Fields -/

/-- Nothing more is known of a field than that it is on both sides. -/
abbrev anyField : ClassId → ClassId → Stmt → Stmt → Prop := fun _ _ _ _ => True

def FieldsMirrored (L : Law) (s : Stmt) : Prop :=
  ∀ {w : World L.lax} {F s'}, (∀ {c c' s s'}, F c c' s s' → s.Trims L.lax s') → ¬L.apart →
    w.Full → Ready L w F s s' → Mirrors L (classFields s) (classFields s') w
      fun r r' υ => Ready L υ anyField r r' ∧ r.isVar = s.isVar

lemma mirrors_memberFields {F : ClassId → ClassId → Stmt → Stmt → Prop} {c c' : ClassId}
    {b b' : ScopeId} {ms ms' : List Stmt} (hms : ∀ s ∈ ms, FieldsMirrored L s)
    (hF : ∀ {c c' s s'}, F c c' s s' → s.Trims L.lax s') (htogether : ¬L.apart)
    (hbase : base.Advance L w) (hfull : w.Full) (hsees : w.Sees L b b')
    (h : ReadyList L base F c c' ms ms') :
    Mirrors L (memberFields b ms) (memberFields b' ms') w
      fun r r' υ => ReadyList L υ anyField c c' r r' := by
  induction ms generalizing w ms' with
  | nil =>
    cases h
    exact .pure .nil
  | cons s ms ih =>
    rw [List.forall_mem_cons] at hms
    have rest {υ : World L.lax} {ms' : List Stmt} (hυ : w.Advance L υ)
        (h : ReadyList L base F c c' ms ms') := ih hms.2 (hbase.trans hυ) (hυ.full htogether hfull)
          (hsees.mono hυ) h
    cases h with
    | field hfield hrest =>
      have htrims := hF hfield
      cases htrims with
      | var hinit =>
        rw [memberFields, memberFields]
        refine (mirrors_var (fun e _ => exprMirrors e) ⟨htogether, hfull, hsees⟩ hinit).bind
          fun _ _ υ hυ _ => ?_
        exact (rest hυ hrest).bind_pure fun _ _ ω hω hms => .field trivial hms
    | keep hvar hs hrest =>
      rw [memberFields_cons hvar, memberFields_cons ((isVar_of_ready hs).trans hvar)]
      refine (hms.1 hF htogether hfull (hs.mono hbase fun h => h)).bind fun r r' υ hυ hr => ?_
      exact (rest hυ hrest).bind_pure fun _ _ ω hω hms =>
        .keep (hr.2.trans hvar) (hr.1.mono hω fun h => h) hms
    | lose hlax hs hrest =>
      -- a branch among the members has no field to declare
      have hplain : s.isVar = false ∧ s.isClass = false := by
        cases s with
        | ifElse | whileLoop => exact ⟨rfl, rfl⟩
        | _ => cases hs
      rw [memberFields_cons hplain.1, classFields_eq_pure hplain.2, pure_bind]
      exact (rest (.refl w) hrest).map_left fun _ _ ω hω hms => .lose hlax hs hms

lemma fieldsMirrored (s : Stmt) : FieldsMirrored L s := by
  induction s using Stmt.members_induction with
  | other s hs =>
    intro w F s' _ _ _ h
    have hs' : s'.isClass = false := by
      cases h with
      | func | ctor => rfl
      | cls => cases hs
      | plain _ htrims => exact htrims.isClass_eq.trans hs
    rw [classFields_eq_pure hs, classFields_eq_pure hs']
    exact .pure ⟨h.mono (.refl w) fun _ => trivial, rfl⟩
  | cls head ms ih =>
    intro w F s' hF htogether hfull h
    cases h with
    | plain hrule => cases hrule
    | cls hc hc' hb hb' hcls hlevel hroot hms =>
      rw [classFields, classFields]
      refine .bind_registered fun b hb0 => ?_
      cases hb.symm.trans hb0
      refine ⟨_, hb', ?_⟩
      refine (mirrors_memberFields ih hF htogether (.refl w) hfull hlevel.sees hms).bind
        fun r r' υ hυ hr => mirrors_note.bind_pure fun _ _ ω hω _ => ⟨?_, rfl⟩
      have hall := hυ.trans hω
      exact .cls hc hc' hb hb' (hall.link hcls) (hlevel.mono hall) hroot (hr.mono hω fun h => h)

/-! ### The ends of functions and classes -/

/-- What a function has given back on the left it has given back on the right, unless returns may
get lost. -/
lemma mirrors_closeFunction {head head' : FuncHead} {id id' : ScopeId}
    (hscope : w.link.scope id id') (hsees : ¬L.lax → w.Sees L id id') :
    Mirrors L (closeFunction head id) (closeFunction head' id') w fun _ _ _ => True := by
  unfold closeFunction
  refine .bind_scopes (.bind_rule fun s hs => ?_)
  obtain ⟨t, s', ht, hs', hlinked⟩ := w.scope hscope
  have hs := Scopes.scope_eq_ok.mp hs
  cases hs.symm.trans ht
  refine ⟨s', Scopes.scope_eq_ok.mpr hs', .bind_registered fun f hf => ?_⟩
  obtain ⟨f', hf', hframe⟩ := Option.Rel.exists_of_some hlinked.frame hf
  refine ⟨f', hf', .bind_rule fun g hg => ?_⟩
  cases w.agree hframe with
  | @frame _ _ _ g' hl hr _ hresult =>
    cases (Scopes.frame_eq_ok.mp hg).symm.trans hl
    refine ⟨g', Scopes.frame_eq_ok.mpr hr, .bind_types ?_⟩
    cases hsettled : g'.settled with
    | true =>
      -- the function gives something back on the right
      exact .bind_check (fun _ => ensure_eq_ok.mpr rfl) fun _ => .pure trivial
    | false =>
      -- the return is gone on the right: that is the fault the law allows, if it allows removals
      refine .bind_left_rule fun _ hreturns => ?_
      have hreturns : g.settled = true := ensure_eq_ok.mp hreturns
      refine .misses ?_ ⟨_, _, _, rfl⟩
      by_contra hstrict
      cases w.agree ((hsees hstrict).settled hstrict hs hs' hf hf') with
      | settled _ hl' hr' heq =>
        cases hl.symm.trans hl'
        cases hr.symm.trans hr'
        rw [hsettled, hreturns] at heq
        cases heq

lemma mirrors_closeClass {head head' : ClassHead} {c c' : ClassId} {b b' : ScopeId}
    (htogether : ¬L.apart) (hfull : w.Full) (hcls : w.link.cls c c') (hsees : w.Sees L b b')
    (hroot : b ≠ .root) :
    Mirrors L (closeClass head c b) (closeClass head' c' b') w fun _ _ _ => True := by
  unfold closeClass
  refine .bind_scopes (.bind_rule fun s hs => ?_)
  obtain ⟨t, s', ht, hs', -⟩ := w.scope hsees.scope
  have hs := Scopes.scope_eq_ok.mp hs
  cases hs.symm.trans ht
  refine ⟨s', Scopes.scope_eq_ok.mpr hs', ?_⟩
  have traced (c : ClassId) (members : Bindings) : Traced True True (changeClass c
      (·.updateClass · fun e => { e with members, finalized := true })) := traced_close
  have continues {σ : Session} (hσ : σ.Assembled) {c : ClassId} {b : ScopeId} {s : Scope}
      (hs : σ.scopes.scope? b = some s) : σ.Continues (OfClass c)
        (σ.updateClass c fun e => { e with members := s.bindings, finalized := true }) := by
    have hbinding {n : String} {x : Binding} (hx : s.bindings.find? n = some x) :
        σ.scopes.bindingAt? n b = some x := Scopes.bindingAt?_eq_some.mpr ⟨s, hs, hx⟩
    exact hσ.updateClass (.close hσ.types c fun hx => hσ.bindings (hbinding hx))
      (fun e _ => ⟨rfl, rfl, fun n hn => absurd rfl hn, fun _ => rfl, fun _ => rfl, fun _ => rfl⟩)
      hσ.bodies fun _ hx => hσ.scopes.present (hbinding hx)
  refine (mirrors_changeClass hcls (continues w.leftOrdered hs) (continues w.rightOrdered hs')
    fun e e' _ _ => ⟨fun _ h => h, fun n _ _ => ?_, id⟩).bind fun _ _ υ hυ _ => ?_
  · -- the members become the names of the body, and those are linked
    have hname := (hsees.name n).resolve_right fun h => hroot h.2
    cases w.agree hname with
    | name _ hl hr hb =>
      cases hs.symm.trans hl
      cases hs'.symm.trans hr
      exact hb
  · -- the constructors are linked, so they clash on both sides or on none
    refine .bind_types (bind_classEntry (hυ.link hcls) fun e e' he he' _ _ => ?_)
    exact .bind_check (World.Full.constructorsDiffer (hυ.full htogether hfull)
      (hυ.link hcls) he he') fun _ => .pure trivial

/-! ### The walk through declarations -/

/-- One step after another, and the scopes of both are left. -/
lemma bind_leaving {x : Check α} {y : Check β} {k : α → Check γ} {l : β → Check δ}
    [∀ a, Traced True True (k a)] {ids ids' : List ScopeId} (hroot : .root ∉ ids ++ ids')
    (hx : MirrorsFrom L (w.leaving ids) x y w fun _ _ _ => True)
    (hgoal : ∀ a b υ, (w.leaving ids).Advance L υ →
      MirrorsFrom L (υ.leaving ids') (k a) (l b) υ fun _ _ _ => True) :
    MirrorsFrom L (w.leaving (ids ++ ids')) (x >>= k) (y >>= l) w fun _ _ _ => True := by
  rw [List.mem_append, not_or] at hroot
  have hall : (w.leaving (ids ++ ids')).Advance L w :=
    World.advance_of_leaving (by rw [List.mem_append, not_or]; exact hroot)
  have hmid : (w.leaving (ids ++ ids')).Advance L (w.leaving ids) :=
    hall.leaving fun hlax id hid => World.hides_leaving hlax (List.mem_append_left _ hid)
  refine hx.bind_from (fun _ => ⟨hmid, World.advance_of_leaving hroot.1⟩) fun a b υ hυ _ => ?_
  refine (hgoal a b υ hυ).rebase ?_ (World.advance_of_leaving hroot.2)
  exact (hmid.trans hυ).leaving fun hlax id hid =>
    World.hides_leaving hlax (List.mem_append_right _ hid)

/-- A declaration that has been made known is looked at on both sides. The names in the bodies of
its functions are not needed afterwards. -/
def WalksMirrored (L : Law) (s : Stmt) : Prop :=
  ∀ {w : World L.lax} {scope scope' s'}, w.Walking L scope scope' s.bodies →
    Ready L w anyField s s' →
    MirrorsFrom L (w.leaving s.bodies) (stmt scope s) (stmt scope' s') w fun _ _ _ => True

lemma walk_body {body body' : List Stmt} {id id' : ScopeId} (htogether : ¬L.apart) (hfull : w.Full)
    (hbody : w.Body L id id') (htrims : Stmt.TrimsList L.lax body body') :
    MirrorsFrom L (w.leaving [id]) (block id body) (block id' body') w fun _ _ _ => True :=
  mirrors_hidden (fun s _ => stmtMirrors s) ⟨htogether, hfull, hbody.sees⟩ hbody.notBody
    (fun hlax => World.hides_leaving hlax List.mem_cons_self) htrims

/-- What the right lacks is looked at on the left alone. -/
lemma walk_gone {s : Stmt} (h : Gone L w scope s) :
    MirrorsFrom L (w.leaving s.bodies) (stmt scope s) (pure ()) w fun _ _ _ => True := by
  cases h with
  | branch hlax hs =>
    exact (MirrorsFrom.beside (leads_branch hlax hs)).mono fun _ _ _ _ _ => trivial
  | @func head body id _ hlax _ hid _ hnot =>
    rw [show (Stmt.func head body).bodies = [id] by rw [Stmt.bodies, hid]; rfl]
    have hhides : (w.leaving [id]).Hides id := World.hides_leaving hlax List.mem_cons_self
    refine .last_leaving (fun _ => List.forall_mem_singleton.mpr hhides)
      (stmtLeads _ w.leftOrdered (w.leaving [id]).room_beside (World.returning_beside hlax)
        (fun _ h => by cases h) ?_)
    rintro b hb
    cases hid.symm.trans hb
    exact World.open_beside hlax hhides hnot

lemma mirrors_members {c c' : ClassId} {b b' : ScopeId} {ms ms' : List Stmt}
    (hms : ∀ s ∈ ms, WalksMirrored L s) (h : w.Walking L b b' (Stmt.bodiesList ms))
    (hready : ReadyList L w anyField c c' ms ms') :
    MirrorsFrom L (w.leaving (Stmt.bodiesList ms)) (members b ms) (members b' ms') w
      fun _ _ _ => True := by
  induction ms generalizing w ms' with
  | nil =>
    cases hready
    exact .pure trivial
  | cons s ms ih =>
    rw [List.forall_mem_cons] at hms
    cases hready with
    | field _ hrest =>
      rw [members, members]
      exact (ih hms.2 h hrest).bind_base fun _ _ _ _ _ => .pure trivial
    | keep hvar hs hrest =>
      rw [members_cons hvar, members_cons ((isVar_of_ready hs).trans hvar)]
      refine bind_leaving h.root_not_mem (hms.1 h.first hs) fun _ _ υ hυ => ?_
      exact (ih hms.2 (h.after hυ) (hrest.after h.bodies hυ)).bind_base
        fun _ _ _ _ _ => .pure trivial
    | lose hlax hs hrest =>
      have hvar : s.isVar = false := by
        cases s with
        | var => cases hs
        | _ => rfl
      have hright : members b' ms' = pure () >>= fun _ => members b' ms' := by simp
      rw [members_cons hvar, hright]
      refine bind_leaving h.root_not_mem (walk_gone (.branch hlax hs)) fun _ _ υ hυ => ?_
      exact (ih hms.2 (h.after hυ) (hrest.after h.bodies hυ)).pure_left

lemma walksMirrored (s : Stmt) : WalksMirrored L s := by
  induction s using Stmt.members_induction with
  | other s hs =>
    intro w scope scope' s' h hready
    cases hready with
    | @func head _ body _ id id' hid hid' hbody htrims =>
      rw [show (Stmt.func head body).bodies = [id] by rw [Stmt.bodies, hid]; rfl]
      rw [stmt_func, stmt_func]
      refine .bind_registered fun b hb => ?_
      cases hid.symm.trans hb
      refine ⟨id', hid', (walk_body h.together h.full hbody htrims).bind_base fun _ _ υ hυ _ => ?_⟩
      have hscope : υ.link.scope id id' :=
        hυ.link (World.link_leaving hbody.sees.scope fun _ _ _ _ h => by cases h)
      refine (mirrors_closeFunction hscope fun hstrict => ?_).bind_pure fun _ _ _ _ _ => trivial
      -- without removals what the body gives back is linked still
      exact hbody.sees.transfer
        (fun hc => hυ.link (World.link_leaving hc fun hlax => absurd hlax hstrict))
        hυ.left.scopes hυ.right.scopes
    | @ctor head _ body _ id id' hid hid' hbody htrims =>
      rw [show (Stmt.ctor head body).bodies = [id] by rw [Stmt.bodies, hid]; rfl]
      rw [stmt_ctor hid, stmt_ctor hid']
      exact (walk_body h.together h.full hbody htrims).bind_base fun _ _ _ _ _ => .pure trivial
    | cls => cases hs
    | plain hrule htrims =>
      exact (stmtMirrors s hrule ⟨h.together, h.full, h.level.sees⟩ htrims).last
  | cls head ms ih =>
    intro w scope scope' s' h hready
    cases hready with
    | plain hrule => cases hrule
    | cls hc hc' hb hb' hcls hlevel hroot hms =>
      rw [stmt, stmt]
      refine .bind_registered fun c hc0 => ?_
      cases hc.symm.trans hc0
      refine ⟨_, hc', .bind_registered fun b hb0 => ?_⟩
      cases hb.symm.trans hb0
      have hnote {e e' : LogEvent} : MirrorsFrom L (w.leaving []) (note e) (note e') w
          fun _ _ _ => True := mirrors_note.last
      refine ⟨_, hb', bind_leaving h.root_not_mem hnote fun _ _ υ hυ => ?_⟩
      -- the members are walked in the body of the class
      have hin : w.Walking L _ _ ([] ++ Stmt.bodiesList ms) :=
        ⟨h.together, h.full, hlevel, h.bodies⟩
      have hinside := hin.after hυ
      refine (mirrors_members ih hinside (hms.after h.bodies hυ)).bind_base fun _ _ ω hω _ => ?_
      have hids := hinside.bodies.bodies
      have hcls : υ.link.cls _ _ :=
        hυ.link (World.link_leaving hcls fun _ _ _ _ h => by cases h)
      have hcls : ω.link.cls _ _ :=
        hω.link (World.link_leaving hcls fun _ _ _ _ h => by cases h)
      exact (mirrors_closeClass h.together
        (hω.full h.together (World.full_leaving hinside.full)) hcls
        ((hinside.level.leaving hids).mono hω).sees hroot).bind_pure fun _ _ _ _ _ => trivial

lemma mirrors_walk {ss ss' : List Stmt} (h : w.Walking L scope scope' (Stmt.bodiesList ss))
    (hready : Thinned (Ready L w anyField) (Gone L w scope) ss ss') :
    MirrorsFrom L (w.leaving (Stmt.bodiesList ss)) (stmts scope ss) (stmts scope' ss') w
      fun _ _ _ => True := by
  induction ss generalizing w ss' with
  | nil =>
    cases hready
    exact .pure trivial
  | cons s ss ih =>
    have later {υ : World L.lax} {ss' : List Stmt} (hυ : (w.leaving s.bodies).Advance L υ)
        (hrest : Thinned (Ready L w anyField) (Gone L w scope) ss ss') :
        Thinned (Ready L υ anyField) (Gone L υ scope) ss ss' := by
      refine hrest.mono (fun t ht t' hs => hs.after h.bodies (fun id hid => ?_) hυ)
        fun t _ hs => Gone.mono (w := w.leaving s.bodies) ?_ hυ
      · exact Stmt.mem_bodiesList.mpr ⟨t, ht, hid⟩
      · cases hs with
        | branch hlax hs => exact .branch hlax hs
        | func hlax hroot hid hs hnot => exact .func hlax hroot hid hs hnot
    rw [stmts]
    cases hready with
    | keep hs hrest =>
      rw [stmts]
      refine bind_leaving h.root_not_mem (walksMirrored s h.first hs) fun _ _ υ hυ => ?_
      exact (ih (h.after hυ) (later hυ hrest)).bind_base fun _ _ _ _ _ => .pure trivial
    | lose hs hrest =>
      rw [show stmts scope' ss' = pure () >>= fun _ => stmts scope' ss' by simp]
      refine bind_leaving h.root_not_mem (walk_gone hs) fun _ _ υ hυ => ?_
      exact (ih (h.after hυ) (later hυ hrest)).pure_left

/-! ### Programs -/

lemma mirrors_fields {F : ClassId → ClassId → Stmt → Stmt → Prop} {ss ss' : List Stmt}
    (hF : ∀ {c c' s s'}, F c c' s s' → s.Trims L.lax s') (htogether : ¬L.apart) (hfull : w.Full)
    (hready : Thinned (Ready L w F) (Gone L w scope) ss ss') :
    Mirrors L (ss.mapM classFields) (ss'.mapM classFields) w
      fun r r' υ => Thinned (Ready L υ anyField) (Gone L υ scope) r r' := by
  refine .mapM hready (fun hω h => h.mono hω fun h => h) (fun hω h => h.mono hω)
    (fun {s s' υ} hυ hs => ?_) fun {s υ} hυ hs => ?_
  · exact (fieldsMirrored s hF htogether (hυ.full htogether hfull)
      (hs.mono hυ fun h => h)).mono fun _ _ _ _ h => h.1
  · have hcls : s.isClass = false := by
      cases hs with
      | func => rfl
      | branch _ hs =>
        cases s with
        | cls => cases hs
        | _ => rfl
    rw [classFields_eq_pure hcls]
    exact .pure (hs.mono hυ)

lemma mirrors_program {F : World L.lax → ClassId → ClassId → Stmt → Stmt → Prop} {p p' : Program}
    (hF : FieldSpec L F) (htrims : ∀ {w c c' s s'}, F w c c' s s' → s.Trims L.lax s')
    (htogether : ¬L.apart) (hfull : w.Full) (hlevel : w.Level L .root .root) (htidy : w.Tidy L)
    (hsteady : ∀ s ∈ p.stmts, s.steady = true)
    (hthin : Thinned (Kept L .root) (Lost L .root) p.stmts p'.stmts) :
    Mirrors L (program p) (program p') w fun _ _ _ => True := by
  refine (mirrors_announce hF hlevel htidy hsteady hthin).with_gives.bind fun r r' υ hυ hr => ?_
  obtain ⟨hannounce, -, hready⟩ := hr
  have hrooms := rooms_announce w.leftOrdered hannounce
  refine (mirrors_fields (F := F υ) htrims htogether (hυ.full htogether hfull)
    hready).with_gives.bind fun q q' ω hω hq => ?_
  obtain ⟨hfields, -, hready⟩ := hq
  have hall := hυ.trans hω
  have hids : Stmt.bodiesList q = Stmt.bodiesList r := bodiesList_fields hfields
  -- the fields leave the bodies as the announcement has opened them
  have hwalking : ω.Walking L .root .root (Stmt.bodiesList q) := by
    refine ⟨htogether, hall.full htogether hfull, hlevel.mono hall, ?_, ?_⟩
    · rw [hids]
      exact fun id hid => (hrooms.lodges id hid).body.mono hω.left
    · rw [hids]
      exact hrooms.apart.imp And.left
  have hleave : w.Advance L (ω.leaving (Stmt.bodiesList q)) := by
    refine hall.leaving fun _ id hid => World.hides_of_absent ?_
    rw [hids] at hid
    exact (hrooms.lodges id hid).fresh
  refine ((mirrors_walk hwalking hready).rebase hleave
    (World.advance_of_leaving hwalking.root_not_mem)).bind_base fun _ _ ψ _ _ => ?_
  exact mirrors_note.bind_pure fun _ _ _ _ _ => trivial

end Check

/-! ### New sessions -/

/-- What is linked when two programs are about to be looked at: the basic types, the root scope and
the names of the language, but not those of functions that the right lacks. -/
inductive Link.Start (L : Law) : Link
  | type {f : TypeForm} {t : TypeId} (h : f.basicId? = some t) : Start L (.type t) (.type t)
  | scope : Start L (.scope .root) (.scope .root)
  | name {n : String} (h : ¬L.dropped n) : Start L (.name .root n) (.name .root n)

lemma Link.Start.eq {c c' : Cell} (h : Link.Start L c c') : c = c' := by
  cases h <;> rfl

/-- The names of the language stand for the same in all sessions. -/
lemma Bindings.linked_builtins {b : Binding} (h : b ∈ builtins.entries) :
    b.Linked (Link.Start L) b := by
  have hany : (Link.Start L).type .any .any := .type (f := .any) rfl
  have hnumber : (Link.Start L).type .number .number := .type (f := .number) rfl
  rcases mem_foldl_insert h with h | h
  · cases h
  rcases List.mem_append.mp h with h | h
  · obtain ⟨⟨name, id⟩, hmem, rfl⟩ := List.mem_map.mp h
    refine ⟨rfl, .type, ?_, rfl⟩
    simp only [TypeId.basic, List.mem_cons, Prod.mk.injEq, List.not_mem_nil, or_false] at hmem
    rcases hmem with ⟨-, rfl⟩ | ⟨-, rfl⟩ | ⟨-, rfl⟩ | ⟨-, rfl⟩ | ⟨-, rfl⟩
    · exact .type (f := .number) rfl
    · exact .type (f := .string) rfl
    · exact .type (f := .boolean) rfl
    · exact .type (f := .null) rfl
    · exact .type (f := .any) rfl
  · simp only [Binding.builtinFunctions, List.mem_cons, List.not_mem_nil, or_false] at h
    rcases h with rfl | rfl | rfl | rfl | rfl
    · exact ⟨rfl, .function (.cons hany .nil) hany, hany, rfl⟩
    · exact ⟨rfl, .function (.cons hnumber .nil) hnumber, hnumber, rfl⟩
    · exact ⟨rfl, .function (.cons hnumber .nil) hnumber, hnumber, rfl⟩
    · exact ⟨rfl, .function (.cons hnumber .nil) hnumber, hnumber, rfl⟩
    · exact ⟨rfl, .function (.cons hnumber (.cons hnumber .nil)) hnumber, hnumber, rfl⟩

namespace World

def start (L : Law) (log log' : List LogEvent) : World L.lax where
  link := Link.Start L
  left := { log }
  right := { log := log' }
  leftOrdered := Session.assembled_new log
  rightOrdered := Session.assembled_new log'
  unique := ⟨fun _ _ _ ha hb => ha.eq.trans hb.eq.symm, fun _ _ _ ha hb => ha.eq.symm.trans hb.eq⟩
  basic h := .type h
  agree h := by
    cases h with
    | @type f t h =>
      refine .type (TypeTable.form?_basic _ h) (TypeTable.form?_basic _ h) (.basic ?_)
      cases f <;> first | rfl | cases h
    | scope => exact .scope rfl rfl ⟨rfl, .none, .none, .none⟩
    | @name n h =>
      refine .name .scope rfl rfl ?_
      show Option.Rel _ (Bindings.builtins.find? n) (Bindings.builtins.find? n)
      cases hb : Bindings.builtins.find? n with
      | none => exact .none
      | some b => exact .some (Bindings.linked_builtins (List.mem_of_find?_eq_some hb))

variable {log log' : List LogEvent}

lemma full_start : (start L log log').Full := ⟨nofun, nofun⟩

lemma level_start : (start L log log').Level L .root .root :=
  ⟨.root rfl rfl .scope .name, .root rfl rfl⟩

lemma tidy_start : (start L log log').Tidy L where
  dropped hn hx := by
    cases hx with
    | name h => exact h hn
  apart _ hx := nomatch hx

end World

/-- The statements of an accepted program are steady. -/
lemma Check.steady_of_program {p q : Program} {log : List LogEvent} {τ : Session}
    (h : Gives (program p) { log } q τ) : ∀ s ∈ p.stmts, s.steady = true := by
  have hplaced : p.placed = true := (judges_program (Session.assembled_new _)).accepts h
  exact fun s hs => Stmt.steady_of_placed rfl rfl (Stmt.placedList_iff.mp hplaced s hs).2

end MiddleEnd
