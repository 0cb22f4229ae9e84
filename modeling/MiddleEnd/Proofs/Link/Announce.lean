import MiddleEnd.Proofs.Link.Declarations
import MiddleEnd.Proofs.Passes.Removal

/-!
The declarations of whole lists of statements side by side. When they have been made known on both
sides, every function, constructor and class has a body on each side, and the two bodies see the
same. Functions that the right lacks, and branches that have been removed, are on the left alone.
-/

namespace MiddleEnd

variable {α β γ δ : Type} {L : Law} {w υ : World L.lax} {scope scope' : ScopeId}

/-! ### Lists -/

namespace Thinned

lemma filterMap {r : α → β → Prop} {lost : α → Prop} {q : γ → δ → Prop} {lost' : γ → Prop}
    {f : α → Option γ} {g : β → Option δ} {l : List α} {l' : List β} (h : Thinned r lost l l')
    (hr : ∀ a b, r a b → Option.Rel q (f a) (g b)) (hlost : ∀ a, lost a → ∀ c ∈ f a, lost' c) :
    Thinned q lost' (l.filterMap f) (l'.filterMap g) := by
  induction h with
  | nil => exact .nil
  | @keep a b _ _ hab _ ih =>
    rw [List.filterMap_cons, List.filterMap_cons]
    have hrel := hr a b hab
    generalize f a = x at hrel
    generalize g b = y at hrel
    cases hrel with
    | none => exact ih
    | some hxy => exact .keep hxy ih
  | @lose a _ _ ha _ ih =>
    rw [List.filterMap_cons]
    cases hx : f a with
    | none => exact ih
    | some x => exact .lose (hlost a ha x hx) ih

end Thinned

namespace MirrorsFrom

/-- A step for each member of a list, one after another. For what the right lacks, only the left
takes a step. -/
lemma mapM {α' β' : Type} {f : α → Check β} {g : α' → Check β'} [∀ a, Traced True True (f a)]
    {r : α → α' → Prop} {lost : α → Prop} {post : β → β' → World L.lax → Prop}
    {gone : β → World L.lax → Prop} {l : List α} {l' : List α'} (h : Thinned r lost l l')
    (hpost : ∀ {b b' υ ω}, World.Advance L υ ω → post b b' υ → post b b' ω)
    (hgone : ∀ {b υ ω}, World.Advance L υ ω → gone b υ → gone b ω)
    (hkeep : ∀ {a a' υ}, w.Advance L υ → r a a' → Mirrors L (f a) (g a') υ post)
    (hlose : ∀ {a υ}, w.Advance L υ → lost a →
      Mirrors L (f a) (Pure.pure ()) υ fun b _ ω => gone b ω) :
    Mirrors L (l.mapM f) (l'.mapM g) w fun bs bs' υ =>
      Thinned (fun b b' => post b b' υ) (fun b => gone b υ) bs bs' := by
  induction h generalizing w with
  | nil => exact .pure .nil
  | keep hab _ ih =>
    rw [List.mapM_cons, List.mapM_cons]
    refine (hkeep (.refl w) hab).bind fun b b' υ hυ hb => ?_
    exact (ih (fun hω => hkeep (hυ.trans hω)) fun hω => hlose (hυ.trans hω)).bind_pure
      fun bs bs' ω hω hbs => .keep (hpost hω hb) hbs
  | @lose a l l' ha _ ih =>
    have hright : l'.mapM g = Pure.pure () >>= fun _ => l'.mapM g >>= fun bs => Pure.pure bs := by
      simp
    rw [List.mapM_cons, hright]
    refine (hlose (.refl w) ha).bind fun b _ υ hυ hb => ?_
    exact (ih (fun hω => hkeep (hυ.trans hω)) fun hω => hlose (hυ.trans hω)).bind_pure
      fun bs bs' ω hω hbs => .lose (hgone hω hb) hbs

lemma forM {α' : Type} {f : α → Check Unit} {g : α' → Check Unit} [∀ a, Traced True True (f a)]
    {r : α → α' → Prop} {lost : α → Prop} {l : List α} {l' : List α'} (h : Thinned r lost l l')
    (hkeep : ∀ {a a' υ}, w.Advance L υ → r a a' → Mirrors L (f a) (g a') υ fun _ _ _ => True)
    (hlose : ∀ {a υ}, w.Advance L υ → lost a →
      Mirrors L (f a) (Pure.pure ()) υ fun _ _ _ => True) :
    Mirrors L (l.forM f) (l'.forM g) w fun _ _ _ => True := by
  induction h generalizing w with
  | nil => exact .pure trivial
  | @keep a a' l l' hab _ ih =>
    show Mirrors L (f a >>= fun _ => l.forM f) (g a' >>= fun _ => l'.forM g) w _
    refine (hkeep (.refl w) hab).bind fun _ _ υ hυ _ => ?_
    exact (ih (fun hω => hkeep (hυ.trans hω)) fun hω => hlose (hυ.trans hω)).last
  | @lose a l l' ha _ ih =>
    have hright : l'.forM g = Pure.pure () >>= fun _ => l'.forM g := by simp
    rw [hright]
    show Mirrors L (f a >>= fun _ => l.forM f) _ w _
    refine (hlose (.refl w) ha).bind fun _ _ υ hυ _ => ?_
    exact (ih (fun hω => hkeep (hυ.trans hω)) fun hω => hlose (hυ.trans hω)).last

end MirrorsFrom

/-! ### What has been made known -/

mutual
/-- What is declared in the statements has been made known on both sides. Of the fields of linked
classes is known what `F` says. -/
inductive Ready (L : Law) (w : World L.lax) (F : ClassId → ClassId → Stmt → Stmt → Prop) :
    Stmt → Stmt → Prop
  | func {head head' : FuncHead} {body body' : List Stmt} {id id' : ScopeId}
      (hid : head.scope = some id) (hid' : head'.scope = some id') (hbody : w.Body L id id')
      (htrims : Stmt.TrimsList L.lax body body') : Ready L w F (.func head body) (.func head' body')
  | ctor {head head' : CtorHead} {body body' : List Stmt} {id id' : ScopeId}
      (hid : head.scope = some id) (hid' : head'.scope = some id') (hbody : w.Body L id id')
      (htrims : Stmt.TrimsList L.lax body body') : Ready L w F (.ctor head body) (.ctor head' body')
  | cls {head head' : ClassHead} {ms ms' : List Stmt} {c c' : ClassId} {b b' : ScopeId}
      (hc : head.cls = some c) (hc' : head'.cls = some c') (hb : head.scope = some b)
      (hb' : head'.scope = some b') (hcls : w.link.cls c c') (hlevel : w.Level L b b')
      (hroot : b ≠ .root) (hms : ReadyList L w F c c' ms ms') :
      Ready L w F (.cls head ms) (.cls head' ms')
  | plain {s s' : Stmt} (hrule : Rule.blockStmt s = .ok ()) (htrims : s.Trims L.lax s') :
      Ready L w F s s'

inductive ReadyList (L : Law) (w : World L.lax) (F : ClassId → ClassId → Stmt → Stmt → Prop) :
    ClassId → ClassId → List Stmt → List Stmt → Prop
  | nil {c c' : ClassId} : ReadyList L w F c c' [] []
  | field {c c' : ClassId} {h h' : VarHead} {i i' : Option Expr} {ms ms' : List Stmt}
      (hfield : F c c' (.var h i) (.var h' i')) (hms : ReadyList L w F c c' ms ms') :
      ReadyList L w F c c' (.var h i :: ms) (.var h' i' :: ms')
  | keep {c c' : ClassId} {s s' : Stmt} {ms ms' : List Stmt} (hvar : s.isVar = false)
      (hs : Ready L w F s s') (hms : ReadyList L w F c c' ms ms') :
      ReadyList L w F c c' (s :: ms) (s' :: ms')
  | lose {c c' : ClassId} {s : Stmt} {ms ms' : List Stmt} (hlax : L.lax) (hs : s.isBranch = true)
      (hms : ReadyList L w F c c' ms ms') : ReadyList L w F c c' (s :: ms) ms'
end

section Imp

variable {L' : Law} {ω : World L'.lax} {F F' : ClassId → ClassId → Stmt → Stmt → Prop}

lemma readyList_imp {c c' : ClassId} {ms ms' : List Stmt}
    (hlax : L'.lax = L.lax) (hF : ∀ {c c' s s'}, F c c' s s' → F' c c' s s')
    (hms : ∀ s ∈ ms, ∀ s' ∈ ms', Ready L w F s s' → Ready L' ω F' s s')
    (h : ReadyList L w F c c' ms ms') : ReadyList L' ω F' c c' ms ms' := by
  induction ms generalizing ms' with
  | nil =>
    cases h
    exact .nil
  | cons s ms ih =>
    rw [List.forall_mem_cons] at hms
    cases h with
    | field hfield hrest =>
      exact .field (hF hfield) (ih (fun t ht => (List.forall_mem_cons.mp (hms.2 t ht)).2) hrest)
    | keep hvar hs hrest =>
      refine .keep hvar ((List.forall_mem_cons.mp hms.1).1 hs) (ih (fun t ht => ?_) hrest)
      exact (List.forall_mem_cons.mp (hms.2 t ht)).2
    | lose h hs hrest => exact .lose (hlax ▸ h) hs (ih hms.2 hrest)

/-- What is known stays known where classes and the places of declarations and bodies stay. -/
lemma Ready.imp (hlax : L'.lax = L.lax) (hcls : ∀ {c c'}, w.link.cls c c' → ω.link.cls c c')
    (hlevel : ∀ {b b'}, w.Level L b b' → ω.Level L' b b')
    (hF : ∀ {c c' s s'}, F c c' s s' → F' c c' s s') {s s' : Stmt}
    (hbody : ∀ {id id'}, id ∈ s.bodies → w.Body L id id' → ω.Body L' id id')
    (h : Ready L w F s s') : Ready L' ω F' s s' := by
  induction s using Stmt.members_induction generalizing s' with
  | other s hs =>
    cases h with
    | func hid hid' hb htrims =>
      exact .func hid hid' (hbody (by simp [Stmt.bodies, hid]) hb) (hlax ▸ htrims)
    | ctor hid hid' hb htrims =>
      exact .ctor hid hid' (hbody (by simp [Stmt.bodies, hid]) hb) (hlax ▸ htrims)
    | cls => cases hs
    | plain hrule htrims => exact .plain hrule (hlax ▸ htrims)
  | cls head ms ih =>
    cases h with
    | cls hc hc' hb hb' hlink hl hroot hms =>
      refine .cls hc hc' hb hb' (hcls hlink) (hlevel hl) hroot
        (readyList_imp hlax hF (fun s hs s' _ h => ih s hs (fun hid => ?_) h) hms)
      exact hbody (Stmt.mem_bodiesList.mpr ⟨s, hs, hid⟩)
    | plain hrule => cases hrule

end Imp

lemma Ready.mono {F F' : ClassId → ClassId → Stmt → Stmt → Prop} {s s' : Stmt}
    (h : Ready L w F s s') (hυ : w.Advance L υ)
    (hF : ∀ {c c' s s'}, F c c' s s' → F' c c' s s') : Ready L υ F' s s' :=
  h.imp rfl hυ.link (·.mono hυ) hF fun _ => (·.mono hυ)

lemma ReadyList.mono {F F' : ClassId → ClassId → Stmt → Stmt → Prop} {c c' : ClassId}
    {ms ms' : List Stmt} (h : ReadyList L w F c c' ms ms') (hυ : w.Advance L υ)
    (hF : ∀ {c c' s s'}, F c c' s s' → F' c c' s s') : ReadyList L υ F' c c' ms ms' :=
  readyList_imp rfl hF (fun _ _ _ _ hs => hs.mono hυ hF) h

/-- A statement that the right lacks, with the body that it has been given. -/
inductive Gone (L : Law) (w : World L.lax) (scope : ScopeId) : Stmt → Prop
  | branch {s : Stmt} (hlax : L.lax) (hs : s.isBranch = true) : Gone L w scope s
  | func {head : FuncHead} {body : List Stmt} {id : ScopeId} {s : Scope} (hlax : L.lax)
      (hroot : scope = .root) (hid : head.scope = some id) (hs : w.left.scopes.scope? id = some s)
      (hnot : w.left.NotBody id) : Gone L w scope (.func head body)

lemma Gone.mono {s : Stmt} (h : Gone L w scope s) (hυ : w.Advance L υ) : Gone L υ scope s := by
  cases h with
  | branch hlax hs => exact .branch hlax hs
  | func hlax hroot hid hs hnot =>
    obtain ⟨t, ht, -⟩ := hυ.left.scopes.scope? hs
    exact .func hlax hroot hid ht (hυ.left.notBody hs hnot)

/-! ### What is to be made known -/

/-- The statement is on both sides. A function of the root scope that is on both sides is not
dropped. -/
structure Kept (L : Law) (scope : ScopeId) (s s' : Stmt) : Prop where
  trims : s.Trims L.lax s'
  name : scope = .root → ∀ {head body}, s = .func head body → ¬L.dropped head.name

def Lost (L : Law) (scope : ScopeId) (s : Stmt) : Prop :=
  L.lax ∧ (s.isBranch = true ∨
    scope = .root ∧ ∃ head body, s = .func head body ∧ L.dropped head.name)

lemma Lost.isClass {s : Stmt} (h : Lost L scope s) : s.isClass = false := by
  obtain ⟨-, hs | ⟨-, head, body, rfl, -⟩⟩ := h
  · cases s with
    | cls => cases hs
    | _ => rfl
  · rfl

/-- Names of dropped functions are not linked, and members only if they are not kept apart. -/
structure World.Tidy (L : Law) (w : World L.lax) : Prop where
  dropped : ∀ {n x}, L.dropped n → ¬w.link (.name .root n) x
  apart : ∀ {c n x}, L.apart → ¬w.link (.member c n) x

lemma World.Tidy.mono (h : w.Tidy L) (hυ : w.Advance L υ) : υ.Tidy L :=
  ⟨fun hn hx => h.dropped hn (hυ.root hx), fun hL hx => h.apart hL (hυ.apart hL hx)⟩

/-- What becomes known of fields when they are announced. -/
structure FieldSpec (L : Law) (F : World L.lax → ClassId → ClassId → Stmt → Stmt → Prop) :
    Prop where
  mono : ∀ {w υ c c' s s'}, World.Advance L w υ → F w c c' s s' → F υ c c' s s'
  announce : ∀ {w c c' b b' s s'}, World.Tidy L w → w.Level L b b' → w.link.cls c c' →
    s.isVar = true → s.Trims L.lax s' →
    Mirrors L (Check.announceField c b s) (Check.announceField c' b' s') w
      fun _ _ υ => F υ c c' s s'

namespace Check

variable {F : World L.lax → ClassId → ClassId → Stmt → Stmt → Prop}

/-- The classes among the statements have been opened on both sides. -/
inductive Opened (L : Law) (F : World L.lax → ClassId → ClassId → Stmt → Stmt → Prop)
    (w : World L.lax) (scope : ScopeId) : Stmt → Stmt → Prop
  | cls {s s' : Stmt} (hcls : s.isClass = true) (hs : Ready L w (F w) s s') :
      Opened L F w scope s s'
  | other {s s' : Stmt} (hcls : s.isClass = false) (hs : Kept L scope s s') :
      Opened L F w scope s s'

lemma Opened.mono (hF : FieldSpec L F) {s s' : Stmt} (h : Opened L F w scope s s')
    (hυ : w.Advance L υ) : Opened L F υ scope s s' := by
  cases h with
  | cls hcls hs => exact .cls hcls (hs.mono hυ (hF.mono hυ))
  | other hcls hs => exact .other hcls hs

structure Outlined (L : Law) (F : World L.lax → ClassId → ClassId → Stmt → Stmt → Prop)
    (w : World L.lax) (scope : ScopeId) (s s' : Stmt) : Prop where
  ready : Ready L w (F w) s s'
  binding : Option.Rel (fun b b' => b.1.Linked w.link b'.1) (functionBinding? s)
    (functionBinding? s')
  name : scope = .root → ∀ b ∈ functionBinding? s, ¬L.dropped b.1.name

lemma Outlined.mono (hF : FieldSpec L F) {s s' : Stmt} (h : Outlined L F w scope s s')
    (hυ : w.Advance L υ) : Outlined L F υ scope s s' :=
  ⟨h.ready.mono hυ (hF.mono hυ), Option.Rel.mono (·.mono hυ.within) h.binding, h.name⟩

lemma functionBinding?_eq_none {s : Stmt} (h : Rule.blockStmt s = .ok ()) :
    functionBinding? s = none := by
  cases s with
  | func => cases h
  | _ => rfl

lemma denotesType_functionBinding? {s : Stmt} :
    ∀ b ∈ functionBinding? s, b.1.denotesType = false := by
  intro b hb
  cases s with
  | func =>
    cases hb
    rfl
  | _ => cases hb

lemma outline_eq_pure {kind : FrameKind} {s : Stmt} (h : Rule.blockStmt s = .ok ()) :
    outline scope kind s = pure s := by
  cases s with
  | func | ctor => cases h
  | _ => rfl

lemma outlined_plain {s s' : Stmt} (hrule : Rule.blockStmt s = .ok ()) (htrims : s.Trims L.lax s') :
    Outlined L F w scope s s' := by
  have hnone := functionBinding?_eq_none hrule
  have hnone' := functionBinding?_eq_none (blockStmt_of_trims htrims hrule)
  refine ⟨.plain hrule htrims, ?_, fun _ b hb => ?_⟩
  · rw [hnone, hnone']
    exact .none
  · rw [hnone] at hb
    cases hb

/-! ### Functions and constructors -/

lemma mirrors_outline {kind : FrameKind} {s s' : Stmt} (h : w.Level L scope scope')
    (hs : Opened L F w scope s s') :
    Mirrors L (outline scope kind s) (outline scope' kind s') w
      fun r r' υ => Outlined L F υ scope r r' := by
  cases hs with
  | cls hcls hready =>
    cases hready with
    | cls hc hc' hb hb' hlink hlevel hroot hms =>
      exact .pure ⟨.cls hc hc' hb hb' hlink hlevel hroot hms, .none, fun _ b hb => by cases hb⟩
    | func | ctor => cases hcls
    | plain hrule =>
      cases s with
      | cls => cases hrule
      | _ => cases hcls
  | other hcls hkept =>
    obtain ⟨htrims, hname⟩ := hkept
    cases s with
    | func head body =>
      cases htrims with
      | func hbody =>
        rw [outline, outline]
        refine (mirrors_outlineFunction h).bind_pure fun r r' υ hυ hr => ?_
        obtain ⟨id, id', hid, hid', hin⟩ := hr.body
        refine ⟨.func hid hid' hin hbody, .some ?_, fun hroot b hb => ?_⟩
        · exact ⟨hr.name.2.trans hr.name.1.symm, .function hr.params hr.result, hr.result, rfl⟩
        · cases hb
          rw [show (Binding.ofFunction r.name _).name = head.name from hr.name.1]
          exact hname hroot rfl
    | ctor head body =>
      cases htrims with
      | ctor hbody =>
        rw [outline, outline]
        refine (mirrors_outlineConstructor h).bind_pure fun r r' υ hυ hr => ?_
        obtain ⟨id, id', hid, hid', hin⟩ := hr
        exact ⟨.ctor hid hid' hin hbody, .none, fun _ b hb => by cases hb⟩
    -- a class has been opened before
    | cls => cases hcls
    | _ =>
      rw [outline_eq_pure rfl, outline_eq_pure (blockStmt_of_trims htrims rfl)]
      exact .pure (outlined_plain rfl htrims)

/-- The name of a function that the right lacks is a name of the root scope. -/
structure DroppedBinding (L : Law) (w : World L.lax) (scope : ScopeId) (b : Binding × Span) :
    Prop where
  root : scope = .root
  name : L.dropped b.1.name
  valid : b.1.Valid w.left.types
  function : ∃ sig, b.1.kind = .function sig

lemma DroppedBinding.mono {b : Binding × Span} (h : DroppedBinding L w scope b)
    (hυ : w.Advance L υ) : DroppedBinding L υ scope b :=
  ⟨h.root, h.name, h.valid.mono hυ.left.forms, h.function⟩

lemma outline_lost {kind : FrameKind} {s : Stmt} (hs : Lost L scope s) :
    Mirrors L (outline scope kind s) (pure ()) w fun r _ υ => Gone L υ scope r ∧
      ∀ b ∈ functionBinding? r, DroppedBinding L υ scope b := by
  obtain ⟨hlax, hs | ⟨hroot, head, body, rfl, hdropped⟩⟩ := hs
  · -- a branch has no outline
    have hrule : Rule.blockStmt s = .ok () := by
      cases s with
      | ifElse | whileLoop => rfl
      | _ => cases hs
    rw [outline_eq_pure hrule]
    refine .pure ⟨.branch hlax hs, fun b hb => ?_⟩
    rw [functionBinding?_eq_none hrule] at hb
    cases hb
  · -- a function that is dropped is outlined on the left alone
    rw [outline]
    have hleads : Leads (Session.Continues w.Beside) (outlineFunction scope kind head) w.left
        fun head' τ => τ.types.Registered (head'.type.getD .any) ∧
          ∀ t ∈ Param.types head'.params, τ.types.Registered t :=
      leads_outlineFunction w.leftOrdered w.room_beside
    refine (MirrorsFrom.beside hleads).with_gives.map_left fun r _ υ _ hpost => ?_
    obtain ⟨hr, -, -, hresult, hparams⟩ := hpost
    obtain ⟨id, hid, hname, hhouses⟩ := houses_outlineFunction w.leftOrdered hr
    obtain ⟨t, ht, -⟩ := hhouses.inside
    refine ⟨.func hlax hroot hid ht hhouses.notBody, fun b hb => ?_⟩
    cases hb
    refine ⟨hroot, ?_, Binding.valid_of_function rfl rfl hresult hparams, _, rfl⟩
    rw [show (Binding.ofFunction r.name _).name = head.name from hname]
    exact hdropped

lemma notBody_root {σ : Session} (hσ : σ.Assembled) : σ.NotBody .root := by
  intro c e he hbody
  obtain ⟨s, hs, hcls⟩ := hσ.bodies he hbody
  obtain ⟨t, ht, -, -, hnone⟩ := hσ.scopes.root
  cases hs.symm.trans ht
  cases hcls.symm.trans hnone

lemma mirrors_bindings {bs bs' : List (Binding × Span)} (h : w.Level L scope scope')
    (htidy : w.Tidy L)
    (hbs : Thinned (fun b b' => b.1.Linked w.link b'.1 ∧ b.1.denotesType = false ∧
      (scope = .root → ¬L.dropped b.1.name)) (DroppedBinding L w scope) bs bs') :
    Mirrors L (bs.forM fun (b, span) => declare scope b span)
      (bs'.forM fun (b, span) => declare scope' b span) w fun _ _ _ => True := by
  refine .forM hbs (fun {b b' υ} hυ hb => ?_) fun {b υ} hυ hb => ?_
  · obtain ⟨hlinked, hvalue, hname⟩ := hb
    have hsees := h.sees.mono hυ
    exact mirrors_declare_seen hsees.scope (hsees.name _) (hlinked.mono hυ.within)
      (fun hd => by rw [hvalue] at hd; cases hd) fun hroot hdropped => absurd hdropped (hname hroot)
  · obtain ⟨rfl, hdropped, hvalid, sig, hsig⟩ := hb
    have hleads : Leads (Session.Continues υ.Beside) (declare .root b.1 b.2) υ.left
        fun _ _ => True :=
      leads_declare υ.leftOrdered (hvalid.mono hυ.left.forms) (Binding.present_of_function hsig)
        (World.declaring_beside (fun _ => (htidy.mono hυ).dropped hdropped)
          (notBody_root υ.leftOrdered))
    exact (MirrorsFrom.beside hleads).mono fun _ _ _ _ _ => trivial

lemma mirrors_bindFunctions {ss ss' : List Stmt} (hF : FieldSpec L F) (h : w.Level L scope scope')
    (htidy : w.Tidy L) (hss : Thinned (Opened L F w scope) (Lost L scope) ss ss') :
    Mirrors L (bindFunctions scope ss) (bindFunctions scope' ss') w
      fun r r' υ => Thinned (Ready L υ (F υ)) (Gone L υ scope) r r' := by
  unfold bindFunctions
  refine (mirrors_owner? h.sees.scope).bind fun o o' υ hυ ho => ?_
  rw [ho]
  have hlevel := h.mono hυ
  refine MirrorsFrom.bind (.mapM hss (fun hψ hs => hs.mono hF hψ)
    (fun hψ hs => ⟨hs.1.mono hψ, fun b hb => (hs.2 b hb).mono hψ⟩)
    (fun hω hs => mirrors_outline (hlevel.mono hω) (hs.mono hF (hυ.trans hω)))
    fun hω hs => outline_lost hs) fun r r' ω hω hr => ?_
  -- the functions that stay are bound on both sides, and those dropped on the left
  have hbindings : Thinned (fun b b' => b.1.Linked ω.link b'.1 ∧ b.1.denotesType = false ∧
      (scope = .root → ¬L.dropped b.1.name)) (DroppedBinding L ω scope)
      (r.filterMap functionBinding?) (r'.filterMap functionBinding?) := by
    refine hr.filterMap (fun s s' hs => ?_) fun s hs => hs.2
    have hbinding := hs.binding
    have hname := hs.name
    have hvalue : ∀ b ∈ functionBinding? s, b.1.denotesType = false := denotesType_functionBinding?
    generalize functionBinding? s = x at hbinding hname hvalue
    generalize functionBinding? s' = y at hbinding
    cases hbinding with
    | none => exact .none
    | some hb => exact .some ⟨hb, hvalue _ rfl, fun hroot => hname hroot _ rfl⟩
  refine (mirrors_bindings (hlevel.mono hω) (htidy.mono (hυ.trans hω)) hbindings).bind
    fun _ _ ψ hψ _ => ?_
  refine mirrors_note.bind_pure fun _ _ χ hχ _ => ?_
  exact hr.mono (fun s _ s' hs => hs.ready.mono (hψ.trans hχ) (hF.mono (hψ.trans hχ)))
    fun s _ hs => hs.1.mono (hψ.trans hχ)

/-! ### Classes -/

lemma announceField_eq_pure {c : ClassId} {b : ScopeId} {s : Stmt} (h : s.isVar = false) :
    announceField c b s = pure () := by
  cases s with
  | var => cases h
  | _ => rfl

lemma isVar_of_ready {G : ClassId → ClassId → Stmt → Stmt → Prop} {s s' : Stmt}
    (h : Ready L w G s s') : s'.isVar = s.isVar := by
  cases h with
  | func | ctor | cls => rfl
  | plain _ htrims => exact htrims.isVar_eq

/-- When the fields of a class are announced, all is known that is declared in it. -/
lemma mirrors_announceFields {base : World L.lax} {c c' : ClassId} {b b' : ScopeId}
    {ms ms' : List Stmt} (hF : FieldSpec L F) (hbase : base.Advance L w) (htidy : w.Tidy L)
    (hlevel : w.Level L b b') (hcls : w.link.cls c c') (hroot : b ≠ .root)
    (h : Thinned (Ready L base (F base)) (Gone L base b) ms ms') :
    Mirrors L (ms.forM (announceField c b)) (ms'.forM (announceField c' b')) w
      fun _ _ υ => ReadyList L υ (F υ) c c' ms ms' := by
  induction h generalizing w with
  | nil => exact .pure .nil
  | @keep s s' ms ms' hs _ ih =>
    show Mirrors L (announceField c b s >>= fun _ => ms.forM (announceField c b))
      (announceField c' b' s' >>= fun _ => ms'.forM (announceField c' b')) w _
    cases hvar : s.isVar with
    | true =>
      cases hs with
      | func | ctor | cls => cases hvar
      | plain hrule htrims =>
        refine (hF.announce htidy hlevel hcls hvar htrims).bind fun _ _ υ hυ hfield => ?_
        refine (ih (hbase.trans hυ) (htidy.mono hυ) (hlevel.mono hυ) (hυ.link hcls)).mono
          fun _ _ ω hω hms => ?_
        cases htrims with
        | var => exact .field (hF.mono hω hfield) hms
        | _ => cases hvar
    | false =>
      rw [announceField_eq_pure hvar, announceField_eq_pure ((isVar_of_ready hs).trans hvar)]
      refine (ih hbase htidy hlevel hcls).mono fun _ _ υ hυ hms => ?_
      exact .keep hvar (hs.mono (hbase.trans hυ) (hF.mono (hbase.trans hυ))) hms
  | @lose s ms ms' hs _ ih =>
    cases hs with
    | branch hlax hs =>
      have hvar : s.isVar = false := by
        cases s with
        | var => cases hs
        | _ => rfl
      show Mirrors L (announceField c b s >>= fun _ => ms.forM (announceField c b)) _ w _
      rw [announceField_eq_pure hvar]
      exact (ih hbase htidy hlevel hcls).mono fun _ _ υ hυ hms => .lose hlax hs hms
    -- only functions of the root are dropped
    | func _ hb => exact absurd hb hroot

lemma mirrors_registerClasses {heads : List ClassHead} (hsees : w.Sees L scope scope') :
    Mirrors L (heads.mapM (registerClass scope)) (heads.mapM (registerClass scope')) w
      fun cs cs' υ => List.Forall₂ υ.Registered cs cs' ∧ cs.length = heads.length := by
  induction heads generalizing w with
  | nil => exact .pure ⟨.nil, rfl⟩
  | cons head heads ih =>
    rw [List.mapM_cons, List.mapM_cons]
    refine (mirrors_registerClass hsees.scope (hsees.name _)).bind fun c c' υ hυ hc => ?_
    refine (ih (hsees.mono hυ)).bind_pure fun cs cs' ω hω hcs => ?_
    exact ⟨.cons (hc.mono hω) hcs.1, congrArg (· + 1) hcs.2⟩

lemma classHeads_eq {ss ss' : List Stmt} (h : Thinned (Kept L scope) (Lost L scope) ss ss') :
    ss'.filterMap Stmt.classHead? = ss.filterMap Stmt.classHead? := by
  induction h with
  | nil => rfl
  | keep hs _ ih => rw [Stmt.classHeads_cons, Stmt.classHeads_cons, hs.trims.classHead?_eq, ih]
  | @lose s _ _ hs _ ih =>
    rw [Stmt.classHeads_cons, ih]
    have hcls := hs.isClass
    cases s with
    | cls => cases hcls
    | _ => rfl

/-- Statements are opened on both sides; `rest` is the number of the classes that follow. -/
def OpensMirrored (L : Law) (F : World L.lax → ClassId → ClassId → Stmt → Stmt → Prop) (s : Stmt) :
    Prop :=
  ∀ {w : World L.lax} {scope scope' s' cs cs' rest}, w.Level L scope scope' → w.Tidy L →
    s.steady = true → Kept L scope s s' → List.Forall₂ w.Registered cs cs' →
    cs.length = s.classHead?.toList.length + rest →
    Mirrors L (openClass scope s cs) (openClass scope' s' cs') w fun r r' υ =>
      Opened L F υ scope r.1 r'.1 ∧ List.Forall₂ υ.Registered r.2 r'.2 ∧ r.2.length = rest

lemma mirrors_openClasses {ss ss' : List Stmt} {cs cs' : List ClassId} (hF : FieldSpec L F)
    (hss : ∀ s ∈ ss, OpensMirrored L F s) (h : w.Level L scope scope') (htidy : w.Tidy L)
    (hsteady : ∀ s ∈ ss, s.steady = true) (hcs : List.Forall₂ w.Registered cs cs')
    (hlength : cs.length = (ss.filterMap Stmt.classHead?).length)
    (hthin : Thinned (Kept L scope) (Lost L scope) ss ss') :
    Mirrors L (openClasses scope ss cs) (openClasses scope' ss' cs') w
      fun r r' υ => Thinned (Opened L F υ scope) (Lost L scope) r r' := by
  induction hthin generalizing w cs cs' with
  | nil => exact .pure .nil
  | @keep s s' ss ss' hs _ ih =>
    rw [List.forall_mem_cons] at hss hsteady
    rw [Stmt.classHeads_cons, List.length_append] at hlength
    rw [openClasses, openClasses]
    refine (hss.1 h htidy hsteady.1 hs hcs hlength).bind fun r r' υ hυ hr => ?_
    obtain ⟨hopened, hothers, hlength⟩ := hr
    exact (ih hss.2 (h.mono hυ) (htidy.mono hυ) hsteady.2 hothers hlength).bind_pure
      fun _ _ ω hω hrest => .keep (hopened.mono hF hω) hrest
  | @lose s ss ss' hs _ ih =>
    rw [List.forall_mem_cons] at hss hsteady
    rw [Stmt.classHeads_cons, classHead?_eq_none hs.isClass] at hlength
    rw [openClasses, openClass_eq_pure hs.isClass, pure_bind]
    exact (ih hss.2 h htidy hsteady.2 hcs hlength).map_left fun _ _ _ _ hrest => .lose hs hrest

lemma mirrors_declarations {ss ss' : List Stmt} (hF : FieldSpec L F)
    (hss : ∀ s ∈ ss, OpensMirrored L F s) (h : w.Level L scope scope') (htidy : w.Tidy L)
    (hsteady : ∀ s ∈ ss, s.steady = true) (hthin : Thinned (Kept L scope) (Lost L scope) ss ss') :
    Mirrors L (announce scope ss) (announce scope' ss') w
      fun r r' υ => Thinned (Ready L υ (F υ)) (Gone L υ scope) r r' := by
  unfold announce registerClasses
  rw [classHeads_eq hthin]
  refine (mirrors_registerClasses h.sees).bind fun cs cs' υ hυ hcs => ?_
  have h1 := h.mono hυ
  refine (mirrors_openClasses hF hss h1 (htidy.mono hυ) hsteady hcs.1 hcs.2 hthin).bind
    fun r r' ω hω hr => ?_
  refine mirrors_note.bind fun _ _ ψ hψ _ => ?_
  exact (mirrors_bindFunctions hF ((h1.mono hω).mono hψ) (htidy.mono (hυ.trans (hω.trans hψ)))
    (hr.mono (fun _ _ _ hs => hs.mono hF hψ) fun _ _ hs => hs)).last

lemma opensMirrored (hF : FieldSpec L F) (s : Stmt) : OpensMirrored L F s := by
  induction s using Stmt.members_induction with
  | other s hs =>
    intro w scope scope' s' cs cs' rest _ _ _ hkept hcs hlength
    have hs' := hkept.trims.isClass_eq.trans hs
    rw [classHead?_eq_none hs] at hlength
    rw [openClass_eq_pure hs, openClass_eq_pure hs']
    exact .pure ⟨.other hs hkept, hcs, by simpa using hlength⟩
  | cls head ms ih =>
    intro w scope scope' s' cs cs' rest h htidy hsteady hkept hcs hlength
    obtain ⟨htrims, -⟩ := hkept
    cases htrims with
    | @cls _ _ ms' hms =>
      cases hcs with
      | nil =>
        simp only [Stmt.classHead?, Option.toList_some, List.length_nil, List.length_singleton]
          at hlength
        omega
      | @cons c c' cs cs' hc hothers =>
        rw [openClass_openBody, openClass_openBody]
        refine (mirrors_openBody h.sees hc).bind fun b b' υ hυ hopened => ?_
        obtain ⟨hsees, hnone, s, hs, hb⟩ := hopened
        have hframe := h.outer.frame hs
        -- the bodies stand in no function, as the classes do
        have hlevel : υ.Level L b b' :=
          ⟨hsees, .inner hb (Scopes.inner_parent s) hframe (h.outer.mono hυ.left)⟩
        have hroot : b ≠ .root := by
          rintro rfl
          obtain ⟨t, ht, -⟩ := w.leftOrdered.scopes.root
          cases hnone.symm.trans ht
        have hmembers := Stmt.steadyList_iff.mp hsteady
        -- a method is never dropped, so the members lose branches only
        have hthin : Thinned (Kept L b) (Lost L b) ms ms' :=
          (hms.thinned hmembers).mono (fun _ _ _ ht => ⟨ht, fun hb => absurd hb hroot⟩)
            fun _ _ hl => ⟨hl.1, Or.inl hl.2⟩
        refine (mirrors_declarations hF ih hlevel (htidy.mono hυ) hmembers hthin).bind
          fun r r' ω hω hr => ?_
        have hc := hc.mono (hυ.trans hω)
        refine (mirrors_announceFields hF (.refl ω) (htidy.mono (hυ.trans hω)) (hlevel.mono hω)
          hc.cls hroot hr).bind_pure fun _ _ ψ hψ hready => ?_
        have hall := hυ.trans (hω.trans hψ)
        refine ⟨.cls rfl (.cls rfl rfl rfl rfl (hψ.link hc.cls) (hlevel.mono (hω.trans hψ)) hroot
          hready), hothers.imp fun _ _ hd => hd.mono hall, ?_⟩
        simp only [Stmt.classHead?, Option.toList_some, List.length_cons, List.length_nil]
          at hlength ⊢
        omega

lemma mirrors_announce {ss ss' : List Stmt} (hF : FieldSpec L F) (h : w.Level L scope scope')
    (htidy : w.Tidy L) (hsteady : ∀ s ∈ ss, s.steady = true)
    (hthin : Thinned (Kept L scope) (Lost L scope) ss ss') :
    Mirrors L (announce scope ss) (announce scope' ss') w
      fun r r' υ => Thinned (Ready L υ (F υ)) (Gone L υ scope) r r' :=
  mirrors_declarations hF (fun s _ => opensMirrored hF s) h htidy hsteady hthin

end Check

/-- Nothing is to be known of a field that is announced but that it is on both sides. -/
lemma fieldSpec_trims (L : Law) : FieldSpec L fun _ _ _ s s' => s.Trims L.lax s' where
  mono _ h := h
  announce {w c c' b b' s s'} _ hlevel hcls hvar htrims := by
    cases htrims with
    | var hinit =>
      exact (Check.mirrors_announceField hlevel.sees hcls).mono fun _ _ _ _ _ => .var hinit
    | _ => cases hvar

end MiddleEnd
