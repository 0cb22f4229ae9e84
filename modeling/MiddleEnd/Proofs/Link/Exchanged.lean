import MiddleEnd.Proofs.Link.Renewed
import MiddleEnd.Proofs.Link.Reordered

/-!
Programs whose statements stand in another order. When all declarations have been made known, each
statement is looked at on the right from a session in which other statements have been looked at
before it than on the left. The fields of a class may have been declared again on one side only, and
still both sides agree on all that the statement can see.
-/

namespace MiddleEnd

/-! ### Fields in another order -/

lemma Session.Knows.isBody {A : Session} {ss : List Stmt} {b : ScopeId} (h : A.Knows ss)
    (hb : b ∈ Stmt.classScopes ss) : ∃ c, A.IsBody c b := by
  obtain ⟨k, hk, hscope⟩ := Stmt.mem_classScopes.mp hb
  obtain ⟨c, b', -, hscope', hbody⟩ := h.opened k hk
  cases hscope.symm.trans hscope'
  exact ⟨c, hbody⟩

lemma HasField.mem_classScopes {ss : List Stmt} {b : ScopeId} {head : VarHead}
    (h : HasField (Stmt.classesList ss) b head) : b ∈ Stmt.classScopes ss := by
  obtain ⟨k, hk, hscope, -⟩ := h
  exact Stmt.mem_classScopes.mpr ⟨k, hk, hscope⟩

namespace Check

variable {w : World Law.exact.lax} {r r' pre pre' post post' out out' : List Stmt} {σ σ' : Session}

lemma gives_mapM_append {α β : Type} {f : α → Check β} {l m : List α} {bs : List β}
    {σ υ : Session} : Gives ((l ++ m).mapM f) σ bs υ ↔
      ∃ cs ds τ, Gives (l.mapM f) σ cs τ ∧ Gives (m.mapM f) τ ds υ ∧ bs = cs ++ ds := by
  rw [List.mapM_append, gives_bind]
  simp only [gives_bind, gives_pure]
  constructor
  · rintro ⟨cs, τ, hcs, ds, _, hds, rfl, rfl⟩
    exact ⟨cs, ds, τ, hcs, hds, rfl⟩
  · rintro ⟨cs, ds, τ, hcs, hds, rfl⟩
    exact ⟨cs, τ, hcs, ds, υ, hds, rfl, rfl⟩

/-- The declarations of two programs have been made known. The statements of the one are those of
the other in another order, and types are written for all fields. -/
structure Matched (w : World Law.exact.lax) (r r' : List Stmt) : Prop where
  full : w.Full
  level : w.Level .exact .root .root
  left : w.left.Knows r
  right : w.right.Knows r'
  written : ∀ k ∈ Stmt.classesList r, Written k
  written' : ∀ k ∈ Stmt.classesList r', Written k
  ready : Shuffled (Ready .exact w sameField) r r'

namespace Matched

/-- The fields of some statements are declared on the left, and those of others on the right. -/
lemma renewal (h : Matched w (pre ++ post) (pre' ++ post'))
    (hl : Gives (pre.mapM classFields) w.left out σ)
    (hr : Gives (pre'.mapM classFields) w.right out' σ') :
    w.Renewal σ σ' (Stmt.classesList pre) (Stmt.classesList pre') where
  full := h.full
  apart := h.left.apart
  apart' := h.right.apart
  left := continues_fields w.leftOrdered hl
  right := continues_fields w.rightOrdered hr
  renews := by
    refine renews_fields h.left (fun k hk => h.written k ?_) hl
    rw [Stmt.classesList_append]
    exact List.mem_append_left _ hk
  renews' := by
    refine renews_fields h.right (fun k hk => h.written' k ?_) hr
    rw [Stmt.classesList_append]
    exact List.mem_append_left _ hk
  later := .of_gives hl
  later' := .of_gives hr

/-- No fields are declared in scopes that are not the bodies of classes. -/
lemma link_outside (h : Matched w (pre ++ post) (pre' ++ post'))
    (hl : Gives (pre.mapM classFields) w.left out σ)
    (hr : Gives (pre'.mapM classFields) w.right out' σ') {i i' : ScopeId} {n : String}
    (hi : w.link.scope i i') (hn : w.link (.name i n) (.name i' n)) (hleft : w.left.NotBody i)
    (hright : w.right.NotBody i') : (h.renewal hl hr).world.link (.name i n) (.name i' n) := by
  refine (h.renewal hl hr).link_name hi hn (fun head hfield => ?_) fun head hfield => ?_
  · obtain ⟨c, e, he, hbody⟩ := h.left.isBody (Stmt.classScopes_append pre post ▸
      List.mem_append_left _ hfield.mem_classScopes)
    exact hleft he hbody
  · obtain ⟨c, e, he, hbody⟩ := h.right.isBody (Stmt.classScopes_append pre' post' ▸
      List.mem_append_left _ hfield.mem_classScopes)
    exact hright he hbody

lemma link_body (h : Matched w (pre ++ post) (pre' ++ post'))
    (hl : Gives (pre.mapM classFields) w.left out σ)
    (hr : Gives (pre'.mapM classFields) w.right out' σ') {i i' : ScopeId}
    (hbody : w.Body .exact i i') (n : String) :
    (h.renewal hl hr).world.link (.name i n) (.name i' n) :=
  h.link_outside hl hr hbody.sees.scope ((hbody.sees.name n).resolve_right And.left) hbody.notBody
    hbody.notBody_right

lemma level_root (h : Matched w (pre ++ post) (pre' ++ post'))
    (hl : Gives (pre.mapM classFields) w.left out σ)
    (hr : Gives (pre'.mapM classFields) w.right out' σ') :
    (h.renewal hl hr).world.Level .exact .root .root := by
  have hlater := (h.renewal hl hr).later
  obtain ⟨s, hs, -, hframe, -⟩ := (h.renewal hl hr).world.leftOrdered.scopes.root
  refine ⟨.root hs hframe ((h.renewal hl hr).link_scope h.level.sees.scope) fun {n} _ => ?_,
    h.level.outer.mono hlater⟩
  exact h.link_outside hl hr h.level.sees.scope ((h.level.sees.name n).resolve_right And.left)
    (notBody_root w.leftOrdered) (notBody_root w.rightOrdered)

/-- The fields of a statement can be declared that has not been looked at on either side. -/
lemma ready_next {s s' : Stmt} (h : Matched w (pre ++ s :: post) (pre' ++ s' :: post'))
    (hl : Gives (pre.mapM classFields) w.left out σ)
    (hr : Gives (pre'.mapM classFields) w.right out' σ') (hs : Ready .exact w sameField s s') :
    Ready .exact (h.renewal hl hr).world sameField s s' := by
  have apart {ss ts : List Stmt} {s : Stmt} {b : ScopeId} {head : VarHead}
      (hdistinct : (Stmt.classScopes (ss ++ s :: ts)).Nodup) (hb : b ∈ Stmt.classScopes [s]) :
      ¬HasField (Stmt.classesList ss) b head := by
    rw [← List.singleton_append, Stmt.classScopes_append, Stmt.classScopes_append] at hdistinct
    exact fun hfield => (List.nodup_append.mp hdistinct).2.2 b hfield.mem_classScopes b
      (List.mem_append_left _ hb) rfl
  refine (h.renewal hl hr).ready (fun {b b'} hb hb' hlevel n => ?_) (h.link_body hl hr)
    (h.left.nested s (by simp)) (h.level_root hl hr).sees hs
  exact (h.renewal hl hr).link_name hlevel.sees.scope
    ((hlevel.sees.name n).resolve_right And.left) (fun _ => apart h.left.distinct hb)
    fun _ => apart h.right.distinct hb'

/-- **Fields in any order.** The fields of all classes can be declared on the right, if they can be
declared on the left. -/
lemma fields (h : Matched w r r') (hl : Gives (r.mapM classFields) w.left out σ) :
    ∃ out' σ', Gives (r'.mapM classFields) w.right out' σ' := by
  -- One more statement after those that have been looked at on the right.
  have onward (post' pre' : List Stmt) (hr' : r' = pre' ++ post') {out' : List Stmt} {σ' : Session}
      (hr : Gives (pre'.mapM classFields) w.right out' σ') :
      ∃ out' σ', Gives (r'.mapM classFields) w.right out' σ' := by
    induction post' generalizing pre' out' σ' with
    | nil =>
      rw [hr', List.append_nil]
      exact ⟨out', σ', hr⟩
    | cons s' post' ih =>
      have hs' : s' ∈ r' := by
        rw [hr']
        simp
      obtain ⟨s, hs, hready⟩ := h.ready.exists_of_mem hs'
      obtain ⟨pre, post, rfl⟩ := List.append_of_mem hs
      obtain ⟨cs, ds, τ, hpre, hpost, -⟩ := gives_mapM_append.mp hl
      obtain ⟨x, xs, τ', hx, -, -⟩ := gives_mapM_cons.mp hpost
      subst hr'
      have hnext := h.ready_next hpre hr hready
      obtain ⟨x', υ, -, hx', -⟩ := (fieldsMirrored s id id (h.renewal hpre hr).full_world
        hnext).strict id hx (Law.clean_exact _)
      have hone : Gives ([s'].mapM classFields) σ' [x'] υ.right :=
        gives_mapM_cons.mpr ⟨x', [], _, hx', gives_pure.mpr ⟨rfl, rfl⟩, rfl⟩
      exact ih (pre' ++ [s']) (by simp) (gives_mapM_append.mpr ⟨out', [x'], σ', hr, hone, rfl⟩)
  exact onward r' [] rfl (gives_pure.mpr ⟨rfl, rfl⟩)

end Matched

/-! ### When all fields have been declared -/

section Results

variable {L : Law} {w : World L.lax} {F : ClassId → ClassId → Stmt → Stmt → Prop} {τ τ' : Session}

lemma readyList_fields {c c' : ClassId} {b b' : ScopeId} {ms ms' rs rs' : List Stmt}
    (hms : ∀ s ∈ ms, ∀ {s' σ r τ σ' r' τ'}, Ready L w F s s' → Gives (classFields s) σ r τ →
      Gives (classFields s') σ' r' τ' → Ready L w anyField r r')
    (h : ReadyList L w F c c' ms ms') (hl : Gives (memberFields b ms) σ rs τ)
    (hr : Gives (memberFields b' ms') σ' rs' τ') : ReadyList L w anyField c c' rs rs' := by
  induction ms generalizing ms' σ σ' rs rs' with
  | nil =>
    cases h
    rw [memberFields, gives_pure] at hl hr
    rw [← hl.1, ← hr.1]
    exact .nil
  | cons s ms ih =>
    rw [List.forall_mem_cons] at hms
    cases h with
    | field hfield hrest =>
      -- a field leaves a field, whatever its type has become
      simp only [memberFields, gives_bind, gives_pure] at hl hr
      obtain ⟨_, _, -, rest, _, hl, rfl, rfl⟩ := hl
      obtain ⟨_, _, -, rest', _, hr, rfl, rfl⟩ := hr
      exact .field trivial (ih hms.2 hrest hl hr)
    | keep hvar hs hrest =>
      simp only [memberFields_cons hvar, memberFields_cons ((isVar_of_ready hs).trans hvar),
        gives_bind, gives_pure] at hl hr
      obtain ⟨r, _, hone, rest, _, hl, rfl, rfl⟩ := hl
      obtain ⟨r', _, hone', rest', _, hr, rfl, rfl⟩ := hr
      exact .keep ((fieldless_classFields s hone).2.trans hvar) (hms.1 hs hone hone')
        (ih hms.2 hrest hl hr)
    | lose hlax hs hrest =>
      -- a branch that is lost declares no field
      have hplain : s.isVar = false ∧ s.isClass = false := by
        cases s with
        | ifElse | whileLoop => exact ⟨rfl, rfl⟩
        | _ => cases hs
      simp only [memberFields_cons hplain.1, classFields_eq_pure hplain.2, pure_bind, gives_bind,
        gives_pure] at hl
      obtain ⟨rest, _, hl, rfl, rfl⟩ := hl
      exact .lose hlax hs (ih hms.2 hrest hl hr)

lemma ready_fields (s : Stmt) : ∀ {s' σ r τ σ' r' τ'}, Ready L w F s s' →
    Gives (classFields s) σ r τ → Gives (classFields s') σ' r' τ' → Ready L w anyField r r' := by
  induction s using Stmt.members_induction with
  | other s hs =>
    intro s' σ r τ σ' r' τ' h hl hr
    have hs' : s'.isClass = false := by
      cases h with
      | func | ctor => rfl
      | cls => cases hs
      | plain _ htrims => exact htrims.isClass_eq.trans hs
    rw [classFields_eq_pure hs, gives_pure] at hl
    rw [classFields_eq_pure hs', gives_pure] at hr
    rw [← hl.1, ← hr.1]
    exact h.mono (.refl w) fun _ => trivial
  | cls head ms ih =>
    intro s' σ r τ σ' r' τ' h hl hr
    cases h with
    | plain hrule => cases hrule
    | cls hc hc' hb hb' hcls hlevel hroot hms =>
      simp only [classFields, gives_bind, gives_registered, gives_pure] at hl hr
      obtain ⟨_, _, -, rs, _, hl, _, _, -, rfl, -⟩ := hl
      obtain ⟨_, _, -, rs', _, hr, _, _, -, rfl, -⟩ := hr
      exact .cls hc hc' hb hb' hcls hlevel hroot (readyList_fields ih hms hl hr)

end Results

lemma forall₂_of_mapM {α β : Type} {f : α → Check β} {l : List α} {bs : List β} {σ τ : Session}
    (h : Gives (l.mapM f) σ bs τ) : List.Forall₂ (fun a b => ∃ σ τ, Gives (f a) σ b τ) l bs := by
  induction l generalizing σ bs with
  | nil =>
    obtain ⟨rfl, -⟩ := gives_pure.mp h
    exact .nil
  | cons a l ih =>
    obtain ⟨b, rest, υ, h1, h2, rfl⟩ := gives_mapM_cons.mp h
    exact .cons ⟨σ, υ, h1⟩ (ih h2)

/-- All fields have been declared on both sides, and all is ready for the walk. -/
lemma Matched.walking (h : Matched w r r') (hl : Gives (r.mapM classFields) w.left out σ)
    (hr : Gives (r'.mapM classFields) w.right out' σ') (hmirrored : σ.analysis.Mirrored)
    (hmirrored' : σ'.analysis.Mirrored) : ∃ υ : World Law.exact.lax, υ.left = σ ∧ υ.right = σ' ∧
      υ.Full ∧ υ.Level .exact .root .root ∧
      Shuffled (fun s s' => s ∈ out ∧ s' ∈ out' ∧ Ready .exact υ anyField s s') out out' := by
  have h0 : Matched w (r ++ []) (r' ++ []) := by rwa [List.append_nil, List.append_nil]
  have hrenewal := h0.renewal hl hr
  refine ⟨hrenewal.world, rfl, rfl, hrenewal.full_world, h0.level_root hl hr,
    h.ready.outputs (forall₂_of_mapM hl) (forall₂_of_mapM hr) ?_⟩
  rintro s s' x x' hs hs' hready ⟨_, _, hone⟩ ⟨_, _, hone'⟩ hx hx'
  refine ⟨hx, hx', ready_fields s (hrenewal.ready (fun {b b'} hb hb' hlevel n => ?_)
    (h0.link_body hl hr) (h.left.nested s hs) (h0.level_root hl hr).sees hready) hone hone'⟩
  obtain ⟨c, hc⟩ := h.left.isBody (Stmt.classScopes_mono hs hb)
  obtain ⟨c', hc'⟩ := h.right.isBody (Stmt.classScopes_mono hs' hb')
  exact hrenewal.link_mirrored hmirrored hmirrored' hlevel.sees.scope hc hc' n

end Check

/-! ### What the walk changes -/

namespace Session

variable {F σ τ : Session} {ss : List Stmt} {ids : List ScopeId}

/-- What belongs to the bodies of functions: the names in them, and whether they have given back. -/
def Inward (F : Session) (ids : List ScopeId) : Cell → Prop
  | .name id _ => id ∈ ids
  | .settled f => ∃ id ∈ ids, ∃ s, F.scopes.scope? id = some s ∧ s.frame = some f
  | _ => False

lemma Inward.mono {ids' : List ScopeId} {c : Cell} (h : F.Inward ids c) (hids : ids ⊆ ids') :
    F.Inward ids' c := by
  cases c with
  | name => exact hids h
  | settled =>
    obtain ⟨id, hid, hs⟩ := h
    exact ⟨id, hids hid, hs⟩
  | _ => exact h

lemma Inward.loose {c : Cell} (h : F.Inward ids c) : c.isFirm = false := by
  cases c with
  | name | settled => rfl
  | _ => cases h

/-- All fields of the statements have been declared: classes have the names in their bodies as
members, and functions have bodies of their own. -/
structure Surveyed (F : Session) (ss : List Stmt) : Prop where
  assembled : F.Assembled
  mirrored : F.analysis.Mirrored
  flat : F.Flat
  opened : ∀ k ∈ Stmt.classesList ss, F.Opened k.1
  bodies : ∀ id ∈ Stmt.bodiesList ss, F.HasBody id
  apart : (Stmt.bodiesList ss).Pairwise F.Apart

namespace Surveyed

variable (h : F.Surveyed ss)

include h

lemma notBody {id : ScopeId} (hid : id ∈ Stmt.bodiesList ss) : F.NotBody id := by
  intro c e he hbody
  obtain ⟨s, f, -, hs, hf, -⟩ := h.bodies id hid
  cases (h.flat he hbody hs).symm.trans hf

lemma disjoint : ss.Pairwise fun s t => ∀ c, F.Inward s.bodies c → ¬F.Inward t.bodies c := by
  have hapart := h.apart
  rw [Stmt.bodiesList_eq_flatMap, List.pairwise_flatMap] at hapart
  refine hapart.2.imp fun {s t} hst c hs ht => ?_
  cases c with
  | name id n => exact (hst id hs id ht).1 rfl
  | settled f =>
    obtain ⟨id, hid, x, hx, hf⟩ := hs
    obtain ⟨id', hid', x', hx', hf'⟩ := ht
    exact (hst id hid id' hid').2 x x' hx hx' (hf.trans hf'.symm)
  | _ => exact hs

lemma present {c : Cell} (hids : ids ⊆ Stmt.bodiesList ss) (hc : F.Inward ids c) : ¬c.Absent F := by
  cases c with
  | name id n =>
    obtain ⟨s, -, -, hs, -⟩ := h.bodies id (hids hc)
    exact fun hnone => by cases hs.symm.trans hnone
  | settled f =>
    obtain ⟨id, hid, s, hs, hf⟩ := hc
    obtain ⟨t, f', g, ht, hf', hg⟩ := h.bodies id (hids hid)
    cases hs.symm.trans ht
    cases hf.symm.trans hf'
    exact fun hnone => by cases hg.symm.trans hnone
  | _ => exact hc.elim

lemma opens {id : ScopeId} (hids : ids ⊆ Stmt.bodiesList ss) (hid : id ∈ ids) (hσ : F.Later σ) :
    σ.Open (fun c => F.Inward ids c ∨ c.Absent σ) id := by
  obtain ⟨s, f, -, hs, hf, -⟩ := h.bodies id (hids hid)
  obtain ⟨t, ht, hext⟩ := hσ.scopes.scope? hs
  refine ⟨fun n => ⟨Or.inl hid, fun c => ?_⟩, fun g => ?_⟩
  · cases he : σ.types.class? c with
    | none => exact Or.inl (Or.inr he)
    | some e =>
      refine Or.inr ⟨e, rfl, hσ.notBody hs (h.notBody (hids hid)) he, ?_⟩
      rintro (hown | hnone)
      · exact hown
      · cases he.symm.trans hnone
  · by_cases hg : s.frame = some g
    · exact Or.inl (Or.inl ⟨id, hid, s, hs, hg⟩)
    · exact Or.inr ⟨t, ht, fun heq => hg (hext.frame.symm.trans heq)⟩

/-- What a statement has been given by the declarations belongs to it, or is as it was. -/
lemma claims {s : Stmt} (hids : ids ⊆ Stmt.bodiesList ss) (hbodies : s.bodies ⊆ ids)
    (hclasses : s.classes ⊆ Stmt.classesList ss) (hlater : F.Later σ)
    (hσ : F.Continues (fun c => F.Inward (Stmt.bodiesList ss) c ∨ c.Absent F) σ) :
    s.Claims (fun c => F.Inward ids c ∨ c.Absent σ) σ := by
  induction s using Stmt.members_induction with
  | other s hs =>
    cases s with
    | cls => cases hs
    | func head body | ctor head body =>
      exact fun id hid => h.opens hids (hbodies (by simpa [Stmt.bodies] using hid)) hlater
    | _ => trivial
  | cls head ms ih =>
    rw [Stmt.classes, List.cons_subset] at hclasses
    obtain ⟨c, b, hc, hb, e, he, hbody⟩ := h.opened _ hclasses.1
    obtain ⟨_, s, hbody', hs, hnames⟩ := h.mirrored c e he
    cases hbody.symm.trans hbody'
    obtain ⟨e', he', hkeeps⟩ := hσ.cls he
    obtain ⟨s', hs', hkeeps'⟩ := hσ.scope hs
    -- the body of a class is not one of a function
    have hout : b ∉ Stmt.bodiesList ss := fun hmem => h.notBody hmem he hbody
    refine ⟨fun c' hc' b' hb' n => Or.inr ?_, fun b' hb' f => Or.inr ?_,
      Stmt.claimsList_iff.mpr fun t ht => ih t ht ?_ ?_⟩
    · -- neither the members nor the names of the class belong to what is checked
      cases hc.symm.trans hc'
      cases hb.symm.trans hb'
      refine ⟨?_, e', s', he', hs', ?_⟩
      · rintro (hown | hnone)
        · exact hout (hids hown)
        · cases hs'.symm.trans hnone
      · rw [hkeeps.members n, hkeeps'.names n, hnames n]
        · rintro (hown | hnone)
          · exact hout hown
          · cases hs.symm.trans hnone
        · rintro (hown | hnone)
          · exact hown
          · cases he.symm.trans hnone
    · cases hb.symm.trans hb'
      refine ⟨s', hs', ?_⟩
      rw [hkeeps'.frame, h.flat he hbody hs]
      rintro ⟨⟩
    · exact fun id hid => hbodies (Stmt.mem_bodiesList.mpr ⟨t, ht, hid⟩)
    · exact fun k hk => hclasses.2 (Stmt.mem_classesList.mpr ⟨t, ht, hk⟩)

/-- The walk through a statement that declares no variable changes only what belongs to it. -/
lemma walk {s r : Stmt} (hs : s ∈ ss) (hvar : s.isVar = false) (hlater : F.Later σ)
    (hσ : F.Continues (fun c => F.Inward (Stmt.bodiesList ss) c ∨ c.Absent F) σ)
    (hgives : Gives (Check.stmt .root s) σ r τ) :
    σ.Continues (fun c => F.Inward s.bodies c ∨ c.Absent σ) τ := by
  have hroom : σ.Room fun c => F.Inward s.bodies c ∨ c.Absent σ :=
    ⟨Or.inr, fun _ => Or.inr, fun _ => Or.inr, Or.inr, Or.inr,
      fun _ hc => hc.imp_left fun hown => hown.elim⟩
  obtain ⟨root, hroot, -, hframe, -⟩ := hσ.assembled.scopes.root
  refine (Check.stmtLeads s hσ.assembled hroom (fun f => Or.inr ⟨root, hroot, ?_⟩) ?_ (h.claims
    (fun id hid => Stmt.mem_bodiesList.mpr ⟨s, hs, hid⟩) (List.Subset.refl _)
    (fun k hk => Stmt.mem_classesList.mpr ⟨s, hs, hk⟩) hlater hσ)).changes_of_gives hgives
  · rw [hframe]
    rintro ⟨⟩
  · cases s with
    | var => cases hvar
    | _ => rintro _ ⟨⟩

end Surveyed

end Session

lemma Check.surveyed_fields {log : List LogEvent} {ss r out : List Stmt} {A F : Session}
    (h1 : Gives (announce .root ss) { log } r A) (h2 : Gives (r.mapM classFields) A out F) :
    F.Surveyed out := by
  have hlater : A.Later F := .of_gives h2
  have hknows := knows_announce h1
  have hrooms := (rooms_announce (Session.assembled_new log) h1).mono hlater
  rw [← bodiesList_fields h2] at hrooms
  have hdeclares := declaresFields (.refl hknows.consistent.valid) h2
  exact {
    assembled := (continues_fields hknows.assembled h2).assembled
    mirrored := (walked_of_fields h1 h2).1
    flat := flat_of_fields h1 h2
    opened := fun k hk => (hdeclares.prepared hknows.opened k hk).opened
    bodies := fun id hid => (hrooms.lodges id hid).body
    apart := hrooms.apart }

/-! ### The walk in another order -/

lemma ReadyList.exists_of_mem {L : Law} {w : World L.lax}
    {F : ClassId → ClassId → Stmt → Stmt → Prop}
    {c c' : ClassId} {ms ms' : List Stmt} (h : ReadyList L w F c c' ms ms') {s' : Stmt}
    (hs' : s' ∈ ms') (hvar : s'.isVar = false) : ∃ s ∈ ms, Ready L w F s s' := by
  induction ms generalizing ms' with
  | nil =>
    cases h
    cases hs'
  | cons s ms ih =>
    have later {ms' : List Stmt} (hrest : ReadyList L w F c c' ms ms') (hs' : s' ∈ ms') :
        ∃ t ∈ s :: ms, Ready L w F t s' := by
      obtain ⟨t, ht, hready⟩ := ih hrest hs'
      exact ⟨t, List.mem_cons_of_mem _ ht, hready⟩
    cases h with
    | field _ hrest =>
      rcases List.mem_cons.mp hs' with rfl | hs'
      · cases hvar
      · exact later hrest hs'
    | keep _ hs hrest =>
      rcases List.mem_cons.mp hs' with rfl | hs'
      · exact ⟨s, List.mem_cons_self, hs⟩
      · exact later hrest hs'
    | lose _ _ hrest => exact later hrest hs'

lemma Ready.exists_body {L : Law} {w : World L.lax} {F : ClassId → ClassId → Stmt → Stmt → Prop}
    {s s' : Stmt} (h : Ready L w F s s') {id' : ScopeId} (hid' : id' ∈ s'.bodies) :
    ∃ id ∈ s.bodies, w.Body L id id' := by
  induction s using Stmt.members_induction generalizing s' with
  | other s hs =>
    cases h with
    | func hid hid0 hbody | ctor hid hid0 hbody =>
      rw [Stmt.bodies, hid0, Option.toList_some, List.mem_singleton] at hid'
      exact ⟨_, by simp [Stmt.bodies, hid], hid' ▸ hbody⟩
    | cls => cases hs
    | plain hrule htrims =>
      cases htrims with
      | func | cls | ctor => cases hrule
      | _ => cases hid'
  | cls head ms ih =>
    cases h with
    | plain hrule => cases hrule
    | cls hc hc' hb hb' hcls hlevel hroot hms =>
      obtain ⟨t', ht', hid'⟩ := Stmt.mem_bodiesList.mp hid'
      obtain ⟨t, ht, hready⟩ := hms.exists_of_mem ht' (by
        cases t' with
        | var => cases hid'
        | _ => rfl)
      obtain ⟨id, hid, hbody⟩ := ih t ht hready hid'
      exact ⟨id, Stmt.mem_bodiesList.mpr ⟨t, ht, hid⟩, hbody⟩

namespace World

variable {L : Law} {w u : World L.lax} {i i' : ScopeId}

/-- The places of declarations see the same, if only what belongs to functions is not linked any
more. -/
lemma Sees.outward (h : w.Sees L i i') (houter : w.left.Outer i)
    (hlink : ∀ {c c'}, w.link c c' → (∀ id n, c = .name id n → w.left.Outer id) →
      (∀ f, c ≠ .settled f) → u.link c c')
    (hl : w.left.Later u.left) (hr : w.right.Later u.right) : u.Sees L i i' := by
  induction h with
  | root hs hframe hscope hnames =>
    obtain ⟨t, ht, hext⟩ := hl.scopes.scope? hs
    refine .root ht (hext.frame.trans hframe) (hlink hscope nofun nofun) fun hn =>
      hlink (hnames hn) ?_ nofun
    rintro _ _ ⟨⟩
    exact houter
  | inner hs hs' hp hp' hscope hnames hsettled hparent ih =>
    obtain ⟨t, ht, hext⟩ := hl.scopes.scope? hs
    obtain ⟨t', ht', hext'⟩ := hr.scopes.scope? hs'
    -- outside every function there is no frame, so nothing is asked of what it gives back
    have hframe := hext.frame.trans (houter.frame hs)
    refine .inner ht ht' (hext.parent.trans hp) (hext'.parent.trans hp')
      (hlink hscope nofun nofun) (fun n => hlink (hnames n) ?_ nofun)
      (fun _ f f' hf => by cases hframe.symm.trans hf) (ih ?_)
    · rintro _ _ ⟨⟩
      exact houter
    · cases houter with
      | root ht => exact absurd (w.leftOrdered.scopes.parents hs hp) (Nat.not_lt_zero _)
      | inner ht hq _ houter =>
        cases hs.symm.trans ht
        cases hp.symm.trans hq
        exact houter

end World

namespace Check

variable {w : World Law.exact.lax} {ss ss' : List Stmt}

/-- What belongs to a statement on the right is linked only with what belongs to it on the left. -/
lemma inward_of_ready {s s' : Stmt} {c c' : Cell} (h : Ready .exact w anyField s s')
    (hc : w.link c c') (hown : w.right.Inward s'.bodies c') : w.left.Inward s.bodies c := by
  cases c' with
  | name id' n =>
    obtain ⟨id, hid, hbody⟩ := h.exists_body hown
    cases w.agree hc with
    | name hscope =>
      cases w.unique.1 hbody.sees.scope hscope
      exact hid
  | settled f' =>
    obtain ⟨id', hid', x', hx', hf'⟩ := hown
    obtain ⟨id, hid, hbody⟩ := h.exists_body hid'
    obtain ⟨x, _, hx, ht', hlinked⟩ := w.scope hbody.sees.scope
    cases hx'.symm.trans ht'
    obtain ⟨f, hf, -⟩ := Option.Rel.exists_of_some_right hlinked.frame hf'
    cases w.unique.1 hc (hbody.sees.settled (fun hlax => hlax) hx hx' hf hf')
    exact ⟨id, hid, x, hx, hf⟩
  | _ => exact hown.elim

/-- A statement is looked at from a world in which all is linked but what belongs to others. -/
lemma mirrors_alone {s s' : Stmt} {u : World Law.exact.lax} (hsurvey : w.left.Surveyed ss)
    (hfull : w.Full) (hlevel : w.Level .exact .root .root) (hs : s ∈ ss)
    (hready : Ready .exact w anyField s s') (hl : w.left.Later u.left) (hr : w.right.Later u.right)
    (hu : ∀ {c c'}, u.link c c' ↔
      w.link c c' ∧ ∀ t ∈ ss, w.left.Inward t.bodies c → w.left.Inward s.bodies c) :
    Mirrors .exact (stmt .root s) (stmt .root s') u fun _ _ _ => True := by
  -- what is outside every function is linked still
  have hkeep {c c' : Cell} (hc : w.link c c') (houter : ∀ id n, c = .name id n → w.left.Outer id)
      (hsettled : ∀ f, c ≠ .settled f) : u.link c c' := by
    refine hu.mpr ⟨hc, fun t ht hown => ?_⟩
    cases c with
    | name id n =>
      exact absurd (hsurvey.bodies id (Stmt.mem_bodiesList.mpr ⟨t, ht, hown⟩))
        (houter id n rfl).not_hasBody
    | settled f => exact (hsettled f rfl).elim
    | _ => exact hown
  -- and so is what belongs to the statement itself
  have hmine {c c' : Cell} (hc : w.link c c') (hown : w.left.Inward s.bodies c) : u.link c c' :=
    hu.mpr ⟨hc, fun _ _ _ => hown⟩
  have hlevels {b b' : ScopeId} (h : w.Level .exact b b') : u.Level .exact b b' :=
    ⟨h.sees.outward h.outer hkeep hl hr, h.outer.mono hl⟩
  have hbodies {id id' : ScopeId} (hid : id ∈ s.bodies) (h : w.Body .exact id id') :
      u.Body .exact id id' := by
    obtain ⟨x, p, hx, hp, houter⟩ := h.inside
    obtain ⟨y, hy, hext⟩ := hl.scopes.scope? hx
    refine ⟨?_, hl.notBody hx h.notBody, y, p, hy, hext.parent.trans hp, houter.mono hl⟩
    cases h.sees with
    -- a body has a scope around it
    | root => exact absurd (w.leftOrdered.scopes.parents hx hp) (Nat.not_lt_zero _)
    | inner ht hx' hq hp' hscope hnames hsettled hparent =>
      cases hx.symm.trans ht
      cases hp.symm.trans hq
      obtain ⟨y', hy', hext'⟩ := hr.scopes.scope? hx'
      refine .inner hy hy' (hext.parent.trans hp) (hext'.parent.trans hp')
        (hkeep hscope nofun nofun) (fun n => hmine (hnames n) hid) (fun hstrict f f' hf hf' => ?_)
        (hparent.outward houter hkeep hl hr)
      have hf := hext.frame.symm.trans hf
      exact hmine (hsettled hstrict hf (hext'.frame.symm.trans hf')) ⟨id, hid, x, hx, hf⟩
  have hwalking : u.Walking .exact .root .root s.bodies := by
    refine ⟨id, ⟨fun hc => ?_, fun n hc => ?_⟩, hlevels hlevel, fun id hid => ?_, ?_⟩
    · exact hkeep (hfull.constructors (hu.mp hc).1) nofun nofun
    · exact hkeep (hfull.members n (hu.mp hc).1) nofun nofun
    · exact (hsurvey.bodies id (Stmt.mem_bodiesList.mpr ⟨s, hs, hid⟩)).mono hl
    · have hapart := hsurvey.apart
      rw [Stmt.bodiesList_eq_flatMap, List.pairwise_flatMap] at hapart
      exact (hapart.1 s hs).imp And.left
  have hready' : Ready .exact u anyField s s' :=
    hready.imp rfl (fun hc => hkeep hc nofun nofun) hlevels (fun hF => hF) hbodies
  exact (walksMirrored s hwalking hready').rebase
    ((World.Advance.refl u).leaving fun hlax => hlax.elim)
    (World.advance_of_leaving hwalking.root_not_mem)

lemma stmts_eq_mapM {scope : ScopeId} (ss : List Stmt) : stmts scope ss = ss.mapM (stmt scope) := by
  induction ss with
  | nil => rfl
  | cons s ss ih => rw [stmts, List.mapM_cons, ih]

/-- **The walk in any order.** All statements are looked at on the right if they are on the left. -/
lemma mirrors_walks (hsurvey : w.left.Surveyed ss) (hsurvey' : w.right.Surveyed ss')
    (hfull : w.Full) (hlevel : w.Level .exact .root .root) (hvar : ∀ s ∈ ss, s.isVar = false)
    (hvar' : ∀ s ∈ ss', s.isVar = false)
    (hss : Shuffled (fun s s' => s ∈ ss ∧ s' ∈ ss' ∧ Ready .exact w anyField s s') ss ss') :
    Mirrors .exact (stmts .root ss) (stmts .root ss') w fun _ _ _ => True := by
  have among {ss : List Stmt} {s : Stmt} (hs : s ∈ ss) : s.bodies ⊆ Stmt.bodiesList ss :=
    fun id hid => Stmt.mem_bodiesList.mpr ⟨s, hs, hid⟩
  have hindependent : Independent .exact w (stmt .root) (stmt .root)
      (fun s => w.left.Inward s.bodies) (fun s' => w.right.Inward s'.bodies)
      (fun s s' => s ∈ ss ∧ s' ∈ ss' ∧ Ready .exact w anyField s s') ss := {
    strict := id
    left := fun s hs σ _ _ hlater hσ h => hsurvey.walk hs (hvar s hs) hlater
      (hσ.imp fun c hc => hc.imp_left fun ⟨t, ht, hown⟩ => hown.mono (among ht)) h
    right := fun s _ s' σ _ _ hr hlater hσ h => hsurvey'.walk hr.2.1 (hvar' s' hr.2.1) hlater
      (hσ.imp fun c hc => hc.imp_left fun ⟨_, _, t', ht', hown⟩ => hown.mono (among ht'.2.1)) h
    present := fun s hs c hown => hsurvey.present (among hs) hown
    present' := fun s _ s' c hr hown => hsurvey'.present (among hr.2.1) hown
    same := fun s _ s' c c' hr hc hown => inward_of_ready hr.2.2 hc hown
    apart := hsurvey.disjoint
    types := fun s _ t hown => hown
    closed := fun keep hkeep c c' hc _ => (w.agree hc).of_loose fun hnot => by
      obtain ⟨_, -, hown⟩ := hkeep hnot
      exact hown.loose }
  rw [stmts_eq_mapM, stmts_eq_mapM]
  exact (hindependent.mapM_outputs (fun _ _ _ => True) (fun _ h => h)
    (fun s hs s' u hr hleft hright hu =>
      mirrors_alone hsurvey hfull hlevel hs hr.2.2 hleft hright hu)
    hss).mono fun _ _ _ _ _ => trivial

end Check

/-! ### Programs -/

namespace Stmt

lemma mem_eraseList {s : Stmt} {ss : List Stmt} : s ∈ eraseList ss ↔ ∃ t ∈ ss, t.erase = s := by
  induction ss with
  | nil => simp
  | cons t ss ih => rw [eraseList, List.mem_cons, ih]; simp [eq_comm]

lemma classes_erase (s : Stmt) :
    s.erase.classes = s.classes.map fun k => (k.1.erase, eraseList k.2) := by
  induction s using members_induction with
  | other s hs =>
    cases s with
    | cls => cases hs
    | _ => rfl
  | cls head ms ih =>
    have hms : classesList (eraseList ms) =
        (classesList ms).map fun k => (k.1.erase, eraseList k.2) := by
      induction ms with
      | nil => rfl
      | cons s ms ihs =>
        rw [List.forall_mem_cons] at ih
        rw [eraseList, classesList, ih.1, ihs ih.2, classesList, List.map_append]
    rw [erase, classes, hms, classes, List.map_cons]

/-- Whether types are written for fields can be seen without annotations. -/
lemma written_erase {ss : List Stmt} :
    (∀ k ∈ classesList (eraseList ss), Written k) ↔ ∀ k ∈ classesList ss, Written k := by
  have hone (k : ClassHead × List Stmt) : Written (k.1.erase, eraseList k.2) ↔ Written k := by
    constructor
    · intro h head init hmem
      exact h head.erase _ (mem_eraseList.mpr ⟨_, hmem, rfl⟩)
    · intro h head init hmem
      obtain ⟨t, ht, heq⟩ := mem_eraseList.mp hmem
      cases t with
      | var head' init' =>
        cases heq
        exact h head' init' ht
      | _ => cases heq
  simp only [mem_classesList]
  constructor
  · rintro h k ⟨s, hs, hk⟩
    refine (hone k).mp (h _ ⟨s.erase, mem_eraseList.mpr ⟨s, hs, rfl⟩, ?_⟩)
    rw [classes_erase]
    exact List.mem_map_of_mem hk
  · rintro h _ ⟨_, herased, hclass⟩
    obtain ⟨s, hs, rfl⟩ := mem_eraseList.mp herased
    rw [classes_erase] at hclass
    obtain ⟨k, hk, rfl⟩ := List.mem_map.mp hclass
    exact (hone k).mpr (h k ⟨s, hs, hk⟩)

/-- The statements declare no variables themselves, and types are written for the fields of all
their classes. -/
structure Explicit (ss : List Stmt) : Prop where
  vars : ∀ s ∈ ss, s.isVar = false
  fields : ∀ k ∈ classesList ss, Written k

namespace Explicit

variable {ss ts : List Stmt}

lemma of_erase (h : Explicit ss) (herase : eraseList ts = eraseList ss) : Explicit ts where
  vars t ht := by
    have hone (s : Stmt) : s.erase.isVar = s.isVar := by cases s <;> rfl
    have hmem : t.erase ∈ eraseList ss := by
      rw [← herase]
      exact mem_eraseList.mpr ⟨t, ht, rfl⟩
    obtain ⟨s, hs, heq⟩ := mem_eraseList.mp hmem
    rw [← hone, ← heq, hone]
    exact h.vars s hs
  fields := by
    rw [← written_erase, herase, written_erase]
    exact h.fields

lemma perm (h : Explicit ss) (hperm : ss.Perm ts) : Explicit ts where
  vars t ht := h.vars t (hperm.mem_iff.mpr ht)
  fields k hk := by
    obtain ⟨t, ht, hk⟩ := mem_classesList.mp hk
    exact h.fields k (mem_classesList.mpr ⟨t, hperm.mem_iff.mpr ht, hk⟩)

end Explicit

end Stmt

/-- A program that declares no variables itself is accepted with its statements in another order. -/
lemma accepts_of_perm {p q : Program} (hexplicit : Stmt.Explicit p.stmts)
    (hperm : p.stmts.Perm q.stmts) (h : ∃ r, analyze p = .ok r) : ∃ r, analyze q = .ok r := by
  obtain ⟨⟨p', a⟩, h⟩ := h
  obtain ⟨Ω, hrun, -⟩ := analyze_eq_ok.mp h
  have hsteady := Check.steady_of_program hrun
  unfold Check.program at hrun
  simp only [gives_bind, gives_pure] at hrun
  obtain ⟨r, A, h1, out, F, h2, walked, G, h3, -⟩ := hrun
  -- What is declared is made known on the right.
  have hss : Shuffled Eq p.stmts q.stmts := ⟨q.stmts, hperm, List.forall₂_same.mpr fun _ _ => rfl⟩
  have hannounces := @Check.mirrors_announces [.analyzing p.stmts.length]
    [.analyzing q.stmts.length] _ _ hsteady hss
  obtain ⟨r', w, rfl, h1', hadvance, hready⟩ := hannounces.strict id h1 (Law.clean_exact _)
  have hr := hexplicit.of_erase (Check.erase_announce h1)
  have hr' := (hexplicit.perm hperm).of_erase (Check.erase_announce h1')
  have hmatched : Check.Matched w r r' := {
    full := hadvance.full id World.full_start
    level := World.level_start.mono hadvance
    left := Check.knows_announce h1
    right := Check.knows_announce h1'
    written := hr.fields
    written' := hr'.fields
    ready := hready }
  -- The fields are declared on the right.
  obtain ⟨out', F', h2'⟩ := hmatched.fields h2
  have hsurvey := Check.surveyed_fields h1 h2
  have hsurvey' := Check.surveyed_fields h1' h2'
  obtain ⟨υ, rfl, rfl, hfull, hlevel, hout⟩ :=
    hmatched.walking h2 h2' hsurvey.mirrored hsurvey'.mirrored
  -- All statements are looked at on the right.
  have hwalk := hr.of_erase (Check.erase_mapM (fun s _ => Check.erase_classFields s) h2)
  have hwalk' := hr'.of_erase (Check.erase_mapM (fun s _ => Check.erase_classFields s) h2')
  obtain ⟨walked', χ, -, h3', -⟩ := (Check.mirrors_walks hsurvey hsurvey' hfull hlevel hwalk.vars
    hwalk'.vars hout).strict id h3 (Law.clean_exact _)
  have hright : ∃ q' Ω', Gives (Check.program q) { log := [.analyzing q.stmts.length] } q' Ω' := by
    unfold Check.program
    simp only [gives_bind, gives_pure]
    exact ⟨_, _, r', _, h1', out', _, h2', walked', _, h3', (), _,
      Check.gives_note.mpr rfl, rfl, rfl⟩
  obtain ⟨q', Ω', hright⟩ := hright
  exact ⟨(q', Ω'.analysis), analyze_eq_ok.mpr ⟨Ω', hright, rfl⟩⟩

/-- **Forward visibility.** If all statements of a program are declarations of classes and
functions, and types are written for the fields of all classes, then it does not matter in which
order the statements stand: the program is accepted in all orders or in none. -/
theorem analyze_any_order {p q : Program}
    (hdeclarations : ∀ s ∈ p.stmts,
      (∃ head ms, s = .cls head ms) ∨ ∃ head body, s = .func head body)
    (hwritten : ∀ k ∈ Stmt.classesList p.stmts, ∀ head init,
      .var head init ∈ k.2 → head.annotation ≠ none)
    (hperm : p.stmts.Perm q.stmts) : (∃ r, analyze q = .ok r) ↔ ∃ r, analyze p = .ok r := by
  have hexplicit : Stmt.Explicit p.stmts := by
    refine ⟨fun s hs => ?_, hwritten⟩
    rcases hdeclarations s hs with ⟨_, _, rfl⟩ | ⟨_, _, rfl⟩ <;> rfl
  exact ⟨accepts_of_perm (hexplicit.perm hperm) hperm.symm, accepts_of_perm hexplicit hperm⟩

/-- Two classes whose fields start with fields of each other, with a class in one of them, and two
functions that call each other. -/
def entwined : Program where
  stmts :=
    [.func { name := "ping"
             params := [{ name := "n", annotation := some (.named "Number" {}) }]
             result := some (.named "Number" {}) }
      [.ret {} (some (.call {} (.name {} "pong") [.name {} "n"] none))],
      .cls { name := "Stem" }
      [.var { name := "rings", annotation := some (.array (.array (.named "Number" {}))) }
          (some (.array {} [.member {} (.call {} (.name {} "Leaf") [] none) "veins",
            .member {} (.call {} (.name {} "Leaf") [] none) "veins"])),
        .cls { name := "Knot" }
        [.var { name := "on", annotation := some (.named "Leaf" {}) } none]],
      .cls { name := "Leaf" }
      [.var { name := "veins", annotation := some (.array (.named "Number" {})) } none,
        .var { name := "around", annotation := some (.array (.array (.named "Number" {}))) }
          (some (.member {} (.call {} (.name {} "Stem") [] none) "rings"))],
      .func { name := "pong"
              params := [{ name := "n", annotation := some (.named "Number" {}) }]
              result := some (.named "Number" {}) }
      [.ret {} (some (.call {} (.name {} "ping") [.name {} "n"] none))]]

/-- `entwined` is accepted, and so it is when its statements stand the other way round. -/
theorem analyze_any_order_entwined : (∃ r, analyze entwined = .ok r) ∧
    ∃ r, analyze { stmts := entwined.stmts.reverse } = .ok r := by
  have haccepted : ∃ r, analyze entwined = .ok r := by
    have hsome : (analyze entwined).toOption.isSome = true := by decide +kernel
    cases h : analyze entwined with
    | error f => simp [h, Except.toOption] at hsome
    | ok r => exact ⟨r, rfl⟩
  refine ⟨haccepted, (analyze_any_order (p := entwined) (fun s hs => ?_)
    (fun k hk head init hmem => ?_)
    (List.reverse_perm _).symm).mpr haccepted⟩
  · simp only [entwined, List.mem_cons, List.not_mem_nil, or_false] at hs
    rcases hs with rfl | rfl | rfl | rfl
    · exact Or.inr ⟨_, _, rfl⟩
    · exact Or.inl ⟨_, _, rfl⟩
    · exact Or.inl ⟨_, _, rfl⟩
    · exact Or.inr ⟨_, _, rfl⟩
  · simp only [entwined, Stmt.classesList, Stmt.classes, List.nil_append, List.append_nil,
      List.cons_append, List.mem_cons, List.not_mem_nil, or_false] at hk
    rcases hk with rfl | rfl | rfl <;>
      simp only [List.mem_cons, List.not_mem_nil, or_false, Stmt.var.injEq, reduceCtorEq] at hmem
    · obtain ⟨rfl, -⟩ := hmem
      exact Option.some_ne_none _
    · obtain ⟨rfl, -⟩ := hmem
      exact Option.some_ne_none _
    · obtain ⟨rfl, -⟩ | ⟨rfl, -⟩ := hmem <;> exact Option.some_ne_none _

/-- Where no type is written for a field, the order matters: a field may start with the field of a
class that comes before it, and not with that of a class that comes after it. -/
example :
    let cup : Stmt := .cls { name := "Cup" } [.var { name := "size" } (some (.boolean {} true))]
    let tray : Stmt := .cls { name := "Tray" }
      [.var { name := "size" } (some (.member {} (.call {} (.name {} "Cup") [] none) "size"))]
    (analyze { stmts := [cup, tray] }).toOption.isSome = true ∧
      (analyze { stmts := [tray, cup] }).toOption.isSome = false := by
  decide +kernel

end MiddleEnd
