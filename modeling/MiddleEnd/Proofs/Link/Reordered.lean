import Mathlib.Data.List.Nodup
import MiddleEnd.Proofs.Link.Programs
import MiddleEnd.Proofs.Link.Shuffled

/-!
Declarations in another order. When the statements of a program are put in another order, its
classes, functions and constructors are made known as before: classes are registered, opened and
outlined in the new order, and what belongs to one statement is not touched by the others.
-/

namespace MiddleEnd

variable {α β : Type}

/-- Nothing gets lost, and nothing is only on one side. -/
def Law.exact : Law := ⟨False, fun _ => False, False⟩

lemma Law.clean_exact (σ : Session) : Law.exact.Clean σ := ⟨fun h => h.elim, fun h => h.elim⟩

section Grows

variable {L : Law} {w υ : World L.lax} {F : ClassId → ClassId → Stmt → Stmt → Prop}

lemma World.Level.grows {scope scope' : ScopeId} (h : w.Level L scope scope') (hυ : w.Grows υ) :
    υ.Level L scope scope' :=
  ⟨h.sees.transfer hυ.link hυ.left.scopes hυ.right.scopes, h.outer.mono hυ.left⟩

lemma World.Body.grows {id id' : ScopeId} (h : w.Body L id id') (hυ : w.Grows υ) :
    υ.Body L id id' := by
  obtain ⟨s, p, hs, hp, houter⟩ := h.inside
  obtain ⟨t, ht, hext⟩ := hυ.left.scopes.scope? hs
  exact ⟨h.sees.transfer hυ.link hυ.left.scopes hυ.right.scopes, hυ.left.notBody hs h.notBody,
    t, p, ht, hext.parent.trans hp, houter.mono hυ.left⟩

lemma Ready.grows {s s' : Stmt} (h : Ready L w F s s') (hυ : w.Grows υ) : Ready L υ F s s' :=
  h.imp rfl hυ.link (·.grows hυ) (fun hF => hF) fun _ => (·.grows hυ)

end Grows

/-! ### What is left out of the link -/

section Leaving

variable {lax : Prop} {ρ : Link} {σ σ' : Session} {c c' : Cell} {keep : Cell → Prop}

/-- What no cell refers to may be left out. -/
lemma Cell.Agree.of_loose (hkeep : ∀ {c}, ¬keep c → c.isFirm = false) (hc : c.Agree lax ρ σ σ' c') :
    c.Agree lax (fun c c' => ρ c c' ∧ keep c) σ σ' c' := by
  refine hc.mono fun hfirm h => ⟨h, by_contra fun hnot => ?_⟩
  rw [hkeep hnot] at hfirm
  cases hfirm

/-- The bodies of classes may be left out as well, as long as no scope stands in one. -/
lemma Cell.Agree.of_bodies (hkeep : ∀ {c}, ¬keep c → (∃ d, c = .body d) ∨ c.isFirm = false)
    (hplain : ∀ {id s}, σ.scopes.scope? id = some s → s.cls = none) (hc : c.Agree lax ρ σ σ' c') :
    c.Agree lax (fun c c' => ρ c c' ∧ keep c) σ σ' c' := by
  have stays {c c' : Cell} (hfirm : c.isFirm = true) (hbody : ∀ d, c ≠ .body d) (hc : ρ c c') :
      ρ c c' ∧ keep c := by
    refine ⟨hc, by_contra fun hnot => ?_⟩
    rcases hkeep hnot with ⟨d, rfl⟩ | hloose
    · exact hbody d rfl
    · rw [hloose] at hfirm
      cases hfirm
  refine hc.imp (stays rfl nofun) (stays rfl nofun) (stays rfl nofun) (stays rfl nofun)
    fun _ hs hcls => ?_
  cases (hplain hs).symm.trans hcls

end Leaving

/-- Names that steps one after another declare in the root scope are different. -/
lemma names_of_mapM {f : α → Check β} [∀ a, Traced True True (f a)] (key : α → Option String)
    {l : List α} {bs : List β} {σ τ : Session}
    (hf : ∀ {a σ b τ}, Gives (f a) σ b τ → ∀ n ∈ key a,
      σ.scopes.bindingAt? n .root = none ∧ ∃ b, τ.scopes.bindingAt? n .root = some b)
    (h : Gives (l.mapM f) σ bs τ) : l.Pairwise fun a b => ∀ n ∈ key a, n ∉ key b := by
  have fresh {l : List α} {bs : List β} {σ τ : Session} (h : Gives (l.mapM f) σ bs τ) :
      ∀ a ∈ l, ∀ n ∈ key a, σ.scopes.bindingAt? n .root = none := by
    induction l generalizing σ bs with
    | nil => exact List.forall_mem_nil _
    | cons a l ih =>
      obtain ⟨b, rest, υ, h1, h2, -⟩ := Check.gives_mapM_cons.mp h
      have hlater : σ.Later υ := .of_gives h1
      exact List.forall_mem_cons.mpr ⟨fun n hn => (hf h1 n hn).1,
        fun d hd n hn => hlater.scopes.bindingAt?_eq_none (ih h2 d hd n hn)⟩
  induction l generalizing σ bs with
  | nil => exact .nil
  | cons a l ih =>
    obtain ⟨b, rest, υ, h1, h2, -⟩ := Check.gives_mapM_cons.mp h
    refine List.pairwise_cons.mpr ⟨fun d hd n hn hn' => ?_, ih h2⟩
    obtain ⟨-, x, hx⟩ := hf h1 n hn
    cases hx.symm.trans (fresh h2 d hd n hn')

lemma Session.Later.known {σ τ : Session} {c : ClassId} (h : σ.Later τ)
    (hc : ∃ e, σ.types.class? c = some e) : ∃ e, τ.types.class? c = some e := by
  obtain ⟨e, he⟩ := hc
  cases he' : τ.types.class? c with
  | none => cases he.symm.trans (h.cls he')
  | some e' => exact ⟨e', rfl⟩

namespace Check

/-! ### One statement at a time -/

def registerOne (scope : ScopeId) (s : Stmt) : Check (List ClassId) :=
  s.classHead?.toList.mapM (registerClass scope)

/-- Opens the class of a statement, which is given with it. -/
def openOne (scope : ScopeId) (p : Stmt × List ClassId) : Check Stmt :=
  Prod.fst <$> openClass scope p.1 p.2

variable {scope : ScopeId} {σ τ : Session}

instance {s : Stmt} : Traced True True (registerOne scope s) := by
  unfold registerOne
  infer_instance

instance {p : Stmt × List ClassId} : Traced True True (openOne scope p) := by
  unfold openOne
  infer_instance

lemma gives_registerOne {s : Stmt} {ids : List ClassId} (h : Gives (registerOne scope s) σ ids τ) :
    s.classHead? = none ∧ ids = [] ∧ σ = τ ∨
      ∃ head c, s.classHead? = some head ∧ ids = [c] ∧ Gives (registerClass scope head) σ c τ := by
  rw [registerOne] at h
  cases hs : s.classHead? with
  | none =>
    rw [hs] at h
    obtain ⟨hids, hτ⟩ := gives_pure.mp h
    exact Or.inl ⟨rfl, hids.symm, hτ⟩
  | some head =>
    rw [hs, Option.toList_some] at h
    obtain ⟨c, rest, υ, hc, hrest, rfl⟩ := gives_mapM_cons.mp h
    obtain ⟨rfl, rfl⟩ := gives_pure.mp hrest
    exact Or.inr ⟨head, c, rfl, rfl, hc⟩

lemma registerClasses_eq {ss : List Stmt} :
    registerClasses scope ss = List.flatten <$> ss.mapM (registerOne scope) := by
  unfold registerClasses
  induction ss with
  | nil => rfl
  | cons s ss ih =>
    rw [Stmt.classHeads_cons, List.mapM_append, ih, List.mapM_cons, registerOne]
    simp

lemma openClass_append {s : Stmt} {ids rest : List ClassId}
    (h : ids.length = s.classHead?.toList.length) :
    openClass scope s (ids ++ rest) = (·, rest) <$> openOne scope (s, ids) := by
  cases hs : s.isClass with
  | true =>
    obtain ⟨head, ms, rfl⟩ : ∃ head ms, s = .cls head ms := by
      cases s with
      | cls head ms => exact ⟨head, ms, rfl⟩
      | _ => cases hs
    obtain ⟨c, rfl⟩ := List.length_eq_one_iff.mp h
    rw [openOne, List.singleton_append, openClass_cls, openClass_cls]
    simp
  | false =>
    rw [classHead?_eq_none hs] at h
    obtain rfl := List.length_eq_zero_iff.mp h
    rw [openOne, openClass_eq_pure hs, openClass_eq_pure hs]
    simp

/-- Classes are opened statement by statement. -/
lemma openClasses_zip {ss : List Stmt} {css : List (List ClassId)}
    (h : List.Forall₂ (fun s ids => ids.length = s.classHead?.toList.length) ss css) :
    openClasses scope ss css.flatten = (ss.zip css).mapM (openOne scope) := by
  induction h with
  | nil => rfl
  | @cons s ids ss css hids _ ih =>
    rw [List.flatten_cons, openClasses, openClass_append hids, List.zip_cons_cons, List.mapM_cons]
    simp [ih]

lemma lengths_of_registerOne {ss : List Stmt} {css : List (List ClassId)}
    (h : Gives (ss.mapM (registerOne scope)) σ css τ) :
    List.Forall₂ (fun s ids => ids.length = s.classHead?.toList.length) ss css := by
  induction ss generalizing σ css with
  | nil =>
    obtain ⟨rfl, -⟩ := gives_pure.mp h
    exact .nil
  | cons s ss ih =>
    obtain ⟨ids, rest, υ, h1, h2, rfl⟩ := gives_mapM_cons.mp h
    refine .cons ?_ (ih h2)
    rcases gives_registerOne h1 with ⟨hs, rfl, -⟩ | ⟨head, c, hs, rfl, -⟩ <;> rw [hs] <;> rfl

/-! ### Registering classes in another order -/

/-- A name may be declared in the root scope, which is not the body of a class. -/
lemma declaring_root {Φ : Cell → Prop} {n : String} (hσ : σ.Assembled) (hname : Φ (.name .root n))
    (hnew : ∀ {c}, σ.types.class? c = none → Φ (.member c n))
    (hbody : ∀ {c e}, σ.types.class? c = some e → ¬Φ (.body c)) : σ.Declaring Φ .root n := by
  refine ⟨hname, fun c => ?_⟩
  cases he : σ.types.class? c with
  | none => exact Or.inl (hnew he)
  | some e => exact Or.inr ⟨e, rfl, notBody_root hσ he, hbody he⟩

def ClassName (s : Stmt) (c : Cell) : Prop :=
  ∃ head, s.classHead? = some head ∧ c = .name .root head.name

lemma continues_registerOne {s : Stmt} {ids : List ClassId} (hσ : σ.Assembled)
    (h : Gives (registerOne .root s) σ ids τ) :
    σ.Continues (fun c => ClassName s c ∨ c.Absent σ) τ := by
  rcases gives_registerOne h with ⟨-, -, rfl⟩ | ⟨head, c, hs, -, h⟩
  · exact hσ.stay
  · refine (leads_registerClass hσ (Or.inr σ.types.class?_nextClass) (declaring_root hσ
      (Or.inl ⟨head, hs, rfl⟩) Or.inr fun he => ?_)).changes_of_gives h
    rintro (⟨_, -, ⟨⟩⟩ | hnone)
    cases he.symm.trans hnone

lemma scopes_of_declare {b : Binding} {span : Span} {u : Unit}
    (h : Gives (declare scope b span) σ u τ) : σ.scopes.declare scope b span = .ok τ.scopes := by
  obtain ⟨larger, hlarger, hτ⟩ := session_of_declare h
  rcases hτ with rfl | ⟨c, rfl⟩ <;> exact hlarger

lemma scopes_of_registerClass {head : ClassHead} {c : ClassId}
    (h : Gives (registerClass scope head) σ c τ) :
    ∃ b span, b.name = head.name ∧ σ.scopes.declare scope b span = .ok τ.scopes := by
  simp only [registerClass, gives_bind, gives_types, gives_updateTypes, gives_pure] at h
  obtain ⟨_, _, ⟨rfl, rfl⟩, _, _, rfl, u, _, h, -, rfl⟩ := h
  have hscopes := scopes_of_declare h
  exact ⟨_, _, rfl, hscopes⟩

lemma binds_of_declare {t larger : Scopes} {b : Binding} {span : Span}
    (h : t.declare scope b span = .ok larger) :
    t.bindingAt? b.name scope = none ∧ larger.bindingAt? b.name scope = some b := by
  rw [Scopes.bindingAt?_declare h, if_pos ⟨rfl, rfl⟩]
  exact ⟨Scopes.bindingAt?_of_declare h, rfl⟩

/-- A name of the root scope is linked with the same name of the root scope. -/
lemma eq_of_link_root {lax : Prop} {w : World lax} {c : Cell} {n : String}
    (hroot : w.link.scope .root .root)
    (h : w.link c (.name .root n)) : c = .name .root n := by
  cases w.agree h with
  | name hscope =>
    cases w.unique.1 hscope hroot
    rfl

variable {w : World Law.exact.lax}

lemma level_root (hscope : w.link.scope .root .root)
    (hnames : ∀ n, w.link (.name .root n) (.name .root n)) : w.Level .exact .root .root := by
  obtain ⟨s, hs, -, hframe, -⟩ := w.leftOrdered.scopes.root
  exact ⟨.root hs hframe hscope fun _ => hnames _, .root hs hframe⟩

lemma not_absent_root (hσ : σ.Assembled) {n : String} : ¬Cell.Absent σ (.name .root n) := by
  obtain ⟨s, hs, -⟩ := hσ.scopes.root
  exact fun hnone => by cases hs.symm.trans hnone

lemma mirrors_registerOne {s : Stmt} (hscope : w.link.scope .root .root)
    (hname : ∀ {c}, ClassName s c → w.link c c) :
    Mirrors .exact (registerOne .root s) (registerOne .root s) w
      fun ids ids' υ => List.Forall₂ υ.Registered ids ids' := by
  unfold registerOne
  cases hs : s.classHead? with
  | none => exact .pure .nil
  | some head =>
    simp only [Option.toList_some, List.mapM_cons, List.mapM_nil, pure_bind]
    exact (mirrors_registerClass hscope (Or.inl (hname ⟨head, hs, rfl⟩))).bind_pure
      fun c c' υ _ hc => .cons hc .nil

lemma mirrors_registers {ss ss' : List Stmt} (hlevel : w.Level .exact .root .root)
    (hperm : Shuffled Eq ss ss') :
    Mirrors .exact (ss.mapM (registerOne .root)) (ss'.mapM (registerOne .root)) w
      fun css css' υ => Shuffled (fun p p' => p.1 = p'.1 ∧ List.Forall₂ υ.Registered p.2 p'.2)
        (ss.zip css) (ss'.zip css') := by
  intro hbase css τ hgives hclean
  have hroot : w.link.scope .root .root := hlevel.sees.scope
  -- no two classes share a name, since the left has declared them all
  have hnames : ss.Pairwise fun s t => ∀ c, ClassName s c → ¬ClassName t c := by
    refine (names_of_mapM (fun s => s.classHead?.map ClassHead.name)
      (fun h n hn => ?_) hgives).imp ?_
    · rcases gives_registerOne h with ⟨hs, -⟩ | ⟨head, c, hs, -, h⟩
      · rw [hs] at hn
        cases hn
      · rw [hs] at hn
        cases hn
        obtain ⟨b, span, hb, hdeclare⟩ := scopes_of_registerClass h
        rw [← hb]
        exact (binds_of_declare hdeclare).imp_right fun hb => ⟨b, hb⟩
    · rintro s t hnot _ ⟨head, hs, rfl⟩ ⟨head', ht, heq⟩
      refine hnot head.name (by rw [hs]; rfl) ?_
      rw [ht, Cell.name.inj heq |>.2]
      rfl
  -- each registration owns the name of its class at the root and nothing else
  have hindependent : Independent .exact w (registerOne .root) (registerOne .root)
      ClassName ClassName Eq ss := {
    strict := id
    left := fun s _ _ _ _ _ hσ h => continues_registerOne hσ.assembled h
    right := fun s _ _ _ _ _ _ _ hσ h => continues_registerOne hσ.assembled h
    present := fun s _ c ⟨_, _, hc⟩ => hc ▸ not_absent_root w.leftOrdered
    present' := fun s _ _ c _ ⟨_, _, hc⟩ => hc ▸ not_absent_root w.rightOrdered
    same := by
      rintro s - _ c _ rfl hc ⟨head, hs, rfl⟩
      exact ⟨head, hs, eq_of_link_root hroot hc⟩
    apart := hnames
    types := fun s _ t ⟨_, _, hc⟩ => nomatch hc
    closed := fun keep hkeep c c' hc _ => (w.agree hc).of_loose fun hnot => by
      obtain ⟨_, -, _, -, rfl⟩ := hkeep hnot
      rfl }
  refine hindependent.mapM (fun _ _ ids ids' υ => List.Forall₂ υ.Registered ids ids')
    (fun hω h => h.imp fun _ _ hc => ⟨hω.link hc.cls, hω.link hc.body⟩)
    (fun s hs s' u hss _ _ hu => ?_) hperm hbase hgives hclean
  cases hss
  refine mirrors_registerOne (hu.mpr ⟨hroot, fun t _ ⟨_, _, h⟩ => nomatch h⟩) fun hc => ?_
  refine hu.mpr ⟨?_, fun _ _ _ => hc⟩
  obtain ⟨head, -, rfl⟩ := hc
  exact (hlevel.sees.name _).resolve_right fun h => h.1

/-! ### Opening classes in another order -/

lemma plain_registers {ss : List Stmt} {css : List (List ClassId)}
    (hσ : ∀ {id s}, σ.scopes.scope? id = some s → s.cls = none)
    (h : Gives (ss.mapM (registerOne .root)) σ css τ) :
    ∀ {id s}, τ.scopes.scope? id = some s → s.cls = none := by
  induction ss generalizing σ css with
  | nil =>
    obtain ⟨-, rfl⟩ := gives_pure.mp h
    exact hσ
  | cons s ss ih =>
    obtain ⟨ids, rest, υ, h1, h2, -⟩ := gives_mapM_cons.mp h
    refine ih (fun {id t} ht => ?_) h2
    rcases gives_registerOne h1 with ⟨-, -, rfl⟩ | ⟨head, c, -, -, h1⟩
    · exact hσ ht
    · obtain ⟨b, span, -, hdeclare⟩ := scopes_of_registerClass h1
      rw [Scopes.scope?_declare hdeclare] at ht
      obtain ⟨t', ht', rfl⟩ := Option.map_eq_some_iff.mp ht
      have hnone := hσ ht'
      split <;> exact hnone

/-- What is known of the classes that a statement declares. -/
def OfClasses (p : Stmt × List ClassId) (c : Cell) : Prop := ∃ d ∈ p.2, OfClass d c

lemma continues_openOne {p : Stmt × List ClassId} {s : Stmt} (hσ : σ.Assembled)
    (hknown : ∀ c ∈ p.2, ∃ e, σ.types.class? c = some e) (h : Gives (openOne scope p) σ s τ) :
    σ.Continues (fun c => OfClasses p c ∨ c.Absent σ) τ := by
  obtain ⟨r, h, -⟩ := gives_map.mp h
  have hroom : σ.Room fun c => OfClasses p c ∨ c.Absent σ :=
    ⟨Or.inr, fun _ => Or.inr, fun _ => Or.inr, Or.inr, Or.inr, fun _ => id⟩
  refine (opensOn p.1 hσ hroom Or.inr fun c hc => ⟨hknown c hc, ?_, ?_,
    fun n => ?_⟩).changes_of_gives h
  · exact Or.inl ⟨c, hc, rfl⟩
  · exact Or.inl ⟨c, hc, rfl⟩
  · exact Or.inl ⟨c, hc, rfl⟩

/-- What is known of the fields of a class that has been opened on both sides. -/
abbrev sameField : ClassId → ClassId → Stmt → Stmt → Prop :=
  fun _ _ s s' => s.Trims Law.exact.lax s'

lemma Opened.grows {s s' : Stmt} {υ : World Law.exact.lax}
    (h : Opened .exact (fun _ => sameField) w .root s s') (hυ : w.Grows υ) :
    Opened .exact (fun _ => sameField) υ .root s s' := by
  cases h with
  | cls hcls hs => exact .cls hcls (hs.grows hυ)
  | other hcls hs => exact .other hcls hs

lemma known_of_registered {c c' : ClassId} (h : w.Registered c c') :
    (∃ e, w.left.types.class? c = some e) ∧ ∃ e, w.right.types.class? c' = some e := by
  obtain ⟨e, e', he, he', -⟩ := w.classEntry h.cls
  exact ⟨⟨e, he⟩, e', he'⟩

lemma not_absent_ofClass {c : Cell} {d : ClassId} (hd : ∃ e, σ.types.class? d = some e)
    (hc : OfClass d c) : ¬c.Absent σ := by
  obtain ⟨e, he⟩ := hd
  cases c with
  | member | constructors | body =>
    cases hc
    exact fun hnone => by cases he.symm.trans hnone
  | _ => cases hc

/-- What is known of a class is linked with what is known of the class it is linked with. -/
lemma ofClass_of_link {c c' : Cell} {d d' : ClassId} (hd : w.link.cls d d') (h : w.link c c')
    (hc : OfClass d' c') : OfClass d c := by
  cases w.agree h with
  | member hcls | constructors hcls | body hcls =>
    cases hc
    exact Cell.cls.inj (w.unique.1 hcls hd)
  | _ => cases hc

lemma mirrors_opens {l l' : List (Stmt × List ClassId)} (hlevel : w.Level .exact .root .root)
    (hsteady : ∀ p ∈ l, p.1.steady = true)
    (hlength : ∀ p ∈ l, p.2.length = p.1.classHead?.toList.length)
    (hnodup : l.Pairwise fun p q => ∀ c ∈ p.2, c ∉ q.2)
    (hplain : ∀ {id s}, w.left.scopes.scope? id = some s → s.cls = none)
    (hl : Shuffled (fun p p' => p.1 = p'.1 ∧ List.Forall₂ w.Registered p.2 p'.2) l l') :
    Mirrors .exact (l.mapM (openOne .root)) (l'.mapM (openOne .root)) w
      fun ss ss' υ => Shuffled (Opened .exact (fun _ => sameField) υ .root) ss ss' := by
  have hknown {ids ids' : List ClassId} (h : List.Forall₂ w.Registered ids ids') :
      (∀ c ∈ ids, ∃ e, w.left.types.class? c = some e) ∧
        ∀ c ∈ ids', ∃ e, w.right.types.class? c = some e := by
    refine ⟨fun c hc => ?_, fun c hc => ?_⟩
    · obtain ⟨c', -, hregistered⟩ := exists_of_forall₂ h hc
      exact (known_of_registered hregistered).1
    · obtain ⟨c', -, hregistered⟩ := exists_of_forall₂ h.flip hc
      exact (known_of_registered hregistered).2
  have hpartner : ∀ p ∈ l, ∃ ids', List.Forall₂ w.Registered p.2 ids' := by
    obtain ⟨m, hperm, hm⟩ := hl
    intro p hp
    obtain ⟨p', -, h⟩ := exists_of_forall₂ hm (hperm.mem_iff.mp hp)
    exact ⟨p'.2, h.2⟩
  -- each opening owns its classes: their members, constructors and bodies
  have hindependent : Independent .exact w (openOne .root) (openOne .root) OfClasses OfClasses
      (fun p p' => p.1 = p'.1 ∧ List.Forall₂ w.Registered p.2 p'.2) l := {
    strict := id
    left := fun p hp σ _ _ hlater hσ h => by
      obtain ⟨ids', hids⟩ := hpartner p hp
      exact continues_openOne hσ.assembled (fun c hc => hlater.known ((hknown hids).1 c hc)) h
    right := fun p _ p' σ _ _ hr hlater hσ h =>
      continues_openOne hσ.assembled (fun c hc => hlater.known ((hknown hr.2).2 c hc)) h
    present := fun p hp c ⟨d, hd, hc⟩ => by
      obtain ⟨ids', hids⟩ := hpartner p hp
      exact not_absent_ofClass ((hknown hids).1 d hd) hc
    present' := fun p _ p' c hr ⟨d, hd, hc⟩ => not_absent_ofClass ((hknown hr.2).2 d hd) hc
    same := by
      rintro p - p' c c' hr hc ⟨d', hd', hown⟩
      obtain ⟨d, hd, hregistered⟩ := exists_of_forall₂ hr.2.flip hd'
      exact ⟨d, hd, ofClass_of_link hregistered.cls hc hown⟩
    apart := hnodup.imp fun {p q} hpq c ⟨d, hd, hc⟩ ⟨d', hd', hc'⟩ => hpq d hd (by
      cases c with
      | member | constructors | body =>
        cases hc
        cases hc'
        exact hd'
      | _ => cases hc)
    types := fun p _ t ⟨_, _, hc⟩ => hc
    closed := fun keep hkeep c c' hc _ => (w.agree hc).of_bodies (fun {c} hnot => by
      obtain ⟨_, -, d, -, hown⟩ := hkeep hnot
      cases c with
      | body d => exact Or.inl ⟨d, rfl⟩
      | member | constructors => exact Or.inr rfl
      | _ => cases hown) hplain }
  refine hindependent.mapM_outputs (fun s s' υ => Opened .exact (fun _ => sameField) υ .root s s')
    (fun hω h => h.grows hω) (fun p hp p' u hr hleft hright hu => ?_) hl
  obtain ⟨s, ids⟩ := p
  obtain ⟨_, ids'⟩ := p'
  obtain ⟨rfl, hids⟩ := hr
  -- the root belongs to no class, so it is linked in every part of the world
  have hplace : u.Level .exact .root .root :=
    level_root (hu.mpr ⟨hlevel.sees.scope, fun _ _ ⟨_, _, h⟩ => h.elim⟩) fun n =>
      hu.mpr ⟨(hlevel.sees.name n).resolve_right And.left, fun _ _ ⟨_, _, h⟩ => h.elim⟩
  have hregistered : List.Forall₂ u.Registered ids ids' := by
    rw [List.forall₂_iff_get] at hids ⊢
    refine ⟨hids.1, fun i hi hi' => ?_⟩
    obtain ⟨hcls, hbody⟩ := hids.2 i hi hi'
    exact ⟨hu.mpr ⟨hcls, fun _ _ ⟨_, _, h⟩ => h.elim⟩,
      hu.mpr ⟨hbody, fun _ _ _ => ⟨_, List.get_mem ids ⟨i, hi⟩, rfl⟩⟩⟩
  exact (opensMirrored (fieldSpec_trims _) s hplace ⟨fun h => h.elim, fun h => h.elim⟩
    (hsteady _ hp) ⟨s.trims_refl, fun _ _ _ _ h => h⟩ hregistered
    ((hlength _ hp).trans (Nat.add_zero _).symm)).map fun r r' υ _ hr => hr.1

/-! ### Functions in another order -/

lemma Outlined.grows {s s' : Stmt} {υ : World Law.exact.lax}
    (h : Outlined .exact (fun _ => sameField) w .root s s') (hυ : w.Grows υ) :
    Outlined .exact (fun _ => sameField) υ .root s s' :=
  ⟨h.ready.grows hυ, Option.Rel.mono (·.mono fun _ => hυ.link) h.binding, h.name⟩

/-- Outlining a function in the root scope changes nothing that was there before. -/
lemma continues_outline {kind : FrameKind} {s r : Stmt} (hσ : σ.Assembled)
    (h : Gives (outline .root kind s) σ r τ) : σ.Continues (fun c => False ∨ c.Absent σ) τ := by
  obtain ⟨root, hroot, -, -, hcls⟩ := hσ.scopes.root
  have hroom : σ.Room fun c => False ∨ c.Absent σ :=
    ⟨Or.inr, fun _ => Or.inr, fun _ => Or.inr, Or.inr, Or.inr, fun _ => id⟩
  refine (leads_outline hσ hroom fun c => Or.inr ⟨root, hroot, ?_⟩).changes_of_gives h
  rw [hcls]
  exact nofun

lemma mirrors_outlines {kind : FrameKind} {ss ss' : List Stmt} (hlevel : w.Level .exact .root .root)
    (hss : Shuffled (Opened .exact (fun _ => sameField) w .root) ss ss') :
    Mirrors .exact (ss.mapM (outline .root kind)) (ss'.mapM (outline .root kind)) w
      fun r r' υ => Shuffled (Outlined .exact (fun _ => sameField) υ .root) r r' := by
  have hindependent : Independent .exact w (outline .root kind) (outline .root kind)
      (fun _ _ => False) (fun _ _ => False) (Opened .exact (fun _ => sameField) w .root) ss := {
    strict := id
    left := fun _ _ _ _ _ _ hσ h => continues_outline hσ.assembled h
    right := fun _ _ _ _ _ _ _ _ hσ h => continues_outline hσ.assembled h
    present := fun _ _ _ h => h.elim
    present' := fun _ _ _ _ _ h => h.elim
    same := fun _ _ _ _ _ _ _ h => h
    apart := List.pairwise_of_forall fun _ _ _ h => h.elim
    types := fun _ _ _ h => h
    closed := fun keep hkeep c c' hc _ => (w.agree hc).of_loose fun hnot => by
      obtain ⟨_, -, h⟩ := hkeep hnot
      exact h.elim }
  refine hindependent.mapM_outputs
    (fun s s' υ => Outlined .exact (fun _ => sameField) υ .root s s') (fun hω h => h.grows hω)
    (fun s _ s' u hs hleft hright hu => ?_) hss
  have hgrows : w.Grows u := ⟨fun hc => hu.mpr ⟨hc, fun _ _ h => h.elim⟩, hleft, hright⟩
  exact mirrors_outline (hlevel.grows hgrows) (hs.grows hgrows)

lemma forM_eq_mapM {f : α → Check Unit} {l : List α} : l.forM f = (fun _ => ()) <$> l.mapM f := by
  induction l with
  | nil => rfl
  | cons a l ih =>
    rw [List.mapM_cons]
    show (f a >>= fun _ => l.forM f) = _
    simp [ih]

def bindName (p : Binding × Span) : Check Unit := declare .root p.1 p.2

instance {p : Binding × Span} : Traced True True (bindName p) := by
  unfold bindName
  infer_instance

/-- What stands for the same function on both sides. -/
structure SameFunction (w : World Law.exact.lax) (p p' : Binding × Span) : Prop where
  linked : p.1.Linked w.link p'.1
  function : ∃ sig, p.1.kind = .function sig

lemma SameFunction.value {p p' : Binding × Span} (h : SameFunction w p p') :
    p.1.denotesType = false := by
  obtain ⟨sig, hsig⟩ := h.function
  rw [Binding.denotesType, hsig]

lemma SameFunction.function' {p p' : Binding × Span} (h : SameFunction w p p') :
    ∃ sig, p'.1.kind = .function sig := by
  obtain ⟨sig, hsig⟩ := h.function
  have hkind := h.linked.kind
  rw [hsig] at hkind
  generalize p'.1.kind = k at hkind
  cases hkind with
  | function => exact ⟨_, rfl⟩

lemma SameFunction.valid {p p' : Binding × Span} (h : SameFunction w p p') :
    p.1.Valid w.left.types ∧ p'.1.Valid w.right.types :=
  valid_of_linked h.linked fun hd => by
    rw [h.value] at hd
    cases hd

lemma continues_bindName {p : Binding × Span} {u : Unit} (hσ : σ.Assembled)
    (hvalid : p.1.Valid σ.types) (hfunction : ∃ sig, p.1.kind = .function sig)
    (h : Gives (bindName p) σ u τ) :
    σ.Continues (fun c => c = .name .root p.1.name ∨ c.Absent σ) τ := by
  obtain ⟨sig, hsig⟩ := hfunction
  refine (leads_declare hσ hvalid (Binding.present_of_function hsig)
    (declaring_root hσ (Or.inl rfl) Or.inr fun he => ?_)).changes_of_gives h
  rintro (⟨⟨⟩⟩ | hnone)
  cases he.symm.trans hnone

lemma mirrors_bindNames {ps ps' : List (Binding × Span)} (hlevel : w.Level .exact .root .root)
    (hps : Shuffled (SameFunction w) ps ps') :
    Mirrors .exact (ps.forM bindName) (ps'.forM bindName) w fun _ _ _ => True := by
  intro hbase us τ hgives hclean
  have hroot : w.link.scope .root .root := hlevel.sees.scope
  rw [forM_eq_mapM] at hgives ⊢
  obtain ⟨us, hmapM, -⟩ := gives_map.mp hgives
  -- no two functions share a name, since the left has bound them all
  have hnames : ps.Pairwise fun p q => ∀ c : Cell, c = .name .root p.1.name →
      ¬c = .name .root q.1.name := by
    refine (names_of_mapM (fun p : Binding × Span => some p.1.name) (fun h n hn => ?_) hmapM).imp ?_
    · cases hn
      exact (binds_of_declare (scopes_of_declare h)).imp_right fun hb => ⟨_, hb⟩
    · rintro p q hnot _ rfl heq
      exact hnot p.1.name rfl (congrArg some (Cell.name.inj heq).2.symm)
  have hpartner : ∀ p ∈ ps, ∃ p', SameFunction w p p' := by
    obtain ⟨m, hperm, hm⟩ := hps
    intro p hp
    obtain ⟨p', -, h⟩ := exists_of_forall₂ hm (hperm.mem_iff.mp hp)
    exact ⟨p', h⟩
  have hindependent : Independent .exact w bindName bindName (fun p c => c = .name .root p.1.name)
      (fun p c => c = .name .root p.1.name) (SameFunction w) ps := {
    strict := id
    left := fun p hp σ _ _ hlater hσ h => by
      obtain ⟨p', hp'⟩ := hpartner p hp
      exact continues_bindName hσ.assembled (hp'.valid.1.mono hlater.forms) hp'.function h
    right := fun p _ p' σ _ _ hp' hlater hσ h =>
      continues_bindName hσ.assembled (hp'.valid.2.mono hlater.forms) hp'.function' h
    present := fun p _ c hc => hc ▸ not_absent_root w.leftOrdered
    present' := fun p _ p' c _ hc => hc ▸ not_absent_root w.rightOrdered
    same := by
      rintro p - p' c _ hp hc rfl
      rw [hp.linked.name] at hc
      exact eq_of_link_root hroot hc
    apart := hnames
    types := fun p _ t hc => by cases hc
    closed := fun keep hkeep c c' hc _ => (w.agree hc).of_loose fun hnot => by
      obtain ⟨_, -, rfl⟩ := hkeep hnot
      rfl }
  -- what a signature is made of is not among the names that are bound
  have hmirrors : Mirrors .exact (ps.mapM bindName) (ps'.mapM bindName) w
      fun us us' _ => Shuffled (fun _ _ => True) us us' := by
    refine hindependent.mapM_outputs (fun _ _ _ => True) (fun _ h => h)
      (fun p hp p' u hp' hleft hright hu => ?_) hps
    have hlink {c c' : Cell} (hc : w.link c c') (hfirm : c.isFirm = true) : u.link c c' := by
      refine hu.mpr ⟨hc, fun _ _ h => ?_⟩
      rw [h] at hfirm
      cases hfirm
    refine mirrors_declare (hlink hroot rfl) ?_ (hp'.linked.mono fun hfirm hc => hlink hc hfirm)
      fun hd => ?_
    · exact hu.mpr ⟨(hlevel.sees.name _).resolve_right And.left, fun _ _ _ => rfl⟩
    · rw [hp'.value] at hd
      cases hd
  have hdone :
      Mirrors .exact ((fun _ => ()) <$> ps.mapM bindName) ((fun _ => ()) <$> ps'.mapM bindName)
      w fun _ _ _ => True := hmirrors.map fun _ _ _ _ _ => trivial
  exact hdone hbase hgives hclean

lemma mirrors_binds {ss ss' : List Stmt} (hlevel : w.Level .exact .root .root)
    (hss : Shuffled (Opened .exact (fun _ => sameField) w .root) ss ss') :
    Mirrors .exact (bindFunctions .root ss) (bindFunctions .root ss') w
      fun r r' υ => Shuffled (Ready .exact υ sameField) r r' := by
  unfold bindFunctions
  refine (mirrors_owner? hlevel.sees.scope).bind fun o o' υ hυ ho => ?_
  rw [ho]
  have hgrows : w.Grows υ := ⟨hυ.link, hυ.left, hυ.right⟩
  refine (mirrors_outlines (hlevel.mono hυ) (hss.imp fun _ _ hs => hs.grows hgrows)).bind
    fun r r' ω hω hr => ?_
  have hbindings : Shuffled (SameFunction ω) (r.filterMap functionBinding?)
      (r'.filterMap functionBinding?) := by
    refine hr.filterMap fun s s' hs => ?_
    have hbinding := hs.binding
    have hfunction : ∀ b ∈ functionBinding? s, ∃ sig, b.1.kind = .function sig := by
      cases s with
      | func =>
        rintro _ ⟨⟩
        exact ⟨_, rfl⟩
      | _ => nofun
    generalize functionBinding? s = x at hbinding hfunction
    generalize functionBinding? s' = y at hbinding
    cases hbinding with
    | none => exact .none
    | some hb => exact .some ⟨hb, hfunction _ rfl⟩
  refine (mirrors_bindNames ((hlevel.mono hυ).mono hω) hbindings).bind fun _ _ ψ hψ _ => ?_
  refine mirrors_note.bind_pure fun _ _ χ hχ _ => ?_
  have hlast := hψ.trans hχ
  exact hr.imp fun s s' hs => hs.ready.mono hlast fun hF => hF

/-- The classes that the statements of two programs have been given. -/
structure Registry (υ : World Law.exact.lax) (ss ss' : List Stmt) (css css' : List (List ClassId)) :
    Prop where
  left : List.Forall₂ (fun s ids => ids.length = s.classHead?.toList.length) ss css
  right : List.Forall₂ (fun s ids => ids.length = s.classHead?.toList.length) ss' css'
  apart : css.Pairwise List.Disjoint
  unopened : ∀ {id s}, υ.left.scopes.scope? id = some s → s.cls = none
  same : Shuffled (fun p p' => p.1 = p'.1 ∧ List.Forall₂ υ.Registered p.2 p'.2)
    (ss.zip css) (ss'.zip css')

/-- The classes of a whole program are registered in another order. -/
lemma mirrors_registry {log log' : List LogEvent} {ss ss' : List Stmt} (hss : Shuffled Eq ss ss') :
    Mirrors .exact (registerClasses .root ss) (registerClasses .root ss') (.start .exact log log')
      fun cs cs' υ => ∃ css css', cs = css.flatten ∧ cs' = css'.flatten ∧
        Registry υ ss ss' css css' := by
  rw [registerClasses_eq, registerClasses_eq]
  refine (mirrors_registers World.level_start hss).with_gives.map fun css css' υ _ h => ?_
  obtain ⟨hleft, hright, hzip⟩ := h
  have hgives : Gives (registerClasses .root ss) { log := log } css.flatten υ.left := by
    rw [registerClasses_eq]
    exact gives_map.mpr ⟨css, hleft, rfl⟩
  obtain ⟨-, -, hnodup, -⟩ :=
    hoists_registerClasses (Session.consistent_start log) (List.forall_mem_nil _) hgives
  refine ⟨css, css', rfl, rfl, lengths_of_registerOne hleft, lengths_of_registerOne hright,
    (List.nodup_flatten.mp hnodup).2, plain_registers (fun {id s} hs => ?_) hleft, hzip⟩
  rw [Scopes.scope?_withBuiltins hs]

/-- **Declarations in any order.** What a program declares is made known on both sides, when its
statements stand in another order on the right. -/
lemma mirrors_announces {log log' : List LogEvent} {ss ss' : List Stmt}
    (hsteady : ∀ s ∈ ss, s.steady = true) (hss : Shuffled Eq ss ss') :
    Mirrors .exact (announce .root ss) (announce .root ss') (.start .exact log log')
      fun r r' υ => Shuffled (Ready .exact υ sameField) r r' := by
  unfold announce
  refine (mirrors_registry hss).bind fun _ _ υ hυ h => ?_
  obtain ⟨css, css', rfl, rfl, hregistry⟩ := h
  rw [openClasses_zip hregistry.left, openClasses_zip hregistry.right]
  have hlevel : υ.Level .exact .root .root := World.level_start.mono hυ
  have hpairwise : (ss.zip css).Pairwise fun p q => ∀ c ∈ p.2, c ∉ q.2 := by
    have hdisjoint := hregistry.apart
    rw [← List.map_snd_zip hregistry.left.length_eq.ge, List.pairwise_map] at hdisjoint
    exact hdisjoint.imp fun hpq c hp hq => hpq hp hq
  refine (mirrors_opens hlevel (fun p hp => hsteady _ (List.of_mem_zip hp).1)
    (fun p hp => (List.forall₂_iff_zip.mp hregistry.left).2 hp) hpairwise hregistry.unopened
    hregistry.same).bind fun r r' ω hω hr => ?_
  refine mirrors_note.bind fun _ _ ψ hψ _ => ?_
  have hgrows : ω.Grows ψ := ⟨hψ.link, hψ.left, hψ.right⟩
  exact (mirrors_binds ((hlevel.mono hω).mono hψ) (hr.imp fun _ _ hs => hs.grows hgrows)).last

end Check

end MiddleEnd
