import MiddleEnd.Proofs.Check.Lengths
import MiddleEnd.Proofs.Link.Exchanged
import MiddleEnd.Proofs.Link.Optimized

/-!
Fields come before variables. A class at the end of an accepted program is registered and opened
beside it, in two runs side by side of which only the right one has the class. When the fields of
the classes are declared, no variable of the root scope is known yet, so a field cannot start with
the value of one; an expression at the same place can.
-/

namespace MiddleEnd

variable {L : Law} {w υ : World L.lax} {σ τ : Session}

/-! ### Steps that only the right takes -/

namespace World

/-- What may change on the right alone: what is not linked. A class that is not linked has nothing
that is linked. -/
def Aside (w : World L.lax) : Cell → Prop
  | .cls c | .member c _ | .constructors c | .body c => ∀ d, ¬w.link.cls d c
  | c => ∀ d, ¬w.link d c

lemma not_aside {c c' : Cell} (h : w.link c c') : ¬w.Aside c' := by
  intro haside
  cases w.agree h with
  | member hcls | constructors hcls | body hcls => exact haside _ hcls
  | _ => exact haside _ h

lemma room_aside (w : World L.lax) : w.right.Room w.Aside where
  settled hf _ h := (w.agree h).present.2 hf
  name _ hs _ h := (w.agree h).present.2 hs
  member _ hc _ h := (w.agree h).present.2 hc
  constructors hc _ h := (w.agree h).present.2 hc
  body hc _ h := (w.agree h).present.2 hc
  tidy _ hc := hc

lemma registering_aside (w : World L.lax) : w.right.Registering w.Aside :=
  fun hc _ h => (w.agree h).present.2 hc

lemma declaring_aside {n : String} (hn : ∀ d, ¬w.link d (.name .root n)) :
    w.right.Declaring w.Aside .root n := by
  refine ⟨hn, fun c => ?_⟩
  by_cases hc : ∀ d, ¬w.link.cls d c
  · exact Or.inl hc
  · obtain ⟨d, hd⟩ := not_forall_not.mp hc
    cases w.agree hd with
    | cls _ hr => exact Or.inr ⟨_, hr, Check.notBody_root w.rightOrdered hr, hc⟩

/-- Only the right session has gone on, and nothing has changed that is linked. -/
lemma exists_onRight (h : w.right.Continues w.Aside τ) (hτ : w.right.Later τ) :
    ∃ υ : World L.lax, υ.link = w.link ∧ υ.left = w.left ∧ υ.right = τ ∧ w.Advance L υ := by
  have hleft : w.left.Continues (fun _ => False) w.left := w.leftOrdered.stay
  let υ : World L.lax := {
    link := w.link
    left := w.left
    right := τ
    leftOrdered := w.leftOrdered
    rightOrdered := h.assembled
    unique := w.unique
    basic := w.basic
    agree hc := (w.agree hc).stay hleft h id (not_aside hc) }
  exact ⟨υ, rfl, rfl, rfl, id, fun h _ => Or.inl h, id, fun _ => Or.inl, fun _ => id, .refl _, hτ⟩

/-- A class that is on the right only stays so. -/
lemma Advance.unlinked (h : w.Advance L υ) {c : ClassId}
    (hc : w.right.types.class? c ≠ none) (hw : ∀ d, ¬w.link.cls d c) (d : ClassId) :
    ¬υ.link.cls d c := by
  intro hd
  rcases h.new hd (Or.inl rfl) with hd | ⟨-, hnone⟩
  · exact hw d hd
  · exact hc hnone

/-- The name of the root scope that is left out is linked with none on the right either. -/
lemma Tidy.unlinked (h : w.Tidy L) (hroot : w.link.scope .root .root) {n : String}
    (hn : L.dropped n) (d : Cell) : ¬w.link d (.name .root n) := by
  intro hd
  cases Check.eq_of_link_root hroot hd
  exact h.dropped hn hd

end World

/-- One name of the root scope is not linked. -/
def Law.adding (name : String) : Law := ⟨False, (· = name), False⟩

lemma Law.clean_adding {name : String} (h : σ.scopes.bindingAt? name .root = none) :
    (Law.adding name).Clean σ where
  calls := by
    rintro _ b rfl hb
    cases h.symm.trans hb
  names := by
    rintro _ b rfl hb
    cases h.symm.trans hb

namespace Check

/-! ### Programs with one more class -/

lemma registerClasses_concat (scope : ScopeId) (ss : List Stmt) (head : ClassHead)
    (ms : List Stmt) :
    registerClasses scope (ss ++ [.cls head ms]) = do
      let cs ← registerClasses scope ss
      let c ← registerClass scope head
      return cs ++ [c] := by
  simp [registerClasses, List.filterMap_append, List.mapM_append, Stmt.classHead?]

lemma openClasses_append {ss ts : List Stmt} {cs ds : List ClassId} (scope : ScopeId)
    (hlength : cs.length = (ss.filterMap Stmt.classHead?).length) :
    openClasses scope (ss ++ ts) (cs ++ ds) = do
      let r ← openClasses scope ss cs
      let r' ← openClasses scope ts ds
      return r ++ r' := by
  induction ss generalizing cs with
  | nil =>
    obtain rfl := List.length_eq_zero_iff.mp hlength
    simp [openClasses]
  | cons s ss ih =>
    rw [Stmt.classHeads_cons, List.length_append] at hlength
    by_cases hs : s.isClass = true
    · -- a class takes the first of the identifiers
      cases s with
      | cls head ms =>
        cases cs with
        | nil => simp [Stmt.classHead?] at hlength; omega
        | cons c cs =>
          have hrest : cs.length = (ss.filterMap Stmt.classHead?).length := by
            simp [Stmt.classHead?] at hlength
            omega
          simp only [List.cons_append, openClasses, openClass_cls, bind_assoc, pure_bind, ih hrest]
      | _ => cases hs
    · -- any other statement takes none
      have hs := Bool.eq_false_iff.mpr hs
      rw [classHead?_eq_none hs] at hlength
      have hrest : cs.length = (ss.filterMap Stmt.classHead?).length := by
        simpa using hlength
      simp only [List.cons_append, openClasses, openClass_eq_pure hs, bind_assoc, pure_bind,
        ih hrest]

/-- The scope stands in the root scope and does not declare the name. -/
def Lacks (σ : Session) (b : ScopeId) (n : String) : Prop :=
  ∃ s, σ.scopes.scope? b = some s ∧ s.parent = some .root ∧ s.bindings.find? n = none

variable {b : ScopeId} {n : String} {Φ : Cell → Prop}

lemma Lacks.mono (h : Lacks σ b n) (hτ : σ.Continues Φ τ) (hΦ : ¬Φ (.name b n)) : Lacks τ b n := by
  obtain ⟨s, hs, hparent, hnone⟩ := h
  obtain ⟨s', hs', hkeeps⟩ := hτ.scope hs
  exact ⟨s', hs', hkeeps.parent.trans hparent, (hkeeps.names n hΦ).trans hnone⟩

lemma Lacks.lookup (h : Lacks σ b n) (hσ : σ.Assembled)
    (hroot : σ.scopes.bindingAt? n .root = none) : σ.scopes.lookup b n = none := by
  obtain ⟨s, hs, hparent, hnone⟩ := h
  obtain ⟨r, hr, -⟩ := hσ.scopes.root
  rw [Scopes.lookup_inner hσ hs hparent, Scopes.lookup_root hσ hr, hroot, Scopes.bindingAt?, hs,
    Option.bind_some, hnone]
  rfl

lemma Lacks.bindFunctions {ss ss' : List Stmt} (h : Lacks σ b n) (hσ : σ.Assembled)
    (hbind : Gives (bindFunctions .root ss) σ ss' τ) : Lacks τ b n := by
  obtain ⟨s, hs, hparent, -⟩ := id h
  have hroot : b ≠ .root := by
    rintro rfl
    exact absurd (hσ.scopes.parents hs hparent) (Nat.lt_irrefl _)
  have hroom : σ.Room (· ≠ .name b n) := {
    settled _ := by simp
    name _ hid := by
      rintro ⟨⟩
      cases hs.symm.trans hid
    member _ _ := by simp
    constructors _ := by simp
    body _ := by simp
    tidy _ _ := by simp }
  have hdeclaring (m : String) : σ.Declaring (· ≠ .name b n) .root m := by
    refine ⟨?_, fun _ => Or.inl (by simp)⟩
    rintro ⟨⟩
    exact hroot rfl
  exact h.mono ((leads_bindFunctions hσ hroom (fun _ => Or.inl (by simp))
    hdeclaring).changes_of_gives hbind) fun hne => hne rfl

/-- What declares nothing is passed over, and scopes stay as they are. -/
lemma exists_announce {scope : ScopeId} {s : Stmt} (hs : s.isDeclaration = false) {r : Scope}
    (hscope : σ.scopes.scope? scope = some r) :
    ∃ τ, Gives (announce scope [s]) σ [s] τ ∧ τ.scopes = σ.scopes := by
  rw [← List.nil_append [s], announce_concat hs]
  simp only [announce, registerClasses, openClasses, bindFunctions, List.filterMap_nil,
    List.mapM_nil, gives_bind, gives_pure, gives_note]
  have howner := owner?_of_scope?
    (σ := { σ with log := σ.log ++ [.classesRegistered 0 scope] }) hscope
  exact ⟨_, ⟨[], _, ⟨_, _, ⟨rfl, rfl⟩, _, _, ⟨rfl, rfl⟩, (), _, rfl, _, _, howner, [], _, rfl,
    (), _, rfl, (), _, rfl, rfl, rfl⟩, rfl, rfl⟩, rfl⟩

variable {head : ClassHead} {ss r : List Stmt} {cs ds : List ClassId} {c : ClassId}
  {field : VarHead} {init : Option Expr}

/-- A class of the root scope with one field, after it has been opened. -/
def opened (head : ClassHead) (c : ClassId) (b : ScopeId) (field : VarHead) (init : Option Expr) :
    Stmt :=
  .cls { head with cls := some c, scope := some b } [.var field init]

/-- A class with one field, for which no type is written, can be opened. -/
lemma exists_openClass (hfield : field.annotation = none)
    (hσ : σ.Assembled) (hc : ∃ e, σ.types.class? c = some e) (head : ClassHead)
    (init : Option Expr) : ∃ b τ, Gives (openClass .root (.cls head [.var field init]) [c]) σ
      (opened head c b field init, []) τ ∧ ∀ n, Lacks τ b n := by
  obtain ⟨r, hr, -⟩ := hσ.scopes.root
  obtain ⟨σ1, h1⟩ := exists_openIn hr (.cls c)
  obtain ⟨larger, hlarger, -, rfl⟩ := gives_openIn.mp h1
  obtain ⟨base, -, hb⟩ := Scopes.scope?_openIn hlarger σ.scopes.next
  rw [if_pos rfl] at hb
  obtain ⟨σ3, h3, hscopes⟩ := exists_announce (s := .var field init) rfl
    (σ := { σ with
      types := σ.types.updateClass c fun e => { e with body := some σ.scopes.next },
      scopes := larger }) hb
  have h4 : Gives ([Stmt.var field init].forM (announceField c σ.scopes.next)) σ3 () σ3 := by
    refine gives_forM_cons.mpr ⟨σ3, ?_, rfl⟩
    rw [announceField, hfield]
    rfl
  refine ⟨σ.scopes.next, σ3, ?_, fun n =>
    ⟨_, by rw [hscopes]; exact hb, Scopes.inner_parent base, ?_⟩⟩
  · rw [openClass_cls]
    simp only [gives_bind, gives_pure]
    exact ⟨_, _, h1, (), _, gives_changeClass.mpr ⟨hc, rfl⟩, _, _, h3, (), _, h4, rfl, rfl⟩
  · rw [Scopes.inner_bindings]
    rfl

/-- When a program has been declared to which a class with one field belongs, the class has an empty
body, which no other class has. -/
lemma opened_of_announce {out : List Stmt} (hfield : field.annotation = none) (hσ : σ.Assembled)
    (h : Gives (announce .root (ss ++ [.cls head [.var field init]])) σ out τ) :
    ∃ r c b, out = r ++ [opened head c b field init] ∧ b ∉ Stmt.classScopes r ∧
      ∀ n, Lacks τ b n := by
  have hscopes := (gains_announce h).nodup
  simp only [announce, gives_bind, registerClasses_concat, gives_pure] at h
  obtain ⟨_, _, ⟨cs, σ1, h1, c, σ2, hc, rfl, rfl⟩, _, σ4, h2, _, σ5, h3, h4⟩ := h
  -- the classes are there, so that all steps lead on
  obtain ⟨c1, hregistered⟩ := (leads_registerClasses (Φ := fun _ => True) hσ (fun _ => trivial)
    Cell.free_all.declaring).gives h1
  obtain ⟨c2, -, e, he, -⟩ := (leads_registerClass (Φ := fun _ => True) c1.assembled trivial
    (Cell.free_all.declaring head.name)).gives hc
  have hknown : ∀ d ∈ cs, σ2.Opening (fun _ => True) d := fun d hd =>
    (Session.room_all.opening (hregistered d hd).1 (hregistered d hd).2).mono c2
  rw [openClasses_append .root (length_of_mapM h1)] at h2
  simp only [openClasses, gives_bind, gives_pure] at h2
  obtain ⟨r, σ3, hr, _, _, ⟨⟨s, others⟩, _, hopen, _, _, ⟨rfl, rfl⟩, rfl, rfl⟩, rfl, rfl⟩ := h2
  have c3 := (leads_openClasses (fun s _ => opensOn s) c2.assembled Session.room_all
    (fun _ => trivial) hknown).changes_of_gives hr
  obtain ⟨e', he', -⟩ := c3.cls he
  obtain ⟨b, _, hopen', hlacks⟩ := exists_openClass hfield c3.assembled ⟨e', he'⟩ head init
  -- the class opens in one way only
  obtain ⟨heq, rfl⟩ := gives_unique hopen' hopen
  cases heq
  have c4 := (opensOn _ c3.assembled Session.room_all (fun _ => trivial)
    (List.forall_mem_singleton.mpr
      ⟨⟨e', he'⟩, trivial, trivial, fun _ => trivial⟩)).changes_of_gives hopen
  have c5 := (leads_note (Φ := fun _ => False) c4.assembled).changes_of_gives h3
  rw [bindFunctions_concat rfl, gives_bind] at h4
  obtain ⟨r', _, hbind, h4⟩ := h4
  obtain ⟨rfl, rfl⟩ := gives_pure.mp h4
  rw [Stmt.classScopes_append] at hscopes
  refine ⟨r', c, b, rfl, fun hb => ?_, fun n =>
    ((hlacks n).mono c5 id).bindFunctions c5.assembled hbind⟩
  exact (List.nodup_append.mp hscopes).2.2 b hb b List.mem_cons_self rfl

lemma Lacks.fields {ss' : List Stmt} (h : Lacks σ b n) (hσ : σ.Assembled)
    (hb : b ∉ Stmt.classScopes ss) (hfields : Gives (ss.mapM classFields) σ ss' τ) :
    Lacks τ b n := by
  obtain ⟨s, hs, -⟩ := id h
  refine h.mono (continues_fields hσ hfields) ?_
  rintro (hnone | ⟨_, hfield, -⟩)
  · cases hs.symm.trans hnone
  · exact hb hfield.mem_classScopes

/-- A field cannot start with a name that is not known. -/
lemma fails_classFields (head : ClassHead) (c : ClassId) (m : Mark)
    (hfield : field.annotation = none) (hσ : σ.Assembled) (h : Lacks σ b n)
    (hroot : σ.scopes.bindingAt? n .root = none) :
    Fails (classFields (opened head c b field (some (.name m n)))) σ
      (.user (.undeclared n) m.span) := by
  have hlookup := h.lookup hσ hroot
  obtain ⟨s, hs, -⟩ := h
  have hresolve : σ.scopes.resolve b n m.span = .error (.user (.undeclared n) m.span) := by
    rw [Scopes.resolve, Scopes.scope_eq_ok.mpr hs, hlookup]
    rfl
  have hname : Fails (nameType b n m.span) σ (.user (.undeclared n) m.span) := by
    refine Fails.after (gives_scopes.mpr ⟨rfl, rfl⟩) (Fails.bind ?_)
    rw [hresolve]
    rfl
  rw [opened, classFields]
  refine Fails.after (τ := σ) rfl (.bind ?_)
  rw [memberFields, var, hfield]
  refine .bind (Fails.after (τ := σ) rfl (.bind ?_))
  rw [expr]
  exact hname.bind

/-- The fields of a program with one more class cannot be declared where the field of the class
starts with a name that is not known. -/
lemma fails_program {p : Program} {m : Mark} {r2 : List Stmt} {A : Session}
    (h1 : Gives (announce .root (p.stmts ++ [.cls head [.var field (some (.name m n))]])) σ
      (r ++ [opened head c b field (some (.name m n))]) A)
    (h2 : Gives (r.mapM classFields) A r2 τ) (hfield : field.annotation = none)
    (hτ : τ.Assembled) (h : Lacks τ b n) (hroot : τ.scopes.bindingAt? n .root = none) :
    Fails (program { p with stmts := p.stmts ++ [.cls head [.var field (some (.name m n))]] }) σ
      (.user (.undeclared n) m.span) := by
  refine .after h1 (.bind ?_)
  rw [List.mapM_append, List.mapM_cons]
  exact .after h2 (.bind (.bind (fails_classFields head c m hfield hτ h hroot)))

/-! ### The class beside the program -/

lemma exists_registerClass (hσ : σ.Assembled) (h : σ.scopes.bindingAt? head.name .root = none) :
    ∃ τ, Gives (registerClass .root head) σ σ.types.nextClass τ := by
  obtain ⟨s, hs, -⟩ := hσ.scopes.root
  rw [Scopes.bindingAt?, hs] at h
  obtain ⟨τ, hτ⟩ := exists_declare (σ := σ.addClass head.name)
    (b := .ofClass head.name σ.types.nextClass σ.types.next) hs h head.extent.span
  simp only [registerClass, gives_bind, gives_types, gives_updateTypes, gives_pure]
  exact ⟨τ, _, _, ⟨rfl, rfl⟩, (), _, rfl, (), _, hτ, rfl, rfl⟩

/-- The classes of a program are registered on both sides, and then the class on the right. -/
lemma exists_registerClasses {log : List LogEvent} (log' : List LogEvent) (ms : List Stmt)
    (h : Gives (registerClasses .root ss) { log } cs τ)
    (hname : τ.scopes.bindingAt? head.name .root = none) :
    ∃ ds c, ∃ w : World (Law.adding head.name).lax, w.left = τ ∧
      Gives (registerClasses .root (ss ++ [.cls head ms])) { log := log' } (ds ++ [c]) w.right ∧
      (World.start (.adding head.name) log log').Advance _ w ∧ List.Forall₂ w.Registered cs ds ∧
      cs.length = (ss.filterMap Stmt.classHead?).length ∧ w.right.types.class? c ≠ none ∧
      ∀ d, ¬w.link.cls d c := by
  -- the name is free on the right, because it is free on the left
  obtain ⟨_, u, rfl, hfirst, hu, -⟩ := (mirrors_registerClasses
    (@World.level_start .exact log log').sees).strict id h (Law.clean_exact _)
  have hfree := World.Sees.bindingAt? (hu.link (Link.Start.name (n := head.name) id))
  rw [hname] at hfree
  obtain ⟨ds, v, hleft, hds, hv, hregistered, hlength⟩ := (mirrors_registerClasses
    (@World.level_start (.adding head.name) log log').sees).strict id h (Law.clean_adding hname)
  obtain ⟨-, hright⟩ := gives_unique hfirst hds
  rw [hright] at hfree
  obtain ⟨τ', hτ'⟩ := exists_registerClass v.rightOrdered (Option.Rel.eq_none hfree)
  have hnew := v.right.types.class?_nextClass
  have hdeclaring : v.right.Declaring v.Aside .root head.name :=
    World.declaring_aside ((World.tidy_start.mono hv).unlinked (hv.link .scope) rfl)
  obtain ⟨hcontinues, -, e, he, -⟩ := (leads_registerClass v.rightOrdered
    (v.registering_aside hnew) hdeclaring).gives hτ'
  -- the new class is on the right alone and leaves every link as it is
  obtain ⟨υ, hlink, hsame, rfl, hadvance⟩ :=
    World.exists_onRight (L := .adding head.name) hcontinues (.of_gives hτ')
  refine ⟨ds, v.right.types.nextClass, υ, hsame.trans hleft, ?_, hv.trans hadvance,
    hregistered.imp fun _ _ hc => hc.mono hadvance, hlength, fun hnone => ?_, fun d hd => ?_⟩
  · rw [registerClasses_concat]
    simp only [gives_bind, gives_pure]
    exact ⟨ds, _, hds, _, _, hτ', rfl, rfl⟩
  · cases he.symm.trans hnone
  · rw [hlink] at hd
    exact (v.agree hd).present.2 hnew

lemma kept_adding {name : String} (hfuncs : name ∉ Stmt.functionNames ss) :
    Thinned (Kept (.adding name) .root) (Lost (.adding name) .root) ss ss := by
  have hsame : Thinned (fun s s' => s = s') (fun _ => False) ss ss := .refl (fun _ => rfl) ss
  refine hsame.mono (fun s hs s' heq => ?_) fun _ _ h => h.elim
  subst heq
  refine ⟨s.trims_refl, ?_⟩
  rintro - func body rfl rfl
  exact hfuncs (List.mem_filterMap.mpr ⟨_, hs, rfl⟩)

/-- The classes of a program are opened on both sides, and then the class on the right. -/
lemma exists_openClasses (head : ClassHead) (init : Option Expr) (hL : ¬L.lax)
    (hfield : field.annotation = none)
    (hlevel : w.Level L .root .root) (htidy : w.Tidy L) (hsteady : ∀ s ∈ ss, s.steady = true)
    (hcs : List.Forall₂ w.Registered cs ds)
    (hlength : cs.length = (ss.filterMap Stmt.classHead?).length)
    (hthin : Thinned (Kept L .root) (Lost L .root) ss ss) (hc : w.right.types.class? c ≠ none)
    (hunlinked : ∀ d, ¬w.link.cls d c) (h : Gives (openClasses .root ss cs) w.left r τ)
    (hclean : L.Clean τ) : ∃ r' b υ, υ.left = τ ∧
      Gives (openClasses .root (ss ++ [.cls head [.var field init]]) (ds ++ [c])) w.right
        (r' ++ [opened head c b field init]) υ.right ∧ w.Advance L υ ∧
      Thinned (Opened L (fun _ _ _ s s' => s.Trims L.lax s') υ .root) (Lost L .root) r r' := by
  obtain ⟨r', v, rfl, hr', hv, hopened⟩ := (mirrors_openClasses (fieldSpec_trims L)
    (fun s _ => opensMirrored (fieldSpec_trims L) s) hlevel htidy hsteady hcs hlength
    hthin).strict hL h hclean
  have hthere := Option.ne_none_iff_exists'.mp (mt hv.right.cls hc)
  have haside := hv.unlinked hc hunlinked
  obtain ⟨b, τ', hopen, -⟩ := exists_openClass hfield v.rightOrdered hthere head init
  have hcontinues := (opensOn _ v.rightOrdered v.room_aside v.registering_aside
    (List.forall_mem_singleton.mpr ⟨hthere, haside, haside, fun _ => haside⟩)).changes_of_gives
      hopen
  obtain ⟨υ, -, hsame, rfl, hadvance⟩ := World.exists_onRight hcontinues (.of_gives hopen)
  refine ⟨r', b, υ, hsame, ?_, hv.trans hadvance,
    hopened.mono (fun _ _ _ hs => hs.mono (fieldSpec_trims L) hadvance) fun _ _ hs => hs⟩
  rw [openClasses_append .root (hcs.length_eq ▸ hlength)]
  simp only [openClasses, gives_bind, gives_pure]
  exact ⟨r', _, hr', _, _, ⟨_, _, hopen, [], _, ⟨rfl, rfl⟩, rfl, rfl⟩, rfl, rfl⟩

lemma exists_declarations {log : List LogEvent} (log' : List LogEvent) (init : Option Expr)
    (hfield : field.annotation = none) (hsteady : ∀ s ∈ ss, s.steady = true)
    (hfuncs : head.name ∉ Stmt.functionNames ss) (h : Gives (announce .root ss) { log } r τ)
    (hname : τ.scopes.bindingAt? head.name .root = none) :
    ∃ r' c b, ∃ w : World (Law.adding head.name).lax, w.left = τ ∧
      Gives (announce .root (ss ++ [.cls head [.var field init]])) { log := log' }
        (r' ++ [opened head c b field init]) w.right ∧
      (World.start (.adding head.name) log log').Advance _ w ∧
      Thinned (Ready (.adding head.name) w fun _ _ s s' => s.Trims False s')
        (Gone (.adding head.name) w .root) r r' := by
  have hclean {σ : Session} (hσ : σ.Later τ) : (Law.adding head.name).Clean σ :=
    Law.clean_adding (hσ.scopes.bindingAt?_eq_none hname)
  simp only [announce, gives_bind] at h
  obtain ⟨cs, σ1, h1, ss2, σ2, h2, _, σ3, h3, h4⟩ := h
  have l3 : σ3.Later τ := .of_gives h4
  have l2 : σ2.Later τ := (Session.Later.of_gives h3).trans l3
  -- each phase runs on the right too, with the new class at its end
  obtain ⟨ds, c, w1, rfl, hds, a1, hregistered, hlength, hc, hunlinked⟩ :=
    exists_registerClasses log' [.var field init] h1
      (((Session.Later.of_gives h2).trans l2).scopes.bindingAt?_eq_none hname)
  obtain ⟨r2, b, w2, rfl, hopen, a2, hopened⟩ := exists_openClasses head init id hfield
    (World.level_start.mono a1) (World.tidy_start.mono a1) hsteady hregistered hlength
    (kept_adding hfuncs) hc hunlinked h2 (hclean l2)
  have hnotes : Mirrors (.adding head.name) (note (.classesRegistered cs.length .root))
    (note (.classesRegistered (ds ++ [c]).length .root)) w2 fun _ _ _ => True := mirrors_note
  obtain ⟨_, w3, rfl, hnote, a3, -⟩ := hnotes.strict id h3 (hclean l3)
  have a13 := a1.trans (a2.trans a3)
  obtain ⟨r4, w4, rfl, hbind, a4, hready⟩ := (mirrors_bindFunctions (fieldSpec_trims _)
    (World.level_start.mono a13) (World.tidy_start.mono a13)
    (hopened.mono (fun _ _ _ hs => hs.mono (fieldSpec_trims _) a3) fun _ _ hs => hs)).strict id h4
      (hclean (.refl _))
  refine ⟨r4, c, b, w4, rfl, ?_, a13.trans a4, hready⟩
  simp only [announce, gives_bind]
  refine ⟨_, _, hds, _, _, hopen, _, _, hnote, ?_⟩
  rw [bindFunctions_concat rfl, gives_bind]
  exact ⟨r4, _, hbind, gives_pure.mpr ⟨rfl, rfl⟩⟩

/-! ### Variables -/

/-- A variable is declared under a name that was free. -/
lemma binds_of_var {scope : ScopeId} {head : VarHead} {r : VarHead × Option Expr}
    (h : Gives (var scope head init) σ r τ) : σ.scopes.bindingAt? head.name scope = none ∧
      ∃ t, τ.scopes.bindingAt? head.name scope = some (.ofVariable head.name t) := by
  -- declaring is the last step, whatever is known of the type
  have declares {declared : Option TypeId} {init : Option Expr} {head' : VarHead} {σ : Session}
      (h : Gives (declareVar scope head declared init) σ head' τ) :
      σ.scopes.bindingAt? head.name scope = none ∧
        ∃ t, τ.scopes.bindingAt? head.name scope = some (.ofVariable head.name t) := by
    unfold declareVar at h
    split at h <;> simp only [gives_bind, gives_types, gives_rule, gives_pure] at h
    · obtain ⟨_, _, ⟨rfl, rfl⟩, _, _, ⟨-, rfl⟩, u, _, hd, -, rfl⟩ := h
      obtain ⟨hnone, hbound⟩ := binds_of_declare (scopes_of_declare hd)
      exact ⟨hnone, _, hbound⟩
    · obtain ⟨u, _, hd, -, rfl⟩ := h
      obtain ⟨hnone, hbound⟩ := binds_of_declare (scopes_of_declare hd)
      exact ⟨hnone, _, hbound⟩
  cases init with
  | none =>
    obtain ⟨_, σ1, h1, h2, -⟩ := h.var_none
    obtain ⟨hnone, hbound⟩ := declares h2
    have hlater : σ.Later σ1 := .of_gives h1
    exact ⟨hlater.scopes.bindingAt?_eq_none hnone, hbound⟩
  | some e =>
    obtain ⟨_, σ1, h1, e', σ2, h2, h3, -⟩ := h.var_some
    obtain ⟨hnone, hbound⟩ := declares h3
    have hlater : σ.Later σ2 := (Session.Later.of_gives h1).trans (.of_gives h2)
    exact ⟨hlater.scopes.bindingAt?_eq_none hnone, hbound⟩

lemma binds_of_stmts {scope : ScopeId} {ss' : List Stmt} (h : Gives (stmts scope ss) σ ss' τ)
    (hn : n ∈ ss.filterMap Stmt.varName?) : σ.scopes.bindingAt? n scope = none ∧
      ∃ t, τ.scopes.bindingAt? n scope = some (.ofVariable n t) := by
  induction ss generalizing σ ss' with
  | nil => cases hn
  | cons s ss ih =>
    obtain ⟨s', σ1, h1, rest, h2, rfl⟩ := h.stmts_cons
    obtain ⟨s0, hs0, hname⟩ := List.mem_filterMap.mp hn
    rcases List.mem_cons.mp hs0 with rfl | hs0
    · cases s0 with
      | var head init =>
        cases hname
        obtain ⟨_, _, h1, -⟩ := h1.var
        obtain ⟨hnone, t, hbound⟩ := binds_of_var h1
        exact ⟨hnone, t, (Session.Later.of_gives h2).scopes.bindingAt? hbound⟩
      | _ => cases hname
    · obtain ⟨hnone, hbound⟩ := ih h2 (List.mem_filterMap.mpr ⟨s0, hs0, hname⟩)
      exact ⟨(Session.Later.of_gives h1).scopes.bindingAt?_eq_none hnone, hbound⟩

/-- An expression that is the name of a variable gets the type of the variable. -/
lemma gives_variable {m : Mark} {t : TypeId} (hσ : σ.Assembled)
    (h : σ.scopes.bindingAt? n .root = some (.ofVariable n t)) :
    Gives (stmt .root (.expr (.name m n))) σ (.expr (.name (m.typed t) n)) σ := by
  obtain ⟨s, hs, -⟩ := hσ.scopes.root
  have hresolve : σ.scopes.resolve .root n m.span = .ok (.ofVariable n t) := by
    rw [Scopes.resolve, Scopes.scope_eq_ok.mpr hs, Scopes.lookup_root hσ hs, h]
    rfl
  simp only [stmt, expr, nameType, gives_bind, gives_scopes, gives_rule, gives_pure]
  exact ⟨_, _, ⟨t, _, ⟨_, _, ⟨rfl, rfl⟩, _, _, ⟨hresolve, rfl⟩, rfl⟩, rfl, rfl⟩, rfl, rfl⟩

lemma binds_of_walk {r2 r3 : List Stmt} {A F : Session} (h1 : Gives (announce .root ss) σ r A)
    (h2 : Gives (r.mapM classFields) A r2 F) (h3 : Gives (stmts .root r2) F r3 τ)
    (hn : n ∈ ss.filterMap Stmt.varName?) : F.scopes.bindingAt? n .root = none ∧
      ∃ t, τ.scopes.bindingAt? n .root = some (.ofVariable n t) := by
  have herase := (erase_mapM (fun s _ => erase_classFields s) h2).trans (erase_announce h1)
  refine binds_of_stmts h3 ?_
  rwa [Stmt.filterMap_congr (fun s => by cases s <;> rfl) herase]

/-- The variables of an accepted program stand for themselves. -/
lemma variable_bound {p q : Program} (h : Gives (program p) σ q τ)
    (hn : n ∈ p.stmts.filterMap Stmt.varName?) :
    ∃ t, τ.scopes.bindingAt? n .root = some (.ofVariable n t) := by
  obtain ⟨ss1, A, h1, ss2, F, h2, ss3, G, h3, _, h4, -⟩ := h.program
  obtain ⟨-, t, hbound⟩ := binds_of_walk h1 h2 h3 hn
  exact ⟨t, (Session.Later.of_gives h4).scopes.bindingAt? hbound⟩

lemma not_gives_program {p q : Program} {m : Mark} (hfield : field.annotation = none)
    (hσ : σ.Assembled) (hn : n ∈ p.stmts.filterMap Stmt.varName?) :
    ¬Gives (program { p with stmts := p.stmts ++ [.cls head [.var field (some (.name m n))]] })
      σ q τ := by
  intro h
  obtain ⟨_, A, h1, r2, F, h2, r3, G, h3, -⟩ := h.program
  have hA := ((leads_announce hσ Session.room_all (fun _ => trivial) (fun _ => Or.inl trivial)
    Cell.free_all.declaring).changes_of_gives h1).assembled
  obtain ⟨hnone, -⟩ : F.scopes.bindingAt? n .root = none ∧ _ := by
    refine binds_of_walk h1 h2 h3 ?_
    rw [List.filterMap_append]
    exact List.mem_append_left _ hn
  obtain ⟨r, c, b, rfl, hb, hlacks⟩ := opened_of_announce hfield hσ h1
  obtain ⟨_, _, σ1, hr, hlast, rfl⟩ := gives_mapM_append.mp h2
  have hfails := fails_classFields head c m hfield
    (continues_fields hA hr).assembled ((hlacks n).fields hA hb hr)
    ((Session.Later.of_gives hlast).scopes.bindingAt?_eq_none hnone)
  obtain ⟨s, _, σ2, hs, -⟩ := gives_mapM_cons.mp hlast
  cases hfails.symm.trans (congrArg Prod.fst hs)

/-- A program with one more class is mirrored until the field of the class is declared. -/
lemma fails_adding {p q : Program} {m : Mark} {log log' : List LogEvent}
    (hfield : field.annotation = none) (hn : n ∈ p.stmts.filterMap Stmt.varName?)
    (hrun : Gives (program p) { log } q τ) (hname : τ.scopes.bindingAt? head.name .root = none) :
    Fails (program { p with stmts := p.stmts ++ [.cls head [.var field (some (.name m n))]] })
      { log := log' } (.user (.undeclared n) m.span) := by
  have hfuncs : head.name ∉ Stmt.functionNames p.stmts := by
    intro hmem
    obtain ⟨b, -, hb, -⟩ := (functions_declared hrun).2 _ hmem
    cases hname.symm.trans hb
  have hne : n ≠ head.name := by
    rintro rfl
    obtain ⟨t, hbound⟩ := variable_bound hrun hn
    cases hname.symm.trans hbound
  obtain ⟨r, A, h1, r2, F, h2, r3, G, h3, _, h4, -⟩ := hrun.program
  obtain ⟨hnone, -⟩ := binds_of_walk h1 h2 h3 hn
  have hlater : F.Later τ := (Session.Later.of_gives h3).trans (.of_gives h4)
  have hF := hlater.scopes.bindingAt?_eq_none hname
  obtain ⟨r', c, b, w, rfl, h1', a1, hready⟩ := exists_declarations log'
    (some (.name m n)) hfield (steady_of_program hrun) hfuncs h1
    ((Session.Later.of_gives h2).scopes.bindingAt?_eq_none hF)
  obtain ⟨r2', υ, rfl, h2', a2, -⟩ := (mirrors_fields (fun h => h) id (a1.full id World.full_start)
    hready).strict id h2 (Law.clean_adding hF)
  -- the name is free on the right, because it is free on the left
  have hlinked := World.Sees.bindingAt? ((a1.trans a2).link (Link.Start.name hne))
  rw [hnone] at hlinked
  obtain ⟨_, c', b', heq, hb, hlacks⟩ := opened_of_announce hfield (Session.assembled_new log') h1'
  obtain ⟨rfl, hlast⟩ := List.append_inj' heq rfl
  cases hlast
  exact fails_program h1' h2' hfield υ.rightOrdered ((hlacks n).fields w.rightOrdered hb h2')
    (Option.Rel.eq_none hlinked)

/-- Where the log begins does not matter: a program that is accepted is accepted with another
beginning, and its variables are declared as before. -/
lemma exists_program {p q : Program} {log : List LogEvent} (log' : List LogEvent) {t : TypeId}
    (h : Gives (program p) { log } q τ)
    (hbound : τ.scopes.bindingAt? n .root = some (.ofVariable n t)) :
    ∃ q' τ' t', Gives (program p) { log := log' } q' τ' ∧ τ'.Assembled ∧
      τ'.scopes.bindingAt? n .root = some (.ofVariable n t') := by
  obtain ⟨q', υ, rfl, h', hυ, -⟩ := (mirrors_program (w := World.start .exact log log')
    (fieldSpec_trims _) (fun h => h) id World.full_start World.level_start World.tidy_start
    (steady_of_program h) (Thinned.refl (fun s => ⟨s.trims_refl, fun _ _ _ _ h => h⟩)
      p.stmts)).strict id h (Law.clean_exact _)
  obtain ⟨b', hb', hlinked⟩ := Option.Rel.exists_of_some
    (World.Sees.bindingAt? (hυ.link (Link.Start.name (n := n) id))) hbound
  refine ⟨q', υ.right, b'.type, h', υ.rightOrdered, hb'.trans (congrArg some ?_)⟩
  obtain ⟨name, kind, type, builtin⟩ := b'
  cases hlinked.name
  cases hlinked.builtin
  cases hlinked.kind
  rfl

/-- The name of a variable may stand at the end of a program. -/
lemma gives_program_concat {p q : Program} {m : Mark} {t : TypeId} (h : Gives (program p) σ q τ)
    (hτ : τ.Assembled) (hbound : τ.scopes.bindingAt? n .root = some (.ofVariable n t)) :
    ∃ before τ', Gives (program { p with stmts := p.stmts ++ [.expr (.name m n)] }) σ
      { p with stmts := before ++ [.expr (.name (m.typed t) n)] } τ' ∧ τ'.scopes = τ.scopes := by
  obtain ⟨ss1, A, h1, ss2, F, h2, ss3, G, h3, _, h4, -⟩ := h.program
  obtain rfl := gives_note.mp h4
  have hG : G.Assembled := ⟨hτ.types, hτ.scopes, hτ.bodies, hτ.members⟩
  rw [program_concat rfl]
  simp only [gives_bind, gives_note, gives_pure]
  have hlast := gives_variable (m := m) hG hbound
  exact ⟨ss3, _, ⟨ss1, A, h1, ss2, F, h2, ss3, G, h3, _, _, hlast, (), _, rfl, rfl, rfl⟩, rfl⟩

end Check

/-- **Fields are declared before variables.** Take an accepted program with a variable at its top
level, and put a class after it whose field starts with the value of the variable. The program is
then not accepted any more: unless the name of the class is taken, the name of the variable is found
not to be declared. An expression at the same place may use the variable, and gets its type. -/
theorem fields_precede_variables {p q : Program} {a : Analysis} (h : analyze p = .ok (q, a))
    {v : VarHead} {init : Option Expr} (hv : .var v init ∈ p.stmts) (head : ClassHead)
    {field : VarHead} (hfield : field.annotation = none) (m : Mark) :
    (∀ r, analyze { p with
      stmts := p.stmts ++ [.cls head [.var field (some (.name m v.name))]] } ≠ .ok r) ∧
    (a.scopes.bindingAt? head.name .root = none → analyze { p with
      stmts := p.stmts ++ [.cls head [.var field (some (.name m v.name))]] } =
        .error (.user (.undeclared v.name) m.span)) ∧
    ∃ q' a' before t,
      analyze { p with stmts := p.stmts ++ [.expr (.name m v.name)] } = .ok (q', a') ∧
      q'.stmts = before ++ [.expr (.name (m.typed t) v.name)] ∧
      a'.scopes.bindingAt? v.name .root = some (.ofVariable v.name t) := by
  obtain ⟨Ω, hrun, rfl⟩ := analyze_eq_ok.mp h
  have hn : v.name ∈ p.stmts.filterMap Stmt.varName? := List.mem_filterMap.mpr ⟨_, hv, rfl⟩
  refine ⟨?_, fun hname => analyze_eq_error.mpr (Check.fails_adding hfield hn hrun hname), ?_⟩
  · rintro ⟨q', a'⟩ hr
    obtain ⟨_, hrun', -⟩ := analyze_eq_ok.mp hr
    exact Check.not_gives_program hfield (Session.assembled_new _) hn hrun'
  · obtain ⟨t, hbound⟩ := Check.variable_bound hrun hn
    obtain ⟨_, τ, t', hrun', hτ, hbound'⟩ := Check.exists_program
      [.analyzing (p.stmts ++ [Stmt.expr (.name m v.name)]).length] hrun hbound
    obtain ⟨before, τ', hlast, hscopes⟩ := Check.gives_program_concat (m := m) hrun' hτ hbound'
    refine ⟨_, τ'.analysis, before, t', analyze_eq_ok.mpr ⟨τ', hlast, rfl⟩, rfl, ?_⟩
    exact (congrArg (·.bindingAt? v.name .root) hscopes).trans hbound'

/-- A field does not see the variable `x` that is declared before its class. -/
theorem field_misses_variable :
    (∃ r, analyze { stmts := [.var { name := "x" } (some (.number {} 1))] } = .ok r) ∧
    ∀ r, analyze { stmts := [.var { name := "x" } (some (.number {} 1)),
      .cls { name := "C" } [.var { name := "f" } (some (.name {} "x"))]] } ≠ .ok r := by
  refine ⟨⟨_, rfl⟩, fun r h => ?_⟩
  have hfails : analyze { stmts := [.var { name := "x" } (some (.number {} 1)),
      .cls { name := "C" } [.var { name := "f" } (some (.name {} "x"))]] } =
      .error (.user (.undeclared "x") {}) := Fault.of?_eq_some (by decide +kernel)
  cases hfails.symm.trans h

/-- A class with a field, and a variable that starts with the field of an object. -/
def poured : Program where
  stmts := [.cls { name := "Cup" } [.var { name := "size" } (some (.number {} 3))],
    .var { name := "total" } (some (.member {} (.call {} (.name {} "Cup") [] none) "size"))]

/-- After `poured`, the field of a new class cannot start with `total`; an expression can be it. -/
theorem fields_precede_variables_poured : ∃ q a, analyze poured = .ok (q, a) ∧
    a.scopes.bindingAt? "Tray" .root = none ∧
    analyze { poured with
      stmts := poured.stmts ++ [.cls { name := "Tray" } [.var { name := "load" }
        (some (.name {} "total"))]] } = .error (.user (.undeclared "total") {}) ∧
    ∃ q' a', analyze { poured with stmts := poured.stmts ++ [.expr (.name {} "total")] } =
      .ok (q', a') := by
  have hfree : (analyze poured).toOption.map (·.2.scopes.bindingAt? "Tray" .root) = some none := by
    decide +kernel
  obtain ⟨⟨q, a⟩, h, hfree⟩ := Except.exists_ok_of_map hfree
  have hv : .var { name := "total" }
      (some (.member {} (.call {} (.name {} "Cup") [] none) "size")) ∈ poured.stmts :=
    .tail _ (.head _)
  have hfield : VarHead.annotation { name := "load" } = none := rfl
  obtain ⟨-, hfails, q', a', _, _, haccepts, -⟩ :=
    fields_precede_variables h hv { name := "Tray" } hfield {}
  exact ⟨q, a, h, hfree, hfails hfree, q', a', haccepts⟩

end MiddleEnd
