import MiddleEnd.Proofs.Check.Covered

/-!
Overloaded constructors. The check that no two constructors of a class clash passes exactly if no
arguments of known types are taken by two of them; and the analysis makes it for every class, when
all its constructors are known.
-/

namespace MiddleEnd

variable {t u : TypeTable}

/-! ### Types that take a common argument -/

namespace TypeTable

variable {a b p q : TypeId}

lemma WellFormed.registered_of_sameType (ht : t.WellFormed) (ha : t.Registered a)
    (h : t.sameType a b = true) : t.Registered b := by
  by_contra hb
  have hform : t.form? b = none := by
    cases hf : t.form? b with
    | none => rfl
    | some f => exact absurd ⟨f, hf⟩ hb
  have hstruct : t.isStructural b = false := by rw [isStructural, hform]; rfl
  obtain ⟨x, hx⟩ := ht.exists_unfolds ha
  unfold sameType at h
  split at h
  · -- the first is an array or a dictionary, and the text of the other is that of no type
    rename_i hor
    rw [hstruct, Bool.or_false] at hor
    have hshape : t.shape b = .unknown b := by rw [shape, unfold, hform]
    have htext : (t.shape a).signature = (Shape.unknown b).signature := by
      rw [← hshape]
      exact of_decide_eq_true h
    have hend := Shape.ending_eq (a := t.shape a) (b := .unknown b)
      (Or.inl (by rw [Shape.letters, Shape.letters, htext]))
    rw [hx.shape_eq ht] at hend
    cases hx with
    | leaf hf hn =>
      rw [isStructural, hf] at hor
      simp [TypeForm.isNominal] at hn
      simp [hn] at hor
    | array => simp [TypeTree.shape, Shape.ending] at hend
    | dictionary => simp [TypeTree.shape, Shape.ending] at hend
  · -- otherwise the two are compared as they are
    obtain rfl : a = b := of_decide_eq_true h
    exact hb ha

/-- Some value of a known type may be put in place of either of two types that overlap. -/
lemma WellFormed.exists_assignable (ht : t.WellFormed) (hp : t.Registered p) (hq : t.Registered q)
    (h : t.overlap p q = true) : ∃ a, t.Registered a ∧ a ≠ .any ∧
      t.assignable p a = true ∧ t.assignable q a = true := by
  have heq := ht.sameType_equivalence
  by_cases hpany : p = .any
  · by_cases hqany : q = .any
    · -- nothing is known of either, and any type will do
      exact ⟨.number, ⟨.number, rfl⟩, by decide, by simp [assignable, hpany, TypeId.isAny],
        by simp [assignable, hqany, TypeId.isAny]⟩
    · exact ⟨q, hq, hqany, by simp [assignable, hpany, TypeId.isAny],
        by simp [assignable, heq.refl ⟨q, hq⟩]⟩
  · refine ⟨p, hp, hpany, by simp [assignable, heq.refl ⟨p, hp⟩], ?_⟩
    by_cases hqany : q = .any
    · simp [assignable, hqany, TypeId.isAny]
    · have hsame : t.sameType p q = true := by
        simpa [overlap, TypeId.isAny, hpany, hqany] using h
      simp [assignable, heq.symm (x := ⟨p, hp⟩) (y := ⟨q, hq⟩) hsame]

/-- Types overlap that both take a value of which something is known. -/
lemma WellFormed.overlap_of_assignable (ht : t.WellFormed) (hp : t.Registered p)
    (hq : t.Registered q) (hany : a ≠ .any) (hpa : t.assignable p a = true)
    (hqa : t.assignable q a = true) : t.overlap p q = true := by
  by_cases hpany : p = .any
  · simp [overlap, hpany, TypeId.isAny]
  by_cases hqany : q = .any
  · simp [overlap, hqany, TypeId.isAny]
  have hpa' : t.sameType p a = true := by simpa [assignable, TypeId.isAny, hpany, hany] using hpa
  have hqa' : t.sameType q a = true := by simpa [assignable, TypeId.isAny, hqany, hany] using hqa
  have ha := ht.registered_of_sameType hp hpa'
  have heq := ht.sameType_equivalence
  have hsame : t.sameType p q = true :=
    heq.trans (x := ⟨p, hp⟩) (y := ⟨a, ha⟩) (z := ⟨q, hq⟩) hpa'
      (heq.symm (x := ⟨q, hq⟩) (y := ⟨a, ha⟩) hqa')
  simp [overlap, hsame]

end TypeTable

/-! ### Constructors that take the same arguments -/

namespace Rule

variable {args : List Expr} {params ps qs : List TypeId} {span : Span} {k k' : Constructor}
  {ks : List Constructor}

/-- Arguments of known types that two lists of parameters take which overlap everywhere. -/
lemma exists_arguments (ht : t.WellFormed) (hps : ∀ p ∈ ps, t.Registered p)
    (hqs : ∀ q ∈ qs, t.Registered q)
    (h : List.Forall₂ (fun p q => t.overlap p q = true) ps qs) :
    ∃ args : List Expr, (∀ a ∈ args, t.Registered a.type ∧ a.type ≠ .any) ∧
      t.Accepts ps args ∧ t.Accepts qs args := by
  induction h with
  | nil => exact ⟨[], nofun, .nil, .nil⟩
  | cons hpq _ ih =>
    rw [List.forall_mem_cons] at hps hqs
    obtain ⟨a, ha, hany, hpa, hqa⟩ := ht.exists_assignable hps.1 hqs.1 hpq
    obtain ⟨args, hargs, hp, hq⟩ := ih hps.2 hqs.2
    refine ⟨.null { type := some a } :: args, ?_, .cons hpa hp, .cons hqa hq⟩
    exact List.forall_mem_cons.mpr ⟨⟨ha, hany⟩, hargs⟩

lemma overlap_of_accepts (ht : t.WellFormed) (hps : ∀ p ∈ ps, t.Registered p)
    (hqs : ∀ q ∈ qs, t.Registered q) (hargs : ∀ a ∈ args, a.type ≠ .any)
    (hp : t.Accepts ps args) (hq : t.Accepts qs args) :
    List.Forall₂ (fun p q => t.overlap p q = true) ps qs := by
  induction hp generalizing qs with
  | nil =>
    cases hq
    exact .nil
  | cons hpa _ ih =>
    cases hq with
    | cons hqa hq =>
      rw [List.forall_mem_cons] at hps hqs hargs
      exact .cons (ht.overlap_of_assignable hps.1 hqs.1 hargs.1 hpa hqa)
        (ih hps.2 hqs.2 hargs.2 hq)

/-- Where no two constructors clash, arguments of which something is known are taken by one at
most. -/
lemma index_unique {i j : ℕ} (ht : t.WellFormed)
    (hknown : ∀ k ∈ ks, ∀ p ∈ k.params, t.Registered p)
    (hks : ks.Pairwise fun k k' => Rule.clash t k k' = false) (hargs : ∀ a ∈ args, a.type ≠ .any)
    (hi : ks[i]? = some k) (hj : ks[j]? = some k') (hk : t.Accepts k.params args)
    (hk' : t.Accepts k'.params args) : i = j := by
  -- of two different places one comes first, and the constructors there clash
  have absurd_of_lt {i j : ℕ} {k k' : Constructor} (hi : ks[i]? = some k) (hj : ks[j]? = some k')
      (hk : t.Accepts k.params args) (hk' : t.Accepts k'.params args) (hij : i < j) : False := by
    obtain ⟨hilt, rfl⟩ := List.getElem?_eq_some_iff.mp hi
    obtain ⟨hjlt, rfl⟩ := List.getElem?_eq_some_iff.mp hj
    have hfree := List.pairwise_iff_getElem.mp hks i j hilt hjlt hij
    rw [clash_iff.mpr (overlap_of_accepts ht (hknown _ (List.getElem_mem hilt))
      (hknown _ (List.getElem_mem hjlt)) hargs hk hk')] at hfree
    cases hfree
  rcases Nat.lt_trichotomy i j with hij | rfl | hji
  · exact (absurd_of_lt hi hj hk hk' hij).elim
  · rfl
  · exact (absurd_of_lt hj hi hk' hk hji).elim

/-- Constructors that are known clash as before when there are more types. -/
lemma clash_mono (ht : t.WellFormed) (hu : u.WellFormed) (h : t.forms <+: u.forms)
    (hk : ∀ p ∈ k.params, t.Registered p) (hk' : ∀ p ∈ k'.params, t.Registered p) :
    Rule.clash u k k' = Rule.clash t k k' := by
  rw [Rule.clash, Rule.clash]
  congr 1
  rw [Bool.eq_iff_iff, List.all_eq_true, List.all_eq_true]
  refine forall₂_congr fun pq hpq => ?_
  obtain ⟨p, q⟩ := pq
  obtain ⟨hp, hq⟩ := List.of_mem_zip hpq
  show u.overlap p q = true ↔ t.overlap p q = true
  rw [TypeTable.overlap, TypeTable.overlap, ht.sameType_mono hu h (hk p hp) (hk' q hq)]

/-- **The check is exact**: it passes if and only if arguments of known types are taken by one
constructor of the class at most. -/
lemma constructorsDiffer_iff {c : ClassId} {e : ClassEntry} (ht : t.Assembled)
    (he : t.class? c = some e) : Rule.constructorsDiffer t e = .ok () ↔
      ∀ (args : List Expr) (span : Span), (∀ a ∈ args, t.Registered a.type ∧ a.type ≠ .any) →
        ∀ (i j : ℕ) (k k' : Constructor), e.constructors[i]? = some k →
          e.constructors[j]? = some k' → Rule.arguments t args k.params span = .ok () →
          Rule.arguments t args k'.params span = .ok () → i = j := by
  have hknown := (ht.known he).constructors
  rw [Rule.constructorsDiffer, clashFree_eq_ok]
  constructor
  · intro hks args span hargs i j k k' hi hj hk hk'
    exact index_unique ht.wellFormed hknown hks (fun a ha => (hargs a ha).2) hi hj
      (arguments_eq_ok.mp hk) (arguments_eq_ok.mp hk')
  · intro h
    refine List.pairwise_iff_getElem.mpr fun i j hi hj hij => ?_
    by_contra hclash
    rw [Bool.not_eq_false] at hclash
    obtain ⟨args, hargs, hk, hk'⟩ := exists_arguments ht.wellFormed (hknown _ (List.getElem_mem hi))
      (hknown _ (List.getElem_mem hj)) (clash_iff.mp hclash)
    have := h args {} hargs i j _ _ (List.getElem?_eq_getElem hi) (List.getElem?_eq_getElem hj)
      (arguments_eq_ok.mpr hk) (arguments_eq_ok.mpr hk')
    omega

end Rule

/-! ### The classes of a program -/

namespace Session

variable {A σ τ : Session}

/-- No two constructors of the class clash. -/
def Sorted (σ : Session) (c : ClassId) : Prop :=
  ∃ e, σ.types.class? c = some e ∧ Rule.constructorsDiffer σ.types e = .ok ()

structure Closed (σ : Session) (c : ClassId) : Prop where
  sorted : σ.Sorted c
  finalized : ∀ {e}, σ.types.class? c = some e → e.finalized = true

/-- What may change when the declarations of a session are known: all but its classes, their
constructors and their bodies. -/
def Declared (A : Session) : Cell → Prop
  | .cls _ => False
  | .constructors c | .body c => A.types.class? c = none
  | _ => True

lemma free_declared : Cell.Free A.Declared :=
  ⟨fun _ _ => trivial, fun _ _ => trivial, fun _ => trivial⟩

lemma Continues.room_declared (h : A.Continues A.Declared σ) : σ.Room A.Declared :=
  (free_declared.room id id : A.Room A.Declared).mono h

/-- Types are compared as before when the session has gone on, so constructors that differ still
do. -/
lemma Sorted.mono {c : ClassId} (h : σ.Sorted c) (hσ : A.Continues A.Declared σ)
    (hτ : σ.Continues A.Declared τ) : τ.Sorted c := by
  obtain ⟨e, he, hdiffer⟩ := h
  obtain ⟨e', he', hkeeps⟩ := hτ.cls he
  have hctors : e'.constructors = e.constructors := hkeeps.constructors fun hnone => by
    obtain ⟨e0, he0⟩ := hσ.known id he
    cases hnone.symm.trans he0
  refine ⟨e', he', ?_⟩
  rw [Rule.constructorsDiffer, Rule.clashFree_eq_ok] at hdiffer ⊢
  rw [hctors]
  refine hdiffer.imp_of_mem fun {k k'} hk hk' hclash => ?_
  have hknown := (hσ.assembled.types.known he).constructors
  rw [← hclash]
  exact Rule.clash_mono hσ.assembled.types.wellFormed hτ.assembled.types.wellFormed hτ.forms
    (hknown k hk) (hknown k' hk')

lemma Closed.mono {c : ClassId} (h : σ.Closed c) (hσ : A.Continues A.Declared σ)
    (hτ : σ.Continues A.Declared τ) : τ.Closed c where
  sorted := h.sorted.mono hσ hτ
  finalized he' := by
    obtain ⟨e, he, -⟩ := h.sorted
    obtain ⟨e'', he'', hkeeps⟩ := hτ.cls he
    cases he'.symm.trans he''
    exact hkeeps.finalized (h.finalized he)

end Session

namespace Check

variable {A σ τ : Session} {scope : ScopeId}

lemma gives_closeClass {head head' : ClassHead} {c : ClassId} {body : ScopeId}
    (h : Gives (closeClass head c body) σ head' τ) : τ.Closed c := by
  unfold closeClass at h
  simp only [gives_bind, gives_scopes, gives_rule, gives_types, gives_classEntry, gives_changeClass,
    gives_pure] at h
  obtain ⟨_, _, -, s, _, -, _, σ1, ⟨-, rfl⟩, _, _, ⟨rfl, rfl⟩, e, _, ⟨he, rfl⟩, _, _,
    ⟨hdiffer, rfl⟩, -, rfl⟩ := h
  refine ⟨⟨e, he, hdiffer⟩, fun {e'} he' => ?_⟩
  rw [TypeTable.class?_updateClass, if_pos rfl] at he'
  obtain ⟨_, -, rfl⟩ := Option.map_eq_some_iff.mp he'
  rfl

lemma continues_stmt {s s' : Stmt} (hσ : A.Continues A.Declared σ)
    (h : Gives (stmt scope s) σ s' τ) : σ.Continues A.Declared τ :=
  have hfree : Cell.Free A.Declared := Session.free_declared
  (stmtLeads s hσ.assembled hσ.room_declared hfree.opens.returning (fun n _ => hfree.declaring n)
    (hfree.claims s)).changes_of_gives h

/-- The walk through a statement closes the classes in it. -/
def WalkCloses (A : Session) (s : Stmt) : Prop :=
  ∀ {scope σ s' τ}, A.Continues A.Declared σ → Gives (stmt scope s) σ s' τ →
    ∀ c ∈ Stmt.classIds [s], τ.Closed c

lemma closed_members {ms ms' : List Stmt} (hms : ∀ s ∈ ms, WalkCloses A s)
    (hσ : A.Continues A.Declared σ) (h : Gives (members scope ms) σ ms' τ) :
    σ.Continues A.Declared τ ∧ ∀ c ∈ Stmt.classIds ms, τ.Closed c := by
  induction ms generalizing σ ms' with
  | nil =>
    rw [members, gives_pure] at h
    obtain ⟨-, rfl⟩ := h
    exact ⟨hσ.assembled.stay, List.forall_mem_nil _⟩
  | cons s ms ih =>
    rw [List.forall_mem_cons] at hms
    rw [Stmt.classIds_cons, List.forall_mem_append]
    by_cases hvar : s.isVar = true
    · -- fields have been looked at before
      obtain ⟨head, init, rfl⟩ := Stmt.isVar_iff.mp hvar
      obtain ⟨rest, h1, -⟩ := h.members_var
      obtain ⟨hτ, hrest⟩ := ih hms.2 hσ h1
      exact ⟨hτ, List.forall_mem_nil _, hrest⟩
    · obtain ⟨s', σ1, h1, rest, h2, -⟩ := h.members_cons (Bool.eq_false_iff.mpr hvar)
      have hσ1 := continues_stmt hσ h1
      obtain ⟨hτ, hrest⟩ := ih hms.2 (hσ.trans hσ1) h2
      exact ⟨hσ1.trans hτ, fun c hc => (hms.1 hσ h1 c hc).mono (hσ.trans hσ1) hτ, hrest⟩

lemma walkCloses (A : Session) (s : Stmt) : WalkCloses A s := by
  induction s using Stmt.members_induction with
  | other s hs =>
    intro scope σ s' τ _ _
    simp [Stmt.classIds, Stmt.classesList, Stmt.classes_of_not_isClass hs]
  | cls head ms ih =>
    intro scope σ s' τ hσ h
    have hτ := continues_stmt hσ h
    obtain ⟨c, hc, body, -, _, σ1, h1, ms', σ2, h2, head', h3, -⟩ := h.cls
    have hσ1 := hσ.trans ((leads_note hσ.assembled).changes_of_gives h1)
    obtain ⟨hσ2, hms⟩ := closed_members ih hσ1 h2
    have hfree : Cell.Free A.Declared := Session.free_declared
    have hσ3 := (leads_closeClass hσ2.assembled
      fun n => Or.inl (hfree.member c n)).changes_of_gives h3
    rw [Stmt.classIds_cls, hc, List.forall_mem_append]
    refine ⟨?_, fun d hd => (hms d hd).mono (hσ1.trans hσ2) hσ3⟩
    rw [Option.toList_some, List.forall_mem_singleton]
    exact gives_closeClass h3

lemma closed_stmts {ss ss' : List Stmt} (hσ : A.Continues A.Declared σ)
    (h : Gives (stmts scope ss) σ ss' τ) :
    σ.Continues A.Declared τ ∧ ∀ c ∈ Stmt.classIds ss, τ.Closed c := by
  induction ss generalizing σ ss' with
  | nil =>
    rw [stmts, gives_pure] at h
    obtain ⟨-, rfl⟩ := h
    exact ⟨hσ.assembled.stay, List.forall_mem_nil _⟩
  | cons s ss ih =>
    obtain ⟨s', σ1, h1, rest, h2, -⟩ := h.stmts_cons
    have hσ1 := continues_stmt hσ h1
    obtain ⟨hτ, hrest⟩ := ih (hσ.trans hσ1) h2
    rw [Stmt.classIds_cons, List.forall_mem_append]
    exact ⟨hσ1.trans hτ, fun c hc => (walkCloses A s hσ h1 c hc).mono (hσ.trans hσ1) hτ, hrest⟩

/-- When a program has been accepted, all classes have been closed. -/
lemma closed_program {p q : Program} {log : List LogEvent} (h : Gives (program p) { log } q τ) :
    τ.Assembled ∧ ∀ c e, τ.types.class? c = some e → τ.Closed c := by
  obtain ⟨ss1, A, h1, ss2, F, h2, ss3, σ3, h3, _, h4, -⟩ := h.program
  obtain ⟨hA, hcovers⟩ := covers_announce (Session.assembled_new log) h1
  have hfree : Cell.Free A.Declared := Session.free_declared
  have hF := (leads_fields hfree hA hA.stay.room_declared).changes_of_gives h2
  obtain ⟨hσ3, hclosed⟩ := closed_stmts hF h3
  have hτ := (leads_note (Φ := A.Declared) hσ3.assembled).changes_of_gives h4
  refine ⟨hτ.assembled, fun c e he => ?_⟩
  obtain ⟨e0, he0⟩ := (hF.trans (hσ3.trans hτ)).known id he
  rcases hcovers c e0 he0 with ⟨_, hnone⟩ | hc
  · cases hnone
  · rw [← classIds_fields h2] at hc
    exact (hclosed c hc).mono (hF.trans hσ3) hτ

/-- When a program has been accepted, the constructors of all classes differ. -/
lemma sorted_program {p q : Program} {log : List LogEvent} (h : Gives (program p) { log } q τ) :
    τ.Assembled ∧ ∀ c e, τ.types.class? c = some e → τ.Sorted c := by
  obtain ⟨hτ, hclosed⟩ := closed_program h
  exact ⟨hτ, fun c e he => (hclosed c e he).sorted⟩

end Check

/-- **Overloads are told apart**: in every table that the analysis can come to, the check on the
constructors of a class passes if and only if arguments of known types are taken by one of them at
most. So each new instance in an accepted program, of a class that declares constructors, fits
exactly one of them, as long as something is known of all its arguments. -/
theorem constructorsDiffer_exact :
    (∀ (t : TypeTable) (c : ClassId) (e : ClassEntry), t.Assembled → t.class? c = some e →
      (Rule.constructorsDiffer t e = .ok () ↔
        ∀ (args : List Expr) (span : Span), (∀ a ∈ args, t.Registered a.type ∧ a.type ≠ .any) →
          ∀ (i j : ℕ) (k k' : Constructor), e.constructors[i]? = some k →
            e.constructors[j]? = some k' → Rule.arguments t args k.params span = .ok () →
            Rule.arguments t args k'.params span = .ok () → i = j)) ∧
    (∀ σ : Session, σ.Used → σ.types.Assembled) ∧
    ∀ (p q : Program) (a : Analysis), analyze p = .ok (q, a) →
      ∀ (m : Mark) (f : Expr) (args : List Expr) (c : ClassId),
        Node.expr (.call m f args (some (.instantiate c))) ∈ q.nodes →
        ∃ e, a.types.class? c = some e ∧ (e.constructors ≠ [] → (∀ x ∈ args, x.type ≠ .any) →
          ∃! i : ℕ, ∃ k : Constructor, e.constructors[i]? = some k ∧
            ∀ span, Rule.arguments a.types args k.params span = .ok ()) := by
  refine ⟨fun t c e ht he => Rule.constructorsDiffer_iff ht he, fun σ hσ => hσ.assembled.types, ?_⟩
  intro p q a h m f args c hmem
  obtain ⟨Ω, hrun, rfl⟩ := analyze_eq_ok.mp h
  obtain ⟨hΩ, hsorted⟩ := Check.sorted_program hrun
  obtain ⟨-, t, -, _, ⟨rfl⟩, e, he, -, params, hparams, haccepts⟩ :=
    Check.settled_program (Session.consistent_start _) hrun _ hmem
  refine ⟨e, he, fun hne hargs => ?_⟩
  have hmem : params ∈ e.constructors.map (·.params) := by
    simpa [ClassEntry.overloads, hne] using hparams
  obtain ⟨k, hk, rfl⟩ := List.mem_map.mp hmem
  obtain ⟨i, hi⟩ := List.getElem?_of_mem hk
  refine ⟨i, ⟨k, hi, fun span => Rule.arguments_eq_ok.mpr haccepts⟩, ?_⟩
  -- no second constructor takes the arguments, since those of the class do not clash
  rintro j ⟨k', hj, hk'⟩
  obtain ⟨e', he', hdiffer⟩ := hsorted c e he
  cases he.symm.trans he'
  exact Rule.index_unique hΩ.types.wellFormed (hΩ.types.known he).constructors
    (Rule.clashFree_eq_ok.mp hdiffer) hargs hj hi (Rule.arguments_eq_ok.mp (hk' {})) haccepts

/-- A class with constructors that take the same arguments only where nothing is known of them, and
a new instance of it. -/
def overloaded : Program where
  stmts :=
    [.cls { name := "Box" }
      [.ctor { name := "Box", params :=
          [{ name := "n", annotation := some (.named "Number" {}) },
            { name := "b", annotation := some (.array (.named "Box" {})) }] } [],
        .ctor { name := "Box", params :=
          [{ name := "n" }, { name := "s", annotation := some (.named "String" {}) }] } []],
      .expr (.call {} (.name {} "Box")
        [.number {} 1, .array {} [.call {} (.name {} "Box") [.null {}, .string {} "s"] none]]
        none)]

def CallTarget.made? : CallTarget → Option ClassId
  | .instantiate c => some c
  | _ => none

def Expr.made? : Expr → Option (ClassId × List Expr)
  | .call _ _ args target => (target.bind CallTarget.made?).map fun c => (c, args)
  | _ => none

def Node.made? : Node → Option (ClassId × List Expr)
  | .expr e => e.made?
  | _ => none

lemma Node.made?_eq_some {n : Node} {c : ClassId} {args : List Expr}
    (h : n.made? = some (c, args)) :
    ∃ m f, n = .expr (.call m f args (some (.instantiate c))) := by
  cases n with
  | expr e =>
    cases e with
    | call m f args' target =>
      obtain ⟨c', htarget, heq⟩ := Option.map_eq_some_iff.mp h
      cases heq
      obtain ⟨g, rfl, hg⟩ := Option.bind_eq_some_iff.mp htarget
      cases g with
      | instantiate c' =>
        cases hg
        exact ⟨m, f, rfl⟩
      | _ => cases hg
    | _ => cases h
  | _ => cases h

/-- The two constructors clash at the first place only. -/
def clashing : TypeTable :=
  ((({} : TypeTable).addClass "Box").addConstructor ⟨0⟩
    { params := [.number, .any], span := {} }).addConstructor ⟨0⟩
    { params := [.any, .string], span := {} }

/-- Both new instances in `overloaded` fit one constructor of two, and the constructors in
`clashing` take common arguments. -/
theorem constructorsDiffer_exact_overloaded :
    (∃ q a m f args c e, analyze overloaded = .ok (q, a) ∧
      Node.expr (.call m f args (some (.instantiate c))) ∈ q.nodes ∧ args.length = 2 ∧
      a.types.class? c = some e ∧ e.constructors.length = 2 ∧
      ∃! i : ℕ, ∃ k : Constructor, e.constructors[i]? = some k ∧
        ∀ span, Rule.arguments a.types args k.params span = .ok ()) ∧
    ∃ e, clashing.class? ⟨0⟩ = some e ∧
      ¬∀ (args : List Expr) (span : Span),
        (∀ a ∈ args, clashing.Registered a.type ∧ a.type ≠ .any) →
        ∀ (i j : ℕ) (k k' : Constructor), e.constructors[i]? = some k →
          e.constructors[j]? = some k' → Rule.arguments clashing args k.params span = .ok () →
          Rule.arguments clashing args k'.params span = .ok () → i = j := by
  obtain ⟨hexact, -, hprograms⟩ := constructorsDiffer_exact
  constructor
  · have haccepted : (analyze overloaded).toOption.any (fun r => r.1.nodes.any fun n =>
        n.made?.any fun i => i.2.length = 2 && i.2.all (·.type ≠ .any) &&
          (r.2.types.class? i.1).any (·.constructors.length = 2)) = true := by decide +kernel
    cases h : analyze overloaded with
    | error f => simp [h, Except.toOption] at haccepted
    | ok r =>
      obtain ⟨q, a⟩ := r
      rw [h] at haccepted
      obtain ⟨n, hn, hnode⟩ := List.any_eq_true.mp haccepted
      obtain ⟨⟨c, args⟩, hmade, hcheck⟩ := (Option.any_eq_true _ _).mp hnode
      obtain ⟨m, f, rfl⟩ := Node.made?_eq_some hmade
      simp only [Bool.and_eq_true, decide_eq_true_iff, List.all_eq_true] at hcheck
      obtain ⟨⟨hlength, hargs⟩, hctors⟩ := hcheck
      obtain ⟨e, he, hunique⟩ := hprograms overloaded q a h m f args c hn
      rw [he] at hctors
      have htwo : e.constructors.length = 2 := by simpa using hctors
      refine ⟨q, a, m, f, args, c, e, rfl, hn, hlength, he, htwo, hunique ?_ hargs⟩
      exact List.ne_nil_of_length_eq_add_one htwo
  · have hpair {t : TypeTable} {p q : TypeId} (hp : t.Registered p) (hq : t.Registered q) :
        ∀ r ∈ [p, q], t.Registered r := by simp [hp, hq]
    have hassembled : clashing.Assembled :=
      .addConstructor (.addConstructor (.addClass .empty _) _ (hpair ⟨_, rfl⟩ ⟨_, rfl⟩)) _
        (hpair ⟨_, rfl⟩ ⟨_, rfl⟩)
    cases he : clashing.class? ⟨0⟩ with
    | none => exact absurd he (by decide)
    | some e =>
      refine ⟨e, rfl, fun hunique => ?_⟩
      have hok := (hexact clashing ⟨0⟩ e hassembled he).mpr hunique
      have hfails : (clashing.class? ⟨0⟩).all
          (fun e => (Rule.constructorsDiffer clashing e).toOption = none) = true := by
        decide +kernel
      simp [he, hok, Except.toOption] at hfails

end MiddleEnd
