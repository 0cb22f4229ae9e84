import MiddleEnd.Proofs.Check.Growth
import MiddleEnd.Proofs.Check.Recheck

/-!
What holds where a rule has passed, in terms of the second look at a program; and that it still
holds when the table has got more types.
-/

namespace MiddleEnd

variable {t u : TypeTable} {e : Expr} {span : Span} {v : Unit}

lemma TypeId.isAny_iff {id : TypeId} : id.isAny = true ↔ id = .any := by simp [isAny]

/-- The type that some have in common is one of theirs or unknown. -/
lemma TypeTable.registered_common {ts : List TypeId} (h : ∀ id ∈ ts, t.Registered id) :
    t.Registered (.common ts) := by
  cases ts with
  | nil => exact ⟨.any, rfl⟩
  | cons id rest =>
    rw [TypeId.common]
    split
    · exact h id List.mem_cons_self
    · exact ⟨.any, rfl⟩

namespace Rule

lemma isCondition_of_boolean {role : String} (h : Rule.boolean e role = .ok v) : e.IsCondition := by
  have := ensure_eq_ok.mp h
  simpa [Expr.IsCondition, TypeId.isAny] using this

lemma type_of_number {cause : Cause} (h : Rule.number e cause = .ok v) :
    e.type = .number ∨ e.type = .any := by
  have := ensure_eq_ok.mp h
  simpa [TypeId.isAny] using this

lemma assignable_of_ok {target : TypeId} {cause : Option Cause}
    (h : Rule.assignable t e target cause = .ok v) : t.assignable target e.type = true :=
  ensure_eq_ok.mp h

lemma inClass_eq_ok {s : Scopes} {id : ScopeId} {keyword : String} {c : ClassId} :
    Rule.inClass s id keyword span = .ok c ↔ ∃ sc, s.scope? id = some sc ∧ sc.cls = some c := by
  unfold Rule.inClass
  rw [Except.bind_eq_ok]
  refine exists_congr fun sc => and_congr Scopes.scope_eq_ok ?_
  cases hc : sc.cls with
  | none => exact ⟨fun h => (nomatch h), fun h => (nomatch h)⟩
  | some d => exact ⟨fun h => by cases h; rfl, fun h => by cases h; rfl⟩

lemma inFunction_eq_ok {s : Scopes} {id : ScopeId} {keyword : String} {f : FrameId} :
    Rule.inFunction s id keyword span = .ok f ↔
      ∃ sc, s.scope? id = some sc ∧ sc.frame = some f := by
  unfold Rule.inFunction
  rw [Except.bind_eq_ok]
  refine exists_congr fun sc => and_congr Scopes.scope_eq_ok ?_
  cases hf : sc.frame with
  | none => exact ⟨fun h => (nomatch h), fun h => (nomatch h)⟩
  | some g => exact ⟨fun h => by cases h; rfl, fun h => by cases h; rfl⟩

lemma accepts_of_arguments {args : List Expr} {params : List TypeId}
    (h : Rule.arguments t args params span = .ok v) : t.Accepts params args := by
  unfold Rule.arguments at h
  obtain ⟨_, hlength, hforM⟩ := Except.bind_eq_ok.mp h
  have hlen : args.length = params.length := by simpa using ensure_eq_ok.mp hlength
  have hall := Except.forM_eq_ok.mp hforM
  clear h hlength hforM
  induction params generalizing args with
  | nil =>
    obtain rfl := List.length_eq_zero_iff.mp hlen
    exact List.Forall₂.nil
  | cons p params ih =>
    cases args with
    | nil => cases hlen
    | cons a args =>
      rw [List.zip_cons_cons, List.forall_mem_cons] at hall
      exact List.Forall₂.cons (assignable_of_ok hall.1) (ih (Nat.succ.inj hlen) hall.2)

lemma accepts_of_fits {args : List Expr} {params : List TypeId}
    (hlen : params.length = args.length) (h : Rule.fits t args params = true) :
    t.Accepts params args := by
  unfold Rule.fits at h
  induction params generalizing args with
  | nil =>
    obtain rfl := List.length_eq_zero_iff.mp hlen.symm
    exact List.Forall₂.nil
  | cons p params ih =>
    cases args with
    | nil => cases hlen
    | cons a args =>
      rw [List.zip_cons_cons, List.all_cons, Bool.and_eq_true] at h
      exact List.Forall₂.cons h.1 (ih (Nat.succ.inj hlen) h.2)

lemma accepts_of_overload {args : List Expr} {overloads : List (List TypeId)} {cls : String}
    (h : Rule.overload t args overloads cls span = .ok v) :
    ∃ params ∈ overloads, t.Accepts params args := by
  unfold Rule.overload at h
  obtain ⟨_, -, h⟩ := Except.bind_eq_ok.mp h
  obtain ⟨params, hmem, hfits⟩ := List.any_eq_true.mp (ensure_eq_ok.mp h)
  obtain ⟨hmem, hlen⟩ := List.mem_filter.mp hmem
  exact ⟨params, hmem, accepts_of_fits (by simpa using hlen) hfits⟩

lemma arguments_eq_ok {args : List Expr} {params : List TypeId} :
    Rule.arguments t args params span = .ok () ↔ t.Accepts params args := by
  refine ⟨accepts_of_arguments, fun h => ?_⟩
  unfold Rule.arguments
  refine Except.bind_eq_ok.mpr ⟨(), ensure_eq_ok.mpr (by simpa using h.length_eq.symm), ?_⟩
  exact Except.forM_eq_ok.mpr fun ap hap =>
    ensure_eq_ok.mpr ((List.forall₂_iff_zip.mp h.flip).2 hap)

lemma overload_eq_ok {args : List Expr} {overloads : List (List TypeId)} {cls : String} :
    Rule.overload t args overloads cls span = .ok () ↔
      ∃ params ∈ overloads, t.Accepts params args := by
  refine ⟨accepts_of_overload, fun ⟨params, hmem, h⟩ => ?_⟩
  have hmem' : params ∈ overloads.filter (·.length = args.length) :=
    List.mem_filter.mpr ⟨hmem, by simpa using h.length_eq⟩
  unfold Rule.overload
  refine Except.bind_eq_ok.mpr ⟨(), ensure_eq_ok.mpr ?_, ensure_eq_ok.mpr ?_⟩
  · simpa using List.ne_nil_of_mem hmem'
  · exact List.any_eq_true.mpr ⟨params, hmem', List.all_eq_true.mpr fun ap hap =>
      (List.forall₂_iff_zip.mp h.flip).2 hap⟩

lemma clash_iff {k k' : Constructor} : Rule.clash t k k' = true ↔
    List.Forall₂ (fun p q => t.overlap p q = true) k.params k'.params := by
  rw [Rule.clash, Bool.and_eq_true, List.all_eq_true, List.forall₂_iff_zip, decide_eq_true_iff]
  exact and_congr_right fun _ => ⟨fun h p q hpq => h (p, q) hpq, fun h pq hpq => h hpq⟩

/-- The check passes if no two constructors clash, the earlier one taken first. -/
lemma clashFree_eq_ok {cls : String} {ks : List Constructor} : Rule.clashFree t cls ks = .ok () ↔
    ks.Pairwise fun k k' => Rule.clash t k k' = false := by
  induction ks with
  | nil => exact ⟨fun _ => .nil, fun _ => rfl⟩
  | cons k ks ih =>
    rw [Rule.clashFree, Except.bind_eq_ok, List.pairwise_cons]
    constructor
    · rintro ⟨_, hfirst, hrest⟩
      refine ⟨fun k' hk' => ?_, ih.mp hrest⟩
      simpa using ensure_eq_ok.mp (Except.forM_eq_ok.mp hfirst k' hk')
    · rintro ⟨hfirst, hrest⟩
      refine ⟨(), Except.forM_eq_ok.mpr fun k' hk' => ensure_eq_ok.mpr ?_, ih.mpr hrest⟩
      simpa using hfirst k' hk'

end Rule

lemma TypeTable.Accepts.mono {params : List TypeId} {args : List Expr} (ht : t.WellFormed)
    (hu : u.WellFormed) (h : t.forms <+: u.forms) (hparams : ∀ p ∈ params, t.Registered p)
    (hargs : ∀ a ∈ args, t.Registered a.type) (ha : t.Accepts params args) :
    u.Accepts params args := by
  induction ha with
  | nil => exact List.Forall₂.nil
  | cons hpa _ ih =>
    rw [List.forall_mem_cons] at hparams hargs
    rw [← ht.assignable_mono hu h hparams.1 hargs.1] at hpa
    exact List.Forall₂.cons hpa (ih hparams.2 hargs.2)

lemma ClassEntry.mem_overloads {c : ClassEntry} {params : List TypeId} (h : params ∈ c.overloads) :
    params = [] ∨ ∃ k ∈ c.constructors, k.params = params := by
  unfold overloads at h
  split at h
  · exact Or.inl (List.mem_singleton.mp h)
  · exact Or.inr (List.mem_map.mp h)

namespace Session

variable {σ : Session}

lemma Valid.registered_type (hσ : σ.Valid) {c : ClassId} {k : ClassEntry}
    (hk : σ.types.class? c = some k) : σ.types.Registered k.type :=
  ⟨_, (hσ.classes hk).type⟩

lemma Valid.registered_overload (hσ : σ.Valid) {c : ClassId} {k : ClassEntry}
    (hk : σ.types.class? c = some k) {params : List TypeId} (h : params ∈ k.overloads) :
    ∀ p ∈ params, σ.types.Registered p := by
  rcases k.mem_overloads h with rfl | ⟨ctor, hctor, rfl⟩
  · exact nofun
  · exact (hσ.classes hk).constructors ctor hctor

end Session
end MiddleEnd
