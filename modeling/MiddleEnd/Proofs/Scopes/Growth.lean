import Mathlib.Data.List.Basic
import MiddleEnd.Proofs.Check.Run

/-!
Scopes grow: new ones are opened, and names are added to those that are there. What a name stands
for at a place may change on the way, but a name that denotes a type there keeps doing so as long
as only other names are added.
-/

namespace MiddleEnd

structure Scope.Extends (s t : Scope) : Prop where
  parent : t.parent = s.parent
  cls : t.cls = s.cls
  frame : t.frame = s.frame
  bindings : ∀ {n b}, s.bindings.find? n = some b → t.bindings.find? n = some b

lemma Scope.Extends.refl (s : Scope) : s.Extends s := ⟨rfl, rfl, rfl, id⟩

lemma Scope.Extends.trans {s t u : Scope} (h : s.Extends t) (h' : t.Extends u) : s.Extends u :=
  ⟨h'.parent.trans h.parent, h'.cls.trans h.cls, h'.frame.trans h.frame,
    fun hb => h'.bindings (h.bindings hb)⟩

namespace Scopes

variable {s t u : Scopes} {id : ScopeId} {sc : Scope} {b : Binding} {name : String}

structure Extends (s t : Scopes) : Prop where
  scope? : ∀ {id sc}, s.scope? id = some sc → ∃ sc', t.scope? id = some sc' ∧ sc.Extends sc'

lemma Extends.refl (s : Scopes) : s.Extends s := ⟨fun h => ⟨_, h, .refl _⟩⟩

lemma Extends.trans (h : s.Extends t) (h' : t.Extends u) : s.Extends u where
  scope? hsc := by
    obtain ⟨sc', hsc', hext⟩ := h.scope? hsc
    obtain ⟨sc'', hsc'', hext'⟩ := h'.scope? hsc'
    exact ⟨sc'', hsc'', hext.trans hext'⟩

lemma bindingAt?_eq_some :
    t.bindingAt? name id = some b ↔ ∃ sc, t.scope? id = some sc ∧ sc.bindings.find? name = some b :=
  Option.bind_eq_some_iff

lemma Extends.bindingAt? (h : s.Extends t) (hb : s.bindingAt? name id = some b) :
    t.bindingAt? name id = some b := by
  obtain ⟨sc, hsc, hfind⟩ := bindingAt?_eq_some.mp hb
  obtain ⟨sc', hsc', hext⟩ := h.scope? hsc
  exact bindingAt?_eq_some.mpr ⟨sc', hsc', hext.bindings hfind⟩

/-- What stands for nothing later has never stood for anything. -/
lemma Extends.bindingAt?_eq_none (h : s.Extends t) (hnone : t.bindingAt? name id = none) :
    s.bindingAt? name id = none := by
  cases hb : s.bindingAt? name id with
  | none => rfl
  | some b => cases (h.bindingAt? hb).symm.trans hnone

lemma scope?_isSome : (t.scope? id).isSome ↔ id.index < t.size := by
  simp [scope?, size]

lemma lt_size (h : t.scope? id = some sc) : id.index < t.size :=
  scope?_isSome.mp (by rw [h]; rfl)

lemma exists_scope (h : id.index < t.size) : ∃ sc, t.scope? id = some sc :=
  Option.isSome_iff_exists.mp (scope?_isSome.mpr h)

lemma Extends.size_le (h : s.Extends t) : s.size ≤ t.size := by
  by_contra hlt
  obtain ⟨sc, hsc⟩ : ∃ sc, s.scope? ⟨t.size⟩ = some sc := exists_scope (Nat.lt_of_not_le hlt)
  obtain ⟨sc', hsc', -⟩ := h.scope? hsc
  exact Nat.lt_irrefl _ (lt_size hsc')

lemma scope_eq_ok : t.scope id = .ok sc ↔ t.scope? id = some sc := by
  unfold scope
  cases t.scope? id <;> simp

lemma frame_eq_ok {id : FrameId} {f : Frame} : t.frame id = .ok f ↔ t.frame? id = some f := by
  unfold frame
  cases t.frame? id <;> simp

/-- Among the first `n` scopes none has a new name of a type. -/
structure SameTypeNames (n : ℕ) (s t : Scopes) : Prop where
  bindingAt? : ∀ {id name b}, id.index < n → t.bindingAt? name id = some b →
    b.denotesType = true → s.bindingAt? name id = some b

lemma SameTypeNames.refl (n : ℕ) (s : Scopes) : s.SameTypeNames n s := ⟨fun _ h _ => h⟩

lemma SameTypeNames.trans {n : ℕ} (h : SameTypeNames n s t) (h' : SameTypeNames n t u) :
    SameTypeNames n s u :=
  ⟨fun hid hb hd => h.bindingAt? hid (h'.bindingAt? hid hb hd) hd⟩

lemma SameTypeNames.mono {m n : ℕ} (h : SameTypeNames n s t) (hmn : m ≤ n) :
    SameTypeNames m s t :=
  ⟨fun hid => h.bindingAt? (Nat.lt_of_lt_of_le hid hmn)⟩

/-! ### Looking up -/

lemma index_le_of_mem_chain {i : ScopeId} (h : i ∈ t.chain id) : i.index ≤ id.index := by
  induction hn : id.index using Nat.strongRecOn generalizing id with
  | ind n ih =>
    rw [chain] at h
    split at h
    · cases h
    · split at h
      · obtain rfl := List.mem_singleton.mp h
        omega
      · split at h
        · rename_i hlt
          rcases List.mem_cons.mp h with rfl | h
          · omega
          · have := ih _ (hn ▸ hlt) h rfl
            omega
        · obtain rfl := List.mem_singleton.mp h
          omega

/-- The scopes around a place stay the same. -/
lemma Extends.chain (h : s.Extends t) (hid : id.index < s.size) : t.chain id = s.chain id := by
  induction hn : id.index using Nat.strongRecOn generalizing id with
  | ind n ih =>
    obtain ⟨sc, hsc⟩ := exists_scope hid
    obtain ⟨sc', hsc', hext⟩ := h.scope? hsc
    rw [Scopes.chain, hsc', Scopes.chain, hsc]
    simp only [hext.parent]
    split
    · rfl
    · split
      · rename_i p _ hlt
        rw [ih p.index (hn ▸ hlt) (Nat.lt_trans hlt hid) rfl]
      · rfl

/-- A name that denotes a type at a place has denoted it before. -/
lemma Extends.lookup_type (h : s.Extends t) (hnames : s.SameTypeNames (id.index + 1) t)
    (hid : id.index < s.size) (hb : t.lookup id name = some b) (hd : b.denotesType = true) :
    s.lookup id name = some b := by
  rw [lookup, h.chain hid] at hb
  rw [lookup]
  have hle : ∀ i ∈ s.chain id, i.index < id.index + 1 :=
    fun i hi => Nat.lt_succ_of_le (index_le_of_mem_chain hi)
  generalize s.chain id = l at hb hle
  induction l with
  | nil => cases hb
  | cons i l ih =>
    rw [List.forall_mem_cons] at hle
    rw [List.findSome?_cons] at hb ⊢
    cases ht : t.bindingAt? name i with
    | some b' =>
      rw [ht] at hb
      cases hb
      rw [hnames.bindingAt? hle.1 ht hd]
    | none =>
      -- what is not bound now was not bound before
      have hs : s.bindingAt? name i = none := by
        cases hs : s.bindingAt? name i with
        | none => rfl
        | some b' =>
          rw [h.bindingAt? hs] at ht
          cases ht
      rw [ht] at hb
      rw [hs]
      exact ih hb hle.2

/-! ### Opening scopes -/

section Open

variable {parent : ScopeId} {kind : ScopeKind}

lemma openIn_eq_ok (h : t.openIn parent kind = .ok u) :
    ∃ base, t.scope? parent = some base ∧
      u = { t with scopes := t.scopes ++ [base.inner parent kind] } := by
  unfold openIn at h
  obtain ⟨base, hbase, hu⟩ := Except.bind_eq_ok.mp h
  cases hu
  exact ⟨base, scope_eq_ok.mp hbase, rfl⟩

lemma inner_bindings (sc : Scope) : (sc.inner parent kind).bindings = {} := by
  cases kind <;> rfl

lemma inner_parent (sc : Scope) : (sc.inner parent kind).parent = some parent := by
  cases kind <;> rfl

lemma scope?_openIn (h : t.openIn parent kind = .ok u) (id : ScopeId) :
    ∃ base, t.scope? parent = some base ∧
      u.scope? id = if id = t.next then some (base.inner parent kind) else t.scope? id := by
  obtain ⟨base, hbase, rfl⟩ := openIn_eq_ok h
  refine ⟨base, hbase, ?_⟩
  show (t.scopes ++ [_])[id.index]? = _
  rcases Nat.lt_trichotomy id.index t.scopes.length with hlt | heq | hgt
  · rw [if_neg (by rintro rfl; exact Nat.lt_irrefl _ hlt), List.getElem?_append_left hlt]
    rfl
  · have hid : id = t.next := by
      obtain ⟨i⟩ := id
      exact congrArg ScopeId.mk heq
    rw [if_pos hid, heq, List.getElem?_concat_length]
  · rw [if_neg (by rintro rfl; exact Nat.lt_irrefl _ hgt), scope?,
      List.getElem?_eq_none (by simp; omega), List.getElem?_eq_none (Nat.le_of_lt hgt)]

lemma bindingAt?_openIn (h : t.openIn parent kind = .ok u) (name : String) (id : ScopeId) :
    u.bindingAt? name id = t.bindingAt? name id := by
  obtain ⟨base, -, hscope⟩ := scope?_openIn h id
  rw [Scopes.bindingAt?, hscope, Scopes.bindingAt?]
  split
  · rename_i hid
    have hnone : t.scope? id = none := by
      rw [hid]
      exact List.getElem?_eq_none (Nat.le_refl _)
    rw [hnone, Option.bind_some, inner_bindings]
    rfl
  · rfl

lemma extends_openIn (h : t.openIn parent kind = .ok u) : t.Extends u := by
  refine ⟨fun {id sc} hsc => ?_⟩
  obtain ⟨base, -, hscope⟩ := scope?_openIn h id
  rw [if_neg (by rintro rfl; exact Nat.lt_irrefl _ (lt_size hsc))] at hscope
  exact ⟨sc, hscope.trans hsc, .refl sc⟩

end Open

/-! ### Declaring names -/

section Declare

variable {span : Span}

lemma declare_eq_ok (h : t.declare id b span = .ok u) :
    ∃ sc, t.scope? id = some sc ∧ sc.bindings.find? b.name = none ∧
      u = { t with
        scopes := t.scopes.set id.index { sc with bindings := sc.bindings.insert b } } := by
  unfold declare at h
  obtain ⟨sc, hsc, h⟩ := Except.bind_eq_ok.mp h
  obtain ⟨_, hfresh, h⟩ := Except.bind_eq_ok.mp h
  rw [ensure_eq_ok] at hfresh
  cases h
  refine ⟨sc, scope_eq_ok.mp hsc, ?_, rfl⟩
  simpa [Bindings.contains] using hfresh

lemma scope?_declare (h : t.declare id b span = .ok u) (i : ScopeId) :
    u.scope? i = (t.scope? i).map fun sc =>
      if i = id then { sc with bindings := sc.bindings.insert b } else sc := by
  obtain ⟨sc, hsc, -, rfl⟩ := declare_eq_ok h
  show (t.scopes.set _ _)[i.index]? = _
  by_cases hi : i = id
  · subst hi
    rw [List.getElem?_set_self (lt_size hsc), hsc]
    simp
  · have hne : id.index ≠ i.index := by
      obtain ⟨i⟩ := i
      obtain ⟨j⟩ := id
      exact fun hij => hi (congrArg ScopeId.mk hij.symm)
    rw [List.getElem?_set_ne hne, ← scope?]
    cases t.scope? i <;> simp [hi]

lemma bindingAt?_declare (h : t.declare id b span = .ok u) (name : String) (i : ScopeId) :
    u.bindingAt? name i =
      if i = id ∧ b.name = name then some b else t.bindingAt? name i := by
  obtain ⟨sc, hsc, -, -⟩ := declare_eq_ok h
  rw [Scopes.bindingAt?, scope?_declare h, Scopes.bindingAt?]
  by_cases hi : i = id
  · subst hi
    simp [hsc, Bindings.find?_insert]
  · cases t.scope? i <;> simp [hi]

lemma bindingAt?_of_declare (h : t.declare id b span = .ok u) : t.bindingAt? b.name id = none := by
  obtain ⟨sc, hsc, hnone, -⟩ := declare_eq_ok h
  rw [Scopes.bindingAt?, hsc]
  exact hnone

lemma extends_declare (h : t.declare id b span = .ok u) : t.Extends u := by
  refine ⟨fun {i sc} hsc => ?_⟩
  obtain ⟨sc0, hsc0, hnone, -⟩ := declare_eq_ok h
  have hscope := scope?_declare h i
  rw [hsc, Option.map_some] at hscope
  refine ⟨_, hscope, ?_⟩
  split
  · rename_i hi
    subst hi
    rw [hsc0] at hsc
    cases hsc
    refine ⟨rfl, rfl, rfl, fun {n b'} hb' => ?_⟩
    rw [Bindings.find?_insert, if_neg]
    · exact hb'
    · rintro rfl
      rw [hnone] at hb'
      cases hb'
  · exact .refl sc

/-- A name that is not one of a type may be declared anywhere, and one of a type outside of the
first `n` scopes. -/
lemma sameTypeNames_declare (h : t.declare id b span = .ok u) {n : ℕ}
    (hb : b.denotesType = false ∨ n ≤ id.index) : t.SameTypeNames n u := by
  refine ⟨fun {i name b'} hi hb' hd => ?_⟩
  rw [bindingAt?_declare h] at hb'
  split at hb'
  · rename_i hcond
    cases hb'
    rcases hb with hb | hle
    · rw [hb] at hd
      cases hd
    · rw [hcond.1] at hi
      omega
  · exact hb'

end Declare

end Scopes
end MiddleEnd
