import MiddleEnd.Proofs.Types.Signature

/-!
Types unfolded into trees of arrays and dictionaries over basic types and classes, and the
comparison of types through these trees.
-/

namespace MiddleEnd

/-- An unfolded type: its leaves are the types that are not built from others. -/
inductive TypeTree where
  | leaf (id : TypeId)
  | array (element : TypeTree)
  | dictionary (key value : TypeTree)
  deriving DecidableEq

namespace TypeTree

def leaves : TypeTree → List TypeId
  | .leaf id => [id]
  | .array e => e.leaves
  | .dictionary k v => k.leaves ++ v.leaves

def height : TypeTree → ℕ
  | .leaf _ => 1
  | .array e => e.height + 1
  | .dictionary k v => max k.height v.height + 1

/-- The tree as it is shown, with the classes of a table. -/
def shape (t : TypeTable) : TypeTree → Shape
  | .leaf id => t.unfold 1 id
  | .array e => .array (e.shape t)
  | .dictionary k v => .dictionary (k.shape t) (v.shape t)

end TypeTree

/-- The types that a type is built from. -/
def TypeForm.parts : TypeForm → List TypeId
  | .array e => [e]
  | .dictionary k v => [k, v]
  | _ => []

/-- The number of a basic type. -/
def TypeForm.basicId? : TypeForm → Option TypeId
  | .number => some .number
  | .string => some .string
  | .boolean => some .boolean
  | .null => some .null
  | .any => some .any
  | _ => none

lemma TypeForm.basicId?_lt {f : TypeForm} {id : TypeId} (h : f.basicId? = some id) :
    id.index < TypeId.firstConstructed := by
  cases f <;> cases h <;> decide

namespace TypeTable

variable {t : TypeTable} {id : TypeId} {f : TypeForm} {x y : TypeTree}

def Registered (t : TypeTable) (id : TypeId) : Prop := ∃ f, t.form? id = some f

lemma form?_basic (t : TypeTable) (h : f.basicId? = some id) : t.form? id = some f := by
  cases f <;> cases h <;> rfl

/-- A type is a basic one or stands in the list of forms. -/
lemma form?_eq_some (h : t.form? id = some f) :
    f.basicId? = some id ∨ ∃ i, id = ⟨TypeId.firstConstructed + i⟩ ∧ t.forms[i]? = some f := by
  obtain ⟨n⟩ := id
  unfold form? at h
  split at h
  case h_6 =>
    split at h
    · rename_i hn
      exact Or.inr ⟨n - TypeId.firstConstructed, by rw [Nat.add_sub_cancel' hn], h⟩
    · cases h
  all_goals
    rename_i hn
    cases h
    simp only at hn
    subst hn
    exact Or.inl rfl

lemma form?_constructed (t : TypeTable) (i : ℕ) :
    t.form? ⟨TypeId.firstConstructed + i⟩ = t.forms[i]? := by
  have hc : TypeId.firstConstructed = 1000 := rfl
  unfold form?
  split
  case h_6 =>
    rw [if_pos (Nat.le_add_right _ _), Nat.add_sub_cancel_left]
  all_goals
    rename_i hn
    simp only at hn
    omega

/-- What holds of every table that is built up step by step: the listed types are not basic, they
are built from older ones, and each class has one type, which is the one that the class knows. -/
structure WellFormed (t : TypeTable) : Prop where
  constructed : ∀ (i : ℕ) (f : TypeForm), t.forms[i]? = some f → f.isBasic = false
  parts : ∀ (i : ℕ) (f : TypeForm), t.forms[i]? = some f → ∀ p ∈ f.parts,
    t.Registered p ∧ p.index < TypeId.firstConstructed + i
  object : ∀ (i : ℕ) (c : ClassId) (name : String), t.forms[i]? = some (.object c name) →
      ∃ e, t.class? c = some e ∧ e.type = ⟨TypeId.firstConstructed + i⟩ ∧ e.name = name

inductive Unfolds (t : TypeTable) : TypeId → TypeTree → Prop where
  | leaf {id : TypeId} {f : TypeForm} (h : t.form? id = some f) (hf : f.isNominal = true) :
      Unfolds t id (.leaf id)
  | array {id e : TypeId} {x : TypeTree} (h : t.form? id = some (.array e))
      (he : Unfolds t e x) : Unfolds t id (.array x)
  | dictionary {id k v : TypeId} {x y : TypeTree} (h : t.form? id = some (.dictionary k v))
      (hk : Unfolds t k x) (hv : Unfolds t v y) : Unfolds t id (.dictionary x y)

lemma WellFormed.part_lt (ht : t.WellFormed) (h : t.form? id = some f) {p : TypeId}
    (hp : p ∈ f.parts) : t.Registered p ∧ p.index < id.index := by
  rcases form?_eq_some h with hb | ⟨i, rfl, hi⟩
  · cases f <;> simp [TypeForm.parts, TypeForm.basicId?] at hb hp
  · exact ht.parts i f hi p hp

/-- The class of a type of instances knows the type. -/
lemma WellFormed.object_form (ht : t.WellFormed) {c : ClassId} {name : String}
    (h : t.form? id = some (.object c name)) :
    ∃ e, t.class? c = some e ∧ e.type = id ∧ e.name = name := by
  rcases form?_eq_some h with hb | ⟨i, rfl, hi⟩
  · cases hb
  · exact ht.object i c name hi

/-- Every type of a well-formed table unfolds to a tree. -/
lemma WellFormed.exists_unfolds (ht : t.WellFormed) (h : t.Registered id) :
    ∃ x, t.Unfolds id x := by
  -- the parts of a type are older than the type
  induction hn : id.index using Nat.strong_induction_on generalizing id with
  | _ n ih =>
    obtain ⟨f, hf⟩ := h
    have part {p : TypeId} (hp : p ∈ f.parts) : ∃ x, t.Unfolds p x := by
      obtain ⟨hr, hlt⟩ := ht.part_lt hf hp
      exact ih p.index (hn ▸ hlt) hr rfl
    cases f with
    | array e =>
      obtain ⟨x, hx⟩ := part (p := e) (by simp [TypeForm.parts])
      exact ⟨_, .array hf hx⟩
    | dictionary k v =>
      obtain ⟨x, hx⟩ := part (p := k) (by simp [TypeForm.parts])
      obtain ⟨y, hy⟩ := part (p := v) (by simp [TypeForm.parts])
      exact ⟨_, .dictionary hf hx hy⟩
    | _ => exact ⟨_, .leaf hf rfl⟩

lemma Unfolds.registered (h : t.Unfolds id x) : t.Registered id := by
  cases h with
  | leaf h _ | array h _ | dictionary h _ _ => exact ⟨_, h⟩

/-- A type unfolds to one tree only. -/
lemma Unfolds.unique (hx : t.Unfolds id x) (hy : t.Unfolds id y) : x = y := by
  induction hx generalizing y with
  | leaf h hf =>
    cases hy with
    | leaf => rfl
    | array h' | dictionary h' =>
      rw [h] at h'
      cases h'
      cases hf
  | array h _ ih =>
    cases hy with
    | array h' hy =>
      rw [h] at h'
      cases h'
      rw [ih hy]
    | leaf h' hf =>
      rw [h] at h'
      cases h'
      cases hf
    | dictionary h' =>
      rw [h] at h'
      cases h'
  | dictionary h _ _ ihk ihv =>
    cases hy with
    | dictionary h' hk hv =>
      rw [h] at h'
      cases h'
      rw [ihk hk, ihv hv]
    | leaf h' hf =>
      rw [h] at h'
      cases h'
      cases hf
    | array h' =>
      rw [h] at h'
      cases h'

lemma Unfolds.height_le (ht : t.WellFormed) (h : t.Unfolds id x) :
    x.height ≤ (id.index + 1 - TypeId.firstConstructed) + 1 := by
  induction h with
  | leaf => simp [TypeTree.height]
  | @array id e x h _ ih =>
    have := (ht.part_lt h (p := e) (by simp [TypeForm.parts])).2
    rcases form?_eq_some h with hb | ⟨i, rfl, -⟩
    · cases hb
    · simp only [TypeTree.height] at this ⊢
      omega
  | @dictionary id k v x y h _ _ ihk ihv =>
    have hk := (ht.part_lt h (p := k) (by simp [TypeForm.parts])).2
    have hv := (ht.part_lt h (p := v) (by simp [TypeForm.parts])).2
    rcases form?_eq_some h with hb | ⟨i, rfl, -⟩
    · cases hb
    · simp only [TypeTree.height] at hk hv ⊢
      omega

/-- Unfolding through enough levels gives the whole tree. -/
lemma Unfolds.unfold_eq (h : t.Unfolds id x) {depth : ℕ} (hd : x.height ≤ depth) :
    t.unfold depth id = x.shape t := by
  induction h generalizing depth with
  | @leaf id f h hf =>
    obtain ⟨d, rfl⟩ : ∃ d, depth = d + 1 := ⟨depth - 1, by simp only [TypeTree.height] at hd; omega⟩
    cases f <;> simp_all [unfold, TypeTree.shape, TypeForm.isNominal, TypeForm.isStructural]
  | array h _ ih =>
    obtain ⟨d, rfl⟩ : ∃ d, depth = d + 1 := ⟨depth - 1, by simp only [TypeTree.height] at hd; omega⟩
    simp only [unfold, h, TypeTree.shape]
    rw [ih (by simp only [TypeTree.height] at hd; omega)]
  | dictionary h _ _ ihk ihv =>
    obtain ⟨d, rfl⟩ : ∃ d, depth = d + 1 := ⟨depth - 1, by simp only [TypeTree.height] at hd; omega⟩
    simp only [unfold, h, TypeTree.shape]
    simp only [TypeTree.height] at hd
    rw [ihk (by omega), ihv (by omega)]

/-- The number of levels that `shape` goes through is enough. -/
lemma Unfolds.shape_eq (ht : t.WellFormed) (h : t.Unfolds id x) : t.shape id = x.shape t := by
  refine h.unfold_eq ((h.height_le ht).trans ?_)
  obtain ⟨f, hf⟩ := h.registered
  rcases form?_eq_some hf with hb | ⟨i, rfl, hi⟩
  · have := TypeForm.basicId?_lt hb
    omega
  · have := (List.getElem?_eq_some_iff.mp hi).1
    simp only
    omega

/-- The name of a class, if the table has the class. -/
def className? (t : TypeTable) (c : ClassId) : Option String := (t.class? c).map (·.name)

lemma WellFormed.named (ht : t.WellFormed) (h : t.Unfolds id x) :
    (x.shape t).Named t.className? := by
  induction h with
  | @leaf id f h hf =>
    cases f with
    | object c name =>
      obtain ⟨e, he, -, hn⟩ := ht.object_form h
      simp only [TypeTree.shape, unfold, h, Shape.Named]
      rw [className?, he, ← hn]
      rfl
    | array e | dictionary k v => cases hf
    | _ => simp only [TypeTree.shape, unfold, h, Shape.Named]
  | array _ _ ih => exact ih
  | dictionary _ _ _ ihk ihv => exact ⟨ihk, ihv⟩

lemma WellFormed.basicId?_of_form (ht : t.WellFormed) (h : t.form? id = some f)
    (hf : f.isBasic = true) : f.basicId? = some id := by
  rcases form?_eq_some h with hb | ⟨i, -, hi⟩
  · exact hb
  · rw [ht.constructed i f hi] at hf
    cases hf

/-- In a well-formed table a form that is not built from other types belongs to one type. -/
lemma WellFormed.id_unique (ht : t.WellFormed) {a b : TypeId} (ha : t.form? a = some f)
    (hb : t.form? b = some f) (hf : f.isNominal = true) : a = b := by
  cases f with
  | object c name =>
    obtain ⟨e, he, rfl, -⟩ := ht.object_form ha
    obtain ⟨e', he', rfl, -⟩ := ht.object_form hb
    rw [he] at he'
    cases he'
    rfl
  | array e | dictionary k v => cases hf
  | _ =>
    have hba := ht.basicId?_of_form ha rfl
    have hbb := ht.basicId?_of_form hb rfl
    exact Option.some.inj (hba.symm.trans hbb)

/-- Trees that look alike are the same. -/
lemma Unfolds.eq_of_shape_eq (ht : t.WellFormed) {a b : TypeId} (hx : t.Unfolds a x)
    (hy : t.Unfolds b y) (h : x.shape t = y.shape t) : x = y := by
  induction hx generalizing b y with
  | @leaf a f ha hf =>
    cases hy with
    | @leaf _ g hb hg =>
      have hfg : f = g := by
        simp only [TypeTree.shape, unfold, ha, hb] at h
        cases f <;> cases g <;> simp_all [TypeForm.isNominal, TypeForm.isStructural]
      subst hfg
      -- a nominal form is registered once
      rw [ht.id_unique ha hb hf]
    | array | dictionary =>
      simp only [TypeTree.shape, unfold, ha] at h
      cases f <;> simp_all [TypeForm.isNominal, TypeForm.isStructural]
  | array _ _ ih =>
    cases hy with
    | array _ hy' => rw [ih hy' (Shape.array.inj h)]
    | @leaf _ g hb hg =>
      simp only [TypeTree.shape, unfold, hb] at h
      cases g <;> simp_all [TypeForm.isNominal, TypeForm.isStructural]
    | dictionary => cases h
  | dictionary _ _ _ ihk ihv =>
    cases hy with
    | dictionary _ hk hv =>
      obtain ⟨h1, h2⟩ := Shape.dictionary.inj h
      rw [ihk hk h1, ihv hv h2]
    | @leaf _ g hb hg =>
      simp only [TypeTree.shape, unfold, hb] at h
      cases g <;> simp_all [TypeForm.isNominal, TypeForm.isStructural]
    | array => cases h

end TypeTable
end MiddleEnd
