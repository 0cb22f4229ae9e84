import Mathlib.Logic.Basic
import MiddleEnd.Proofs.Types.Unfolding

/-!
The comparison of types is equality of their unfoldings. It compares texts in which the names
of classes stand as they are, and still no choice of names makes two different types alike.
-/

namespace MiddleEnd.TypeTable

variable {t u : TypeTable} {a b id : TypeId} {f : TypeForm} {x y : TypeTree}

/-! ### Tables that are built up -/

lemma form?_mono (h : t.forms <+: u.forms) (hf : t.form? id = some f) : u.form? id = some f := by
  rcases form?_eq_some hf with hb | ⟨i, rfl, hi⟩
  · exact form?_basic u hb
  · obtain ⟨r, hr⟩ := h
    rw [form?_constructed, ← hr, List.getElem?_append_left (List.getElem?_eq_some_iff.mp hi).1]
    exact hi

lemma Registered.mono (h : t.forms <+: u.forms) : t.Registered id → u.Registered id :=
  fun ⟨f, hf⟩ => ⟨f, form?_mono h hf⟩

lemma Unfolds.mono (h : t.forms <+: u.forms) (hx : t.Unfolds id x) : u.Unfolds id x := by
  induction hx with
  | leaf hf hn => exact .leaf (form?_mono h hf) hn
  | array hf _ ih => exact .array (form?_mono h hf) ih
  | dictionary hf _ _ ihk ihv => exact .dictionary (form?_mono h hf) ihk ihv

lemma forms_prefix_add (t : TypeTable) (f : TypeForm) : t.forms <+: (t.add f).forms :=
  List.prefix_append _ _

lemma form?_add_next (t : TypeTable) (f : TypeForm) : (t.add f).form? t.next = some f := by
  rw [next, form?_constructed]
  exact List.getElem?_concat_length

lemma form?_next (t : TypeTable) : t.form? t.next = none := by
  rw [next, form?_constructed]
  exact List.getElem?_eq_none (Nat.le_refl _)

/-- The new form stands at the end of the list, the older ones where they stood. -/
lemma getElem?_forms_add {i : ℕ} {g : TypeForm} (h : (t.add f).forms[i]? = some g) :
    t.forms[i]? = some g ∨ i = t.forms.length ∧ g = f := by
  rcases Nat.lt_trichotomy i t.forms.length with hlt | rfl | hgt
  · rw [add, List.getElem?_append_left hlt] at h
    exact Or.inl h
  · rw [add, List.getElem?_concat_length] at h
    exact Or.inr ⟨rfl, (Option.some.inj h).symm⟩
  · rw [add, List.getElem?_eq_none (by simp; omega)] at h
    cases h

lemma WellFormed.empty : ({} : TypeTable).WellFormed where
  constructed i f h := by simp at h
  parts i f h := by simp at h
  object i c name h := by simp at h

/-- Arrays and dictionaries may be added over types that are there. -/
lemma WellFormed.add (ht : t.WellFormed) (hf : f.isStructural = true)
    (hp : ∀ p ∈ f.parts, t.Registered p) : (t.add f).WellFormed where
  constructed i g h := by
    rcases getElem?_forms_add h with h | ⟨-, rfl⟩
    · exact ht.constructed i g h
    · cases g <;> first | rfl | cases hf
  parts i g h p hg := by
    rcases getElem?_forms_add h with h | ⟨rfl, rfl⟩
    · exact (ht.parts i g h p hg).imp_left (.mono (forms_prefix_add t f))
    · obtain ⟨q, hq⟩ := hp p hg
      refine ⟨Registered.mono (forms_prefix_add t g) ⟨q, hq⟩, ?_⟩
      rcases form?_eq_some hq with hb | ⟨j, rfl, hj⟩
      · exact Nat.lt_add_right _ (TypeForm.basicId?_lt hb)
      · exact Nat.add_lt_add_left (List.getElem?_eq_some_iff.mp hj).1 _
  object i c name h := by
    rcases getElem?_forms_add h with h | ⟨-, rfl⟩
    · exact ht.object i c name h
    · cases hf

lemma WellFormed.addClass (ht : t.WellFormed) (name : String) : (t.addClass name).WellFormed where
  constructed i g h := by
    rcases getElem?_forms_add h with h | ⟨-, rfl⟩
    · exact ht.constructed i g h
    · rfl
  parts i g h p hg := by
    rcases getElem?_forms_add h with h | ⟨-, rfl⟩
    · exact (ht.parts i g h p hg).imp_left (.mono (List.prefix_append _ _))
    · cases hg
  object i c n h := by
    rcases getElem?_forms_add h with h | ⟨rfl, hn⟩
    · obtain ⟨e, he, htype, hname⟩ := ht.object i c n h
      refine ⟨e, ?_, htype, hname⟩
      show (t.classes ++ [_])[c.index]? = some e
      rw [List.getElem?_append_left (List.getElem?_eq_some_iff.mp he).1]
      exact he
    · cases hn
      exact ⟨_, List.getElem?_concat_length, rfl, rfl⟩

/-! ### The comparison -/

lemma Unfolds.leaf_of_not_structural (hx : t.Unfolds a x) (ha : t.isStructural a = false) :
    x = .leaf a := by
  cases hx with
  | leaf => rfl
  | array h | dictionary h => simp [isStructural, h, TypeForm.isStructural] at ha

/-- In a well-formed table, types are the same if they have one unfolding. -/
theorem WellFormed.sameType_iff (ht : t.WellFormed) (hx : t.Unfolds a x) (hy : t.Unfolds b y) :
    t.sameType a b = true ↔ x = y := by
  unfold sameType
  split
  · -- at least one of them is an array or a dictionary, and the texts decide
    rw [decide_eq_true_iff, signature, signature, hx.shape_eq ht, hy.shape_eq ht,
      Shape.signature_inj (ht.named hx) (ht.named hy)]
    exact ⟨hx.eq_of_shape_eq ht hy, fun h => h ▸ rfl⟩
  · rename_i hs
    obtain ⟨ha, hb⟩ : t.isStructural a = false ∧ t.isStructural b = false := by simpa using hs
    rw [hx.leaf_of_not_structural ha, hy.leaf_of_not_structural hb, decide_eq_true_iff,
      TypeTree.leaf.injEq]

/-- Types that are there compare alike when types are added. -/
lemma WellFormed.sameType_mono (ht : t.WellFormed) (hu : u.WellFormed) (h : t.forms <+: u.forms)
    (ha : t.Registered a) (hb : t.Registered b) : u.sameType a b = t.sameType a b := by
  obtain ⟨x, hx⟩ := ht.exists_unfolds ha
  obtain ⟨y, hy⟩ := ht.exists_unfolds hb
  rw [Bool.eq_iff_iff, hu.sameType_iff (hx.mono h) (hy.mono h), ht.sameType_iff hx hy]

lemma WellFormed.assignable_mono (ht : t.WellFormed) (hu : u.WellFormed)
    (h : t.forms <+: u.forms) (ha : t.Registered a) (hb : t.Registered b) :
    u.assignable a b = t.assignable a b := by
  rw [assignable, assignable, ht.sameType_mono hu h ha hb]

/-- In a well-formed table the comparison is an equivalence on the types that are there. -/
lemma WellFormed.sameType_equivalence (ht : t.WellFormed) :
    Equivalence (fun a b : { id // t.Registered id } => t.sameType a b = true) where
  refl a := by
    obtain ⟨x, hx⟩ := ht.exists_unfolds a.2
    rw [ht.sameType_iff hx hx]
  symm {a b} h := by
    obtain ⟨x, hx⟩ := ht.exists_unfolds a.2
    obtain ⟨y, hy⟩ := ht.exists_unfolds b.2
    rw [ht.sameType_iff hx hy] at h
    rw [ht.sameType_iff hy hx, h]
  trans {a b c} h h' := by
    obtain ⟨x, hx⟩ := ht.exists_unfolds a.2
    obtain ⟨y, hy⟩ := ht.exists_unfolds b.2
    obtain ⟨z, hz⟩ := ht.exists_unfolds c.2
    rw [ht.sameType_iff hx hy] at h
    rw [ht.sameType_iff hy hz] at h'
    rw [ht.sameType_iff hx hz, h, h']

lemma WellFormed.sameType_array (ht : t.WellFormed) {e g : TypeId}
    (ha : t.form? a = some (.array e)) (hb : t.form? b = some (.array g)) :
    t.sameType a b = true ↔ t.sameType e g = true := by
  obtain ⟨x, hx⟩ := ht.exists_unfolds (ht.part_lt ha (p := e) (by simp [TypeForm.parts])).1
  obtain ⟨y, hy⟩ := ht.exists_unfolds (ht.part_lt hb (p := g) (by simp [TypeForm.parts])).1
  rw [ht.sameType_iff (.array ha hx) (.array hb hy), ht.sameType_iff hx hy, TypeTree.array.injEq]

lemma WellFormed.sameType_dictionary (ht : t.WellFormed) {k l v w : TypeId}
    (ha : t.form? a = some (.dictionary k v)) (hb : t.form? b = some (.dictionary l w)) :
    t.sameType a b = true ↔ t.sameType k l = true ∧ t.sameType v w = true := by
  obtain ⟨x, hx⟩ := ht.exists_unfolds (ht.part_lt ha (p := k) (by simp [TypeForm.parts])).1
  obtain ⟨y, hy⟩ := ht.exists_unfolds (ht.part_lt ha (p := v) (by simp [TypeForm.parts])).1
  obtain ⟨x', hx'⟩ := ht.exists_unfolds (ht.part_lt hb (p := l) (by simp [TypeForm.parts])).1
  obtain ⟨y', hy'⟩ := ht.exists_unfolds (ht.part_lt hb (p := w) (by simp [TypeForm.parts])).1
  rw [ht.sameType_iff (.dictionary ha hx hy) (.dictionary hb hx' hy'), ht.sameType_iff hx hx',
    ht.sameType_iff hy hy', TypeTree.dictionary.injEq]

lemma WellFormed.sameType_object (ht : t.WellFormed) {c d : ClassId} {m n : String}
    (ha : t.form? a = some (.object c m)) (hb : t.form? b = some (.object d n)) :
    t.sameType a b = true ↔ c = d := by
  rw [ht.sameType_iff (.leaf ha rfl) (.leaf hb rfl), TypeTree.leaf.injEq]
  constructor
  · rintro rfl
    rw [ha] at hb
    cases hb
    rfl
  · rintro rfl
    obtain ⟨e, he, rfl, -⟩ := ht.object_form ha
    obtain ⟨e', he', rfl, -⟩ := ht.object_form hb
    rw [he] at he'
    cases he'
    rfl

/-- The tables that a sequence of additions leads to, each over types that are there. -/
inductive Built : TypeTable → Prop where
  | empty : Built {}
  | array {t : TypeTable} {e : TypeId} (ht : Built t) (he : t.Registered e) :
      Built (t.add (.array e))
  | dictionary {t : TypeTable} {k v : TypeId} (ht : Built t) (hk : t.Registered k)
      (hv : t.Registered v) : Built (t.add (.dictionary k v))
  | cls {t : TypeTable} (ht : Built t) (name : String) : Built (t.addClass name)

lemma Built.wellFormed (h : t.Built) : t.WellFormed := by
  induction h with
  | empty => exact .empty
  | array _ he ih => exact ih.add rfl (by simpa [TypeForm.parts] using he)
  | dictionary _ hk hv ih => exact ih.add rfl (by simpa [TypeForm.parts] using ⟨hk, hv⟩)
  | cls _ name ih => exact ih.addClass name

/-- **The comparison of types is structural equality**, whatever the classes are called: types are
the same if they unfold to the same tree over the same basic types and classes. So it is an
equivalence, arrays and dictionaries are the same if their parts are, and different classes
differ, also inside of collections. -/
theorem sameType_structural (t : TypeTable) (ht : t.Built) :
    (∀ a b, t.Registered a → t.Registered b →
      (t.sameType a b = true ↔ ∃ x, t.Unfolds a x ∧ t.Unfolds b x)) ∧
    Equivalence (fun a b : { id // t.Registered id } => t.sameType a b = true) ∧
    (∀ a b e g, t.form? a = some (.array e) → t.form? b = some (.array g) →
      (t.sameType a b = true ↔ t.sameType e g = true)) ∧
    (∀ a b k l v w, t.form? a = some (.dictionary k v) → t.form? b = some (.dictionary l w) →
      (t.sameType a b = true ↔ t.sameType k l = true ∧ t.sameType v w = true)) ∧
    (∀ a b c d m n, t.form? a = some (.object c m) → t.form? b = some (.object d n) →
      (t.sameType a b = true ↔ c = d)) ∧
    (∀ a b x y, t.Unfolds a x → t.Unfolds b y → t.sameType a b = true → x.leaves = y.leaves) := by
  have hw := ht.wellFormed
  refine ⟨fun a b ha hb => ?_, hw.sameType_equivalence, fun _ _ _ _ => hw.sameType_array,
    fun _ _ _ _ _ _ => hw.sameType_dictionary, fun _ _ _ _ _ _ => hw.sameType_object,
    fun a b x y hx hy h => ?_⟩
  · obtain ⟨x, hx⟩ := hw.exists_unfolds ha
    obtain ⟨y, hy⟩ := hw.exists_unfolds hb
    rw [hw.sameType_iff hx hy]
    exact ⟨fun h => ⟨x, hx, h ▸ hy⟩, fun ⟨z, hxz, hyz⟩ => by rw [hx.unique hxz, hy.unique hyz]⟩
  · rw [hw.sameType_iff hx hy] at h
    rw [h]

/-- Arrays of two classes, both of them called `]:[#0`. -/
def namesakes : TypeTable :=
  (((({} : TypeTable).addClass "]:[#0").addClass "]:[#0").add (.array ⟨1000⟩)).add (.array ⟨1001⟩)

theorem sameType_structural_namesakes :
    namesakes.Built ∧ namesakes.sameType ⟨1002⟩ ⟨1003⟩ = false := by
  have hb : namesakes.Built := .array (.array (.cls (.cls .empty _) _) ⟨_, rfl⟩) ⟨_, rfl⟩
  refine ⟨hb, Bool.eq_false_iff.mpr fun h => ?_⟩
  obtain ⟨-, -, harray, -, hobject, -⟩ := sameType_structural namesakes hb
  have hparts := (harray ⟨1002⟩ ⟨1003⟩ ⟨1000⟩ ⟨1001⟩ rfl rfl).mp h
  have hclasses := (hobject ⟨1000⟩ ⟨1001⟩ ⟨0⟩ ⟨1⟩ _ _ rfl rfl).mp hparts
  exact absurd hclasses (by decide)

end MiddleEnd.TypeTable
