import MiddleEnd.Proofs.Check.Used

/-!
Types are built from older ones, whatever a session has seen. So taking a type apart comes to an
end, and the texts written from types need no bound on their depth: each is written from the texts
of the parts, and no part is unknown.
-/

namespace MiddleEnd

namespace TypeForm

/-- The name of a form shown to users, given the names of its parts. -/
def display (names : TypeId → String) : TypeForm → String
  | .array e => "Array<" ++ names e ++ ">"
  | .dictionary k v => "Dictionary<" ++ names k ++ ", " ++ names v ++ ">"
  | f => f.name

/-- The text by which a form is compared, given the texts of its parts. -/
def signature (texts : TypeId → String) : TypeForm → String
  | .array e => "[" ++ texts e ++ "]"
  | .dictionary k v => "\x7b" ++ texts k ++ ":" ++ texts v ++ "\x7d"
  | .object c name => s!"{name}#{c.index}"
  | f => f.name

end TypeForm

namespace TypeTable

variable {t : TypeTable} {id : TypeId} {f : TypeForm}

/-- The first type is one of those that the second is built from. -/
def PartOf (t : TypeTable) (p id : TypeId) : Prop := ∃ f, t.form? id = some f ∧ p ∈ f.parts

lemma WellFormed.partOf_wellFounded (ht : t.WellFormed) : WellFounded t.PartOf := by
  refine Subrelation.wf ?_ (measure TypeId.index).wf
  rintro p id ⟨f, hf, hp⟩
  exact (ht.part_lt hf hp).2

lemma WellFormed.shape_array (ht : t.WellFormed) {e : TypeId} (hf : t.form? id = some (.array e)) :
    t.shape id = .array (t.shape e) := by
  obtain ⟨x, hx⟩ := ht.exists_unfolds (ht.part_lt hf (List.mem_singleton_self e)).1
  rw [(Unfolds.array hf hx).shape_eq ht, hx.shape_eq ht, TypeTree.shape]

lemma WellFormed.shape_dictionary (ht : t.WellFormed) {k v : TypeId}
    (hf : t.form? id = some (.dictionary k v)) :
    t.shape id = .dictionary (t.shape k) (t.shape v) := by
  obtain ⟨x, hx⟩ := ht.exists_unfolds (ht.part_lt hf (p := k) (by simp [TypeForm.parts])).1
  obtain ⟨y, hy⟩ := ht.exists_unfolds (ht.part_lt hf (p := v) (by simp [TypeForm.parts])).1
  rw [(Unfolds.dictionary hf hx hy).shape_eq ht, hx.shape_eq ht, hy.shape_eq ht, TypeTree.shape]

/-- The texts of a type are written from those of its parts, however deep it is. -/
lemma WellFormed.texts_eq (ht : t.WellFormed) (hf : t.form? id = some f) :
    t.display id = f.display t.display ∧ t.signature id = f.signature t.signature := by
  unfold display signature
  cases f with
  | array e =>
    rw [ht.shape_array hf]
    exact ⟨rfl, rfl⟩
  | dictionary k v =>
    rw [ht.shape_dictionary hf]
    exact ⟨rfl, rfl⟩
  | _ =>
    rw [(Unfolds.leaf hf rfl).shape_eq ht, TypeTree.shape, unfold, hf]
    exact ⟨rfl, rfl⟩

end TypeTable

/-- **The types of a session are acyclic**, whatever programs have been looked at in it and however
this ended. A collection is built from types that are there and older; the class of a type of
instances is there and knows the type, so that no two types belong to one class. Therefore the texts
of every type come to an end, they are written from the texts of its parts, and nothing in them is
unknown. -/
theorem types_acyclic (σ : Session) (hσ : σ.Used) :
    (∀ p id, σ.types.PartOf p id → σ.types.Registered p ∧ p.index < id.index) ∧
    (∀ id c name, σ.types.form? id = some (.object c name) →
      ∃ e, σ.types.class? c = some e ∧ e.type = id ∧ e.name = name) ∧
    (∀ a b c d m n, σ.types.form? a = some (.object c m) → σ.types.form? b = some (.object d n) →
      a ≠ b → c ≠ d) ∧
    WellFounded σ.types.PartOf ∧
    ∀ id f, σ.types.form? id = some f →
      σ.types.display id = f.display σ.types.display ∧
      σ.types.signature id = f.signature σ.types.signature ∧
      (σ.types.shape id).Named σ.types.className? := by
  have ht : σ.types.WellFormed := hσ.assembled.types.wellFormed
  refine ⟨?_, fun id c name => ht.object_form, ?_, ht.partOf_wellFounded, fun id f hf => ?_⟩
  · rintro p id ⟨f, hf, hp⟩
    exact ht.part_lt hf hp
  · rintro a b c d m n ha hb hne rfl
    obtain ⟨e, he, rfl, -⟩ := ht.object_form ha
    obtain ⟨e', he', rfl, -⟩ := ht.object_form hb
    cases he.symm.trans he'
    exact hne rfl
  · obtain ⟨x, hx⟩ := ht.exists_unfolds ⟨f, hf⟩
    obtain ⟨hdisplay, hsignature⟩ := ht.texts_eq hf
    exact ⟨hdisplay, hsignature, hx.shape_eq ht ▸ ht.named hx⟩

/-- A class with an index of its own instances, and a use of a name that nothing declares. -/
def catalogue : Program where
  stmts :=
    [.cls { name := "Card" }
      [.var { name := "index", annotation := some (.dictionary (.named "String" {})
        (.array (.named "Card" {}))) } none],
      .expr (.name {} "nowhere")]

/-- The types stay when the program fails. -/
theorem types_acyclic_catalogue :
    let σ := ((Check.program catalogue).on {}).2
    σ.Used ∧ ((Check.program catalogue).on {}).1.toBool = false ∧
      σ.types.form? ⟨1002⟩ = some (.dictionary .string ⟨1001⟩) ∧
      σ.types.form? ⟨1001⟩ = some (.array ⟨1000⟩) ∧
      σ.types.display ⟨1002⟩ = "Dictionary<" ++ σ.types.display .string ++ ", Array<" ++
        σ.types.display ⟨1000⟩ ++ ">>" := by
  intro σ
  have hused : σ.Used := .program (.new []) catalogue
  have hdictionary : σ.types.form? ⟨1002⟩ = some (.dictionary .string ⟨1001⟩) := by decide +kernel
  have harray : σ.types.form? ⟨1001⟩ = some (.array ⟨1000⟩) := by decide +kernel
  obtain ⟨-, -, -, -, htexts⟩ := types_acyclic σ hused
  refine ⟨hused, by decide +kernel, hdictionary, harray, ?_⟩
  rw [(htexts _ _ hdictionary).1, TypeForm.display, (htexts _ _ harray).1, TypeForm.display]
  simp only [String.append_assoc]
  rfl

end MiddleEnd
