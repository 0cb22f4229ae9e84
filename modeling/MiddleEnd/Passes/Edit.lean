/-!
Edits: a value together with the report whether it was changed.
-/

namespace MiddleEnd

structure Edit (α : Type) where
  value : α
  changed : Bool

namespace Edit

variable {α β : Type}

def keep (a : α) : Edit α := ⟨a, false⟩

def replace (a : α) : Edit α := ⟨a, true⟩

/-- A sequence of edits has changed something if one of them has. -/
instance : Monad Edit where
  pure := keep
  bind x f := ⟨(f x.value).value, x.changed || (f x.value).changed⟩

@[simp] theorem pure_value (a : α) : (pure a : Edit α).value = a := rfl
@[simp] theorem pure_changed (a : α) : (pure a : Edit α).changed = false := rfl

@[simp] theorem bind_value (x : Edit α) (f : α → Edit β) :
    (x >>= f).value = (f x.value).value := rfl

@[simp] theorem bind_changed (x : Edit α) (f : α → Edit β) :
    (x >>= f).changed = (x.changed || (f x.value).changed) := rfl

@[simp] theorem map_value (f : α → β) (x : Edit α) : (f <$> x).value = f x.value := rfl

@[simp] theorem map_changed (f : α → β) (x : Edit α) : (f <$> x).changed = x.changed := by
  show (x.changed || false) = x.changed
  simp

instance : LawfulMonad Edit :=
  LawfulMonad.mk' Edit
    (fun x => by
      show Edit.mk x.value (x.changed || false) = x
      simp)
    (fun a f => by
      show Edit.mk (f a).value (false || (f a).changed) = f a
      simp)
    (fun x f g => by
      show Edit.mk _ _ = Edit.mk _ _
      simp [Bool.or_assoc])

end Edit
end MiddleEnd
