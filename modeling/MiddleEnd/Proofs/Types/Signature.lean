import Mathlib.Data.List.Infix
import MiddleEnd.Types.Shape

/-!
Signatures form a suffix code. Class names are written without any quoting, so a signature may
contain brackets, colons and digits that do not belong to its structure; but read from the right
it can only be taken apart in one way, as long as every class has a single name.
-/

namespace MiddleEnd.Shape

/-- The characters of the signature. -/
def letters (s : Shape) : List Char := s.signature.toList

@[simp] lemma letters_object (c : ClassId) (name : String) :
    (object c name).letters = name.toList ++ '#' :: Nat.toDigits 10 c.index := by
  simp only [letters, signature, String.toList_append]
  show name.toList ++ ['#'] ++ c.index.repr.toList = _
  rw [Nat.toList_repr, List.append_assoc, List.singleton_append]

@[simp] lemma letters_array (e : Shape) : (array e).letters = '[' :: e.letters ++ [']'] := by
  simp [letters, signature]

@[simp] lemma letters_dictionary (k v : Shape) :
    (dictionary k v).letters = '\x7b' :: (k.letters ++ ':' :: v.letters) ++ ['\x7d'] := by
  simp [letters, signature]

/-- All classes in a shape bear the name given to them, and all its types are known. -/
def Named (name : ClassId → Option String) : Shape → Prop
  | .number | .string | .boolean | .null | .any => True
  | .object c n => name c = some n
  | .unknown _ => False
  | .array e => e.Named name
  | .dictionary k v => k.Named name ∧ v.Named name

/-- What the last character of a signature tells about a shape; all digits tell the same. -/
def ending : Shape → Char
  | .number => 'r'
  | .string => 'g'
  | .boolean => 'n'
  | .null => 'l'
  | .any => 'y'
  | .object .. | .unknown _ => '0'
  | .array _ => ']'
  | .dictionary .. => '\x7d'

/-- A character without its value, if it is a digit. -/
def blur (c : Char) : Char := if c.isDigit then '0' else c

lemma blur_getLast_toDigits (n : ℕ) :
    ∃ c, (Nat.toDigits 10 n).getLast? = some c ∧ blur c = '0' := by
  have hne : Nat.toDigits 10 n ≠ [] := Nat.toDigits_ne_nil
  refine ⟨(Nat.toDigits 10 n).getLast hne, List.getLast?_eq_some_getLast hne, ?_⟩
  have hd := Nat.isDigit_of_mem_toDigits (by decide) (by decide) (List.getLast_mem hne)
  simp [blur, hd]

lemma exists_getLast (s : Shape) : ∃ c, s.letters.getLast? = some c ∧ blur c = s.ending := by
  cases s with
  | number => exact ⟨'r', by decide, by decide⟩
  | string => exact ⟨'g', by decide, by decide⟩
  | boolean => exact ⟨'n', by decide, by decide⟩
  | null => exact ⟨'l', by decide, by decide⟩
  | any => exact ⟨'y', by decide, by decide⟩
  | object c name =>
    obtain ⟨d, hd, hb⟩ := blur_getLast_toDigits c.index
    refine ⟨d, ?_, hb⟩
    rw [letters_object, List.getLast?_append, List.getLast?_cons, hd]
    rfl
  | unknown id =>
    obtain ⟨d, hd, hb⟩ := blur_getLast_toDigits id.index
    refine ⟨d, ?_, hb⟩
    have : (unknown id).letters = '?' :: Nat.toDigits 10 id.index := by
      simp only [letters, signature, String.toList_append]
      show [] ++ ['?'] ++ id.index.repr.toList = _
      rw [Nat.toList_repr]
      rfl
    rw [this, List.getLast?_cons, hd]
    rfl
  | array e =>
    refine ⟨']', ?_, rfl⟩
    rw [letters_array, List.getLast?_append]
    rfl
  | dictionary k v =>
    refine ⟨'\x7d', ?_, rfl⟩
    rw [letters_dictionary, List.getLast?_append]
    rfl

/-- One of two words ends with the other. -/
def Comparable (u v : List Char) : Prop := u <:+ v ∨ v <:+ u

lemma Comparable.of_append {p q u v : List Char} (h : Comparable (p ++ u) (q ++ v)) :
    Comparable u v := by
  rcases h with h | h
  · exact List.suffix_or_suffix_of_suffix ((List.suffix_append p u).trans h)
      (List.suffix_append q v)
  · exact List.suffix_or_suffix_of_suffix (List.suffix_append p u)
      ((List.suffix_append q v).trans h)

lemma Comparable.cancel {u v r : List Char} (h : Comparable (u ++ r) (v ++ r)) :
    Comparable u v := by
  unfold Comparable at h
  rwa [List.suffix_append_self_iff, List.suffix_append_self_iff] at h

lemma ending_eq {a b : Shape} (h : Comparable a.letters b.letters) : a.ending = b.ending := by
  obtain ⟨c, hc, hca⟩ := exists_getLast a
  obtain ⟨d, hd, hdb⟩ := exists_getLast b
  have hcd : c = d := by
    rw [← List.singleton_suffix_iff_getLast?_eq_some] at hc hd
    rcases h with h | h
    · have := List.singleton_suffix_iff_getLast?_eq_some.mp (hc.trans h)
      rw [List.singleton_suffix_iff_getLast?_eq_some, this] at hd
      exact Option.some.inj hd
    · have := List.singleton_suffix_iff_getLast?_eq_some.mp (hd.trans h)
      rw [List.singleton_suffix_iff_getLast?_eq_some, this] at hc
      exact (Option.some.inj hc).symm
  rw [← hca, ← hdb, hcd]

lemma comparable_of_array {e f : Shape} (h : Comparable (array e).letters (array f).letters) :
    Comparable e.letters f.letters := by
  rw [letters_array, letters_array] at h
  exact Comparable.of_append (p := ['[']) (q := ['[']) h.cancel

lemma comparable_values {k v l w : Shape}
    (h : Comparable (dictionary k v).letters (dictionary l w).letters) :
    Comparable v.letters w.letters := by
  rw [letters_dictionary, letters_dictionary] at h
  have h' := h.cancel
  rw [← List.cons_append, ← List.cons_append] at h'
  rw [List.append_cons, List.append_cons _ _ w.letters] at h'
  exact h'.of_append

lemma comparable_keys {k l v : Shape}
    (h : Comparable (dictionary k v).letters (dictionary l v).letters) :
    Comparable k.letters l.letters := by
  rw [letters_dictionary, letters_dictionary] at h
  have h' := h.cancel
  rw [← List.cons_append, ← List.cons_append] at h'
  exact Comparable.of_append (p := ['\x7b']) (q := ['\x7b']) h'.cancel

/-- The last `#` of a class signature is the one before the number of the class, since no digit
is one. -/
lemma eq_of_comparable_object {c d : ClassId} {m n : String}
    (h : Comparable (object c m).letters (object d n).letters) : c = d := by
  have sharp (i : ℕ) : '#' ∉ Nat.toDigits 10 i := fun hm =>
    absurd (Nat.isDigit_of_mem_toDigits (by decide) (by decide) hm) (by decide)
  have key {i j : ℕ} (hs : '#' :: Nat.toDigits 10 i <:+ '#' :: Nat.toDigits 10 j) : i = j := by
    rcases List.suffix_cons_iff.mp hs with he | hs'
    · rw [← Nat.ofDigitChars_ten_toDigits (n := i), ← Nat.ofDigitChars_ten_toDigits (n := j),
        List.tail_eq_of_cons_eq he]
    · exact absurd (hs'.subset List.mem_cons_self) (sharp j)
  rw [letters_object, letters_object] at h
  obtain ⟨i⟩ := c
  obtain ⟨j⟩ := d
  rcases h.of_append with h' | h'
  · exact congrArg ClassId.mk (key h')
  · exact congrArg ClassId.mk (key h').symm

/-- **Signatures form a suffix code**: among shapes that name their classes alike, no signature
ends with another one. -/
theorem eq_of_comparable {name : ClassId → Option String} {a b : Shape} (ha : a.Named name)
    (hb : b.Named name) (h : Comparable a.letters b.letters) : a = b := by
  have he := ending_eq h
  induction a generalizing b with
  | number =>
    cases b with
    | number => rfl
    | _ => simp [ending] at he
  | string =>
    cases b with
    | string => rfl
    | _ => simp [ending] at he
  | boolean =>
    cases b with
    | boolean => rfl
    | _ => simp [ending] at he
  | null =>
    cases b with
    | null => rfl
    | _ => simp [ending] at he
  | any =>
    cases b with
    | any => rfl
    | _ => simp [ending] at he
  -- a shape with names has no unknown parts
  | unknown id => exact ha.elim
  | object c m =>
    cases b with
    | object d n =>
      obtain rfl := eq_of_comparable_object h
      have hmn : some m = some n := ha.symm.trans hb
      rw [Option.some.inj hmn]
    | unknown id => exact hb.elim
    | _ => exact absurd he (by simp [ending])
  | array e ih =>
    cases b with
    | array f =>
      -- the brackets are the same, so the elements are comparable
      have hc := comparable_of_array h
      rw [ih (b := f) ha hb hc (ending_eq hc)]
    | _ => exact absurd he (by simp [ending])
  | dictionary k v ihk ihv =>
    cases b with
    | dictionary l w =>
      -- the values stand at the end and come first
      have hv := comparable_values h
      obtain rfl := ihv ha.2 hb.2 hv (ending_eq hv)
      have hk := comparable_keys h
      rw [ihk ha.1 hb.1 hk (ending_eq hk)]
    | _ => exact absurd he (by simp [ending])

/-- Among shapes that name their classes alike, a signature belongs to one shape. -/
theorem signature_inj {name : ClassId → Option String} {a b : Shape} (ha : a.Named name)
    (hb : b.Named name) : a.signature = b.signature ↔ a = b := by
  refine ⟨fun h => eq_of_comparable ha hb (Or.inl ?_), fun h => h ▸ rfl⟩
  rw [letters, letters, h]

end MiddleEnd.Shape
