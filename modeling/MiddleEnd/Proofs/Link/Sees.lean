import MiddleEnd.Proofs.Link.Mirrors

/-!
Places from which the same is seen. Two scopes see the same if they and the scopes around them are
linked with all their names, up to the functions of the root scope that are only on the left.
-/

namespace MiddleEnd

variable {L : Law} {w υ : World L.lax} {id id' : ScopeId} {n : String}

namespace Scopes

variable {σ : Session} {s : Scope} {p : ScopeId}

lemma chain_root (hσ : σ.Assembled) (hs : σ.scopes.scope? .root = some s) :
    σ.scopes.chain .root = [.root] := by
  have hparent : s.parent = none := by
    cases hp : s.parent with
    | none => rfl
    | some p => exact absurd (hσ.scopes.parents hs hp) (Nat.not_lt_zero _)
  rw [chain, hs]
  simp only [hparent]

lemma chain_inner (hσ : σ.Assembled) (hs : σ.scopes.scope? id = some s) (hp : s.parent = some p) :
    σ.scopes.chain id = id :: σ.scopes.chain p := by
  rw [chain, hs]
  simp only [hp]
  rw [if_pos (hσ.scopes.parents hs hp)]

lemma lookup_root (hσ : σ.Assembled) (hs : σ.scopes.scope? .root = some s) :
    σ.scopes.lookup .root n = σ.scopes.bindingAt? n .root := by
  rw [lookup, chain_root hσ hs, List.findSome?_singleton]

lemma lookup_inner (hσ : σ.Assembled) (hs : σ.scopes.scope? id = some s) (hp : s.parent = some p) :
    σ.scopes.lookup id n = (σ.scopes.bindingAt? n id).or (σ.scopes.lookup p n) := by
  rw [lookup, chain_inner hσ hs hp, List.findSome?_cons, lookup]
  cases σ.scopes.bindingAt? n id <;> rfl

lemma declaring?_root (hσ : σ.Assembled) (hs : σ.scopes.scope? .root = some s) :
    σ.scopes.declaring? .root n =
      if (σ.scopes.bindingAt? n .root).isSome then some .root else none := by
  rw [declaring?, chain_root hσ hs, List.find?_singleton]

lemma declaring?_inner (hσ : σ.Assembled) (hs : σ.scopes.scope? id = some s)
    (hp : s.parent = some p) : σ.scopes.declaring? id n =
      if (σ.scopes.bindingAt? n id).isSome then some id else σ.scopes.declaring? p n := by
  rw [declaring?, chain_inner hσ hs hp, List.find?_cons, declaring?]
  cases (σ.scopes.bindingAt? n id).isSome <;> rfl

end Scopes

/-- The scopes see the same. Where no returns get lost, the functions around them have given back
alike. -/
inductive World.Sees (L : Law) (w : World L.lax) : ScopeId → ScopeId → Prop
  | root {s : Scope} (hs : w.left.scopes.scope? .root = some s) (hframe : s.frame = none)
      (hscope : w.link.scope .root .root)
      (hnames : ∀ {n}, ¬L.dropped n → w.link (.name .root n) (.name .root n)) : Sees L w .root .root
  | inner {id id' p p' : ScopeId} {s s' : Scope} (hs : w.left.scopes.scope? id = some s)
      (hs' : w.right.scopes.scope? id' = some s') (hp : s.parent = some p)
      (hp' : s'.parent = some p')
      (hscope : w.link.scope id id') (hnames : ∀ n, w.link (.name id n) (.name id' n))
      (hsettled : ¬L.lax → ∀ {f f'}, s.frame = some f → s'.frame = some f' →
        w.link (.settled f) (.settled f'))
      (hparent : Sees L w p p') : Sees L w id id'

namespace World.Sees

/-- Nothing is lost from sight. -/
lemma transfer (hlink : ∀ {c c'}, w.link c c' → υ.link c c')
    (hl : w.left.scopes.Extends υ.left.scopes) (hr : w.right.scopes.Extends υ.right.scopes)
    (hsees : w.Sees L id id') : υ.Sees L id id' := by
  induction hsees with
  | root hs hframe hscope hnames =>
    obtain ⟨t, ht, hext⟩ := hl.scope? hs
    exact .root ht (hext.frame.trans hframe) (hlink hscope) fun hn => hlink (hnames hn)
  | inner hs hs' hp hp' hscope hnames hsettled _ ih =>
    obtain ⟨t, ht, hext⟩ := hl.scope? hs
    obtain ⟨t', ht', hext'⟩ := hr.scope? hs'
    refine .inner ht ht' (hext.parent.trans hp) (hext'.parent.trans hp') (hlink hscope)
      (fun n => hlink (hnames n)) (fun hstrict f f' hf hf' => hlink ?_) ih
    exact hsettled hstrict (hext.frame.symm.trans hf) (hext'.frame.symm.trans hf')

lemma mono (h : w.Advance L υ) (hsees : w.Sees L id id') : υ.Sees L id id' :=
  hsees.transfer h.link h.left.scopes h.right.scopes

lemma scope (h : w.Sees L id id') : w.link.scope id id' := by
  cases h with
  | root _ _ hscope _ => exact hscope
  | inner _ _ _ _ hscope => exact hscope

/-- A name may be declared on both sides, if it is not one of a function that the right lacks. -/
lemma name (h : w.Sees L id id') (n : String) :
    w.link (.name id n) (.name id' n) ∨ L.dropped n ∧ id = .root := by
  cases h with
  | root _ _ _ hnames =>
    by_cases hn : L.dropped n
    · exact Or.inr ⟨hn, rfl⟩
    · exact Or.inl (hnames hn)
  | inner _ _ _ _ _ hnames => exact Or.inl (hnames n)

lemma settled (h : w.Sees L id id') (hstrict : ¬L.lax) {s s' : Scope} {f f' : FrameId}
    (hs : w.left.scopes.scope? id = some s) (hs' : w.right.scopes.scope? id' = some s')
    (hf : s.frame = some f) (hf' : s'.frame = some f') : w.link (.settled f) (.settled f') := by
  cases h with
  | root ht hframe =>
    cases hs.symm.trans ht
    cases hf.symm.trans hframe
  | inner ht ht' _ _ _ _ hsettled =>
    cases hs.symm.trans ht
    cases hs'.symm.trans ht'
    exact hsettled hstrict hf hf'

lemma bindingAt? (h : w.link (.name id n) (.name id' n)) :
    Option.Rel (Binding.Linked w.link) (w.left.scopes.bindingAt? n id)
      (w.right.scopes.bindingAt? n id') := by
  cases w.agree h with
  | name _ hs hs' hb =>
    rw [Scopes.bindingAt?, hs, Scopes.bindingAt?, hs']
    exact hb

/-- A name that is seen on the left stands for the same on the right, or for a function that the
right lacks. -/
lemma lookup (h : w.Sees L id id') {b : Binding} (hb : w.left.scopes.lookup id n = some b) :
    (∃ b', w.right.scopes.lookup id' n = some b' ∧ b.Linked w.link b') ∨
      L.dropped n ∧ w.left.scopes.declaring? id n = some .root ∧
        w.left.scopes.bindingAt? n .root = some b := by
  induction h with
  | root hs _ hscope hnames =>
    obtain ⟨_, s', _, hs', _⟩ := w.scope hscope
    rw [Scopes.lookup_root w.leftOrdered hs] at hb
    rw [Scopes.declaring?_root w.leftOrdered hs, Scopes.lookup_root w.rightOrdered hs']
    by_cases hn : L.dropped n
    · exact Or.inr ⟨hn, by rw [hb]; rfl, hb⟩
    · exact Or.inl (Option.Rel.exists_of_some (bindingAt? (hnames hn)) hb)
  | inner hs hs' hp hp' _ hnames _ _ ih =>
    rw [Scopes.lookup_inner w.leftOrdered hs hp] at hb
    rw [Scopes.declaring?_inner w.leftOrdered hs hp, Scopes.lookup_inner w.rightOrdered hs' hp']
    have hn := bindingAt? (hnames n)
    rcases Option.or_eq_some_iff.mp hb with hb | ⟨hnone, hb⟩
    · obtain ⟨b', hb', hlinked⟩ := Option.Rel.exists_of_some hn hb
      exact Or.inl ⟨b', by rw [hb']; rfl, hlinked⟩
    · rw [hnone] at hn ⊢
      rw [Option.Rel.eq_none hn]
      exact ih hb

end World.Sees

end MiddleEnd
