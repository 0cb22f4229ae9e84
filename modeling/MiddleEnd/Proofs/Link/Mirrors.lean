import MiddleEnd.Proofs.Link.Rules

/-!
Runs side by side. A step is mirrored by another if, whenever the first succeeds on the left, the
other succeeds on the right and the two sessions stay linked. Functions may be dropped on the right
that are never used as functions on the left; and where the law is lax, the right may complain that
a function does not return.
-/

namespace MiddleEnd

variable {α β γ δ : Type}

/-- What two runs side by side may differ in. -/
structure Law where
  /-- Returns may get lost. -/
  lax : Prop
  /-- The functions of the root scope that are only on the left. -/
  dropped : String → Prop
  /-- The members of classes are not linked. -/
  apart : Prop

variable {L : Law} {σ τ : Session}

/-- What may be linked anew: classes with all that is known of them, unless members stay apart. -/
structure Law.Allows (L : Law) (δ : Link) : Prop where
  whole : ¬L.apart → δ.Whole
  apart : ∀ {c n x}, L.apart → ¬δ (.member c n) x

lemma Law.allows_of_no_class {δ : Link} (hcls : ∀ {c c'}, ¬δ.cls c c')
    (hmember : ∀ {c n x}, ¬δ (.member c n) x) : L.Allows δ :=
  ⟨fun _ => Link.whole_of_no_class hcls, fun _ => hmember⟩

/-- The functions that are only on the left have not been called so far, and their names have not
been used for anything else. -/
structure Law.Clean (L : Law) (σ : Session) : Prop where
  calls : ∀ {n b}, L.dropped n → σ.scopes.bindingAt? n .root = some b → n ∉ σ.callSites
  names : ∀ {n b}, L.dropped n → σ.scopes.bindingAt? n .root = some b →
    ∃ signature, b.kind = .function signature

lemma Law.Clean.before (hτ : L.Clean τ) (h : σ.Later τ) : L.Clean σ where
  calls hn hb hmem := hτ.calls hn (h.scopes.bindingAt? hb) (h.calls hmem)
  names hn hb := hτ.names hn (h.scopes.bindingAt? hb)

/-! ### How worlds go on -/

namespace World

variable {w υ ω : World L.lax}

/-- One world has come out of another: the link has got more cells, which are new on both sides.
Where returns may get lost, this is asked only of what cells refer to; but names of the root scope
are not linked anew in any case. Classes are linked anew with all that is known of them. -/
structure Advance (L : Law) (w υ : World L.lax) : Prop where
  link : ∀ {c c'}, w.link c c' → υ.link c c'
  new : ∀ {c c'}, υ.link c c' → (c.isFirm = true ∨ ¬L.lax) →
    w.link c c' ∨ c.Absent w.left ∧ c'.Absent w.right
  root : ∀ {n c'}, υ.link (.name .root n) c' → w.link (.name .root n) c'
  whole : ∀ {c c'}, ¬L.apart → υ.link.cls c c' → w.link.cls c c' ∨
    υ.link (.constructors c) (.constructors c') ∧ ∀ n, υ.link (.member c n) (.member c' n)
  apart : ∀ {c n x}, L.apart → υ.link (.member c n) x → w.link (.member c n) x
  left : w.left.Later υ.left
  right : w.right.Later υ.right

namespace Advance

lemma refl (w : World L.lax) : w.Advance L w :=
  ⟨id, fun h _ => Or.inl h, id, fun _ => Or.inl, fun _ => id, .refl _, .refl _⟩

lemma trans (h : w.Advance L υ) (h' : υ.Advance L ω) : w.Advance L ω where
  link hc := h'.link (h.link hc)
  new hc hfirm := by
    rcases h'.new hc hfirm with hc | ⟨hc, hc'⟩
    · exact h.new hc hfirm
    · exact Or.inr ⟨hc.before h.left, hc'.before h.right⟩
  root hc := h.root (h'.root hc)
  whole hL hc := by
    rcases h'.whole hL hc with hc | hwhole
    · exact (h.whole hL hc).imp_right fun ⟨hk, hm⟩ => ⟨h'.link hk, fun n => h'.link (hm n)⟩
    · exact Or.inr hwhole
  apart hL hc := h.apart hL (h'.apart hL hc)
  left := h.left.trans h'.left
  right := h.right.trans h'.right

lemma full (h : w.Advance L υ) (hL : ¬L.apart) (hw : w.Full) : υ.Full where
  constructors hc := (h.whole hL hc).elim (fun hc => h.link (hw.constructors hc)) And.left
  members n hc := (h.whole hL hc).elim (fun hc => h.link (hw.members n hc)) fun hwhole => hwhole.2 n

lemma within (h : w.Advance L υ) : w.link.Within υ.link := fun _ => h.link

lemma typed (h : w.Advance L υ) {e e' : Expr} (he : w.Typed e e') : υ.Typed e e' := h.link he

end Advance

/-- Only the left session has gone on, and nothing has changed that is linked. -/
def onLeft (w : World L.lax) {Φ : Cell → Prop} (hΦ : ∀ {c c'}, w.link c c' → ¬Φ c)
    (h : w.left.Continues Φ τ) : World L.lax where
  link := w.link
  left := τ
  right := w.right
  leftOrdered := h.assembled
  rightOrdered := w.rightOrdered
  unique := w.unique
  basic := w.basic
  agree hc :=
    have hright : w.right.Continues (fun _ => False) w.right := w.rightOrdered.stay
    (w.agree hc).stay h hright (hΦ hc) id

lemma advance_onLeft {Φ : Cell → Prop} (hΦ : ∀ {c c'}, w.link c c' → ¬Φ c)
    (h : w.left.Continues Φ τ) (hτ : w.left.Later τ) : w.Advance L (w.onLeft hΦ h) :=
  ⟨id, fun h _ => Or.inl h, id, fun _ => Or.inl, fun _ => id, hτ, .refl _⟩

end World

/-! ### Steps -/

/-- The step fails because a function does not return. -/
def Misses (y : Check β) (σ : Session) : Prop :=
  ∃ name type span, (y.run.run σ).1 = .error (.user (.missingReturn name type) span)

lemma Misses.bind {y : Check β} {l : β → Check δ} (h : Misses y σ) : Misses (y >>= l) σ := by
  obtain ⟨name, type, span, h⟩ := h
  exact ⟨name, type, span, Fails.bind h⟩

lemma Misses.after {y : Check β} {l : β → Check δ} {b : β} (hy : Gives y σ b τ)
    (h : Misses (l b) τ) : Misses (y >>= l) σ := by
  obtain ⟨name, type, span, h⟩ := h
  exact ⟨name, type, span, Fails.after hy h⟩

variable {base w : World L.lax}

/-- Whenever the first step succeeds on the left, the second one succeeds on the right, and a world
comes out that the base world leads to. -/
def MirrorsFrom (L : Law) (base : World L.lax) (x : Check α) (y : Check β) (w : World L.lax)
    (post : α → β → World L.lax → Prop) : Prop :=
  base.Advance L w → ∀ {a τ}, Gives x w.left a τ → L.Clean τ →
    (∃ b υ, υ.left = τ ∧ Gives y w.right b υ.right ∧ base.Advance L υ ∧ post a b υ) ∨
      L.lax ∧ Misses y w.right

abbrev Mirrors (L : Law) (x : Check α) (y : Check β) (w : World L.lax)
    (post : α → β → World L.lax → Prop) : Prop :=
  MirrorsFrom L w x y w post

namespace MirrorsFrom

variable {x : Check α} {y : Check β} {k : α → Check γ} {l : β → Check δ}
  {post : α → β → World L.lax → Prop} {goal : γ → δ → World L.lax → Prop}

/-- Where no returns get lost, a step that is mirrored succeeds. -/
lemma strict (h : Mirrors L x y w post) (hL : ¬L.lax) {a : α} {τ : Session}
    (ha : Gives x w.left a τ) (hclean : L.Clean τ) :
    ∃ b υ, υ.left = τ ∧ Gives y w.right b υ.right ∧ w.Advance L υ ∧ post a b υ :=
  (h (.refl w) ha hclean).resolve_right fun hmiss => hL hmiss.1

lemma pure {a : α} {b : β} (h : post a b w) :
    MirrorsFrom L base (Pure.pure a) (Pure.pure b) w post := by
  intro hbase a' τ ha _
  obtain ⟨rfl, rfl⟩ := gives_pure.mp ha
  exact Or.inl ⟨b, w, rfl, gives_pure.mpr ⟨rfl, rfl⟩, hbase, h⟩

/-- The first step leads on from a world between the base world and the one that it starts in. -/
lemma bind_from {mid : World L.lax} [hk : ∀ a, Traced True True (k a)]
    (hx : MirrorsFrom L mid x y w post)
    (hmid : base.Advance L w → base.Advance L mid ∧ mid.Advance L w)
    (hgoal : ∀ a b υ, mid.Advance L υ → post a b υ → MirrorsFrom L base (k a) (l b) υ goal) :
    MirrorsFrom L base (x >>= k) (y >>= l) w goal := by
  intro hbase c τ hc hclean
  obtain ⟨hmid, hw⟩ := hmid hbase
  obtain ⟨a, σ, ha, hc⟩ := gives_bind.mp hc
  rcases hx hw ha (hclean.before ((hk a).later hc)) with
    ⟨b, υ, rfl, hb, hυ, hpost⟩ | ⟨hlax, hmiss⟩
  · rcases hgoal a b υ hυ hpost (hmid.trans hυ) hc hclean with
      ⟨d, ω, hω, hd, hadvance, hgoal⟩ | ⟨hlax, hmiss⟩
    · exact Or.inl ⟨d, ω, hω, gives_bind.mpr ⟨b, υ.right, hb, hd⟩, hadvance, hgoal⟩
    · exact Or.inr ⟨hlax, hmiss.after hb⟩
  · exact Or.inr ⟨hlax, hmiss.bind⟩

lemma bind [∀ a, Traced True True (k a)] (hx : Mirrors L x y w post)
    (hgoal : ∀ a b υ, w.Advance L υ → post a b υ → MirrorsFrom L base (k a) (l b) υ goal) :
    MirrorsFrom L base (x >>= k) (y >>= l) w goal :=
  hx.bind_from (fun hbase => ⟨hbase, .refl w⟩) hgoal

/-- The first step need not lead on from the world that it starts in. -/
lemma bind_base [∀ a, Traced True True (k a)] (hx : MirrorsFrom L base x y w post)
    (hgoal : ∀ a b υ, base.Advance L υ → post a b υ → MirrorsFrom L base (k a) (l b) υ goal) :
    MirrorsFrom L base (x >>= k) (y >>= l) w goal :=
  hx.bind_from (fun hbase => ⟨.refl base, hbase⟩) hgoal

/-- What leads on from a later world leads on from an earlier one. -/
lemma rebase {mid : World L.lax} (hx : MirrorsFrom L mid x y w post) (hmid : base.Advance L mid)
    (hw : mid.Advance L w) : MirrorsFrom L base x y w post := by
  intro _ a τ ha hclean
  rcases hx hw ha hclean with ⟨b, υ, hυ, hb, hadvance, hpost⟩ | hmiss
  · exact Or.inl ⟨b, υ, hυ, hb, hmid.trans hadvance, hpost⟩
  · exact Or.inr hmiss

/-- The outcomes are those of the two steps. -/
lemma with_gives (hx : MirrorsFrom L base x y w post) :
    MirrorsFrom L base x y w fun a b υ =>
      Gives x w.left a υ.left ∧ Gives y w.right b υ.right ∧ post a b υ := by
  intro hbase a τ ha hclean
  rcases hx hbase ha hclean with ⟨b, υ, rfl, hb, hadvance, hpost⟩ | hmiss
  · exact Or.inl ⟨b, υ, rfl, hb, hadvance, ha, hb, hpost⟩
  · exact Or.inr hmiss

/-- What remains to be done changes neither the sessions nor the outcome. -/
lemma bind_pure {f : α → γ} {g : β → δ} (hx : Mirrors L x y w post)
    (hgoal : ∀ a b υ, w.Advance L υ → post a b υ → goal (f a) (g b) υ) :
    MirrorsFrom L base (x >>= fun a => Pure.pure (f a)) (y >>= fun b => Pure.pure (g b)) w goal :=
  hx.bind fun a b υ hυ h => .pure (hgoal a b υ hυ h)

lemma map {f : α → γ} {g : β → δ} (hx : Mirrors L x y w post)
    (hgoal : ∀ a b υ, w.Advance L υ → post a b υ → goal (f a) (g b) υ) :
    MirrorsFrom L base (f <$> x) (g <$> y) w goal := by
  rw [map_eq_pure_bind, map_eq_pure_bind]
  exact hx.bind_pure hgoal

lemma mono {post' : α → β → World L.lax → Prop} (hx : Mirrors L x y w post)
    (h : ∀ a b υ, w.Advance L υ → post a b υ → post' a b υ) :
    MirrorsFrom L base x y w post' := by
  intro hbase a τ ha hclean
  rcases hx (.refl w) ha hclean with ⟨b, υ, hυ, hb, hadvance, hpost⟩ | hmiss
  · exact Or.inl ⟨b, υ, hυ, hb, hbase.trans hadvance, h a b υ hadvance hpost⟩
  · exact Or.inr hmiss

lemma last (hx : Mirrors L x y w post) : MirrorsFrom L base x y w post :=
  hx.mono fun _ _ _ _ h => h

/-- Nothing is to be shown of runs that do not end clean. -/
lemma absurd (h : ∀ a τ, Gives x w.left a τ → ¬L.Clean τ) : MirrorsFrom L base x y w post :=
  fun _ _ _ ha hclean => (h _ _ ha hclean).elim

lemma misses (hlax : L.lax) (h : Misses y w.right) : MirrorsFrom L base x y w post :=
  fun _ _ _ _ _ => Or.inr ⟨hlax, h⟩

lemma throw {f : Fault} : MirrorsFrom L base (MonadExcept.throw f) y w post :=
  .absurd fun _ _ ha => (gives_throw.mp ha).elim

/-- A run that ends clean has been so from its beginning. -/
lemma with_clean [hx : Traced True True x] (h : L.Clean w.left → MirrorsFrom L base x y w post) :
    MirrorsFrom L base x y w post :=
  fun hbase _ _ ha hclean => h (hclean.before (hx.later ha)) hbase ha hclean

lemma rule {r : Except Fault α} {r' : Except Fault β}
    (h : ∀ a, r = .ok a → ∃ b, r' = .ok b ∧ post a b w) :
    MirrorsFrom L base (Check.rule r) (Check.rule r') w post := by
  intro hbase a τ ha _
  obtain ⟨hr, rfl⟩ := Check.gives_rule.mp ha
  obtain ⟨b, hb, hpost⟩ := h a hr
  exact Or.inl ⟨b, w, rfl, Check.gives_rule.mpr ⟨hb, rfl⟩, hbase, hpost⟩

lemma bind_rule {r : Except Fault α} {r' : Except Fault β}
    (h : ∀ a, r = .ok a → ∃ b, r' = .ok b ∧ MirrorsFrom L base (k a) (l b) w goal) :
    MirrorsFrom L base (Check.rule r >>= k) (Check.rule r' >>= l) w goal := by
  cases r with
  | error f =>
    intro _ a τ ha
    cases ha
  | ok a =>
    obtain ⟨b, rfl, hgoal⟩ := h a rfl
    exact hgoal

lemma bind_check {r r' : Except Fault Unit} {k : Unit → Check γ} {l : Unit → Check δ}
    (h : r = .ok () → r' = .ok ()) (hgoal : r = .ok () → MirrorsFrom L base (k ()) (l ()) w goal) :
    MirrorsFrom L base (Check.rule r >>= k) (Check.rule r' >>= l) w goal :=
  bind_rule fun _ hr => ⟨(), h hr, hgoal hr⟩

lemma bind_types {k : TypeTable → Check γ} {l : TypeTable → Check δ}
    (h : MirrorsFrom L base (k w.left.types) (l w.right.types) w goal) :
    MirrorsFrom L base (Check.types >>= k) (Check.types >>= l) w goal := h

lemma bind_scopes {k : Scopes → Check γ} {l : Scopes → Check δ}
    (h : MirrorsFrom L base (k w.left.scopes) (l w.right.scopes) w goal) :
    MirrorsFrom L base (Check.scopes >>= k) (Check.scopes >>= l) w goal := h

lemma bind_registered {h : Option α} {h' : Option β} {name name' : String} {span span' : Span}
    (hk : ∀ a, h = some a → ∃ b, h' = some b ∧ MirrorsFrom L base (k a) (l b) w goal) :
    MirrorsFrom L base (Check.registered h name span >>= k) (Check.registered h' name' span' >>= l)
      w goal := by
  cases h with
  | none =>
    intro _ a τ ha
    cases ha
  | some a =>
    obtain ⟨b, rfl, hgoal⟩ := hk a rfl
    exact hgoal

/-- A step on the left only, which changes nothing that is linked. -/
lemma bind_left [hx' : Traced True True x] {y : Check δ} {Φ : Cell → Prop}
    {done : α → Session → Prop}
    (hΦ : ∀ {c c'}, w.link c c' → ¬Φ c) (hx : Leads (Session.Continues Φ) x w.left done)
    (hgoal : ∀ a τ (h : w.left.Continues Φ τ), w.left.Later τ → done a τ →
      MirrorsFrom L base (k a) y (w.onLeft hΦ h) goal) :
    MirrorsFrom L base (x >>= k) y w goal := by
  intro hbase c τ hc hclean
  obtain ⟨a, σ, ha, hc⟩ := gives_bind.mp hc
  have hσ := hx.changes_of_gives ha
  have hlater := hx'.later ha
  exact hgoal a σ hσ hlater (hx.result ha)
    (hbase.trans (World.advance_onLeft hΦ hσ hlater)) hc hclean

lemma bind_left_rule {r : Except Fault α} {y : Check δ}
    (h : ∀ a, r = .ok a → MirrorsFrom L base (k a) y w goal) :
    MirrorsFrom L base (Check.rule r >>= k) y w goal := by
  cases r with
  | error f =>
    intro _ a τ ha
    cases ha
  | ok a => exact h a rfl

end MirrorsFrom

end MiddleEnd
