import MiddleEnd.Proofs.Link.Steps

/-!
Steps that only the left takes. Statements that are missing on the right are looked at on the left
alone: they may declare names and open scopes of their own, and where returns get lost they may give
back from the functions around them; but nothing changes that is linked.
-/

namespace MiddleEnd

variable {α β γ δ : Type} {L : Law} {base w υ : World L.lax} {scope scope' : ScopeId}

namespace World

/-- No name of the scope is linked. -/
def Hides (w : World L.lax) (scope : ScopeId) : Prop := ∀ n c', ¬w.link (.name scope n) c'

lemma hides_of_absent (h : w.left.scopes.scope? scope = none) : w.Hides scope :=
  fun _ _ hc => (w.agree hc).present.1 h

/-- What may change on the left alone: what is not linked. A class that is there is not opened
again. -/
def Beside (w : World L.lax) : Cell → Prop
  | .cls c | .constructors c | .body c => w.left.types.class? c = none
  | c => ∀ c', ¬w.link c c'

lemma not_beside {c c' : Cell} (h : w.link c c') : ¬w.Beside c := by
  have hpresent := (w.agree h).present.1
  cases c with
  | cls | constructors | body => exact hpresent
  | _ => exact fun hc => hc c' h

lemma room_beside (w : World L.lax) : w.left.Room w.Beside where
  settled hf _ h := (w.agree h).present.1 hf
  name _ hs _ h := (w.agree h).present.1 hs
  member _ hc _ h := (w.agree h).present.1 hc
  constructors hc := hc
  body hc := hc
  tidy _ hc _ h := (w.agree h).present.1 hc

/-- Where returns may get lost, nothing is said about them. -/
lemma returning_beside (hlax : L.lax) : w.left.Returning w.Beside scope := by
  refine fun f => Or.inl fun c' h => ?_
  cases w.agree h with
  | settled hstrict => exact hstrict hlax

lemma declaring_beside {n : String} (hname : ∀ c', ¬w.link (.name scope n) c')
    (hnot : w.left.NotBody scope) : w.left.Declaring w.Beside scope n := by
  refine ⟨hname, fun c => ?_⟩
  cases hc : w.left.types.class? c with
  | none => exact Or.inl fun c' h => (w.agree h).present.1 hc
  | some e => exact Or.inr ⟨e, rfl, hnot hc, fun hnone => nomatch hc.symm.trans hnone⟩

lemma open_beside (hlax : L.lax) (hnames : w.Hides scope) (hnot : w.left.NotBody scope) :
    w.left.Open w.Beside scope :=
  ⟨fun n => declaring_beside (hnames n) hnot, returning_beside hlax⟩

/-- The names of scopes that are left, and not needed any more, are left out of the link where
returns may get lost. -/
abbrev leaving (w : World L.lax) (ids : List ScopeId) : World L.lax :=
  w.without (fun c => L.lax ∧ ∃ id ∈ ids, ∃ n, c = .name id n) (by rintro _ ⟨-, id, -, n, rfl⟩; rfl)

variable {ids : List ScopeId}

lemma hides_leaving (hlax : L.lax) (h : scope ∈ ids) : (w.leaving ids).Hides scope :=
  fun n _ hc => hc.2 ⟨hlax, scope, h, n, rfl⟩

lemma link_leaving {c c' : Cell} (h : w.link c c') (hc : L.lax → ∀ id ∈ ids, ∀ n, c ≠ .name id n) :
    (w.leaving ids).link c c' :=
  ⟨h, fun ⟨hlax, id, hid, n, hn⟩ => hc hlax id hid n hn⟩

/-- The names are linked in the world itself. -/
lemma advance_of_leaving (hroot : .root ∉ ids) : (w.leaving ids).Advance L w where
  link hc := hc.1
  new {c c'} hc hfirm := by
    refine Or.inl (link_leaving hc ?_)
    rintro hlax id - n rfl
    exact hfirm.elim nofun (absurd hlax)
  root hc := by
    refine link_leaving hc ?_
    rintro - id hid n ⟨⟩
    exact hroot hid
  whole _ hc := Or.inl (link_leaving hc nofun)
  apart _ hc := link_leaving hc nofun
  left := .refl _
  right := .refl _

/-- A world that hides the names anyway does not see that they are left out. -/
lemma Advance.leaving (h : base.Advance L w) (hbase : L.lax → ∀ id ∈ ids, base.Hides id) :
    base.Advance L (w.leaving ids) where
  link {c c'} hc := by
    refine link_leaving (h.link hc) ?_
    rintro hlax id hid n rfl
    exact hbase hlax id hid n c' hc
  new hc := h.new hc.1
  root hc := h.root hc.1
  whole hL hc := (h.whole hL hc.1).imp_right fun ⟨hk, hm⟩ =>
    ⟨link_leaving hk nofun, fun n => link_leaving (hm n) nofun⟩
  apart hL hc := h.apart hL hc.1
  left := h.left
  right := h.right

end World

namespace MirrorsFrom

variable {x : Check α} {k : α → Check γ} {y : Check δ} {done : α → Session → Prop}
  {goal : γ → δ → World L.lax → Prop}

lemma bind_beside [Traced True True x] (hx : Leads (Session.Continues w.Beside) x w.left done)
    (hgoal : ∀ a υ, w.Advance L υ → υ.link = w.link → done a υ.left →
      MirrorsFrom L base (k a) y υ goal) :
    MirrorsFrom L base (x >>= k) y w goal :=
  .bind_left World.not_beside hx fun a _ h hlater hdone =>
    hgoal a _ (World.advance_onLeft World.not_beside h hlater) rfl hdone

/-- A step that only the left takes, and nothing after it. -/
lemma beside [Traced True True x] {b : δ}
    (hx : Leads (Session.Continues w.Beside) x w.left done) :
    MirrorsFrom L base x (Pure.pure b) w fun a _ υ => υ.link = w.link ∧ done a υ.left := by
  rw [show x = x >>= Pure.pure by simp]
  exact .bind_beside hx fun _ _ _ hlink hdone => .pure ⟨hlink, hdone⟩

/-- The last step, which only the left takes. The names of scopes that are left then are not needed
any more. -/
lemma last_leaving [hx' : Traced True True x] {ids : List ScopeId} {b : β}
    (hbase : L.lax → ∀ id ∈ ids, base.Hides id)
    (hx : Leads (Session.Continues (w.leaving ids).Beside) x w.left done) :
    MirrorsFrom L base x (Pure.pure b) w fun _ _ _ => True := by
  intro hadvance a τ ha _
  have hτ := hx.changes_of_gives ha
  have hleft : (w.leaving ids).Advance L ((w.leaving ids).onLeft World.not_beside hτ) :=
    World.advance_onLeft World.not_beside hτ (hx'.later ha)
  exact Or.inl ⟨b, (w.leaving ids).onLeft World.not_beside hτ, rfl,
    gives_pure.mpr ⟨rfl, rfl⟩, (hadvance.leaving hbase).trans hleft, trivial⟩

end MirrorsFrom

end MiddleEnd
