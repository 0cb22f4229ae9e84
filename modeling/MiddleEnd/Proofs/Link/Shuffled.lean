import Mathlib.Data.List.Perm.Basic
import MiddleEnd.Proofs.Link.Steps

/-!
Steps in different orders. For each member of a list a step is taken on the left, and for the
related members of another list, which stand in an order of their own, steps are taken on the right.
If no step changes what belongs to another one, then each of them may be looked at from the sessions
in which it is taken on the two sides, and what all of them have linked fits together.
-/

namespace MiddleEnd

variable {α β α' β' γ γ' : Type}

/-! ### Lists in different orders -/

/-- The members of two lists are related one by one, in whatever order they stand. -/
def Shuffled (r : α → α' → Prop) (l : List α) (l' : List α') : Prop :=
  ∃ m, l.Perm m ∧ List.Forall₂ r m l'

namespace Shuffled

variable {r : α → α' → Prop} {q : γ → γ' → Prop} {l : List α} {l' : List α'}

lemma imp {s : α → α' → Prop} (h : Shuffled r l l') (hrs : ∀ a a', r a a' → s a a') :
    Shuffled s l l' := by
  obtain ⟨m, hperm, hm⟩ := h
  exact ⟨m, hperm, hm.imp hrs⟩

lemma map {f : α → γ} {g : α' → γ'} (h : Shuffled r l l') (hr : ∀ a a', r a a' → q (f a) (g a')) :
    Shuffled q (l.map f) (l'.map g) := by
  obtain ⟨m, hperm, hm⟩ := h
  refine ⟨m.map f, hperm.map f, ?_⟩
  rw [List.forall₂_map_left_iff, List.forall₂_map_right_iff]
  exact hm.imp hr

lemma filterMap {f : α → Option γ} {g : α' → Option γ'} (h : Shuffled r l l')
    (hr : ∀ a a', r a a' → Option.Rel q (f a) (g a')) :
    Shuffled q (l.filterMap f) (l'.filterMap g) := by
  obtain ⟨m, hperm, hm⟩ := h
  refine ⟨m.filterMap f, hperm.filterMap f, ?_⟩
  clear hperm
  induction hm with
  | nil => exact .nil
  | @cons a a' m l' ha _ ih =>
    rw [List.filterMap_cons, List.filterMap_cons]
    have hrel := hr a a' ha
    generalize f a = x at hrel
    generalize g a' = y at hrel
    cases hrel with
    | none => exact ih
    | some hxy => exact .cons hxy ih

lemma exists_of_mem (h : Shuffled r l l') {a' : α'} (ha' : a' ∈ l') : ∃ a ∈ l, r a a' := by
  obtain ⟨m, hperm, hm⟩ := h
  obtain ⟨a, ha, hr⟩ := exists_of_forall₂ hm.flip ha'
  exact ⟨a, hperm.mem_iff.mpr ha, hr⟩

/-- What the members of the lists have become is related, if that follows from how they are related
themselves. -/
lemma outputs {g : α → γ → Prop} {g' : α' → γ' → Prop} {bs : List γ} {bs' : List γ'}
    (h : Shuffled r l l') (hl : List.Forall₂ g l bs) (hl' : List.Forall₂ g' l' bs')
    (hq : ∀ {a a' b b'}, a ∈ l → a' ∈ l' → r a a' → g a b → g' a' b' → b ∈ bs → b' ∈ bs' → q b b') :
    Shuffled q bs bs' := by
  obtain ⟨m, hperm, hm⟩ := h
  obtain ⟨cs, hcs, hbs⟩ := List.perm_comp_forall₂ hperm.symm hl
  refine ⟨cs, hbs.symm, ?_⟩
  replace hq : ∀ {a a' b b'}, a ∈ m → a' ∈ l' → r a a' → g a b → g' a' b' → b ∈ cs → b' ∈ bs' →
      q b b' := fun ha ha' hr hb hb' hmem =>
    hq (hperm.mem_iff.mpr ha) ha' hr hb hb' (hbs.mem_iff.mp hmem)
  clear hperm hl hbs
  induction hm generalizing cs bs' with
  | nil =>
    cases hcs
    cases hl'
    exact .nil
  | cons ha _ ih =>
    cases hcs with
    | cons hb hcs =>
      cases hl' with
      | cons hb' hl' =>
        refine .cons (hq List.mem_cons_self List.mem_cons_self ha hb hb' List.mem_cons_self
          List.mem_cons_self) (ih hl' _ hcs fun ha ha' hr hb hb' hc hc' => ?_)
        exact hq (List.mem_cons_of_mem _ ha) (List.mem_cons_of_mem _ ha') hr hb hb'
          (List.mem_cons_of_mem _ hc) (List.mem_cons_of_mem _ hc')

end Shuffled

/-! ### Runs of steps -/

/-- What belongs to one of the members of a list, or is new. -/
def Session.Movable (σ : Session) (own : α → Cell → Prop) (l : List α) : Cell → Prop :=
  fun c => (∃ a ∈ l, own a c) ∨ c.Absent σ

/-- One of many steps: what it is given and what it gives, and the sessions before and after it. -/
structure Episode (α β : Type) where
  input : α
  output : β
  before : Session
  after : Session

namespace Episode

variable {f : α → Check β} {own : α → Cell → Prop} {l : List α} {σ τ : Session}

/-- The two steps have nothing in common, and one of them is taken after the other. -/
structure Clear (own : α → Cell → Prop) (d e : Episode α β) : Prop where
  own : ∀ c, own d.input c → ¬own e.input c
  order : d.after.Later e.before ∨ e.after.Later d.before

lemma Clear.symm {d e : Episode α β} (h : d.Clear own e) : e.Clear own d :=
  ⟨fun c he hd => h.own c hd he, h.order.symm⟩

/-- The step is one of those for the members of a list. What belongs to it is changed neither before
nor after it. -/
structure Among (f : α → Check β) (own : α → Cell → Prop) (l : List α) (σ τ : Session)
    (e : Episode α β) : Prop where
  mem : e.input ∈ l
  run : Gives (f e.input) e.before e.output e.after
  since : σ.Continues (fun c => (∃ a ∈ l, own a c ∧ ¬own e.input c) ∨ c.Absent σ) e.before
  onward : e.after.Continues (fun c => (∃ a ∈ l, own a c ∧ ¬own e.input c) ∨ c.Absent e.after) τ
  left : σ.Later e.before
  right : e.after.Later τ

variable [∀ a, Traced True True (f a)]

/-- What holds of the steps for a list holds of those for its tail, once the first is taken. -/
lemma movable_tail {a : α} {υ υ' : Session} (h : σ.Continues (fun c => own a c ∨ c.Absent σ) υ)
    (hυ : σ.Later υ) (h' : υ.Continues (υ.Movable own l) υ') :
    σ.Continues (σ.Movable own (a :: l)) υ' := by
  refine (h.imp fun c hc => ?_).trans (h'.imp fun c hc => ?_)
  · exact hc.imp_left fun hc => ⟨a, List.mem_cons_self, hc⟩
  · exact hc.imp (fun ⟨d, hd, hc⟩ => ⟨d, List.mem_cons_of_mem _ hd, hc⟩) (·.before hυ)

/-- What all steps for the members of a list change belongs to one of them, or is new. -/
lemma continues_mapM {bs : List β} (hσ : σ.Assembled)
    (hf : ∀ a ∈ l, ∀ {υ b ω}, σ.Later υ → σ.Continues (σ.Movable own l) υ → Gives (f a) υ b ω →
      υ.Continues (fun c => own a c ∨ c.Absent υ) ω)
    (h : Gives (l.mapM f) σ bs τ) : σ.Continues (σ.Movable own l) τ := by
  induction l generalizing σ bs with
  | nil =>
    obtain ⟨-, rfl⟩ := gives_pure.mp h
    exact hσ.stay
  | cons a l ih =>
    rw [List.forall_mem_cons] at hf
    obtain ⟨b, rest, υ, h1, h2, -⟩ := Check.gives_mapM_cons.mp h
    have hυ : σ.Later υ := .of_gives h1
    have c1 := hf.1 (.refl σ) hσ.stay h1
    exact movable_tail c1 hυ (ih c1.assembled
      (fun a ha _ _ _ hω hc => hf.2 a ha (hυ.trans hω) (movable_tail c1 hυ hc)) h2)

/-- A run for all members of a list is made of steps that are taken one after another. -/
lemma exists_of_mapM {bs : List β} (hσ : σ.Assembled)
    (hf : ∀ a ∈ l, ∀ {υ b ω}, σ.Later υ → σ.Continues (σ.Movable own l) υ → Gives (f a) υ b ω →
      υ.Continues (fun c => own a c ∨ c.Absent υ) ω)
    (hown : l.Pairwise fun a b => ∀ c, own a c → ¬own b c) (h : Gives (l.mapM f) σ bs τ) :
    ∃ es : List (Episode α β), es.map (·.input) = l ∧
      es.map (fun e => (e.input, e.output)) = l.zip bs ∧ (∀ e ∈ es, e.Among f own l σ τ) ∧
      es.Pairwise (Clear own) := by
  induction l generalizing σ bs with
  | nil => exact ⟨[], rfl, rfl, List.forall_mem_nil _, .nil⟩
  | cons a l ih =>
    rw [List.forall_mem_cons] at hf
    rw [List.pairwise_cons] at hown
    obtain ⟨b, rest, υ, h1, h2, rfl⟩ := Check.gives_mapM_cons.mp h
    have hυ : σ.Later υ := .of_gives h1
    have hτ : υ.Later τ := .of_gives h2
    have c1 := hf.1 (.refl σ) hσ.stay h1
    have hf2 : ∀ a ∈ l, ∀ {υ' b ω}, υ.Later υ' → υ.Continues (υ.Movable own l) υ' →
        Gives (f a) υ' b ω → υ'.Continues (fun c => own a c ∨ c.Absent υ') ω :=
      fun a ha _ _ _ hω hc => hf.2 a ha (hυ.trans hω) (movable_tail c1 hυ hc)
    obtain ⟨es, hinputs, hes, hamong, hclear⟩ := ih c1.assembled hf2 hown.2 h2
    refine ⟨⟨a, b, σ, υ⟩ :: es, by rw [List.map_cons, hinputs],
      by rw [List.map_cons, hes, List.zip_cons_cons],
      List.forall_mem_cons.mpr ⟨?_, fun e he => ?_⟩, List.pairwise_cons.mpr ⟨?_, hclear⟩⟩
    · -- the first step, after which the others change what is theirs
      refine ⟨List.mem_cons_self, h1, hσ.stay, ?_, .refl σ, hτ⟩
      refine (continues_mapM c1.assembled hf2 h2).imp fun c hc => hc.imp_left ?_
      exact fun ⟨d, hd, hc⟩ => ⟨d, List.mem_cons_of_mem _ hd, hc, fun ha => hown.1 d hd c ha hc⟩
    · -- a later step, before which the first has changed what is its own
      have h := hamong e he
      have hmore {c : Cell} : (∃ d ∈ l, own d c ∧ ¬own e.input c) →
          ∃ d ∈ a :: l, own d c ∧ ¬own e.input c :=
        fun ⟨d, hd, hc⟩ => ⟨d, List.mem_cons_of_mem _ hd, hc⟩
      refine ⟨List.mem_cons_of_mem _ h.mem, h.run, ?_, h.onward.imp fun c hc => hc.imp_left hmore,
        hυ.trans h.left, h.right⟩
      refine (c1.imp fun c hc => ?_).trans (h.since.imp fun c hc => ?_)
      · exact hc.imp_left fun ha => ⟨a, List.mem_cons_self, ha, hown.1 _ h.mem c ha⟩
      · exact hc.imp hmore (·.before hυ)
    · exact fun e he => ⟨hown.1 _ (hamong e he).mem, Or.inl (hamong e he).left⟩

end Episode

/-! ### What fits together -/

namespace World

variable {lax : Prop}

/-- The link has got more cells, and nothing is lost from the sessions. -/
structure Grows (w υ : World lax) : Prop where
  link : ∀ {c c'}, w.link c c' → υ.link c c'
  left : w.left.Later υ.left
  right : w.right.Later υ.right

lemma Grows.refl (w : World lax) : w.Grows w := ⟨id, .refl _, .refl _⟩

lemma Grows.trans {w υ ω : World lax} (h : w.Grows υ) (h' : υ.Grows ω) : w.Grows ω :=
  ⟨fun hc => h'.link (h.link hc), h.left.trans h'.left, h.right.trans h'.right⟩

/-- Two worlds are put together: the left session of the one and the right session of the other are
the later ones, and have changed nothing that the other has linked. -/
def join (w υ : World lax) {Φ Φ' : Cell → Prop} (hl : υ.left.Continues Φ w.left)
    (hr : w.right.Continues Φ' υ.right) (hΦ : ∀ {c c'}, υ.link c c' → ¬Φ c)
    (hΦ' : ∀ {c c'}, w.link c c' → ¬Φ' c')
    (hfits : ∀ {c c' d d'}, w.link c c' → υ.link d d' → (c = d ↔ c' = d')) : World lax where
  link := w.link.plus υ.link
  left := w.left
  right := υ.right
  leftOrdered := w.leftOrdered
  rightOrdered := υ.rightOrdered
  unique := by
    constructor
    · rintro a b c (ha | ha) (hb | hb)
      · exact w.unique.1 ha hb
      · exact (hfits ha hb).mpr rfl
      · exact ((hfits hb ha).mpr rfl).symm
      · exact υ.unique.1 ha hb
    · rintro a b c (ha | ha) (hb | hb)
      · exact w.unique.2 ha hb
      · exact (hfits ha hb).mp rfl
      · exact ((hfits hb ha).mp rfl).symm
      · exact υ.unique.2 ha hb
  basic hf := Or.inl (w.basic hf)
  agree := by
    have stay {σ : Session} (hσ : σ.Assembled) : σ.Continues (fun _ => False) σ := hσ.stay
    rintro c c' (hc | hc)
    · exact ((w.agree hc).stay (stay w.leftOrdered) hr id (hΦ' hc)).mono fun _ => Or.inl
    · exact ((υ.agree hc).stay hl (stay υ.rightOrdered) (hΦ hc) id).mono fun _ => Or.inr

end World

section Independent

variable {L : Law} {w : World L.lax}

/-- The steps for the members of a list and for what is related to them do not get into each other's
way: each of them changes only what belongs to its member, and what is linked besides does not refer
to that. -/
structure Independent (L : Law) (w : World L.lax) (f : α → Check β) (g : α' → Check β')
    (own : α → Cell → Prop) (own' : α' → Cell → Prop) (r : α → α' → Prop) (l : List α) : Prop where
  strict : ¬L.lax
  left : ∀ a ∈ l, ∀ {σ b τ}, w.left.Later σ → w.left.Continues (w.left.Movable own l) σ →
    Gives (f a) σ b τ → σ.Continues (fun c => own a c ∨ c.Absent σ) τ
  right : ∀ a ∈ l, ∀ {a' σ b τ}, r a a' → w.right.Later σ →
    w.right.Continues (w.right.Movable (fun a c => ∃ a', r a a' ∧ own' a' c) l) σ →
    Gives (g a') σ b τ → σ.Continues (fun c => own' a' c ∨ c.Absent σ) τ
  present : ∀ a ∈ l, ∀ {c}, own a c → ¬c.Absent w.left
  present' : ∀ a ∈ l, ∀ {a' c}, r a a' → own' a' c → ¬c.Absent w.right
  same : ∀ a ∈ l, ∀ {a' c c'}, r a a' → w.link c c' → own' a' c' → own a c
  apart : l.Pairwise fun a b => ∀ c, own a c → ¬own b c
  types : ∀ a ∈ l, ∀ {t}, ¬own a (.type t)
  closed : ∀ keep : Cell → Prop, (∀ {c}, ¬keep c → ∃ a ∈ l, own a c) → ∀ {c c'}, w.link c c' →
    keep c → c.Agree L.lax (fun c c' => w.link c c' ∧ keep c) w.left w.right c'

variable {f : α → Check β} {g : α' → Check β'} {own : α → Cell → Prop} {own' : α' → Cell → Prop}
  {r : α → α' → Prop} {l : List α} {l' : List α'} {post : α → α' → β → β' → World L.lax → Prop}
  {τ : Session}

/-- Each step is mirrored where all is linked but what belongs to other steps. -/
def StepsMirror (L : Law) (w : World L.lax) (f : α → Check β) (g : α' → Check β')
    (own : α → Cell → Prop) (r : α → α' → Prop) (l : List α)
    (post : α → α' → β → β' → World L.lax → Prop) : Prop :=
  ∀ a ∈ l, ∀ {a'} {u : World L.lax}, r a a' → w.left.Later u.left → w.right.Later u.right →
    (∀ {c c'}, u.link c c' ↔ w.link c c' ∧ ∀ b ∈ l, own b c → own a c) →
    Mirrors L (f a) (g a') u (post a a')

def Independent.kept (h : Independent L w f g own own' r l) {Φ Φ' : Cell → Prop} {σ σ' : Session}
    {keep : Cell → Prop} (hkeep : ∀ {c}, ¬keep c → ∃ a ∈ l, own a c) (hσ : w.left.Continues Φ σ)
    (hσ' : w.right.Continues Φ' σ') (hΦ : ∀ {c c'}, w.link c c' → keep c → ¬Φ c ∧ ¬Φ' c') :
    World L.lax where
  link c c' := w.link c c' ∧ keep c
  left := σ
  right := σ'
  leftOrdered := hσ.assembled
  rightOrdered := hσ'.assembled
  unique := ⟨fun _ _ _ ha hb => w.unique.1 ha.1 hb.1, fun _ _ _ ha hb => w.unique.2 ha.1 hb.1⟩
  basic hf := by
    refine ⟨w.basic hf, by_contra fun hnot => ?_⟩
    obtain ⟨a, ha, hown⟩ := hkeep hnot
    exact h.types a ha hown
  agree hc := (h.closed keep hkeep hc.1 hc.2).stay hσ hσ' (hΦ hc.1 hc.2).1 (hΦ hc.1 hc.2).2

/-- Some of the steps have been taken on the right, others remain. On the left all of them have been
taken. What belongs to those that remain is not linked, and what is linked anew has been made by
those that have been taken. -/
structure Merged (own : α → Cell → Prop) (own' : α' → Cell → Prop) (r : α → α' → Prop)
    (w : World L.lax) (τ : Session) (done rest : List (Episode α β)) (υ : World L.lax) : Prop where
  left : υ.left = τ
  right : w.right.Continues (fun c => (∃ d ∈ done, ∃ a', r d.input a' ∧ own' a' c) ∨
    c.Absent w.right) υ.right
  later : w.right.Later υ.right
  old : ∀ {c c'}, w.link c c' → (∀ e ∈ rest, ¬own e.input c) → υ.link c c'
  new : ∀ {c c'}, υ.link c c' → (w.link c c' ∧ ∀ e ∈ rest, ¬own e.input c) ∨
    (∃ d ∈ done, c.Absent d.before ∧ ¬c.Absent d.after) ∧ c'.Absent w.right
  root : ∀ {n c'}, υ.link (.name .root n) c' → w.link (.name .root n) c'
  whole : ∀ {c c'}, ¬L.apart → υ.link.cls c c' → w.link.cls c c' ∨
    υ.link (.constructors c) (.constructors c') ∧ ∀ n, υ.link (.member c n) (.member c' n)
  apart : ∀ {c n x}, L.apart → υ.link (.member c n) x → w.link (.member c n) x

/-- One more step has been taken, from the world in which only what belongs to other steps is not
linked. What it has linked is new on both sides. -/
structure Stepped (own : α → Cell → Prop) (l : List α) (w υ : World L.lax) (e : Episode α β)
    (ψ : World L.lax) : Prop where
  left : ψ.left = e.after
  later : υ.right.Later ψ.right
  old : ∀ {c c'}, w.link c c' → own e.input c → ψ.link c c'
  new : ∀ {c c'}, ψ.link c c' → (w.link c c' ∧ ∀ b ∈ l, own b c → own e.input c) ∨
    c.Absent e.before ∧ c'.Absent υ.right
  root : ∀ {n c'}, ψ.link (.name .root n) c' → w.link (.name .root n) c'
  whole : ∀ {c c'}, ¬L.apart → ψ.link.cls c c' → w.link.cls c c' ∨
    ψ.link (.constructors c) (.constructors c') ∧ ∀ n, ψ.link (.member c n) (.member c' n)
  apart : ∀ {c n x}, L.apart → ψ.link (.member c n) x → w.link (.member c n) x

variable {υ ψ : World L.lax} {done rest : List (Episode α β)} {e : Episode α β} {a' : α'}

lemma Stepped.present (h : Stepped own l w υ e ψ) {c c' : Cell} (hc : ψ.link c c') :
    ¬c.Absent e.after :=
  h.left ▸ (ψ.agree hc).present.1

/-- An old link and one of the step do not share one side only. -/
lemma Stepped.fits (h : Stepped own l w υ e ψ) (hυ : Merged own own' r w τ done rest υ)
    (he : w.left.Later e.before) (hdone : ∀ d ∈ done, w.left.Later d.before ∧ d.Clear own e)
    {c c' d d' : Cell} (hc : υ.link c c') (hd : ψ.link d d') : c = d ↔ c' = d' := by
  have hc' := (υ.agree hc).present.2
  rcases hυ.new hc with ⟨hw, -⟩ | ⟨⟨k, hk, hbefore, hafter⟩, habsent⟩
  · rcases h.new hd with ⟨hd, -⟩ | ⟨hd, hd'⟩
    · exact ⟨by rintro rfl; exact w.unique.2 hw hd, by rintro rfl; exact w.unique.1 hw hd⟩
    · refine iff_of_false ?_ (by rintro rfl; exact hc' hd')
      rintro rfl
      exact (w.agree hw).present.1 (hd.before he)
  · obtain ⟨hlater, hclear⟩ := hdone k hk
    rcases h.new hd with ⟨hw, -⟩ | ⟨hd0, hd'⟩
    · refine iff_of_false ?_ ?_
      · rintro rfl
        exact (w.agree hw).present.1 (hbefore.before hlater)
      · rintro rfl
        exact (w.agree hw).present.2 habsent
    · -- both are new, and the one was made before the other
      refine iff_of_false ?_ (by rintro rfl; exact hc' hd')
      rintro rfl
      rcases hclear.order with horder | horder
      · exact hafter (hd0.before horder)
      · exact h.present hd (hbefore.before horder)

namespace Independent

/-- Before any step has been taken on the right, only what belongs to none of them is linked. -/
lemma merged_start (h : Independent L w f g own own' r l) (es : List (Episode α β))
    (hes : ∀ e ∈ es, e.input ∈ l) (hmem : ∀ a ∈ l, ∃ e ∈ es, e.input = a)
    (hτ : w.left.Continues (w.left.Movable own l) τ) :
    ∃ υ : World L.lax, υ.right = w.right ∧ Merged own own' r w τ [] es υ := by
  have hkeep {c : Cell} (hc : ¬∀ a ∈ l, ¬own a c) : ∃ a ∈ l, own a c := by simpa using hc
  have hstay : w.right.Continues (fun _ => False) w.right := w.rightOrdered.stay
  have hall {c : Cell} : (∀ e ∈ es, ¬own e.input c) ↔ ∀ a ∈ l, ¬own a c := by
    refine ⟨fun hc a ha => ?_, fun hc e he => hc _ (hes e he)⟩
    obtain ⟨e, he, rfl⟩ := hmem a ha
    exact hc e he
  refine ⟨h.kept hkeep hτ hstay fun hc hnot => ⟨?_, id⟩, rfl, rfl, w.rightOrdered.stay, .refl _,
    fun hc hnot => ⟨hc, hall.mp hnot⟩, fun hc => Or.inl ⟨hc.1, hall.mpr hc.2⟩, fun hc => hc.1,
    fun _ hc => Or.inl hc.1, fun _ hc => hc.1⟩
  rintro (⟨a, ha, hown⟩ | habsent)
  · exact hnot a ha hown
  · exact (w.agree hc).present.1 habsent

/-- The next step is taken on the right. -/
lemma exists_stepped (h : Independent L w f g own own' r l)
    (hmirrors : StepsMirror L w f g own r l post) (hclean : L.Clean τ)
    (he : e.Among f own l w.left τ) (hdone : ∀ d ∈ done, d.input ∈ l ∧ d.Clear own e)
    (hr : r e.input a') (hυ : Merged own own' r w τ done rest υ) :
    ∃ b' ψ, Gives (g a') υ.right b' ψ.right ∧ Stepped own l w υ e ψ ∧
      post e.input a' e.output b' ψ := by
  have hkeep {c : Cell} (hc : ¬∀ b ∈ l, own b c → own e.input c) : ∃ b ∈ l, own b c := by
    simp only [not_forall] at hc
    obtain ⟨b, hb, hown, -⟩ := hc
    exact ⟨b, hb, hown⟩
  obtain ⟨u, hul, hur, hulink⟩ : ∃ u : World L.lax, u.left = e.before ∧ u.right = υ.right ∧
      ∀ {c c'}, u.link c c' ↔ w.link c c' ∧ ∀ b ∈ l, own b c → own e.input c := by
    refine ⟨h.kept hkeep he.since hυ.right fun {c c'} hc hmine => ⟨?_, ?_⟩, rfl, rfl, Iff.rfl⟩
    · rintro (⟨b, hb, hown, hnot⟩ | habsent)
      · exact hnot (hmine b hb hown)
      · exact (w.agree hc).present.1 habsent
    · rintro (⟨d, hd, b', hb', hown⟩ | habsent)
      · obtain ⟨hmem, hclear⟩ := hdone d hd
        have hd := h.same _ hmem hb' hc hown
        exact hclear.own c hd (hmine _ hmem hd)
      · exact (w.agree hc).present.2 habsent
  rcases hmirrors _ he.mem hr (hul ▸ he.left) (hur ▸ hυ.later) hulink (.refl u) (hul ▸ he.run)
    (hclean.before he.right) with ⟨b', ψ, hψ, hgives, hadvance, hψpost⟩ | ⟨hlax, -⟩
  swap
  · exact absurd hlax h.strict
  refine ⟨b', ψ, hur ▸ hgives, ⟨hψ, hur ▸ hadvance.right, fun hc hown => ?_, fun hc => ?_,
    fun hc => (hulink.mp (hadvance.root hc)).1,
    fun hL hc => (hadvance.whole hL hc).imp_left fun hc => (hulink.mp hc).1,
    fun hL hc => (hulink.mp (hadvance.apart hL hc)).1⟩, hψpost⟩
  · exact hadvance.link (hulink.mpr ⟨hc, fun _ _ _ => hown⟩)
  · have hcases := hadvance.new hc (Or.inr h.strict)
    rwa [hulink, hul, hur] at hcases

lemma merged_step (h : Independent L w f g own own' r l)
    (hpost : ∀ {a a' b b' υ ω}, World.Grows υ ω → post a a' b b' υ → post a a' b b' ω)
    (hmirrors : StepsMirror L w f g own r l post)
    (hclean : L.Clean τ) (he : e.Among f own l w.left τ)
    (hdone : ∀ d ∈ done, d.input ∈ l ∧ w.left.Later d.before ∧ d.Clear own e)
    (hrest : ∀ d ∈ rest, d.input ∈ l ∧ e.Clear own d) (hr : r e.input a')
    (hυ : Merged own own' r w τ done (e :: rest) υ) :
    ∃ b' ω, Gives (g a') υ.right b' ω.right ∧ Merged own own' r w τ (e :: done) rest ω ∧
      υ.Grows ω ∧ post e.input a' e.output b' ω := by
  obtain ⟨b', ψ, hgives, hψ, hψpost⟩ := h.exists_stepped hmirrors hclean he
    (fun d hd => ⟨(hdone d hd).1, (hdone d hd).2.2⟩) hr hυ
  have hfits {c c' d d' : Cell} (hc : υ.link c c') (hd : ψ.link d d') : c = d ↔ c' = d' :=
    hψ.fits hυ he.left (fun d hd => (hdone d hd).2) hc hd
  obtain ⟨rfl, hright, hlater, hold, hnew, hroot, hwhole, hapart⟩ := hυ
  have hchange := h.right _ he.mem hr hlater
    (hright.imp fun c hc => hc.imp_left fun ⟨d, hd, hown⟩ => ⟨d.input, (hdone d hd).1, hown⟩) hgives
  have hl : ψ.left.Continues (fun c => (∃ b ∈ l, own b c ∧ ¬own e.input c) ∨ c.Absent e.after)
      υ.left := hψ.left ▸ he.onward
  -- the new world has both kinds of links
  let ω : World L.lax := υ.join ψ hl hchange
    (fun {c c'} hc => by
      rintro (⟨b, hb, hown, hnot⟩ | habsent)
      · rcases hψ.new hc with ⟨-, hmine⟩ | ⟨hnone, -⟩
        · exact hnot (hmine b hb hown)
        · exact h.present b hb hown (hnone.before he.left)
      · exact hψ.present hc habsent)
    (fun {c c'} hc => by
      rintro (hown | habsent)
      · rcases hnew hc with ⟨hw, hnot⟩ | ⟨-, hnone⟩
        · exact hnot e List.mem_cons_self (h.same _ he.mem hr hw hown)
        · exact h.present' _ he.mem hr hown hnone
      · exact (υ.agree hc).present.2 habsent) hfits
  have hgrows : ψ.Grows ω := ⟨Or.inr, hψ.left ▸ he.right, .refl _⟩
  refine ⟨b', ω, hgives, ⟨rfl, ?_, hlater.trans hψ.later, fun {c c'} hc hnot => ?_,
    fun {c c'} hc => ?_, fun {n c'} hc => hc.elim hroot hψ.root, fun {c c'} hL hc => ?_,
    fun {c n x} hL hc => hc.elim (hapart hL) (hψ.apart hL)⟩,
    ⟨Or.inl, .refl _, hψ.later⟩, hpost hgrows hψpost⟩
  · refine (hright.imp fun c hc => ?_).trans (hchange.imp fun c hc => ?_)
    · exact hc.imp_left fun ⟨d, hd, hown⟩ => ⟨d, List.mem_cons_of_mem _ hd, hown⟩
    · exact hc.imp (fun hown => ⟨e, List.mem_cons_self, a', hr, hown⟩) (·.before hlater)
  · -- an old link is kept by the step if it is its own, and by the others if not
    by_cases hown : own e.input c
    · exact Or.inr (hψ.old hc hown)
    · exact Or.inl (hold hc (List.forall_mem_cons.mpr ⟨hown, hnot⟩))
  · rcases hc with hc | hc
    · refine (hnew hc).imp (fun ⟨hw, hnot⟩ => ⟨hw, (List.forall_mem_cons.mp hnot).2⟩) ?_
      exact fun ⟨⟨d, hd, hmade⟩, hnone⟩ => ⟨⟨d, List.mem_cons_of_mem _ hd, hmade⟩, hnone⟩
    · refine (hψ.new hc).imp (fun ⟨hw, hmine⟩ => ⟨hw, fun d hd hown => ?_⟩)
        fun ⟨hnone, hnone'⟩ => ?_
      · obtain ⟨hmem, hclear⟩ := hrest d hd
        exact hclear.own c (hmine _ hmem hown) hown
      · exact ⟨⟨e, List.mem_cons_self, hnone, hψ.present hc⟩, hnone'.before hlater⟩
  · rcases hc with hc | hc
    · exact (hwhole hL hc).imp_right fun ⟨hk, hm⟩ => ⟨Or.inl hk, fun n => Or.inl (hm n)⟩
    · exact (hψ.whole hL hc).imp_right fun ⟨hk, hm⟩ => ⟨Or.inr hk, fun n => Or.inr (hm n)⟩

lemma merged_run (h : Independent L w f g own own' r l)
    (hpost : ∀ {a a' b b' υ ω}, World.Grows υ ω → post a a' b b' υ → post a a' b b' ω)
    (hmirrors : StepsMirror L w f g own r l post)
    (hclean : L.Clean τ) (hdone : ∀ d ∈ done, d.Among f own l w.left τ)
    (hrest : ∀ e ∈ rest, e.Among f own l w.left τ) (hclear : rest.Pairwise (Episode.Clear own))
    (hcross : ∀ d ∈ done, ∀ e ∈ rest, d.Clear own e)
    (hr : List.Forall₂ (fun e a' => r e.input a') rest l')
    (hυ : Merged own own' r w τ done rest υ) :
    ∃ bs' ω done', Gives (l'.mapM g) υ.right bs' ω.right ∧ Merged own own' r w τ done' [] ω ∧
      (∀ d ∈ done', d.Among f own l w.left τ) ∧ υ.Grows ω ∧
      List.Forall₂ (fun e b' => r e.input b'.1 ∧ post e.input b'.1 e.output b'.2 ω) rest
        (l'.zip bs') := by
  induction hr generalizing done υ with
  | nil => exact ⟨[], υ, done, gives_pure.mpr ⟨rfl, rfl⟩, hυ, hdone, .refl υ, .nil⟩
  | @cons e a' rest l' hea _ ih =>
    rw [List.forall_mem_cons] at hrest
    rw [List.pairwise_cons] at hclear
    obtain ⟨b', ω, hgives, hω, hgrows, hb'⟩ := h.merged_step @hpost hmirrors hclean hrest.1
      (fun d hd => ⟨(hdone d hd).mem, (hdone d hd).left, hcross d hd e List.mem_cons_self⟩)
      (fun d hd => ⟨(hrest.2 d hd).mem, hclear.1 d hd⟩) hea hυ
    obtain ⟨bs', χ, done', hgives', hχ, hdone', hgrows', hbs'⟩ := ih
      (List.forall_mem_cons.mpr ⟨hrest.1, hdone⟩) hrest.2 hclear.2
      (List.forall_mem_cons.mpr
        ⟨hclear.1, fun d hd e he => hcross d hd e (List.mem_cons_of_mem _ he)⟩)
      hω
    refine ⟨b' :: bs', χ, done', Check.gives_mapM_cons.mpr ⟨b', bs', ω.right, hgives, hgives', rfl⟩,
      hχ, hdone', hgrows.trans hgrows', ?_⟩
    rw [List.zip_cons_cons]
    exact .cons ⟨hea, hpost hgrows' hb'⟩ hbs'

/-- **Steps in any order.** Where the steps on the left do not get into each other's way, they are
mirrored by steps on the right that are taken in another order. -/
lemma mapM [∀ a, Traced True True (f a)] (h : Independent L w f g own own' r l)
    (post : α → α' → β → β' → World L.lax → Prop)
    (hpost : ∀ {a a' b b' υ ω}, World.Grows υ ω → post a a' b b' υ → post a a' b b' ω)
    (hmirrors : StepsMirror L w f g own r l post)
    (hl : Shuffled r l l') :
    Mirrors L (l.mapM f) (l'.mapM g) w fun bs bs' υ =>
      Shuffled (fun p p' => r p.1 p'.1 ∧ post p.1 p'.1 p.2 p'.2 υ) (l.zip bs) (l'.zip bs') := by
  intro _ bs τ hgives hclean
  have hτ := Episode.continues_mapM w.leftOrdered (fun a ha _ _ _ hσ hc => h.left a ha hσ hc) hgives
  obtain ⟨es, hinputs, hes, hamong, hclear⟩ :=
    Episode.exists_of_mapM w.leftOrdered (fun a ha _ _ _ hσ hc => h.left a ha hσ hc) h.apart hgives
  -- The steps of the left are put in the order of the right.
  obtain ⟨m, hperm, hm⟩ := hl
  rw [← hinputs] at hperm
  obtain ⟨es', rfl, hes'⟩ : ∃ es' : List (Episode α β), m = es'.map (·.input) ∧ es'.Perm es :=
    (congrFun₂ (List.eq_map_comp_perm _) m es).mpr hperm.symm
  have hamong' : ∀ e ∈ es', e.Among f own l w.left τ := fun e he => hamong e (hes'.mem_iff.mp he)
  obtain ⟨υ, hright, hυ⟩ := h.merged_start es' (fun e he => (hamong' e he).mem)
    (fun a ha => by rw [← hinputs] at ha; simpa [hes'.mem_iff] using ha) hτ
  obtain ⟨bs', ω, done, hgives', hω, hdone, -, hbs'⟩ := h.merged_run @hpost hmirrors hclean
    (List.forall_mem_nil _) hamong' (hclear.perm hes'.symm Episode.Clear.symm)
    (List.forall_mem_nil _) (List.forall₂_map_left_iff.mp hm) hυ
  refine Or.inl ⟨bs', ω, hω.left, hright ▸ hgives', ?_,
    es'.map fun e => (e.input, e.output), ?_, ?_⟩
  · refine ⟨fun hc => hω.old hc (List.forall_mem_nil _), fun hc _ => ?_, hω.root, hω.whole,
      hω.apart, hω.left.symm ▸ .of_gives hgives, hω.later⟩
    rcases hω.new hc with ⟨hc, -⟩ | ⟨⟨d, hd, hbefore, -⟩, hnone⟩
    · exact Or.inl hc
    · exact Or.inr ⟨hbefore.before (hdone d hd).left, hnone⟩
  · rw [← hes]
    exact (hes'.map _).symm
  · rw [List.forall₂_map_left_iff]
    exact hbs'

/-- Only what the steps give is looked at. -/
lemma mapM_outputs [∀ a, Traced True True (f a)] (h : Independent L w f g own own' r l)
    (post : β → β' → World L.lax → Prop)
    (hpost : ∀ {b b' υ ω}, World.Grows υ ω → post b b' υ → post b b' ω)
    (hmirrors : StepsMirror L w f g own r l fun _ _ => post)
    (hl : Shuffled r l l') :
    Mirrors L (l.mapM f) (l'.mapM g) w
      fun bs bs' υ => Shuffled (fun b b' => post b b' υ) bs bs' := by
  refine (h.mapM (fun _ _ => post) hpost hmirrors hl).with_gives.mono fun bs bs' υ _ hbs => ?_
  obtain ⟨hl, hl', hbs⟩ := hbs
  have hmap := hbs.map (q := fun b b' => post b b' υ) (f := Prod.snd) (g := Prod.snd)
    fun _ _ hp => hp.2
  rwa [List.map_snd_zip (Check.length_of_mapM hl).le,
    List.map_snd_zip (Check.length_of_mapM hl').le] at hmap

end Independent

end Independent

end MiddleEnd
