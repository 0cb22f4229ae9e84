import MiddleEnd.Proofs.Check.Sealed

/-!
The scopes around a place. Scopes are opened in scopes that are there, so going outward ends at the
root. What a name stands for is decided on the way, by the first scope that declares it; and what is
copied into a scope when it is opened tells what a walk outward would meet: whether there is a loop
before the next function or class, and which function and class are next.
-/

namespace MiddleEnd

namespace ScopeKind

def frame? : ScopeKind → Option FrameId
  | .function f => some f
  | _ => none

def cls? : ScopeKind → Option ClassId
  | .cls c => some c
  | _ => none

/-- Bodies of functions and classes, which are in no loop around them. -/
def isBody : ScopeKind → Bool
  | .function _ | .cls _ => true
  | .loop | .block => false

end ScopeKind

namespace Scopes

variable {t u : Scopes} {kinds : List ScopeKind} {id s : ScopeId} {sc : Scope} {b : Binding}
  {name : String} {span : Span}

/-! ### Trees of scopes -/

/-- The trees that are built up from a root scope, and what their other scopes were opened for. -/
inductive Grown : Scopes → List ScopeKind → Prop where
  | empty : Grown .empty []
  | builtins : Grown .withBuiltins []
  | openIn {t u : Scopes} {kinds : List ScopeKind} {parent : ScopeId} {kind : ScopeKind}
      (h : Grown t kinds) (hopen : t.openIn parent kind = .ok u) : Grown u (kinds ++ [kind])
  | declare {t u : Scopes} {kinds : List ScopeKind} {id : ScopeId} {b : Binding} {span : Span}
      (h : Grown t kinds) (hdeclare : t.declare id b span = .ok u) : Grown u kinds
  | addFrame {t : Scopes} {kinds : List ScopeKind} (h : Grown t kinds) (f : Frame) :
      Grown (t.addFrame f) kinds
  | settle {t : Scopes} {kinds : List ScopeKind} (h : Grown t kinds) (f : FrameId) (done : Bool) :
      Grown (t.settle f done) kinds

/-- What a scope was opened for; the root was not opened. -/
def kindAt? (kinds : List ScopeKind) : ScopeId → Option ScopeKind
  | ⟨0⟩ => none
  | ⟨n + 1⟩ => kinds[n]?

/-- Where a scope comes from. Apart from its names it is as it was opened in its parent, and in the
parent only the names have changed since. -/
inductive Origin (t : Scopes) (kinds : List ScopeKind) : ScopeId → Scope → Prop where
  | root (bs : Bindings) : Origin t kinds .root { bindings := bs }
  | inner {id p : ScopeId} {base : Scope} {kind : ScopeKind} (hkind : kindAt? kinds id = some kind)
      (hlt : p.index < id.index) (hbase : t.scope? p = some base) (bs : Bindings) :
      Origin t kinds id { base.inner p kind with bindings := bs }

lemma Origin.withBindings (h : Origin t kinds id sc) (bs : Bindings) :
    Origin t kinds id { sc with bindings := bs } := by
  cases h with
  | root => exact .root bs
  | inner hkind hlt hbase => exact .inner hkind hlt hbase bs

/-- Scopes that are there get names only. -/
lemma Origin.mono {kinds' : List ScopeKind} (h : Origin t kinds id sc) (hkinds : kinds <+: kinds')
    (hscopes : ∀ {i sc}, t.scope? i = some sc →
      ∃ bs, u.scope? i = some { sc with bindings := bs }) : Origin u kinds' id sc := by
  cases h with
  | root bs => exact .root bs
  | @inner _ p base kind hkind hlt hbase bs =>
    obtain ⟨bs', hbase'⟩ := hscopes hbase
    have hinner : ({ base with bindings := bs' } : Scope).inner p kind = base.inner p kind := by
      cases kind <;> rfl
    have hkind' : kindAt? kinds' id = some kind := by
      obtain ⟨_ | n⟩ := id
      · cases hlt
      · obtain ⟨more, rfl⟩ := hkinds
        exact (List.getElem?_append_left (List.getElem?_eq_some_iff.mp hkind).1).trans hkind
    exact hinner ▸ .inner hkind' hlt hbase' bs

lemma Grown.size (h : t.Grown kinds) : t.size = kinds.length + 1 := by
  induction h with
  | empty | builtins => rfl
  | openIn _ hopen ih =>
    obtain ⟨base, -, rfl⟩ := openIn_eq_ok hopen
    simpa [Scopes.size] using ih
  | declare _ hdeclare ih =>
    obtain ⟨sc, -, -, rfl⟩ := declare_eq_ok hdeclare
    simpa [Scopes.size] using ih
  | addFrame _ _ ih | settle _ _ _ ih => exact ih

/-- Every scope has an origin, whatever has happened since. -/
lemma Grown.origin (h : t.Grown kinds) (hs : t.scope? id = some sc) : Origin t kinds id sc := by
  have start {bs : Bindings} {id : ScopeId} {sc : Scope}
      (hs : ({ scopes := [{ bindings := bs }] } : Scopes).scope? id = some sc) :
      id = .root ∧ sc = { bindings := bs } := by
    obtain ⟨_ | i⟩ := id <;> simp [scope?, ScopeId.root] at hs ⊢
    exact hs.symm
  induction h generalizing id sc with
  | empty | builtins =>
    obtain ⟨rfl, rfl⟩ := start hs
    exact .root _
  | @openIn t u kinds parent kind h hopen ih =>
    have hold {i : ScopeId} {sc : Scope} (hsc : t.scope? i = some sc) :
        ∃ bs, u.scope? i = some { sc with bindings := bs } := by
      obtain ⟨_, -, hscope⟩ := scope?_openIn hopen i
      rw [if_neg (by rintro rfl; exact Nat.lt_irrefl _ (lt_size hsc)), hsc] at hscope
      exact ⟨sc.bindings, hscope⟩
    obtain ⟨base, hbase, hscope⟩ := scope?_openIn hopen id
    rw [hscope] at hs
    split at hs
    · -- the new scope comes from its parent and the kind it was opened with
      rename_i hid
      obtain ⟨bs, hbase'⟩ := hold hbase
      have hkind : kindAt? (kinds ++ [kind]) t.next = some kind := by
        rw [next, show t.scopes.length = kinds.length + 1 from h.size]
        exact List.getElem?_concat_length
      have hinner : base.inner parent kind = { ({ base with bindings := bs } : Scope).inner parent
          kind with bindings := {} } := by cases kind <;> rfl
      rw [hid, ← Option.some.inj hs, hinner]
      exact .inner hkind (lt_size hbase) hbase' {}
    · -- an old scope comes from where it came from before
      exact (ih hs).mono (List.prefix_append _ _) hold
  | @declare t u kinds i b span h hdeclare ih =>
    have hold {j : ScopeId} {sc : Scope} (hsc : t.scope? j = some sc) :
        ∃ bs, u.scope? j = some { sc with bindings := bs } := by
      rw [scope?_declare hdeclare, hsc, Option.map_some]
      split
      · exact ⟨_, rfl⟩
      · exact ⟨sc.bindings, rfl⟩
    rw [scope?_declare hdeclare] at hs
    obtain ⟨sc', hsc', rfl⟩ := Option.map_eq_some_iff.mp hs
    have horigin := (ih hsc').mono (List.prefix_refl _) hold
    split
    · exact horigin.withBindings _
    · exact horigin
  | addFrame _ _ ih | settle _ _ _ ih =>
    exact (ih hs).mono (List.prefix_refl _) fun h => ⟨_, h⟩

lemma Grown.parent_lt (h : t.Grown kinds) (hs : t.scope? id = some sc) {p : ScopeId}
    (hp : sc.parent = some p) : p.index < id.index ∧ ∃ base, t.scope? p = some base := by
  cases h.origin hs with
  | root => cases hp
  | inner _ hlt hbase =>
    cases (inner_parent _).symm.trans hp
    exact ⟨hlt, _, hbase⟩

/-- The walk outward takes every parent. -/
lemma Grown.chain_eq (h : t.Grown kinds) (hs : t.scope? id = some sc) :
    t.chain id = id :: sc.parent.elim [] t.chain := by
  rw [chain, hs]
  cases hp : sc.parent with
  | none => simp [hp]
  | some p => simp [hp, (h.parent_lt hs hp).1]

/-! ### What is met on the way outward -/

/-- A scope for which `Q` holds is met, and `P` holds for all before it. -/
def Meets (P Q : ScopeId → Prop) (way : List ScopeId) : Prop :=
  ∃ inner s outer, way = inner ++ s :: outer ∧ (∀ i ∈ inner, P i) ∧ Q s

lemma not_meets_nil {P Q : ScopeId → Prop} : ¬Meets P Q [] := by
  rintro ⟨inner, s, outer, h, -⟩
  cases inner <;> cases h

lemma meets_cons {P Q : ScopeId → Prop} {way : List ScopeId} :
    Meets P Q (id :: way) ↔ Q id ∨ P id ∧ Meets P Q way := by
  constructor
  · rintro ⟨_ | ⟨i, inner⟩, s, outer, h, hP, hQ⟩
    · cases h
      exact Or.inl hQ
    · cases h
      rw [List.forall_mem_cons] at hP
      exact Or.inr ⟨hP.1, inner, s, outer, rfl, hP.2, hQ⟩
  · rintro (hQ | ⟨hP, inner, s, outer, rfl, hinner, hQ⟩)
    · exact ⟨[], id, way, rfl, nofun, hQ⟩
    · exact ⟨id :: inner, s, outer, rfl, List.forall_mem_cons.mpr ⟨hP, hinner⟩, hQ⟩

/-! ### Names -/

lemma Grown.lookup_eq (h : t.Grown kinds) (hs : t.scope? id = some sc) (name : String) :
    t.lookup id name = (sc.bindings.find? name).or (sc.parent.bind (t.lookup · name)) := by
  rw [lookup, h.chain_eq hs, List.findSome?_cons, show t.bindingAt? name id = sc.bindings.find? name
    by rw [bindingAt?, hs, Option.bind_some]]
  cases sc.bindings.find? name <;> cases sc.parent <;> rfl

lemma Grown.declaring?_eq (h : t.Grown kinds) (hs : t.scope? id = some sc) (name : String) :
    t.declaring? id name = if sc.bindings.contains name then some id
      else sc.parent.bind (t.declaring? · name) := by
  rw [declaring?, h.chain_eq hs, List.find?_cons, show (t.bindingAt? name id).isSome =
    sc.bindings.contains name by rw [bindingAt?, hs, Option.bind_some, Bindings.contains]]
  cases sc.bindings.contains name <;> cases sc.parent <;> rfl

/-- A name stands for what its innermost declaration says. -/
lemma lookup_eq_bind (t : Scopes) (id : ScopeId) (name : String) :
    t.lookup id name = (t.declaring? id name).bind (t.bindingAt? name) := by
  rw [lookup, declaring?]
  induction t.chain id with
  | nil => rfl
  | cons i way ih =>
    rw [List.findSome?_cons, List.find?_cons]
    cases hb : t.bindingAt? name i with
    | none => simpa using ih
    | some b => simp [hb]

lemma lookup_eq_none_iff : t.lookup id name = none ↔ t.declaring? id name = none := by
  rw [lookup, declaring?, List.findSome?_eq_none_iff, List.find?_eq_none]
  simp

/-- The scope is around the place, and no scope inside of it declares the name. -/
def Exposed (t : Scopes) (s : ScopeId) (name : String) (id : ScopeId) : Prop :=
  Meets (fun i => t.bindingAt? name i = none) (· = s) (t.chain id)

/-- A new name is seen where its scope is exposed, and all else is as before. -/
lemma lookup_declare (h : t.declare s b span = .ok u) (id : ScopeId) (name : String) :
    (name = b.name ∧ t.Exposed s name id → u.lookup id name = some b ∧
      u.declaring? id name = some s ∧ t.declaring? id name ≠ some s) ∧
    (¬(name = b.name ∧ t.Exposed s name id) → u.lookup id name = t.lookup id name ∧
      u.declaring? id name = t.declaring? id name) := by
  have hat := bindingAt?_declare h name
  have hfresh := bindingAt?_of_declare h
  have hchain : u.chain id = t.chain id := by
    rcases Nat.lt_or_ge id.index t.size with hid | hid
    · exact (extends_declare h).chain hid
    · have hnone : t.scope? id = none := List.getElem?_eq_none hid
      rw [chain, scope?_declare h, chain, hnone]
      rfl
  rw [lookup, declaring?, hchain, lookup, declaring?, Exposed]
  by_cases hname : name = b.name
  · subst hname
    -- the walk is the same before and after, and only at `s` it finds something new
    induction t.chain id with
    | nil => simp [not_meets_nil]
    | cons i way ih =>
      rw [List.findSome?_cons, List.findSome?_cons, List.find?_cons, List.find?_cons, meets_cons,
        hat]
      by_cases hi : i = s
      · subst hi
        have hnot : List.find? (fun s => (t.bindingAt? b.name s).isSome) way ≠ some i := by
          intro hfound
          simpa [hfresh] using List.find?_some hfound
        simp [hfresh, hnot]
      · cases hb : t.bindingAt? b.name i with
        | none => simpa [hi] using ih
        | some b' => simp [hi]
  · have hsame : u.bindingAt? name = t.bindingAt? name :=
      funext fun i => (hat i).trans (if_neg fun h => hname h.2.symm)
    simp [hsame, hname]

lemma exists_declare_iff (hid : id.index < t.size) (b : Binding) (span : Span) :
    (∃ u, t.declare id b span = .ok u) ↔ t.bindingAt? b.name id = none := by
  constructor
  · rintro ⟨u, h⟩
    exact bindingAt?_of_declare h
  · intro hnone
    obtain ⟨sc, hsc⟩ := exists_scope hid
    rw [bindingAt?, hsc, Option.bind_some] at hnone
    refine ⟨_, Except.bind_eq_ok.mpr ⟨sc, scope_eq_ok.mpr hsc, Except.bind_eq_ok.mpr ⟨(), ?_, rfl⟩⟩⟩
    rw [ensure_eq_ok]
    simp [Bindings.contains, hnone]

/-- **Looking up follows the lexical chain.** A parent is there and older than its children, so both
walks outward take every scope around a place and end at the root. They agree: a name stands for
what its declaring scope says, and for nothing if there is none. A name can be declared where it is
not declared yet, and a declaration that fails leaves no trace; one that succeeds is seen from the
places around which its scope is the first to declare the name, and changes nothing for all other
places and names. -/
theorem lookup_follows_chain (t : Scopes) (kinds : List ScopeKind) (ht : t.Grown kinds) :
    (∀ id sc, t.scope? id = some sc →
      (∀ p, sc.parent = some p → p.index < id.index ∧ ∃ base, t.scope? p = some base) ∧
      t.chain id = id :: sc.parent.elim [] t.chain ∧
      ∀ name, t.lookup id name = (sc.bindings.find? name).or (sc.parent.bind (t.lookup · name)) ∧
        t.declaring? id name = if sc.bindings.contains name then some id
          else sc.parent.bind (t.declaring? · name)) ∧
    (∀ id name, t.lookup id name = (t.declaring? id name).bind (t.bindingAt? name) ∧
      (t.lookup id name = none ↔ t.declaring? id name = none)) ∧
    (∀ id b span, id.index < t.size →
      ((∃ u, t.declare id b span = .ok u) ↔ t.bindingAt? b.name id = none)) ∧
    (∀ (σ τ : Session) id b span f, (Check.declare id b span).on σ = (.error f, τ) → τ = σ) ∧
    ∀ s b span u, t.declare s b span = .ok u → u.Grown kinds ∧ ∀ id name,
      (name = b.name ∧ t.Exposed s name id → u.lookup id name = some b ∧
        u.declaring? id name = some s ∧ t.declaring? id name ≠ some s) ∧
      (¬(name = b.name ∧ t.Exposed s name id) → u.lookup id name = t.lookup id name ∧
        u.declaring? id name = t.declaring? id name) := by
  refine ⟨fun id sc hs => ⟨fun p hp => ht.parent_lt hs hp, ht.chain_eq hs, fun name =>
    ⟨ht.lookup_eq hs name, ht.declaring?_eq hs name⟩⟩,
    fun id name => ⟨t.lookup_eq_bind id name, lookup_eq_none_iff⟩,
    fun id b span hid => exists_declare_iff hid b span, fun σ τ id b span f hrun => ?_,
    fun s b span u h => ⟨.declare ht h, lookup_declare h⟩⟩
  rcases Check.declare_ends id b span σ with ⟨f', hf'⟩ | ⟨υ, hυ, -⟩
  · cases hrun.symm.trans hf'
    rfl
  · cases hrun.symm.trans hυ

/-- A block in a loop, and a variable outside of both. -/
def nest : Scopes where
  scopes := [{ bindings := ⟨[.ofVariable "x" .number]⟩ }, { parent := some .root, inLoop := true },
    { parent := some ⟨1⟩, inLoop := true }]

lemma nest_grown : nest.Grown [.loop, .block] :=
  .openIn (.openIn (.declare .empty (rfl : empty.declare .root (.ofVariable "x" .number) {} = _))
    (rfl : openIn _ .root .loop = _)) (rfl : openIn _ ⟨1⟩ .block = _)

/-- A variable of the loop shadows the one outside. -/
theorem lookup_follows_chain_nest : ∃ u, nest.Grown [.loop, .block] ∧
    nest.declare ⟨1⟩ (.ofVariable "x" .string) {} = .ok u ∧
    nest.lookup ⟨2⟩ "x" = some (.ofVariable "x" .number) ∧
    u.lookup ⟨2⟩ "x" = some (.ofVariable "x" .string) ∧ u.declaring? ⟨2⟩ "x" = some ⟨1⟩ ∧
    u.lookup .root "x" = nest.lookup .root "x" := by
  obtain ⟨hscopes, -, -, -, hdeclare⟩ := lookup_follows_chain nest _ nest_grown
  have hroot : nest.chain .root = [.root] := (hscopes .root _ rfl).2.1
  have hloop : nest.chain ⟨1⟩ = [⟨1⟩, .root] := (hscopes ⟨1⟩ _ rfl).2.1.trans (by rw [← hroot]; rfl)
  have hblock : nest.chain ⟨2⟩ = [⟨2⟩, ⟨1⟩, .root] :=
    (hscopes ⟨2⟩ _ rfl).2.1.trans (by rw [← hloop]; rfl)
  obtain ⟨-, hlookup⟩ := hdeclare ⟨1⟩ (.ofVariable "x" .string) {} _ rfl
  have hinside : nest.Exposed ⟨1⟩ "x" ⟨2⟩ := ⟨[⟨2⟩], ⟨1⟩, [.root], hblock, by decide, rfl⟩
  have houtside : ¬nest.Exposed ⟨1⟩ "x" .root := by
    rw [Exposed, hroot, meets_cons]
    exact fun h => h.elim (by decide) fun h => not_meets_nil h.2
  obtain ⟨hnew, hdeclaring, -⟩ := (hlookup ⟨2⟩ "x").1 ⟨rfl, hinside⟩
  exact ⟨_, nest_grown, rfl, by rw [lookup, hblock]; rfl, hnew, hdeclaring,
    ((hlookup .root "x").2 fun h => houtside h.2).1⟩

/-! ### Loops, functions and classes -/

/-- A loop is met before the body of a function or class. -/
def LoopAround (kinds : List ScopeKind) (way : List ScopeId) : Prop :=
  Meets (fun i => (kindAt? kinds i).any ScopeKind.isBody = false)
    (fun i => kindAt? kinds i = some .loop) way

/-- **What a scope copies from its parent sums up the scopes around it.** It is in a loop exactly if
the walk outward meets a loop before the body of a function or class; its function and its class are
those of the nearest bodies around it. -/
theorem flags_sum_up_chain (t : Scopes) (kinds : List ScopeKind) (ht : t.Grown kinds) (id : ScopeId)
    (sc : Scope) (hs : t.scope? id = some sc) :
    t.chain id = id :: sc.parent.elim [] t.chain ∧
    (sc.inLoop = true ↔ LoopAround kinds (t.chain id)) ∧
    sc.frame = (t.chain id).findSome? (fun i => (kindAt? kinds i).bind ScopeKind.frame?) ∧
    sc.cls = (t.chain id).findSome? (fun i => (kindAt? kinds i).bind ScopeKind.cls?) := by
  refine ⟨ht.chain_eq hs, ?_⟩
  -- a parent has a smaller number
  induction hn : id.index using Nat.strong_induction_on generalizing id sc with
  | _ n ih =>
    rw [ht.chain_eq hs]
    cases ht.origin hs with
    | root => simp [LoopAround, meets_cons, not_meets_nil, kindAt?, ScopeId.root]
    | @inner _ p base kind hkind hlt hbase bs =>
      obtain ⟨hloop, hframe, hcls⟩ := ih p.index (hn ▸ hlt) p base hbase rfl
      rw [show ({ base.inner p kind with bindings := bs } : Scope).parent = some p from
        inner_parent _]
      unfold LoopAround at hloop ⊢
      rw [meets_cons, List.findSome?_cons, List.findSome?_cons, hkind]
      cases kind <;>
        simp [Scope.inner, ScopeKind.isBody, ScopeKind.frame?, ScopeKind.cls?, hloop, hframe, hcls]

/-- A lambda in a loop of a method. -/
def callback : Scopes where
  scopes := [{}, { parent := some .root, cls := some ⟨0⟩ },
    { parent := some ⟨1⟩, cls := some ⟨0⟩, frame := some ⟨0⟩ },
    { parent := some ⟨2⟩, cls := some ⟨0⟩, frame := some ⟨0⟩, inLoop := true },
    { parent := some ⟨3⟩, cls := some ⟨0⟩, frame := some ⟨1⟩ }]
  frames := [⟨"each", .method, .any, true⟩, ⟨"lambda", .lambda, .any, true⟩]

lemma callback_grown :
    callback.Grown [.cls ⟨0⟩, .function ⟨0⟩, .loop, .function ⟨1⟩] := by
  have hframes := (Grown.empty.addFrame ⟨"each", .method, .any, true⟩).addFrame
    ⟨"lambda", .lambda, .any, true⟩
  have hmethod := (hframes.openIn (rfl : openIn _ .root (.cls ⟨0⟩) = _)).openIn
    (rfl : openIn _ ⟨1⟩ (.function ⟨0⟩) = _)
  exact (hmethod.openIn (rfl : openIn _ ⟨2⟩ .loop = _)).openIn
    (rfl : openIn _ ⟨3⟩ (.function ⟨1⟩) = _)

/-- The lambda is in the class of the method, but not in its loop. -/
theorem flags_sum_up_chain_callback :
    let kinds : List ScopeKind := [.cls ⟨0⟩, .function ⟨0⟩, .loop, .function ⟨1⟩]
    callback.Grown kinds ∧ LoopAround kinds (callback.chain ⟨3⟩) ∧
      ¬LoopAround kinds (callback.chain ⟨4⟩) ∧
      (callback.chain ⟨4⟩).findSome? (fun i => (kindAt? kinds i).bind ScopeKind.frame?) = some ⟨1⟩ ∧
      (callback.chain ⟨4⟩).findSome? (fun i => (kindAt? kinds i).bind ScopeKind.cls?) =
        some ⟨0⟩ := by
  intro kinds
  obtain ⟨-, hloop, -⟩ := flags_sum_up_chain callback kinds callback_grown ⟨3⟩ _ rfl
  obtain ⟨-, hlambda, hframe, hcls⟩ := flags_sum_up_chain callback kinds callback_grown ⟨4⟩ _ rfl
  refine ⟨callback_grown, hloop.mp rfl, fun h => ?_, hframe.symm, hcls.symm⟩
  cases hlambda.mpr h

end Scopes
end MiddleEnd
