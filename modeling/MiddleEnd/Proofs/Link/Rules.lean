import MiddleEnd.Proofs.Link.Basic

/-!
The rules do not see numbers: what a rule allows in one session it allows in the other, for types,
classes and names that are linked.
-/

namespace MiddleEnd

/-- Trees with linked leaves. -/
inductive TypeTree.Linked (ρ : Link) : TypeTree → TypeTree → Prop
  | leaf {t t' : TypeId} (h : ρ.type t t') : Linked ρ (.leaf t) (.leaf t')
  | array {x x' : TypeTree} (h : Linked ρ x x') : Linked ρ (.array x) (.array x')
  | dictionary {x x' y y' : TypeTree} (hk : Linked ρ x x') (hv : Linked ρ y y') :
      Linked ρ (.dictionary x y) (.dictionary x' y')

/-- A tree has one tree that it is linked with. -/
lemma TypeTree.Linked.right_unique {ρ : Link} (hρ : Relator.BiUnique ρ) {x x' y' : TypeTree}
    (hx : x.Linked ρ x') (hy : x.Linked ρ y') : x' = y' := by
  induction hx generalizing y' with
  | leaf h =>
    cases hy with
    | leaf h' => rw [Cell.type.inj (hρ.2 h h')]
  | array _ ih =>
    cases hy with
    | array h' => rw [ih h']
  | dictionary _ _ ihk ihv =>
    cases hy with
    | dictionary hk' hv' => rw [ihk hk', ihv hv']

lemma TypeTree.Linked.left_unique {ρ : Link} (hρ : Relator.BiUnique ρ) {x x' y : TypeTree}
    (hx : x.Linked ρ x') (hy : y.Linked ρ x') : x = y := by
  induction hx generalizing y with
  | leaf h =>
    cases hy with
    | leaf h' => rw [Cell.type.inj (hρ.1 h h')]
  | array _ ih =>
    cases hy with
    | array h' => rw [ih h']
  | dictionary _ _ ihk ihv =>
    cases hy with
    | dictionary hk' hv' => rw [ihk hk', ihv hv']

namespace World

variable {lax : Prop} {w : World lax} {t t' u u' : TypeId} {c c' : ClassId} {id id' : ScopeId}
  {span span' : Span}

/-! ### Types -/

lemma form (h : w.link.type t t') :
    ∃ f f', w.left.types.form? t = some f ∧ w.right.types.form? t' = some f' ∧
      f.Linked w.link f' := by
  cases w.agree h with
  | type hl hr hform => exact ⟨_, _, hl, hr, hform⟩

lemma registered (h : w.link.type t t') :
    w.left.types.Registered t ∧ w.right.types.Registered t' := by
  obtain ⟨f, f', hl, hr, -⟩ := form h
  exact ⟨⟨f, hl⟩, f', hr⟩

/-- A basic type stands for itself only. -/
lemma eq_basic_iff {f : TypeForm} (hf : f.basicId? = some u) (h : w.link.type t t') :
    t' = u ↔ t = u := by
  constructor
  · rintro rfl
    exact Cell.type.inj (w.unique.1 h (w.basic hf))
  · rintro rfl
    exact Cell.type.inj (w.unique.2 h (w.basic hf))

lemma isAny_eq (h : w.link.type t t') : t'.isAny = t.isAny := by
  rw [TypeId.isAny, TypeId.isAny, decide_eq_decide]
  exact eq_basic_iff (f := .any) rfl h

lemma unfolds {x : TypeTree} (h : w.link.type t t') (hx : w.left.types.Unfolds t x) :
    ∃ x', w.right.types.Unfolds t' x' ∧ x.Linked w.link x' := by
  induction hx generalizing t' with
  | leaf hf hn =>
    obtain ⟨f, f', hl, hr, hform⟩ := form h
    cases hf.symm.trans hl
    refine ⟨.leaf t', .leaf hr ?_, .leaf h⟩
    cases hform with
    | basic => exact hn
    | array | dictionary => cases hn
    | object => rfl
  | array hf _ ih =>
    obtain ⟨f, f', hl, hr, hform⟩ := form h
    cases hf.symm.trans hl
    cases hform with
    | basic hb => cases hb
    | array he =>
      obtain ⟨x', hx', hlink⟩ := ih he
      exact ⟨_, .array hr hx', .array hlink⟩
  | dictionary hf _ _ ihk ihv =>
    obtain ⟨f, f', hl, hr, hform⟩ := form h
    cases hf.symm.trans hl
    cases hform with
    | basic hb => cases hb
    | dictionary hk hv =>
      obtain ⟨x', hx', hxlink⟩ := ihk hk
      obtain ⟨y', hy', hylink⟩ := ihv hv
      exact ⟨_, .dictionary hr hx' hy', .dictionary hxlink hylink⟩

lemma sameType_eq (ht : w.link.type t t') (hu : w.link.type u u') :
    w.right.types.sameType t' u' = w.left.types.sameType t u := by
  have hwf := w.leftOrdered.types.wellFormed
  obtain ⟨x, hx⟩ := hwf.exists_unfolds (registered ht).1
  obtain ⟨y, hy⟩ := hwf.exists_unfolds (registered hu).1
  obtain ⟨x', hx', hxlink⟩ := unfolds ht hx
  obtain ⟨y', hy', hylink⟩ := unfolds hu hy
  rw [Bool.eq_iff_iff, w.rightOrdered.types.wellFormed.sameType_iff hx' hy',
    hwf.sameType_iff hx hy]
  constructor
  · rintro rfl
    exact hxlink.left_unique w.unique hylink
  · rintro rfl
    exact hxlink.right_unique w.unique hylink

lemma assignable_eq (ht : w.link.type t t') (hu : w.link.type u u') :
    w.right.types.assignable t' u' = w.left.types.assignable t u := by
  rw [TypeTable.assignable, TypeTable.assignable, isAny_eq ht, isAny_eq hu, sameType_eq ht hu]

lemma overlap_eq (ht : w.link.type t t') (hu : w.link.type u u') :
    w.right.types.overlap t' u' = w.left.types.overlap t u := by
  rw [TypeTable.overlap, TypeTable.overlap, isAny_eq ht, isAny_eq hu, sameType_eq ht hu]

/-- Lists of types have linked common types: equal types stand for equal types. -/
lemma common {ts ts' : List TypeId} (h : List.Forall₂ w.link.type ts ts') :
    w.link.type (.common ts) (.common ts') := by
  cases h with
  | nil => exact w.basic (f := .any) rfl
  | @cons t t' ts ts' ht hts =>
    have hall : (ts'.all fun u => u = t') = ts.all fun u => u = t := by
      induction hts with
      | nil => rfl
      | cons hu _ ih =>
        rw [List.all_cons, List.all_cons, ih]
        congr 1
        rw [decide_eq_decide]
        constructor
        · rintro rfl
          exact Cell.type.inj (w.unique.1 hu ht)
        · rintro rfl
          exact Cell.type.inj (w.unique.2 hu ht)
    rw [TypeId.common, TypeId.common, hall]
    split
    · exact ht
    · exact w.basic (f := .any) rfl

/-! ### Expressions that have been looked at -/

def Typed (w : World lax) (e e' : Expr) : Prop := w.link.type e.type e'.type

variable {e e' : Expr} {args args' : List Expr}

lemma types_of_typed (h : List.Forall₂ w.Typed args args') :
    List.Forall₂ w.link.type (args.map Expr.type) (args'.map Expr.type) := by
  rw [List.forall₂_map_left_iff, List.forall₂_map_right_iff]
  exact h

lemma number (h : w.Typed e e') {cause cause' : Cause} (hok : Rule.number e cause = .ok ()) :
    Rule.number e' cause' = .ok () := by
  rw [Rule.number, ensure_eq_ok] at hok ⊢
  rw [isAny_eq h, decide_eq_decide.mpr (eq_basic_iff (f := .number) rfl h)]
  exact hok

lemma boolean (h : w.Typed e e') {role role' : String} (hok : Rule.boolean e role = .ok ()) :
    Rule.boolean e' role' = .ok () := by
  rw [Rule.boolean, ensure_eq_ok] at hok ⊢
  rw [isAny_eq h, decide_eq_decide.mpr (eq_basic_iff (f := .boolean) rfl h)]
  exact hok

lemma assignable (h : w.Typed e e') (ht : w.link.type t t') {cause cause' : Option Cause}
    (hok : Rule.assignable w.left.types e t cause = .ok ()) :
    Rule.assignable w.right.types e' t' cause' = .ok () := by
  rw [Rule.assignable, ensure_eq_ok] at hok ⊢
  rw [assignable_eq ht h]
  exact hok

lemma accepts (hargs : List.Forall₂ w.Typed args args') {ps ps' : List TypeId}
    (hps : List.Forall₂ w.link.type ps ps') (h : w.left.types.Accepts ps args) :
    w.right.types.Accepts ps' args' := by
  induction h generalizing ps' args' with
  | nil =>
    cases hargs
    cases hps
    exact List.Forall₂.nil
  | cons hpa _ ih =>
    cases hargs with
    | cons ha hargs =>
      cases hps with
      | cons hp hps => exact List.Forall₂.cons ((assignable_eq hp ha).trans hpa) (ih hargs hps)

/-! ### Names -/

variable {b b' : Binding} {name : String}

lemma isCallable_eq (h : b.Linked w.link b') : b'.isCallable = b.isCallable := by
  obtain ⟨n, k, t, bt⟩ := b
  obtain ⟨n', k', t', bt'⟩ := b'
  obtain ⟨-, hkind, htype, -⟩ := h
  cases hkind with
  | value | parameter => exact isAny_eq htype
  | _ => rfl

end World

lemma Binding.Linked.isValue_eq {ρ : Link} {b b' : Binding} (h : b.Linked ρ b') :
    b'.isValue = b.isValue := by
  obtain ⟨n, k, t, bt⟩ := b
  obtain ⟨n', k', t', bt'⟩ := b'
  cases h.kind <;> rfl

lemma Binding.Linked.denotesType_eq {ρ : Link} {b b' : Binding} (h : b.Linked ρ b') :
    b'.denotesType = b.denotesType := by
  obtain ⟨n, k, t, bt⟩ := b
  obtain ⟨n', k', t', bt'⟩ := b'
  cases h.kind <;> rfl

namespace World

variable {lax : Prop} {w : World lax} {t t' u u' : TypeId} {c c' : ClassId} {id id' : ScopeId}
  {span span' : Span} {e e' : Expr} {args args' : List Expr} {b b' : Binding} {name : String}

lemma callable (h : b.Linked w.link b') (hok : Rule.callable b span = .ok ()) :
    Rule.callable b' span' = .ok () := by
  rw [Rule.callable, ensure_eq_ok] at hok ⊢
  rw [isCallable_eq h]
  exact hok

/-! ### Classes -/

lemma classEntry (h : w.link.cls c c') :
    ∃ e e', w.left.types.class? c = some e ∧ w.right.types.class? c' = some e' ∧
      e'.name = e.name ∧ w.link.type e.type e'.type := by
  cases w.agree h with
  | cls hl hr hname htype => exact ⟨_, _, hl, hr, hname, htype⟩

/-- Linked classes have linked constructors and members. -/
abbrev Full (w : World lax) : Prop := w.link.Whole

lemma Full.overloads (hw : w.Full) (h : w.link.cls c c') {k k' : ClassEntry}
    (hk : w.left.types.class? c = some k) (hk' : w.right.types.class? c' = some k') :
    List.Forall₂ (List.Forall₂ w.link.type) k.overloads k'.overloads := by
  cases w.agree (hw.constructors h) with
  | constructors _ hl hr hks =>
    cases hk.symm.trans hl
    cases hk'.symm.trans hr
    unfold ClassEntry.overloads
    generalize k.constructors = ks, k'.constructors = ks' at hks
    cases hks with
    | nil => exact .cons .nil .nil
    | cons hps hks =>
      refine List.forall₂_map_left_iff.mpr (List.forall₂_map_right_iff.mpr ?_)
      exact .cons hps hks

lemma Full.member (hw : w.Full) (h : w.link.cls c c') {k k' : ClassEntry}
    (hk : w.left.types.class? c = some k) (hk' : w.right.types.class? c' = some k') (n : String) :
    Option.Rel (Binding.Linked w.link) (k.members.find? n) (k'.members.find? n) := by
  cases w.agree (hw.members n h) with
  | member _ hl hr hb =>
    cases hk.symm.trans hl
    cases hk'.symm.trans hr
    exact hb

lemma clash_eq {k k' l l' : Constructor} (hk : List.Forall₂ w.link.type k.params k'.params)
    (hl : List.Forall₂ w.link.type l.params l'.params) :
    Rule.clash w.right.types k' l' = Rule.clash w.left.types k l := by
  rw [Rule.clash, Rule.clash, hk.length_eq, hl.length_eq]
  congr 1
  generalize k.params = ps, k'.params = ps' at hk
  generalize l.params = qs, l'.params = qs' at hl
  induction hk generalizing qs qs' with
  | nil => rfl
  | cons hp _ ih =>
    cases hl with
    | nil => rfl
    | cons hq hqs =>
      rw [List.zip_cons_cons, List.zip_cons_cons, List.all_cons, List.all_cons, ih _ _ hqs]
      exact congrArg (· && _) (overlap_eq hp hq)

lemma Full.constructorsDiffer (hw : w.Full) (h : w.link.cls c c') {k k' : ClassEntry}
    (hk : w.left.types.class? c = some k) (hk' : w.right.types.class? c' = some k')
    (hok : Rule.constructorsDiffer w.left.types k = .ok ()) :
    Rule.constructorsDiffer w.right.types k' = .ok () := by
  cases w.agree (hw.constructors h) with
  | constructors _ hl hr hks =>
    cases hk.symm.trans hl
    cases hk'.symm.trans hr
    rw [Rule.constructorsDiffer, Rule.clashFree_eq_ok, List.pairwise_iff_getElem] at hok ⊢
    intro i j hi hj hij
    rw [← hks.length_eq] at hi hj
    exact (clash_eq (hks.get hi _) (hks.get hj _)).trans (hok i j hi hj hij)

/-! ### Calls -/

variable {r : CallTarget × TypeId}

lemma any : w.link.type .any .any := w.basic (f := .any) rfl

lemma arguments (hargs : List.Forall₂ w.Typed args args') {ps ps' : List TypeId}
    (hps : List.Forall₂ w.link.type ps ps')
    (hok : Rule.arguments w.left.types args ps span = .ok ()) :
    Rule.arguments w.right.types args' ps' span' = .ok () :=
  Rule.arguments_eq_ok.mpr (accepts hargs hps (Rule.arguments_eq_ok.mp hok))

lemma instantiate (hw : w.Full) (hc : w.link.cls c c') (hargs : List.Forall₂ w.Typed args args')
    (h : Call.instantiate w.left.types c args span = .ok r) :
    ∃ r', Call.instantiate w.right.types c' args' span' = .ok r' ∧ w.link.type r.2 r'.2 := by
  obtain ⟨k, k', hk, hk', -, htype⟩ := classEntry hc
  obtain ⟨k0, hk0, h⟩ := Except.bind_eq_ok.mp h
  cases hk.symm.trans (TypeTable.classEntry_eq_ok.mp hk0)
  obtain ⟨_, hoverload, h⟩ := Except.bind_eq_ok.mp h
  cases h
  obtain ⟨ps, hps, hacc⟩ := Rule.overload_eq_ok.mp hoverload
  obtain ⟨ps', hps', hlink⟩ := exists_of_forall₂ (hw.overloads hc hk hk') hps
  refine ⟨(.instantiate c', k'.type), Except.bind_eq_ok.mpr ⟨k', ?_, ?_⟩, htype⟩
  · exact TypeTable.classEntry_eq_ok.mpr hk'
  · exact Except.bind_eq_ok.mpr
      ⟨(), Rule.overload_eq_ok.mpr ⟨ps', hps', accepts hargs hlink hacc⟩, rfl⟩

lemma named (hw : w.Full) (hb : b.Linked w.link b') (hargs : List.Forall₂ w.Typed args args')
    (h : Call.named w.left.types b args span = .ok r) :
    ∃ r', Call.named w.right.types b' args' span' = .ok r' ∧ w.link.type r.2 r'.2 := by
  obtain ⟨n, k, t, bt⟩ := b
  obtain ⟨n', k', t', bt'⟩ := b'
  obtain ⟨-, hkind, -, -⟩ := hb
  cases hkind with
  | function hps hresult =>
    obtain ⟨_, harguments, h⟩ := Except.bind_eq_ok.mp h
    cases h
    exact ⟨_, Except.bind_eq_ok.mpr ⟨(), arguments hargs hps harguments, rfl⟩, hresult⟩
  | cls hc => exact instantiate hw hc hargs h
  | type | value | parameter =>
    cases h
    exact ⟨_, rfl, any⟩

/-- A call of a member has the type that a call by the member's name would have. -/
lemma method_eq_ok {types : TypeTable} {t : TypeId} :
    (∃ g, Call.method types c name args span = .ok (g, t)) ↔
      ∃ k b g, types.class? c = some k ∧ k.members.find? name = some b ∧
        Rule.callable b span = .ok () ∧ Call.named types b args span = .ok (g, t) := by
  unfold Call.method
  constructor
  · rintro ⟨g, h⟩
    obtain ⟨k, hk, h⟩ := Except.bind_eq_ok.mp h
    refine ⟨k, ?_⟩
    split at h
    · cases h
    · rename_i b hb
      obtain ⟨_, hcallable, h⟩ := Except.bind_eq_ok.mp h
      refine ⟨b, ?_⟩
      unfold Call.named
      split at h
      · obtain ⟨_, harguments, h⟩ := Except.bind_eq_ok.mp h
        cases h
        exact ⟨_, TypeTable.classEntry_eq_ok.mp hk, hb, hcallable,
          Except.bind_eq_ok.mpr ⟨(), harguments, rfl⟩⟩
      · exact ⟨g, TypeTable.classEntry_eq_ok.mp hk, hb, hcallable, h⟩
      · cases h
        exact ⟨_, TypeTable.classEntry_eq_ok.mp hk, hb, hcallable, rfl⟩
  · rintro ⟨k, b, g, hk, hb, hcallable, h⟩
    have hentry := TypeTable.classEntry_eq_ok.mpr hk
    unfold Call.named at h
    split at h
    · -- a function: the target is the method, the type is the same
      rename_i sig hkind
      obtain ⟨_, harguments, h⟩ := Except.bind_eq_ok.mp h
      cases h
      exact ⟨.method c name, by simp [Except.bind_eq_ok, hentry, hb, hkind, hcallable, harguments]⟩
    · rename_i inner hkind
      exact ⟨g, by simp [Except.bind_eq_ok, hentry, hb, hkind, hcallable, h]⟩
    · -- a value: nothing is known of what is called
      rename_i hfunction hcls
      cases h
      refine ⟨.dynamic, ?_⟩
      cases hkind : b.kind with
      | function sig => exact absurd hkind (hfunction sig)
      | cls inner => exact absurd hkind (hcls inner)
      | _ => simp [Except.bind_eq_ok, hentry, hb, hkind, hcallable]

lemma method (hw : w.Full) (hc : w.link.cls c c') (hargs : List.Forall₂ w.Typed args args')
    (h : Call.method w.left.types c name args span = .ok r) :
    ∃ r', Call.method w.right.types c' name args' span' = .ok r' ∧ w.link.type r.2 r'.2 := by
  obtain ⟨k, b, g, hk, hb, hcallable, h⟩ := method_eq_ok.mp ⟨r.1, h⟩
  obtain ⟨k0, k', hk0, hk', -, -⟩ := classEntry hc
  cases hk.symm.trans hk0
  obtain ⟨b', hb', hlink⟩ := Option.Rel.exists_of_some (hw.member hc hk hk' name) hb
  obtain ⟨⟨g', t'⟩, hr', ht'⟩ := named hw hlink hargs h
  obtain ⟨g'', h''⟩ := method_eq_ok.mpr ⟨k', b', g', hk', hb', callable hlink hcallable, hr'⟩
  exact ⟨_, h'', ht'⟩

/-- What comes with the language is the same in both sessions. -/
lemma builtinMember?_eq (ht : w.link.type t t') (name : String) :
    w.right.types.builtinMember? t' name = w.left.types.builtinMember? t name := by
  obtain ⟨f, f', hf, hf', hform⟩ := form ht
  unfold TypeTable.builtinMember?
  rw [hf, hf']
  cases hform <;> rfl

lemma callMember (hw : w.Full) (ht : w.link.type t t') (hargs : List.Forall₂ w.Typed args args')
    (h : Call.member w.left.types t name args span = .ok r) :
    ∃ r', Call.member w.right.types t' name args' span' = .ok r' ∧ w.link.type r.2 r'.2 := by
  have hbuiltin := builtinMember?_eq ht name
  obtain ⟨f, f', hf, hf', hform⟩ := form ht
  -- what is called on anything but an object has to be a built-in member
  have hnone (h : Rule.callable (.ofVariable name ((w.left.types.builtinMember? t name).getD .any))
      span >>= (fun _ => pure (CallTarget.dynamic, TypeId.any)) = .ok r) :
      ∃ r', Rule.callable (.ofVariable name ((w.right.types.builtinMember? t' name).getD .any))
        span' >>= (fun _ => pure (CallTarget.dynamic, TypeId.any)) = .ok r' ∧
          w.link.type r.2 r'.2 := by
    obtain ⟨_, hcallable, h⟩ := Except.bind_eq_ok.mp h
    cases h
    rw [hbuiltin]
    exact ⟨_, Except.bind_eq_ok.mpr ⟨(), ensure_eq_ok.mpr (ensure_eq_ok.mp hcallable), rfl⟩, any⟩
  unfold Call.member at h ⊢
  rw [hf] at h
  rw [hf']
  cases hform with
  | object hc => exact method hw hc hargs h
  | array | dictionary => exact hnone h
  | @basic f hbasic =>
    cases f with
    | any =>
      cases h
      exact ⟨_, rfl, any⟩
    | number | string | boolean | null => exact hnone h
    | array | dictionary | object => cases hbasic

lemma computed (h : w.Typed e e') (hok : Call.computed w.left.types e = .ok ()) :
    Call.computed w.right.types e' = .ok () := by
  rw [Call.computed, ensure_eq_ok] at hok ⊢
  rw [isAny_eq h]
  exact hok

/-! ### Members and subscripts -/

lemma member (hw : w.Full) (ht : w.link.type t t')
    (hok : Rule.member w.left.types t name span = .ok ()) :
    Rule.member w.right.types t' name span' = .ok () := by
  have hbuiltin := builtinMember?_eq ht name
  obtain ⟨f, f', hf, hf', hform⟩ := form ht
  unfold Rule.member at hok ⊢
  rw [hf] at hok
  rw [hf']
  cases hform with
  | object hc =>
    obtain ⟨k, k', hk, hk', -, -⟩ := classEntry hc
    have hmember := Option.Rel.isSome_eq (hw.member hc hk hk' name)
    simp only [hk, hk', ensure_eq_ok, Option.any_some, Bindings.contains, hmember] at hok ⊢
    exact hok
  | array | dictionary =>
    simp only [ensure_eq_ok, hbuiltin] at hok ⊢
    exact hok
  | @basic f hbasic =>
    cases f with
    | any => rfl
    | number | string | boolean | null =>
      simp only [ensure_eq_ok, hbuiltin] at hok ⊢
      exact hok
    | array | dictionary | object => cases hbasic

lemma memberType (hw : w.Full) (ht : w.link.type t t') (name : String) :
    w.link.type (w.left.types.memberType t name) (w.right.types.memberType t' name) := by
  -- built-in members have basic types, which are linked to themselves
  have hbuiltin : w.link.type ((w.left.types.builtinMember? t name).getD .any)
      ((w.right.types.builtinMember? t' name).getD .any) := by
    have hlength : w.link.type ((if name = "length" then some .number else none).getD .any)
        ((if name = "length" then some .number else none).getD .any) := by
      split
      · exact w.basic (f := .number) rfl
      · exact any
    rw [builtinMember?_eq ht]
    unfold TypeTable.builtinMember?
    split
    · exact hlength
    · exact hlength
    · exact hlength
    · exact any
  obtain ⟨f, f', hf, hf', hform⟩ := form ht
  unfold TypeTable.memberType
  rw [hf, hf']
  cases hform with
  | object hc =>
    obtain ⟨k, k', hk, hk', -, -⟩ := classEntry hc
    have hmember := hw.member hc hk hk' name
    simp only [hk, hk', Option.bind_some]
    generalize k.members.find? name = m, k'.members.find? name = m' at hmember
    cases hmember with
    | none => exact any
    | some hb =>
      simp only [hb.isValue_eq]
      split
      · exact hb.type
      · exact any
  | array | dictionary => exact hbuiltin
  | @basic f hbasic =>
    cases f with
    | array | dictionary | object => cases hbasic
    | _ => exact hbuiltin

lemma subscriptType {o o' i i' : Expr} (ho : w.Typed o o') (hi : w.Typed i i')
    (h : Check.subscriptType w.left.types o i = .ok t) :
    ∃ t', Check.subscriptType w.right.types o' i' = .ok t' ∧ w.link.type t t' := by
  obtain ⟨f, f', hf, hf', hform⟩ := form ho
  unfold Check.subscriptType at h ⊢
  rw [hf] at h
  rw [hf']
  cases hform with
  | array he =>
    obtain ⟨_, hindex, h⟩ := Except.bind_eq_ok.mp h
    cases h
    exact ⟨_, Except.bind_eq_ok.mpr
      ⟨(), assignable hi (w.basic (f := .number) rfl) hindex, rfl⟩, he⟩
  | dictionary hk hv =>
    obtain ⟨_, hindex, h⟩ := Except.bind_eq_ok.mp h
    cases h
    exact ⟨_, Except.bind_eq_ok.mpr ⟨(), assignable hi hk hindex, rfl⟩, hv⟩
  | object =>
    cases h
    exact ⟨_, rfl, any⟩
  | @basic f hbasic =>
    cases f with
    | array | dictionary | object => cases hbasic
    | _ =>
      cases h
      exact ⟨_, rfl, any⟩

lemma collection (h : w.Typed e e') (hok : Rule.collection w.left.types e = .ok ()) :
    Rule.collection w.right.types e' = .ok () := by
  obtain ⟨f, f', hf, hf', hform⟩ := form h
  unfold Rule.collection at hok ⊢
  rw [hf] at hok
  rw [hf']
  rw [ensure_eq_ok] at hok ⊢
  cases hform <;> exact hok

/-! ### Places -/

lemma scope (h : w.link.scope id id') :
    ∃ s s', w.left.scopes.scope? id = some s ∧ w.right.scopes.scope? id' = some s' ∧
      s.Linked w.link s' := by
  cases w.agree h with
  | scope hl hr hs => exact ⟨_, _, hl, hr, hs⟩

lemma inLoop (h : w.link.scope id id') {keyword : String}
    (hok : Rule.inLoop w.left.scopes id keyword span = .ok ()) :
    Rule.inLoop w.right.scopes id' keyword span' = .ok () := by
  obtain ⟨s, s', hs, hs', hlinked⟩ := w.scope h
  obtain ⟨_, hscope, hok⟩ := Except.bind_eq_ok.mp hok
  cases hs.symm.trans (Scopes.scope_eq_ok.mp hscope)
  refine Except.bind_eq_ok.mpr ⟨s', Scopes.scope_eq_ok.mpr hs', ensure_eq_ok.mpr ?_⟩
  rw [hlinked.inLoop]
  exact ensure_eq_ok.mp hok

lemma inFunction (h : w.link.scope id id') {keyword : String} {f : FrameId}
    (hok : Rule.inFunction w.left.scopes id keyword span = .ok f) :
    ∃ f', Rule.inFunction w.right.scopes id' keyword span' = .ok f' ∧ w.link.frame f f' := by
  obtain ⟨s, s', hs, hs', hlinked⟩ := w.scope h
  obtain ⟨_, hscope, hok⟩ := Except.bind_eq_ok.mp hok
  cases hs.symm.trans (Scopes.scope_eq_ok.mp hscope)
  split at hok
  · rename_i hf
    cases hok
    obtain ⟨f', hf', hlink⟩ := Option.Rel.exists_of_some hlinked.frame hf
    refine ⟨f', Except.bind_eq_ok.mpr ⟨s', Scopes.scope_eq_ok.mpr hs', ?_⟩, hlink⟩
    rw [hf']
    rfl
  · cases hok

lemma inClass (h : w.link.scope id id') {keyword : String}
    (hok : Rule.inClass w.left.scopes id keyword span = .ok c) :
    ∃ c', Rule.inClass w.right.scopes id' keyword span' = .ok c' ∧ w.link.cls c c' ∧
      w.link.body c c' := by
  obtain ⟨s, s', hs, hs', hlinked⟩ := w.scope h
  obtain ⟨_, hscope, hok⟩ := Except.bind_eq_ok.mp hok
  cases hs.symm.trans (Scopes.scope_eq_ok.mp hscope)
  split at hok
  · rename_i hc
    cases hok
    obtain ⟨c', hc', hlink⟩ := Option.Rel.exists_of_some hlinked.cls hc
    refine ⟨c', Except.bind_eq_ok.mpr ⟨s', Scopes.scope_eq_ok.mpr hs', ?_⟩, hlink⟩
    rw [hc']
    rfl
  · cases hok

end World

end MiddleEnd
