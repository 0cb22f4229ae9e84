import MiddleEnd.Proofs.Scopes.Denotes

/-!
Written types are copied into the table. Reading goes through the nodes of a written type from the
left to the right, each after its parts. Every array and dictionary that it completes adds a type,
and the first name that does not denote a type ends it. So what has been added is known from the
written type alone, also where the reading fails.
-/

namespace MiddleEnd

namespace TypeExpr

def isCollection : TypeExpr → Bool
  | .named .. => false
  | .array _ | .dictionary .. => true

/-- All nodes of a written type in the order in which they are completed: each after its parts, and
what stands on the left first. -/
def nodes : TypeExpr → List TypeExpr
  | .named name span => [.named name span]
  | .array e => e.nodes ++ [.array e]
  | .dictionary k v => k.nodes ++ (v.nodes ++ [.dictionary k v])

/-- The arrays and dictionaries of a written type in the order in which they are completed. -/
def collections (e : TypeExpr) : List TypeExpr := e.nodes.filter isCollection

/-- The names in a written type from left to right. -/
def names : TypeExpr → List String
  | .named name _ => [name]
  | .array e => e.names
  | .dictionary k v => k.names ++ v.names

@[simp] lemma collections_array (e : TypeExpr) :
    (array e).collections = e.collections ++ [.array e] := by
  simp [collections, nodes, isCollection]

@[simp] lemma collections_dictionary (k v : TypeExpr) :
    (dictionary k v).collections = k.collections ++ (v.collections ++ [.dictionary k v]) := by
  simp [collections, nodes, isCollection]

/-- The names stand at the nodes that are no collections. -/
lemma mem_names {e : TypeExpr} {name : String} :
    name ∈ e.names ↔ ∃ span, .named name span ∈ e.nodes := by
  induction e with
  | named n span => simp [names, nodes]
  | array e ih => simp [names, nodes, ih]
  | dictionary k v ihk ihv => simp [names, nodes, ihk, ihv, exists_or]

end TypeExpr

/-! ### Names that denote types -/

namespace Scopes

variable {s : Scopes} {id : ScopeId} {name : String}

/-- The type that a name denotes at a place, if it denotes one there. -/
def typeNamed? (s : Scopes) (id : ScopeId) (name : String) : Option TypeId :=
  ((s.lookup id name).filter Binding.denotesType).map Binding.type

/-- What is wrong with a name that does not denote a type. -/
def misnomer (s : Scopes) (id : ScopeId) (name : String) : Cause :=
  if (s.lookup id name).isSome then .notAType name else .undeclared name

/-- Reading passes the node: it is a collection, or a name that denotes a type. -/
def passes (s : Scopes) (id : ScopeId) : TypeExpr → Bool
  | .named name _ => (s.typeNamed? id name).isSome
  | .array _ | .dictionary .. => true

lemma typeNamed?_isSome : (s.typeNamed? id name).isSome ↔
    ∃ b, s.lookup id name = some b ∧ b.denotesType = true := by
  cases h : s.lookup id name with
  | none => simp [typeNamed?, h]
  | some b => cases hb : b.denotesType <;> simp [typeNamed?, h, Option.filter, hb]

lemma typeNamed?_congr {s' : Scopes} {id' : ScopeId}
    (h : s'.lookup id' name = s.lookup id name) :
    s'.typeNamed? id' name = s.typeNamed? id name := by
  rw [typeNamed?, h, typeNamed?]

lemma namedType_eq (hid : id.index < s.size) (span : Span) :
    s.namedType id name span = match s.typeNamed? id name with
      | some ty => .ok ty
      | none => .error (.user (s.misnomer id name) span) := by
  obtain ⟨sc, hsc⟩ := exists_scope hid
  unfold namedType resolve
  rw [scope_eq_ok.mpr hsc]
  cases h : s.lookup id name with
  | none =>
    rw [typeNamed?, misnomer, h]
    rfl
  | some b =>
    rw [typeNamed?, misnomer, h]
    cases hb : b.denotesType with
    | false =>
      rw [Option.filter_some, hb]
      show (ensure b.denotesType _ span >>= fun _ => Except.ok b.type) = _
      rw [hb]
      rfl
    | true =>
      rw [Option.filter_some, hb]
      show (ensure b.denotesType _ span >>= fun _ => Except.ok b.type) = _
      rw [hb]
      rfl

end Scopes

/-! ### Copies -/

namespace TypeTable

variable {t u v : TypeTable} {named named' : String → Option TypeId} {a b : TypeId} {e : TypeExpr}
  {done more : List TypeExpr}

/-- The type unfolds to the written type, with the types that are denoted by its names in their
places. -/
inductive Copies (t : TypeTable) (named : String → Option TypeId) : TypeId → TypeExpr → Prop
  | named {name : String} {span : Span} {ty : TypeId} (h : named name = some ty) :
      Copies t named ty (.named name span)
  | array {ty x : TypeId} {e : TypeExpr} (h : t.form? ty = some (.array x))
      (he : Copies t named x e) : Copies t named ty (.array e)
  | dictionary {ty x y : TypeId} {k v : TypeExpr} (h : t.form? ty = some (.dictionary x y))
      (hk : Copies t named x k) (hv : Copies t named y v) : Copies t named ty (.dictionary k v)

lemma Copies.mono (h : t.forms <+: u.forms) (ha : t.Copies named a e) : u.Copies named a e := by
  induction ha with
  | named h => exact .named h
  | array hf _ ih => exact .array (form?_mono h hf) ih
  | dictionary hf _ _ ihk ihv => exact .dictionary (form?_mono h hf) ihk ihv

/-- A type has been added for each of the collections `done`, in their order, and nothing else has
happened to the table. -/
structure Gains (named : String → Option TypeId) (t : TypeTable) (done : List TypeExpr)
    (u : TypeTable) : Prop where
  adds : t.Adds u
  length : u.forms.length = t.forms.length + done.length
  copies : ∀ {i e}, done[i]? = some e →
    u.Copies named ⟨TypeId.firstConstructed + (t.forms.length + i)⟩ e

lemma Gains.refl (t : TypeTable) : t.Gains named [] t :=
  ⟨.refl t, rfl, fun h => by simp at h⟩

lemma Gains.trans (h : t.Gains named done u) (h' : u.Gains named more v) :
    t.Gains named (done ++ more) v where
  adds := h.adds.trans h'.adds
  length := by
    rw [h'.length, h.length, List.length_append]
    omega
  copies {i e} he := by
    rcases Nat.lt_or_ge i done.length with hi | hi
    · rw [List.getElem?_append_left hi] at he
      exact (h.copies he).mono h'.adds.forms
    · rw [List.getElem?_append_right hi] at he
      have hnew := h'.copies he
      have hplace : u.forms.length + (i - done.length) = t.forms.length + i := by
        rw [h.length]
        omega
      rwa [hplace] at hnew

lemma Gains.add {f : TypeForm} (h : (t.add f).Copies named t.next e) :
    t.Gains named [e] (t.add f) where
  adds := t.adds_add f
  length := List.length_append
  copies {i e'} he := by
    obtain ⟨rfl, rfl⟩ : i = 0 ∧ e = e' := by
      cases i with
      | zero => exact ⟨rfl, Option.some.inj he⟩
      | succ i => simp at he
    exact h

/-- Two copies of a written type unfold alike. The levels are counted by the collections in it. -/
lemma Copies.unfold_eq (ha : t.Copies named a e) (hb : t.Copies named' b e)
    (hnames : ∀ name ∈ e.names, named' name = named name) {depth : ℕ}
    (hdepth : e.collections.length ≤ depth) : t.unfold depth a = t.unfold depth b := by
  induction ha generalizing b depth with
  | @named name span ty h =>
    -- both have looked up the same name
    cases hb with
    | named h' =>
      rw [hnames name List.mem_cons_self, h] at h'
      rw [Option.some.inj h']
  | array h _ ih =>
    cases hb with
    | array h' he' =>
      obtain ⟨d, rfl⟩ : ∃ d, depth = d + 1 := Nat.exists_eq_succ_of_ne_zero (by
        rintro rfl
        simp at hdepth)
      simp only [unfold, h, h']
      rw [ih he' hnames (by simpa using hdepth)]
  | dictionary h _ _ ihk ihv =>
    cases hb with
    | dictionary h' hk' hv' =>
      obtain ⟨d, rfl⟩ : ∃ d, depth = d + 1 := Nat.exists_eq_succ_of_ne_zero (by
        rintro rfl
        simp at hdepth)
      simp only [TypeExpr.collections_dictionary, List.length_append, List.length_singleton]
        at hdepth
      simp only [unfold, h, h']
      rw [ihk hk' (fun name hn => hnames name (List.mem_append_left _ hn)) (by omega),
        ihv hv' (fun name hn => hnames name (List.mem_append_right _ hn)) (by omega)]

lemma Copies.sameType (ha : t.Copies named a e) (hb : t.Copies named' b e)
    (hnames : ∀ name ∈ e.names, named' name = named name)
    (hsize : e.collections.length ≤ t.forms.length) : t.sameType a b = true := by
  have hshape : t.shape a = t.shape b := ha.unfold_eq hb hnames (Nat.le_succ_of_le hsize)
  unfold TypeTable.sameType TypeTable.signature
  rw [hshape]
  cases ha with
  | named h =>
    cases hb with
    | named h' =>
      rw [hnames _ List.mem_cons_self, h] at h'
      simp [Option.some.inj h']
  | array h _ | dictionary h _ _ => simp [isStructural, h, TypeForm.isStructural]

end TypeTable

/-! ### Reading -/

namespace Scopes

variable {s : Scopes} {id : ScopeId} {t u : TypeTable} {e : TypeExpr} {ty : TypeId}

/-- The whole written type has been read: each collection in it has added a type, and the result is
a copy of it. -/
structure Reads (s : Scopes) (id : ScopeId) (e : TypeExpr) (t : TypeTable) (ty : TypeId)
    (u : TypeTable) : Prop where
  passes : ∀ n ∈ e.nodes, s.passes id n = true
  gains : t.Gains (s.typeNamed? id) e.collections u
  copies : u.Copies (s.typeNamed? id) ty e

/-- Reading has stopped at the first name that does not denote a type. What was completed before it
has added its types. -/
structure Stops (s : Scopes) (id : ScopeId) (e : TypeExpr) (t : TypeTable) (f : Fault)
    (u : TypeTable) : Prop where
  stops : ∃ before name span after, e.nodes = before ++ .named name span :: after ∧
    (∀ n ∈ before, s.passes id n = true) ∧ s.typeNamed? id name = none ∧
    f = .user (s.misnomer id name) span ∧
    t.Gains (s.typeNamed? id) (before.filter TypeExpr.isCollection) u

def Ends (s : Scopes) (id : ScopeId) (e : TypeExpr) (t : TypeTable) :
    Except Fault TypeId × TypeTable → Prop
  | (.ok ty, u) => s.Reads id e t ty u
  | (.error f, u) => s.Stops id e t f u

/-- A part that comes first stops the reading of the whole. -/
lemma Stops.first {e' : TypeExpr} {rest : List TypeExpr} {f : Fault} (h : s.Stops id e t f u)
    (hnodes : e'.nodes = e.nodes ++ rest) : s.Stops id e' t f u := by
  obtain ⟨before, name, span, after, hsplit, hbefore, hname, hf, hgains⟩ := h.stops
  refine ⟨before, name, span, after ++ rest, ?_, hbefore, hname, hf, hgains⟩
  rw [hnodes, hsplit, List.append_assoc, List.cons_append]

/-- A part that comes after another one, which has been read, stops the reading of the whole. -/
lemma Stops.second {e' k : TypeExpr} {rest : List TypeExpr} {f : Fault} {w : TypeTable}
    (hk : s.Reads id k t ty u) (h : s.Stops id e u f w)
    (hnodes : e'.nodes = k.nodes ++ (e.nodes ++ rest)) : s.Stops id e' t f w := by
  obtain ⟨before, name, span, after, hsplit, hbefore, hname, hf, hgains⟩ := h.stops
  refine ⟨k.nodes ++ before, name, span, after ++ rest, ?_, fun n hn => ?_, hname, hf, ?_⟩
  · rw [hnodes, hsplit]
    simp only [List.append_assoc, List.cons_append]
  · exact (List.mem_append.mp hn).elim (hk.passes n) (hbefore n)
  · rw [List.filter_append]
    exact hk.gains.trans hgains

lemma Reads.array (h : s.Reads id e t ty u) :
    s.Reads id (.array e) t u.next (u.add (.array ty)) where
  passes n hn := by
    rcases List.mem_append.mp hn with hn | hn
    · exact h.passes n hn
    · rw [List.mem_singleton.mp hn]
      rfl
  gains := by
    rw [TypeExpr.collections_array]
    exact h.gains.trans (.add (.array (u.form?_add_next _) (h.copies.mono (u.forms_prefix_add _))))
  copies := .array (u.form?_add_next _) (h.copies.mono (u.forms_prefix_add _))

lemma Reads.dictionary {k v : TypeExpr} {tk tv : TypeId} {w : TypeTable} (hk : s.Reads id k t tk u)
    (hv : s.Reads id v u tv w) :
    s.Reads id (.dictionary k v) t w.next (w.add (.dictionary tk tv)) := by
  have hcopies : (w.add (.dictionary tk tv)).Copies (s.typeNamed? id) w.next (.dictionary k v) :=
    .dictionary (w.form?_add_next _)
      ((hk.copies.mono hv.gains.adds.forms).mono (w.forms_prefix_add _))
      (hv.copies.mono (w.forms_prefix_add _))
  refine ⟨fun n hn => ?_, ?_, hcopies⟩
  · rcases List.mem_append.mp hn with hn | hn
    · exact hk.passes n hn
    · rcases List.mem_append.mp hn with hn | hn
      · exact hv.passes n hn
      · rw [List.mem_singleton.mp hn]
        rfl
  · rw [TypeExpr.collections_dictionary]
    exact hk.gains.trans (hv.gains.trans (.add hcopies))

/-- Every reading comes to one of the two ends. -/
lemma ends_typeOf (hid : id.index < s.size) (e : TypeExpr) (t : TypeTable) :
    s.Ends id e t ((s.typeOf id e).run.run t) := by
  induction e generalizing t with
  | named name span =>
    show s.Ends id (.named name span) t (s.namedType id name span, t)
    rw [namedType_eq hid]
    cases h : s.typeNamed? id name with
    | none => exact ⟨[], name, span, [], rfl, List.forall_mem_nil _, h, rfl, .refl t⟩
    | some ty =>
      refine ⟨fun n hn => ?_, .refl t, .named h⟩
      rw [List.mem_singleton.mp hn]
      exact Option.isSome_iff_exists.mpr ⟨ty, h⟩
  | array e ih =>
    rw [typeOf, run_bind]
    have he := ih t
    rcases hrun : (s.typeOf id e).run.run t with ⟨f | ty, u⟩
    · rw [hrun] at he
      exact Stops.first he rfl
    · rw [hrun] at he
      exact Reads.array he
  | dictionary k v ihk ihv =>
    rw [typeOf, run_bind]
    have hk := ihk t
    rcases hrun : (s.typeOf id k).run.run t with ⟨f | tk, u⟩
    · rw [hrun] at hk
      exact Stops.first hk rfl
    · rw [hrun] at hk
      show s.Ends id (.dictionary k v) t
        ((s.typeOf id v >>= fun tv => TypeStep.add (.dictionary tk tv)).run.run u)
      rw [run_bind]
      have hv := ihv u
      rcases hrun' : (s.typeOf id v).run.run u with ⟨f | tv, w⟩
      · rw [hrun'] at hv
        exact Stops.second hk hv rfl
      · rw [hrun'] at hv
        exact Reads.dictionary hk hv

/-- Reading succeeds exactly where all names denote types. -/
lemma exists_gives_typeOf (hid : id.index < s.size) : (∃ ty u, Gives (s.typeOf id e) t ty u) ↔
    ∀ name ∈ e.names, ∃ b, s.lookup id name = some b ∧ b.denotesType = true := by
  have hends := ends_typeOf hid e t
  constructor
  · rintro ⟨ty, u, hrun⟩ name hname
    obtain ⟨span, hnode⟩ := TypeExpr.mem_names.mp hname
    rw [show (s.typeOf id e).run.run t = (.ok ty, u) from hrun] at hends
    exact typeNamed?_isSome.mp (hends.passes _ hnode)
  · intro hnames
    rcases hrun : (s.typeOf id e).run.run t with ⟨f | ty, u⟩
    · rw [hrun] at hends
      obtain ⟨before, name, span, after, hsplit, -, hnone, -, -⟩ := hends.stops
      have hname : name ∈ e.names := TypeExpr.mem_names.mpr ⟨span, by rw [hsplit]; simp⟩
      have hsome := typeNamed?_isSome.mpr (hnames name hname)
      rw [hnone] at hsome
      cases hsome
    · exact ⟨ty, u, hrun⟩

/-- **Written types are copied into the table.** Reading succeeds exactly where all names denote
types. It adds one type for each collection in the order in which they are completed, and gives a
type that unfolds to what is written; and reading the same again later, at any place from which its
names stand for the same, gives the same type. Where a name does not denote a type, the first such
name is reported, and what has been completed before it stays in the table. -/
theorem typeOf_copies (s : Scopes) {id : ScopeId} (hid : id.index < s.size) (e : TypeExpr)
    (t : TypeTable) :
    ((∃ ty u, Gives (s.typeOf id e) t ty u) ↔
      ∀ name ∈ e.names, ∃ b, s.lookup id name = some b ∧ b.denotesType = true) ∧
    (∀ ty u, Gives (s.typeOf id e) t ty u →
      t.Gains (s.typeNamed? id) e.collections u ∧ u.Copies (s.typeNamed? id) ty e ∧
      ∀ (s' : Scopes) (id' : ScopeId) (t' : TypeTable), id'.index < s'.size →
        u.forms <+: t'.forms → (∀ name ∈ e.names, s'.lookup id' name = s.lookup id name) →
        ∃ ty' u', Gives (s'.typeOf id' e) t' ty' u' ∧ u'.sameType ty ty' = true) ∧
    ∀ f u, (s.typeOf id e).run.run t = (.error f, u) →
      ∃ before name span after, e.nodes = before ++ .named name span :: after ∧
        (∀ n ∈ before, s.passes id n = true) ∧ s.typeNamed? id name = none ∧
        f = .user (s.misnomer id name) span ∧
        t.Gains (s.typeNamed? id) (before.filter TypeExpr.isCollection) u := by
  refine ⟨exists_gives_typeOf hid, fun ty u hrun => ?_, fun f u hrun => ?_⟩
  · have hends := ends_typeOf hid e t
    rw [show (s.typeOf id e).run.run t = (.ok ty, u) from hrun] at hends
    refine ⟨hends.gains, hends.copies, fun s' id' t' hid' hlater hnames => ?_⟩
    obtain ⟨ty', u', hrun'⟩ := (exists_gives_typeOf (t := t') hid').mpr fun name hname => by
      rw [hnames name hname]
      exact (exists_gives_typeOf hid).mp ⟨ty, u, hrun⟩ name hname
    have hends' := ends_typeOf hid' e t'
    rw [show (s'.typeOf id' e).run.run t' = (.ok ty', u') from hrun'] at hends'
    refine ⟨ty', u', hrun', ?_⟩
    -- both copies stand in the later table, and it is deep enough to compare them
    have hold := hends.copies.mono (hlater.trans hends'.gains.adds.forms)
    refine hold.sameType hends'.copies (fun name hname => typeNamed?_congr (hnames name hname)) ?_
    rw [hends'.gains.length]
    exact Nat.le_add_left _ _
  · have hends := ends_typeOf hid e t
    rw [hrun] at hends
    exact hends.stops

end Scopes

/-- A written type with collections on several levels. -/
def albums : TypeExpr :=
  .dictionary (.named "String" {})
    (.array (.dictionary (.named "Number" {}) (.array (.named "Any" {}))))

/-- A written type with a function in the place of a type. -/
def misprinted : TypeExpr :=
  .dictionary (.array (.named "String" {}))
    (.dictionary (.array (.named "Number" {})) (.named "print" (.onLine 1 7 12)))

/-- Reading `albums` twice gives two types, which are the same. Reading `misprinted` fails at the
function, and the two arrays that stand before it stay in the table. -/
theorem typeOf_copies_albums :
    let s := Scopes.withBuiltins
    (∃ ty u, Gives (s.typeOf .root albums) {} ty u ∧
      ({} : TypeTable).Gains (s.typeNamed? .root) albums.collections u ∧ u.forms.length = 4 ∧
      ∃ ty' u', Gives (s.typeOf .root albums) u ty' u' ∧ u'.sameType ty ty' = true) ∧
    ∃ f u, (s.typeOf .root misprinted).run.run {} = (.error f, u) ∧
      u.forms = [.array .string, .array .number] ∧ ∃ before name span after,
        misprinted.nodes = before ++ .named name span :: after ∧
        f = .user (s.misnomer .root name) span ∧
        ({} : TypeTable).Gains (s.typeNamed? .root) (before.filter TypeExpr.isCollection) u := by
  have hroot : ScopeId.root.index < Scopes.withBuiltins.size := by decide
  have hread : (Scopes.withBuiltins.typeOf .root albums).run.run {} = (.ok ⟨1003⟩,
      { forms := [.array .any, .dictionary .number ⟨1000⟩, .array ⟨1001⟩,
        .dictionary .string ⟨1002⟩] }) := by with_unfolding_all rfl
  have hstop : (Scopes.withBuiltins.typeOf .root misprinted).run.run {} =
      (.error (.user (.notAType "print") (.onLine 1 7 12)),
        { forms := [.array .string, .array .number] }) := by with_unfolding_all rfl
  obtain ⟨hgains, -, hagain⟩ :=
    (Scopes.typeOf_copies .withBuiltins hroot albums {}).2.1 _ _ hread
  obtain ⟨before, name, span, after, hsplit, -, -, hf, hkept⟩ :=
    (Scopes.typeOf_copies .withBuiltins hroot misprinted {}).2.2 _ _ hstop
  exact ⟨⟨_, _, hread, hgains, rfl,
    hagain .withBuiltins .root _ hroot (List.prefix_refl _) fun _ _ => rfl⟩,
    _, _, hstop, rfl, before, name, span, after, hsplit, hf, hkept⟩

end MiddleEnd
