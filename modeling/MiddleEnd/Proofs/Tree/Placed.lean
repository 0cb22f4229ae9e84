import MiddleEnd.Proofs.Tree.Erase
import MiddleEnd.Proofs.Tree.Induction

/-!
Where statements and expressions may stand. A place is what is around a node: whether it is in a
loop, in a function and in a class. The rules speak of places only, so what the analysis finds out
about a tree does not matter to them.
-/

namespace MiddleEnd

/-- What is around a node. -/
structure Surroundings where
  inLoop : Bool := false
  inFunction : Bool := false
  /-- The innermost of them is a constructor. -/
  inConstructor : Bool := false
  inClass : Bool := false
  deriving DecidableEq

namespace Surroundings

/-- In the body of a loop, or in its header. -/
def loop (place : Surroundings) : Surroundings := { place with inLoop := true }

/-- In the body of a function or lambda, which leaves the loop that it stands in. -/
def function (place : Surroundings) : Surroundings :=
  { place with inLoop := false, inFunction := true, inConstructor := false }

def constructor (place : Surroundings) : Surroundings :=
  { place with inLoop := false, inFunction := true, inConstructor := true }

def body (place : Surroundings) : Surroundings := { place with inLoop := false, inClass := true }

end Surroundings

/-- A constructor stands in a class of its name; `owner` is the class that the statement is a member
of. -/
def Stmt.fits (owner : Option String) : Stmt → Bool
  | .ctor head _ => owner = some head.name
  | _ => true

mutual
/-- All of the expression stands where it may stand. -/
def Expr.placed (place : Surroundings) : Expr → Bool
  | .number .. | .string .. | .boolean .. | .null _ | .name .. => true
  | .self _ => place.inClass
  | .binary _ _ l r => l.placed place && r.placed place
  | .unary _ _ e => e.placed place
  | .step _ _ e => e.placed place
  | .ternary _ c y n => c.placed place && y.placed place && n.placed place
  | .call _ f args _ => f.placed place && Expr.placedList place args
  | .member _ o _ => o.placed place
  | .subscript _ o i => o.placed place && i.placed place
  | .array _ es => Expr.placedList place es
  | .dictionary _ es => Expr.placedEntries place es
  | .blockLambda _ _ _ body => Stmt.placedBlock place.function body
  | .exprLambda _ _ body => body.placed place.function

def Expr.placedList (place : Surroundings) : List Expr → Bool
  | [] => true
  | e :: es => e.placed place && Expr.placedList place es

def Expr.placedEntries (place : Surroundings) : List (Expr × Expr) → Bool
  | [] => true
  | (k, v) :: es => k.placed place && v.placed place && Expr.placedEntries place es

def Expr.placedOption (place : Surroundings) : Option Expr → Bool
  | none => true
  | some e => e.placed place

def Expr.placedInit (place : Surroundings) : Option (VarHead × Option Expr) → Bool
  | none => true
  | some (_, e) => Expr.placedOption place e

/-- All of the statement stands where it may stand: loops are left from inside, functions are
returned from inside, and a constructor gives back nothing. -/
def Stmt.placed (place : Surroundings) : Stmt → Bool
  | .var _ init => Expr.placedOption place init
  | .assign _ t v => t.placed place && v.placed place
  | .func _ body => Stmt.placedBlock place.function body
  | .cls head ms => Stmt.placedList (some head.name) place.body ms
  | .ctor _ body => Stmt.placedBlock place.constructor body
  | .ifElse _ c body rest => c.placed place && Stmt.placedBlock place body && rest.placed place
  | .whileLoop _ c body => c.placed place && Stmt.placedBlock place.loop body
  | .forLoop _ init c update body =>
    Expr.placedInit place.loop init && Expr.placedOption place.loop c
      && Stmt.placedUpdate place.loop update && Stmt.placedBlock place.loop body
  | .ret _ v =>
    place.inFunction && !(place.inConstructor && v.isSome) && Expr.placedOption place v
  | .brk _ => place.inLoop
  | .expr e => e.placed place

def Stmt.placedUpdate (place : Surroundings) : Option Stmt → Bool
  | none => true
  | some s => !s.isClass && !s.isFunction && s.placed place

/-- A block holds no declarations of classes, functions and constructors. -/
def Stmt.placedBlock (place : Surroundings) : List Stmt → Bool
  | [] => true
  | s :: ss => !s.isClass && !s.isFunction && s.placed place && Stmt.placedBlock place ss

/-- The statements of a program or the members of a class. -/
def Stmt.placedList (owner : Option String) (place : Surroundings) : List Stmt → Bool
  | [] => true
  | s :: ss => s.fits owner && s.placed place && Stmt.placedList owner place ss

def Chain.placed (place : Surroundings) : Chain → Bool
  | .done => true
  | .elseIf _ c body rest => c.placed place && Stmt.placedBlock place body && rest.placed place
  | .otherwise _ body => Stmt.placedBlock place body
end

/-- **The rules on places**: `break` in loops only, `return` in functions only and without a value
in constructors, `this` in classes only, and declarations of functions and classes only at the top
and in classes, where constructors bear the name of the class. -/
def Program.placed (p : Program) : Bool := Stmt.placedList none {} p.stmts

section Lists

variable {place : Surroundings}

lemma Stmt.placedBlock_iff {ss : List Stmt} : Stmt.placedBlock place ss = true ↔
    ∀ s ∈ ss, (s.isClass = false ∧ s.isFunction = false) ∧ s.placed place = true := by
  induction ss with
  | nil => simp [placedBlock]
  | cons s ss ih => simp [placedBlock, ih]

lemma Stmt.placedList_iff {owner : Option String} {ss : List Stmt} :
    Stmt.placedList owner place ss = true ↔
      ∀ s ∈ ss, s.fits owner = true ∧ s.placed place = true := by
  induction ss with
  | nil => simp [placedList]
  | cons s ss ih => simp [placedList, ih]

end Lists

/-! ### Annotations -/

section Erase

lemma Stmt.isClass_erase (s : Stmt) : s.erase.isClass = s.isClass := by
  cases s <;> rfl

lemma Stmt.isFunction_erase (s : Stmt) : s.erase.isFunction = s.isFunction := by
  cases s <;> rfl

lemma Stmt.fits_erase (owner : Option String) (s : Stmt) : s.erase.fits owner = s.fits owner := by
  cases s <;> rfl

variable {place : Surroundings}

lemma Expr.placedList_erase {es : List Expr} (h : ∀ e ∈ es, e.erase.placed place = e.placed place) :
    placedList place (eraseList es) = placedList place es := by
  induction es with
  | nil => rfl
  | cons e es ih =>
    rw [List.forall_mem_cons] at h
    rw [eraseList, placedList, placedList, h.1, ih h.2]

lemma Expr.placedEntries_erase {es : List (Expr × Expr)} (h : ∀ e ∈ es,
    e.1.erase.placed place = e.1.placed place ∧ e.2.erase.placed place = e.2.placed place) :
    placedEntries place (eraseEntries es) = placedEntries place es := by
  induction es with
  | nil => rfl
  | cons e es ih =>
    rw [List.forall_mem_cons] at h
    rw [eraseEntries, placedEntries, placedEntries, h.1.1, h.1.2, ih h.2]

lemma Expr.placedOption_erase {e : Option Expr}
    (h : ∀ x ∈ e, x.erase.placed place = x.placed place) :
    placedOption place (eraseOption e) = placedOption place e := by
  cases e with
  | none => rfl
  | some e => exact h e rfl

lemma Stmt.placedBlock_erase {ss : List Stmt}
    (h : ∀ s ∈ ss, s.erase.placed place = s.placed place) :
    placedBlock place (eraseList ss) = placedBlock place ss := by
  induction ss with
  | nil => rfl
  | cons s ss ih =>
    rw [List.forall_mem_cons] at h
    rw [eraseList, placedBlock, placedBlock, isClass_erase, isFunction_erase, h.1, ih h.2]

lemma Stmt.placedList_erase {owner : Option String} {ss : List Stmt}
    (h : ∀ s ∈ ss, s.erase.placed place = s.placed place) :
    placedList owner place (eraseList ss) = placedList owner place ss := by
  induction ss with
  | nil => rfl
  | cons s ss ih =>
    rw [List.forall_mem_cons] at h
    rw [eraseList, placedList, placedList, fits_erase, h.1, ih h.2]

/-- The rules on places do not look at annotations. -/
lemma Tree.placed_erase : Tree.Inductive
    (fun e => ∀ place, e.erase.placed place = e.placed place)
    (fun s => ∀ place, s.erase.placed place = s.placed place)
    (fun ch => ∀ place, ch.erase.placed place = ch.placed place) where
  leaf e he place := by cases e <;> first | rfl | cases he
  binary m op l r hl hr place := by rw [Expr.erase, Expr.placed, Expr.placed, hl, hr]
  unary m op e he place := by rw [Expr.erase, Expr.placed, Expr.placed, he]
  step m op e he place := by rw [Expr.erase, Expr.placed, Expr.placed, he]
  ternary m c y n hc hy hn place := by
    rw [Expr.erase, Expr.placed, Expr.placed, hc, hy, hn]
  call m f args target hf hargs place := by
    rw [Expr.erase, Expr.placed, Expr.placed, hf,
      Expr.placedList_erase fun e he => hargs e he place]
  member m o n ho place := by rw [Expr.erase, Expr.placed, Expr.placed, ho]
  subscript m o i ho hi place := by rw [Expr.erase, Expr.placed, Expr.placed, ho, hi]
  array m es hes place := by
    rw [Expr.erase, Expr.placed, Expr.placed, Expr.placedList_erase fun e he => hes e he place]
  dictionary m es hes place := by
    rw [Expr.erase, Expr.placed, Expr.placed,
      Expr.placedEntries_erase fun e he => ⟨(hes e he).1 place, (hes e he).2 place⟩]
  blockLambda m head block body hbody place := by
    rw [Expr.erase, Expr.placed, Expr.placed, Stmt.placedBlock_erase fun s hs => hbody s hs _]
  exprLambda m head body hbody place := by
    rw [Expr.erase, Expr.placed, Expr.placed, hbody]
  var head init hinit place := by
    rw [Stmt.erase, Stmt.placed, Stmt.placed, Expr.placedOption_erase fun e he => hinit e he place]
  assign span t v ht hv place := by rw [Stmt.erase, Stmt.placed, Stmt.placed, ht, hv]
  func head body hbody place := by
    rw [Stmt.erase, Stmt.placed, Stmt.placed, Stmt.placedBlock_erase fun s hs => hbody s hs _]
  cls head ms hms place := by
    rw [Stmt.erase, Stmt.placed, Stmt.placed, Stmt.placedList_erase fun s hs => hms s hs _]
    rfl
  ctor head body hbody place := by
    rw [Stmt.erase, Stmt.placed, Stmt.placed, Stmt.placedBlock_erase fun s hs => hbody s hs _]
  ifElse x c body rest hc hbody hrest place := by
    rw [Stmt.erase, Stmt.placed, Stmt.placed, hc, hrest,
      Stmt.placedBlock_erase fun s hs => hbody s hs _]
  whileLoop x c body hc hbody place := by
    rw [Stmt.erase, Stmt.placed, Stmt.placed, hc, Stmt.placedBlock_erase fun s hs => hbody s hs _]
  forLoop x init c update body hinit hc hupdate hbody place := by
    have hi : Expr.placedInit place.loop (Expr.eraseInit init) =
        Expr.placedInit place.loop init := by
      cases init with
      | none => rfl
      | some i => exact Expr.placedOption_erase fun e he => hinit i rfl e he _
    have hu : Stmt.placedUpdate place.loop (Stmt.eraseUpdate update) =
        Stmt.placedUpdate place.loop update := by
      cases update with
      | none => rfl
      | some s =>
        rw [Stmt.eraseUpdate, Stmt.placedUpdate, Stmt.placedUpdate, Stmt.isClass_erase,
          Stmt.isFunction_erase, hupdate s rfl]
    rw [Stmt.erase, Stmt.placed, Stmt.placed, hi, hu, Expr.placedOption_erase fun e he => hc e he _,
      Stmt.placedBlock_erase fun s hs => hbody s hs _]
  ret span v hv place := by
    have hsome : (Expr.eraseOption v).isSome = v.isSome := by cases v <;> rfl
    rw [Stmt.erase, Stmt.placed, Stmt.placed, hsome,
      Expr.placedOption_erase fun e he => hv e he place]
  brk span place := rfl
  expr e he place := by rw [Stmt.erase, Stmt.placed, Stmt.placed, he]
  done place := rfl
  elseIf x c body rest hc hbody hrest place := by
    rw [Chain.erase, Chain.placed, Chain.placed, hc, hrest,
      Stmt.placedBlock_erase fun s hs => hbody s hs _]
  otherwise block body hbody place := by
    rw [Chain.erase, Chain.placed, Chain.placed, Stmt.placedBlock_erase fun s hs => hbody s hs _]

lemma Stmt.placed_erase (s : Stmt) (place : Surroundings) : s.erase.placed place = s.placed place :=
  Tree.placed_erase.stmt_holds s place

/-- What does not depend on annotations holds of statements that differ in annotations only. -/
lemma Stmt.forall_mem_congr {Q : Stmt → Prop} (hQ : ∀ s : Stmt, Q s.erase ↔ Q s)
    {ss ss' : List Stmt} (h : eraseList ss' = eraseList ss) :
    (∀ s ∈ ss', Q s) ↔ ∀ s ∈ ss, Q s := by
  have erased (ss : List Stmt) : (∀ s ∈ eraseList ss, Q s) ↔ ∀ s ∈ ss, Q s := by
    induction ss with
    | nil => rfl
    | cons s ss ih => rw [eraseList, List.forall_mem_cons, List.forall_mem_cons, hQ, ih]
  rw [← erased ss', h, erased ss]

end Erase

/-! ### Constructors and fields -/

mutual
/-- The constructors of the classes in a statement bear the names of their classes. -/
def Stmt.fit : Stmt → Bool
  | .cls head ms => Stmt.fitList (some head.name) ms
  | _ => true

def Stmt.fitList (owner : Option String) : List Stmt → Bool
  | [] => true
  | s :: ss => s.fits owner && s.fit && Stmt.fitList owner ss
end

mutual
/-- The initial values of the fields in a statement stand where they may stand. -/
def Stmt.fieldsPlaced (place : Surroundings) : Stmt → Bool
  | .cls _ ms => Stmt.fieldsPlacedList place.body ms
  | _ => true

def Stmt.fieldsPlacedList (place : Surroundings) : List Stmt → Bool
  | [] => true
  | s :: ss => (!s.isVar || s.placed place) && s.fieldsPlaced place &&
    Stmt.fieldsPlacedList place ss
end

namespace Stmt

variable {owner : Option String} {place : Surroundings} {s : Stmt} {ss ss' : List Stmt}

lemma fitList_iff :
    fitList owner ss = true ↔ (∀ s ∈ ss, s.fit = true) ∧ ∀ s ∈ ss, s.fits owner = true := by
  induction ss with
  | nil => simp [fitList]
  | cons s ss ih =>
    simp only [fitList, Bool.and_eq_true, ih, List.forall_mem_cons]
    constructor
    · rintro ⟨⟨hfits, hfit⟩, hfit', hfits'⟩
      exact ⟨⟨hfit, hfit'⟩, hfits, hfits'⟩
    · rintro ⟨⟨hfit, hfit'⟩, hfits, hfits'⟩
      exact ⟨⟨hfits, hfit⟩, hfit', hfits'⟩

lemma fieldsPlacedList_iff : fieldsPlacedList place ss = true ↔
    ∀ s ∈ ss, (s.isVar = true → s.placed place = true) ∧ s.fieldsPlaced place = true := by
  induction ss with
  | nil => simp [fieldsPlacedList]
  | cons s ss ih =>
    rw [fieldsPlacedList, Bool.and_eq_true, Bool.and_eq_true, ih, List.forall_mem_cons]
    cases s.isVar <;> simp

lemma fit_erase (s : Stmt) : s.erase.fit = s.fit := by
  induction s using members_induction with
  | other s hs => cases s <;> first | rfl | cases hs
  | cls head ms ih =>
    show fitList (some head.name) (eraseList ms) = fitList (some head.name) ms
    induction ms with
    | nil => rfl
    | cons s ms ihs =>
      rw [List.forall_mem_cons] at ih
      rw [eraseList, fitList, fitList, fits_erase, ih.1, ihs ih.2]

lemma fieldsPlaced_erase (s : Stmt) (place : Surroundings) :
    s.erase.fieldsPlaced place = s.fieldsPlaced place := by
  induction s using members_induction generalizing place with
  | other s hs => cases s <;> first | rfl | cases hs
  | cls head ms ih =>
    show fieldsPlacedList place.body (eraseList ms) = fieldsPlacedList place.body ms
    induction ms with
    | nil => rfl
    | cons s ms ihs =>
      rw [List.forall_mem_cons] at ih
      have hvar : s.erase.isVar = s.isVar := by cases s <;> rfl
      rw [eraseList, fieldsPlacedList, fieldsPlacedList, hvar, placed_erase, ih.1, ihs ih.2]

/-- All that stands where it may stand, constructors and fields do. -/
lemma fit_of_placed (h : s.placed place = true) : s.fit = true := by
  induction s using members_induction generalizing place with
  | other s hs => cases s <;> first | rfl | cases hs
  | cls head ms ih =>
    have hms := placedList_iff.mp h
    exact fitList_iff.mpr ⟨fun s hs => ih s hs (hms s hs).2, fun s hs => (hms s hs).1⟩

lemma fieldsPlaced_of_placed (h : s.placed place = true) : s.fieldsPlaced place = true := by
  induction s using members_induction generalizing place with
  | other s hs => cases s <;> first | rfl | cases hs
  | cls head ms ih =>
    have hms := placedList_iff.mp h
    exact fieldsPlacedList_iff.mpr fun s hs => ⟨fun _ => (hms s hs).2, ih s hs (hms s hs).2⟩

end Stmt

end MiddleEnd
