import MiddleEnd.Proofs.Check.Recheck
import MiddleEnd.Proofs.Tree.Placed

/-!
What functions give back. The values that a body gives back stand in its statements, in the branches
and loops of them, and not in lambdas, which give back for themselves. In a program that keeps the
rules on places, functions are declared at the top and in classes only.
-/

namespace MiddleEnd

mutual
/-- The values that a statement gives back from the function around it. -/
def Stmt.returned : Stmt → List Expr
  | .ifElse _ _ body rest => Stmt.returnedList body ++ rest.returned
  | .whileLoop _ _ body => Stmt.returnedList body
  | .forLoop _ _ _ update body => Stmt.returnedUpdate update ++ Stmt.returnedList body
  | .ret _ v => v.toList
  | _ => []

def Stmt.returnedUpdate : Option Stmt → List Expr
  | none => []
  | some s => s.returned

def Stmt.returnedList : List Stmt → List Expr
  | [] => []
  | s :: ss => s.returned ++ Stmt.returnedList ss

def Chain.returned : Chain → List Expr
  | .done => []
  | .elseIf _ _ body rest => Stmt.returnedList body ++ rest.returned
  | .otherwise _ body => Stmt.returnedList body
end

lemma Stmt.returnedList_erase {ss : List Stmt}
    (h : ∀ s ∈ ss, s.erase.returned = s.returned.map Expr.erase) :
    returnedList (eraseList ss) = (returnedList ss).map Expr.erase := by
  induction ss with
  | nil => rfl
  | cons s ss ih =>
    rw [List.forall_mem_cons] at h
    rw [eraseList, returnedList, returnedList, List.map_append, h.1, ih h.2]

lemma Tree.returned_erase : Tree.Inductive (fun _ => True)
    (fun s => s.erase.returned = s.returned.map Expr.erase)
    (fun ch => ch.erase.returned = ch.returned.map Expr.erase) := by
  constructor
  case ifElse =>
    intro x c body rest _ hbody hrest
    rw [Stmt.erase, Stmt.returned, Stmt.returned, List.map_append, hrest,
      Stmt.returnedList_erase hbody]
  case whileLoop =>
    intro x c body _ hbody
    rw [Stmt.erase, Stmt.returned, Stmt.returned, Stmt.returnedList_erase hbody]
  case forLoop =>
    intro x init c update body _ _ hupdate hbody
    have hu : Stmt.returnedUpdate (Stmt.eraseUpdate update) =
        (Stmt.returnedUpdate update).map Expr.erase := by
      cases update with
      | none => rfl
      | some s => exact hupdate s rfl
    rw [Stmt.erase, Stmt.returned, Stmt.returned, List.map_append, hu,
      Stmt.returnedList_erase hbody]
  case ret =>
    intro span v _
    cases v <;> rfl
  case elseIf =>
    intro x c body rest _ hbody hrest
    rw [Chain.erase, Chain.returned, Chain.returned, List.map_append, hrest,
      Stmt.returnedList_erase hbody]
  case otherwise =>
    intro block body hbody
    rw [Chain.erase, Chain.returned, Chain.returned, Stmt.returnedList_erase hbody]
  all_goals first | rfl | (intros; trivial)

/-- Annotations do not matter to what a body gives back. -/
lemma Stmt.returnedList_eq_nil_congr {ss ts : List Stmt} (h : eraseList ss = eraseList ts) :
    returnedList ss = [] ↔ returnedList ts = [] := by
  have herase (ss : List Stmt) : returnedList (eraseList ss) = [] ↔ returnedList ss = [] := by
    rw [returnedList_erase fun s _ => Tree.returned_erase.stmt_holds s, List.map_eq_nil_iff]
  rw [← herase ss, h, herase ts]

/-! ### Functions of a program -/

mutual
/-- The functions that a statement declares with their bodies, those in classes included. -/
def Stmt.routines : Stmt → List (FuncHead × List Stmt)
  | .func head body => [(head, body)]
  | .cls _ ms => Stmt.routinesList ms
  | _ => []

def Stmt.routinesList : List Stmt → List (FuncHead × List Stmt)
  | [] => []
  | s :: ss => s.routines ++ Stmt.routinesList ss
end

lemma Stmt.mem_routinesList {ss : List Stmt} {r : FuncHead × List Stmt} :
    r ∈ routinesList ss ↔ ∃ s ∈ ss, r ∈ s.routines := by
  induction ss with
  | nil => simp [routinesList]
  | cons s ss ih => simp [routinesList, ih]

lemma Stmt.routinesList_eq_flatMap (ss : List Stmt) : routinesList ss = ss.flatMap routines := by
  induction ss with
  | nil => rfl
  | cons s ss ih => rw [routinesList, List.flatMap_cons, ih]

lemma Stmt.routines_erase (s : Stmt) :
    s.erase.routines = s.routines.map (Prod.map FuncHead.erase eraseList) := by
  induction s using members_induction with
  | other s hs =>
    cases s with
    | cls => cases hs
    | _ => rfl
  | cls head ms ih =>
    rw [erase, routines, routines]
    induction ms with
    | nil => rfl
    | cons s ms ihs =>
      rw [List.forall_mem_cons] at ih
      rw [eraseList, routinesList, routinesList, List.map_append, ih.1, ihs ih.2]

lemma Stmt.routines_eq_nil_congr {s s' : Stmt} (h : s'.erase = s.erase) :
    s'.routines = [] ↔ s.routines = [] := by
  rw [← List.map_eq_nil_iff, ← routines_erase, h, routines_erase, List.map_eq_nil_iff]

lemma Stmt.routines_of_plain {s : Stmt} (hcls : s.isClass = false) (hfunc : s.isFunction = false) :
    s.routines = [] := by
  cases s with
  | func | ctor => cases hfunc
  | cls => cases hcls
  | _ => rfl

lemma Stmt.mem_nodes_of_routines {s : Stmt} {head : FuncHead} {body : List Stmt}
    (h : (head, body) ∈ s.routines) : Node.stmt (.func head body) ∈ s.nodes := by
  induction s using members_induction with
  | other s hs =>
    cases s with
    | func =>
      cases List.mem_singleton.mp h
      exact List.mem_cons_self
    | cls => cases hs
    | _ => cases h
  | cls cls ms ih =>
    obtain ⟨s, hs, h⟩ := mem_routinesList.mp h
    exact List.mem_cons_of_mem _ (mem_nodesList.mpr ⟨s, hs, ih s hs h⟩)

lemma Stmt.mem_nodesList_of_routines {ss : List Stmt} {head : FuncHead} {body : List Stmt}
    (h : (head, body) ∈ routinesList ss) : Node.stmt (.func head body) ∈ nodesList ss := by
  obtain ⟨s, hs, h⟩ := mem_routinesList.mp h
  exact mem_nodesList.mpr ⟨s, hs, mem_nodes_of_routines h⟩

section Placed

variable {place : Surroundings} {head : FuncHead} {body : List Stmt}

lemma Expr.not_mem_nodesList {es : List Expr} {n : Node} (hplaced : placedList place es = true)
    (h : ∀ e ∈ es, ∀ place, e.placed place = true → n ∉ e.nodes) : n ∉ nodesList es := by
  induction es with
  | nil => simp
  | cons e es ih =>
    rw [List.forall_mem_cons] at h
    rw [placedList, Bool.and_eq_true] at hplaced
    rw [nodesList, collectList, List.mem_append, not_or]
    exact ⟨h.1 place hplaced.1, ih hplaced.2 h.2⟩

lemma Expr.not_mem_nodesEntries {es : List (Expr × Expr)} {n : Node}
    (hplaced : placedEntries place es = true)
    (h : ∀ e ∈ es, (∀ place, e.1.placed place = true → n ∉ e.1.nodes) ∧
      ∀ place, e.2.placed place = true → n ∉ e.2.nodes) : n ∉ collectEntries .nodes () es := by
  induction es with
  | nil => simp
  | cons e es ih =>
    rw [List.forall_mem_cons] at h
    rw [placedEntries, Bool.and_eq_true, Bool.and_eq_true] at hplaced
    rw [collectEntries, List.mem_append, List.mem_append, not_or, not_or]
    exact ⟨⟨h.1.1 place hplaced.1.1, h.1.2 place hplaced.1.2⟩, ih hplaced.2 h.2⟩

lemma Expr.not_mem_nodesOption {e : Option Expr} {n : Node} (hplaced : placedOption place e = true)
    (h : ∀ x ∈ e, ∀ place, x.placed place = true → n ∉ x.nodes) :
    n ∉ collectOption .nodes () e := by
  cases e with
  | none => simp
  | some e => exact h e rfl place hplaced

lemma Stmt.not_mem_nodesBlock {ss : List Stmt} (hplaced : placedBlock place ss = true)
    (h : ∀ s ∈ ss, ∀ place, s.placed place = true →
      Node.stmt (.func head body) ∈ s.nodes → (head, body) ∈ s.routines) :
    Node.stmt (.func head body) ∉ nodesList ss := by
  intro hmem
  obtain ⟨s, hs, hmem⟩ := mem_nodesList.mp hmem
  obtain ⟨⟨hcls, hfunc⟩, hs'⟩ := placedBlock_iff.mp hplaced s hs
  have hroutine := h s hs place hs' hmem
  rw [routines_of_plain hcls hfunc] at hroutine
  cases hroutine

/-- Where all of a tree stands where it may stand, the functions in it are those that it declares at
the top and in classes. -/
lemma Tree.routines_of_placed (head : FuncHead) (body : List Stmt) : Tree.Inductive
    (fun e => ∀ place, e.placed place = true → Node.stmt (.func head body) ∉ e.nodes)
    (fun s => ∀ place, s.placed place = true →
      Node.stmt (.func head body) ∈ s.nodes → (head, body) ∈ s.routines)
    (fun ch => ∀ place, ch.placed place = true → Node.stmt (.func head body) ∉ ch.nodes) where
  leaf e he place _ := by
    cases e with
    | number | string | boolean | null | name | self => simp [Expr.collect]
    | _ => cases he
  binary m op l r hl hr place h := by
    rw [Expr.placed, Bool.and_eq_true] at h
    simp [Expr.collect, hl place h.1, hr place h.2]
  unary m op e he place h := by simp [Expr.collect, he place h]
  step m op e he place h := by simp [Expr.collect, he place h]
  ternary m c y n hc hy hn place h := by
    rw [Expr.placed, Bool.and_eq_true, Bool.and_eq_true] at h
    simp [Expr.collect, hc place h.1.1, hy place h.1.2, hn place h.2]
  call m f args target hf hargs place h := by
    rw [Expr.placed, Bool.and_eq_true] at h
    simp [Expr.collect, hf place h.1, Expr.not_mem_nodesList h.2 hargs]
  member m o n ho place h := by simp [Expr.collect, ho place h]
  subscript m o i ho hi place h := by
    rw [Expr.placed, Bool.and_eq_true] at h
    simp [Expr.collect, ho place h.1, hi place h.2]
  array m es hes place h := by simp [Expr.collect, Expr.not_mem_nodesList h hes]
  dictionary m es hes place h := by simp [Expr.collect, Expr.not_mem_nodesEntries h hes]
  blockLambda m lambda block ss hss place h := by simp [Expr.collect, Stmt.not_mem_nodesBlock h hss]
  exprLambda m lambda e he place h := by simp [Expr.collect, he _ h]
  var var init hinit place h := by simp [Stmt.collect, Expr.not_mem_nodesOption h hinit]
  assign span t v ht hv place h := by
    rw [Stmt.placed, Bool.and_eq_true] at h
    simp [Stmt.collect, ht place h.1, hv place h.2]
  func func ss hss place h := by
    simp [Stmt.collect, Stmt.routines, Stmt.not_mem_nodesBlock h hss]
  cls cls ms hms place h := by
    have hplaced := Stmt.placedList_iff.mp h
    simp only [Stmt.collect, Collector.nodes_add, Collector.nodes_inBlock, Stmt.routines,
      List.mem_cons, reduceCtorEq, Node.stmt.injEq, false_or, Stmt.mem_nodesList,
      Stmt.mem_routinesList]
    rintro ⟨s, hs, hmem⟩
    exact ⟨s, hs, hms s hs _ (hplaced s hs).2 hmem⟩
  ctor ctor ss hss place h := by simp [Stmt.collect, Stmt.not_mem_nodesBlock h hss]
  ifElse x c ss rest hc hss hrest place h := by
    rw [Stmt.placed, Bool.and_eq_true, Bool.and_eq_true] at h
    simp [Stmt.collect, hc place h.1.1, Stmt.not_mem_nodesBlock h.1.2 hss, hrest place h.2]
  whileLoop x c ss hc hss place h := by
    rw [Stmt.placed, Bool.and_eq_true] at h
    simp [Stmt.collect, hc place h.1, Stmt.not_mem_nodesBlock h.2 hss]
  forLoop x init c update ss hinit hc hupdate hss place h := by
    rw [Stmt.placed, Bool.and_eq_true, Bool.and_eq_true, Bool.and_eq_true] at h
    have hi : Node.stmt (.func head body) ∉ Expr.collectInit .nodes () init := by
      cases init with
      | none => simp
      | some i => exact Expr.not_mem_nodesOption h.1.1.1 (hinit i rfl)
    have hu : Node.stmt (.func head body) ∉ Stmt.collectUpdate .nodes () update := by
      cases update with
      | none => simp
      | some s =>
        have hs := h.1.2
        rw [Stmt.placedUpdate, Bool.and_eq_true, Bool.and_eq_true, Bool.not_eq_true',
          Bool.not_eq_true'] at hs
        -- what updates a loop is neither a function nor a class, so no function is in it
        intro hmem
        have hroutine := hupdate s rfl _ hs.2 hmem
        rw [Stmt.routines_of_plain hs.1.1 hs.1.2] at hroutine
        cases hroutine
    simp [Stmt.collect, hi, hu, Expr.not_mem_nodesOption h.1.1.2 hc,
      Stmt.not_mem_nodesBlock h.2 hss]
  ret span v hv place h := by
    rw [Stmt.placed, Bool.and_eq_true] at h
    simp [Stmt.collect, Expr.not_mem_nodesOption h.2 hv]
  brk span place _ := by simp [Stmt.collect]
  expr e he place h := by simp [Stmt.collect, he place h]
  done place _ := by simp [Chain.collect]
  elseIf x c ss rest hc hss hrest place h := by
    rw [Chain.placed, Bool.and_eq_true, Bool.and_eq_true] at h
    simp [Chain.collect, hc place h.1.1, Stmt.not_mem_nodesBlock h.1.2 hss, hrest place h.2]
  otherwise block ss hss place h := by simp [Chain.collect, Stmt.not_mem_nodesBlock h hss]

lemma Stmt.routines_of_placedList {owner : Option String} {ss : List Stmt}
    (hplaced : placedList owner place ss = true)
    (h : Node.stmt (.func head body) ∈ nodesList ss) : (head, body) ∈ routinesList ss := by
  obtain ⟨s, hs, hmem⟩ := mem_nodesList.mp h
  exact mem_routinesList.mpr ⟨s, hs, (Tree.routines_of_placed head body).stmt_holds s place
    (placedList_iff.mp hplaced s hs).2 hmem⟩

end Placed

end MiddleEnd
