import Mathlib.Data.List.Basic
import MiddleEnd.Proofs.Tree.Induction

/-!
Collecting from trees. One walk through expressions, statements and arms serves for all that is
gathered from a program: its nodes, its places, its blocks, what it writes to. A collector says what
the nodes and the blocks add. What is known of a place is handed down as a state, and in the blocks
of the update of a loop, which the passes do not visit, the collector sets it anew.
-/

namespace MiddleEnd

inductive Node where
  | expr (e : Expr)
  | stmt (s : Stmt)
  | chain (ch : Chain)

/-- What is left out of a block. -/
structure Removal where
  gone : Stmt → Bool := fun _ => false
  /-- Everything after the statement is left out. -/
  stops : Stmt → Bool := fun _ => false
  /-- The value of a condition that decides about the arms: one under `false` is left out, and so
  is everything after one under `true`. -/
  arm : Expr → Option Bool := fun _ => none

namespace Removal

def nothing : Removal := {}

/-- What is collected from an arm and from what follows it. -/
def select {α : Type} (decided : Option Bool) (cond body rest : List α) : List α :=
  match decided with
  | none => cond ++ body ++ rest
  | some true => cond ++ body
  | some false => rest

@[simp] lemma select_none {α : Type} (cond body rest : List α) :
    select none cond body rest = cond ++ body ++ rest := rfl

@[simp] lemma select_true {α : Type} (cond body rest : List α) :
    select (some true) cond body rest = cond ++ body := rfl

@[simp] lemma select_false {α : Type} (cond body rest : List α) :
    select (some false) cond body rest = rest := rfl

@[simp] lemma select_nothing {α : Type} (e : Expr) (cond body rest : List α) :
    select (nothing.arm e) cond body rest = cond ++ body ++ rest := rfl

end Removal

structure Collector (σ α : Type) where
  /-- What a node adds, before its parts. -/
  own : σ → Node → List α := fun _ _ => []
  /-- What a block adds, before its statements. -/
  block : σ → List Stmt → List α := fun _ _ => []
  /-- The statements of blocks are collected from. -/
  enters : σ → Bool := fun _ => true
  removal : σ → Removal := fun _ => .nothing
  /-- The state in the blocks of the update of a loop. -/
  updates : σ

namespace Collector

variable {σ α : Type} (c : Collector σ α)

def add (r : σ) (n : Node) (parts : List α) : List α := (c.own r n).foldr List.cons parts

/-- A block, and what is collected from its statements. -/
def inBlock (d : σ) (ss : List Stmt) (inner : List α) : List α :=
  (c.block d ss).foldr List.cons (if c.enters d then inner else [])

lemma add_eq_append (r : σ) (n : Node) (parts : List α) :
    c.add r n parts = c.own r n ++ parts := List.foldr_cons_eq_append'

lemma inBlock_eq_append (d : σ) (ss : List Stmt) (inner : List α) :
    c.inBlock d ss inner = c.block d ss ++ if c.enters d then inner else [] :=
  List.foldr_cons_eq_append'

variable {c} in
lemma add_subset {r : σ} {n : Node} {parts l : List α} :
    c.add r n parts ⊆ l ↔ c.own r n ⊆ l ∧ parts ⊆ l := by
  rw [add_eq_append, List.append_subset]

variable {c} in
lemma add_congr {r : σ} {n n' : Node} {parts parts' : List α} (hown : c.own r n' = c.own r n)
    (hparts : parts' = parts) : c.add r n' parts' = c.add r n parts := by
  rw [add_eq_append, add_eq_append, hown, hparts]

end Collector

section Collect

variable {σ α : Type} (c : Collector σ α)

mutual
def Expr.collect (r : σ) : Expr → List α
  | .number m v => c.own r (.expr (.number m v))
  | .string m v => c.own r (.expr (.string m v))
  | .boolean m v => c.own r (.expr (.boolean m v))
  | .null m => c.own r (.expr (.null m))
  | .name m n => c.own r (.expr (.name m n))
  | .self m => c.own r (.expr (.self m))
  | .binary m op x y => c.add r (.expr (.binary m op x y)) (x.collect r ++ y.collect r)
  | .unary m op e => c.add r (.expr (.unary m op e)) (e.collect r)
  | .step m op e => c.add r (.expr (.step m op e)) (e.collect r)
  | .ternary m e y n =>
    c.add r (.expr (.ternary m e y n)) (e.collect r ++ y.collect r ++ n.collect r)
  | .call m f args target =>
    c.add r (.expr (.call m f args target)) (f.collect r ++ Expr.collectList r args)
  | .member m o n => c.add r (.expr (.member m o n)) (o.collect r)
  | .subscript m o i => c.add r (.expr (.subscript m o i)) (o.collect r ++ i.collect r)
  | .array m es => c.add r (.expr (.array m es)) (Expr.collectList r es)
  | .dictionary m es => c.add r (.expr (.dictionary m es)) (Expr.collectEntries r es)
  | .blockLambda m head block body =>
    c.add r (.expr (.blockLambda m head block body)) (c.inBlock r body (Stmt.collectList r r body))
  | .exprLambda m head body => c.add r (.expr (.exprLambda m head body)) (body.collect r)

def Expr.collectList (r : σ) : List Expr → List α
  | [] => []
  | e :: es => e.collect r ++ Expr.collectList r es

def Expr.collectEntries (r : σ) : List (Expr × Expr) → List α
  | [] => []
  | (k, v) :: es => k.collect r ++ v.collect r ++ Expr.collectEntries r es

def Expr.collectOption (r : σ) : Option Expr → List α
  | none => []
  | some e => e.collect r

def Expr.collectInit (r : σ) : Option (VarHead × Option Expr) → List α
  | none => []
  | some (_, e) => Expr.collectOption r e

/-- What is collected from a statement: `a` decides about its arms, `r` is the state in the
expressions that it owns, and `d` the one in its blocks. -/
def Stmt.collect (a r d : σ) : Stmt → List α
  | .var head init => c.add r (.stmt (.var head init)) (Expr.collectOption r init)
  | .assign span t v => c.add r (.stmt (.assign span t v)) (t.collect r ++ v.collect r)
  | .func head body =>
    c.add r (.stmt (.func head body)) (c.inBlock d body (Stmt.collectList d d body))
  | .cls head ms => c.add r (.stmt (.cls head ms)) (c.inBlock d ms (Stmt.collectList d d ms))
  | .ctor head body =>
    c.add r (.stmt (.ctor head body)) (c.inBlock d body (Stmt.collectList d d body))
  | .ifElse x e body rest =>
    c.add r (.stmt (.ifElse x e body rest))
      (Removal.select ((c.removal a).arm e) (e.collect r)
        (c.inBlock d body (Stmt.collectList d d body)) (rest.collect a r d))
  | .whileLoop x e body =>
    c.add r (.stmt (.whileLoop x e body))
      (e.collect r ++ c.inBlock d body (Stmt.collectList d d body))
  | .forLoop x init e update body =>
    c.add r (.stmt (.forLoop x init e update body))
      (Expr.collectInit r init ++ Expr.collectOption r e ++ Stmt.collectUpdate r update ++
        c.inBlock d body (Stmt.collectList d d body))
  | .ret span v => c.add r (.stmt (.ret span v)) (Expr.collectOption r v)
  | .brk span => c.own r (.stmt (.brk span))
  | .expr e => c.add r (.stmt (.expr e)) (e.collect r)

def Stmt.collectUpdate (r : σ) : Option Stmt → List α
  | none => []
  | some s => s.collect c.updates r c.updates

/-- What is collected from the statements of a block: `a` says what is left out of the block itself,
and `d` is the state inside of the statements. -/
def Stmt.collectList (a d : σ) : List Stmt → List α
  | [] => []
  | s :: ss =>
    if (c.removal a).gone s then Stmt.collectList a d ss
    else if (c.removal a).stops s then s.collect a d d
    else s.collect a d d ++ Stmt.collectList a d ss

def Chain.collect (a r d : σ) : Chain → List α
  | .done => c.own r (.chain .done)
  | .elseIf x e body rest =>
    c.add r (.chain (.elseIf x e body rest))
      (Removal.select ((c.removal a).arm e) (e.collect r)
        (c.inBlock d body (Stmt.collectList d d body)) (rest.collect a r d))
  | .otherwise block body =>
    c.add r (.chain (.otherwise block body)) (c.inBlock d body (Stmt.collectList d d body))
end

end Collect

section Members

variable {σ α : Type} {c : Collector σ α} {r : σ} {x : α}

abbrev Stmt.collectBlock (c : Collector σ α) (d : σ) (ss : List Stmt) : List α :=
  c.inBlock d ss (Stmt.collectList c d d ss)

@[simp] lemma Expr.mem_collectList {es : List Expr} :
    x ∈ Expr.collectList c r es ↔ ∃ e ∈ es, x ∈ e.collect c r := by
  induction es with
  | nil => simp [Expr.collectList]
  | cons e es ih => simp [Expr.collectList, ih]

@[simp] lemma Expr.mem_collectEntries {es : List (Expr × Expr)} :
    x ∈ Expr.collectEntries c r es ↔ ∃ e ∈ es, x ∈ e.1.collect c r ∨ x ∈ e.2.collect c r := by
  induction es with
  | nil => simp [Expr.collectEntries]
  | cons e es ih =>
    obtain ⟨k, v⟩ := e
    simp [Expr.collectEntries, ih, or_assoc]

@[simp] lemma Expr.mem_collectOption {o : Option Expr} :
    x ∈ Expr.collectOption c r o ↔ ∃ e ∈ o, x ∈ e.collect c r := by
  cases o <;> simp [Expr.collectOption]

@[simp] lemma Expr.mem_collectInit {o : Option (VarHead × Option Expr)} :
    x ∈ Expr.collectInit c r o ↔ ∃ i ∈ o, ∃ e ∈ i.2, x ∈ e.collect c r := by
  rcases o with _ | ⟨head, e⟩ <;> simp [Expr.collectInit]

@[simp] lemma Stmt.mem_collectUpdate {o : Option Stmt} :
    x ∈ Stmt.collectUpdate c r o ↔ ∃ s ∈ o, x ∈ s.collect c c.updates r c.updates := by
  cases o <;> simp [Stmt.collectUpdate]

lemma Chain.collect_arm {a b : σ} (h : (c.removal a).arm = (c.removal b).arm) (r d : σ)
    (ch : Chain) : ch.collect c a r d = ch.collect c b r d := by
  induction ch with
  | elseIf x e body rest ih => simp only [Chain.collect, h, ih]
  | done | otherwise => rfl

/-- Of the state that decides about arms, nothing else matters. -/
lemma Stmt.collect_arm {a b : σ} (h : (c.removal a).arm = (c.removal b).arm) (r d : σ)
    (s : Stmt) : s.collect c a r d = s.collect c b r d := by
  cases s with
  | ifElse x e body rest => simp only [Stmt.collect, h, Chain.collect_arm h]
  | _ => rfl

/-- Where nothing is left out, all statements of a block are collected from. -/
lemma Stmt.collectList_eq_flatMap {a : σ} (h : c.removal a = .nothing) (d : σ) (ss : List Stmt) :
    Stmt.collectList c a d ss = ss.flatMap (Stmt.collect c a d d) := by
  induction ss with
  | nil => rfl
  | cons s ss ih =>
    simp only [Stmt.collectList, h, ih, List.flatMap_cons]
    rfl

section Entries

variable {P : α → Prop} (hown : ∀ n, ∀ x ∈ c.own r n, P x)
  (hblock : ∀ ss, ∀ x ∈ c.block r ss, P x)

include hown in
lemma Collector.forall_add {n : Node} {parts : List α} (h : ∀ x ∈ parts, P x) :
    ∀ x ∈ c.add r n parts, P x := by
  rw [Collector.add_eq_append, List.forall_mem_append]
  exact ⟨hown n, h⟩

include hblock in
lemma Collector.forall_block {ss : List Stmt}
    (h : ∀ s ∈ ss, ∀ a, ∀ x ∈ s.collect c a r r, P x) : ∀ x ∈ Stmt.collectBlock c r ss, P x := by
  have hlist : ∀ x ∈ Stmt.collectList c r r ss, P x := by
    induction ss with
    | nil => exact List.forall_mem_nil _
    | cons s ss ih =>
      rw [List.forall_mem_cons] at h
      unfold Stmt.collectList
      split
      · exact ih h.2
      · split
        · exact h.1 r
        · exact List.forall_mem_append.mpr ⟨h.1 r, ih h.2⟩
  rw [Stmt.collectBlock, Collector.inBlock_eq_append, List.forall_mem_append]
  refine ⟨hblock ss, ?_⟩
  split
  · exact hlist
  · exact List.forall_mem_nil _

lemma Removal.forall_select {cond body rest : List α} (hcond : ∀ x ∈ cond, P x)
    (hbody : ∀ x ∈ body, P x) (hrest : ∀ x ∈ rest, P x) (decided : Option Bool) :
    ∀ x ∈ Removal.select decided cond body rest, P x := by
  rcases decided with _ | _ | _
  · simpa only [Removal.select_none, List.forall_mem_append] using ⟨⟨hcond, hbody⟩, hrest⟩
  · exact hrest
  · exact List.forall_mem_append.mpr ⟨hcond, hbody⟩

/-- What holds of the entries of nodes and blocks in a state holds of all that is collected in it,
if the updates of loops are in this state too. -/
lemma Collector.forall_collect (hr : c.updates = r) (hown : ∀ n, ∀ x ∈ c.own r n, P x)
    (hblock : ∀ ss, ∀ x ∈ c.block r ss, P x) :
    Tree.Inductive (fun e => ∀ x ∈ e.collect c r, P x) (fun s => ∀ a, ∀ x ∈ s.collect c a r r, P x)
      (fun ch => ∀ a, ∀ x ∈ ch.collect c a r r, P x) where
  leaf e he := by
    cases e with
    | number | string | boolean | null | name | self => exact hown _
    | _ => cases he
  binary m op x y hx hy := forall_add hown (List.forall_mem_append.mpr ⟨hx, hy⟩)
  unary m op e he := forall_add hown he
  step m op e he := forall_add hown he
  ternary m e y n he hy hn := by
    refine forall_add hown ?_
    rw [List.forall_mem_append, List.forall_mem_append]
    exact ⟨⟨he, hy⟩, hn⟩
  call m f args target hf hargs := by
    refine forall_add hown (List.forall_mem_append.mpr ⟨hf, fun x hx => ?_⟩)
    obtain ⟨e, he, hx⟩ := Expr.mem_collectList.mp hx
    exact hargs e he x hx
  member m o n ho := forall_add hown ho
  subscript m o i ho hi := forall_add hown (List.forall_mem_append.mpr ⟨ho, hi⟩)
  array m es hes := by
    refine forall_add hown fun x hx => ?_
    obtain ⟨e, he, hx⟩ := Expr.mem_collectList.mp hx
    exact hes e he x hx
  dictionary m es hes := by
    refine forall_add hown fun x hx => ?_
    obtain ⟨e, he, hx⟩ := Expr.mem_collectEntries.mp hx
    exact hx.elim ((hes e he).1 x) ((hes e he).2 x)
  blockLambda m head block body hbody := forall_add hown (forall_block hblock hbody)
  exprLambda m head body hbody := forall_add hown hbody
  var head init hinit _ := by
    refine forall_add hown fun x hx => ?_
    obtain ⟨e, he, hx⟩ := Expr.mem_collectOption.mp hx
    exact hinit e he x hx
  assign span t v ht hv _ := forall_add hown (List.forall_mem_append.mpr ⟨ht, hv⟩)
  func head body hbody _ := forall_add hown (forall_block hblock hbody)
  cls head ms hms _ := forall_add hown (forall_block hblock hms)
  ctor head body hbody _ := forall_add hown (forall_block hblock hbody)
  ifElse x e body rest he hbody hrest a :=
    forall_add hown (Removal.forall_select he (forall_block hblock hbody) (hrest a) _)
  whileLoop x e body he hbody _ :=
    forall_add hown (List.forall_mem_append.mpr ⟨he, forall_block hblock hbody⟩)
  forLoop x init e update body hinit he hupdate hbody _ := by
    refine forall_add hown ?_
    simp only [List.forall_mem_append]
    refine ⟨⟨⟨fun x hx => ?_, fun x hx => ?_⟩, fun x hx => ?_⟩, forall_block hblock hbody⟩
    · obtain ⟨i, hi, d, hd, hx⟩ := Expr.mem_collectInit.mp hx
      exact hinit i hi d hd x hx
    · obtain ⟨d, hd, hx⟩ := Expr.mem_collectOption.mp hx
      exact he d hd x hx
    · obtain ⟨s, hs, hx⟩ := Stmt.mem_collectUpdate.mp hx
      -- the statement at the head of a loop is seen under the role of updates
      rw [hr] at hx
      exact hupdate s hs r x hx
  ret span v hv _ := by
    refine forall_add hown fun x hx => ?_
    obtain ⟨e, he, hx⟩ := Expr.mem_collectOption.mp hx
    exact hv e he x hx
  brk span _ := hown _
  expr e he _ := forall_add hown he
  done _ := hown _
  elseIf x e body rest he hbody hrest a :=
    forall_add hown (Removal.forall_select he (forall_block hblock hbody) (hrest a) _)
  otherwise block body hbody _ := forall_add hown (forall_block hblock hbody)

end Entries
end Members

/-! ### Nodes -/

def Collector.nodes : Collector Unit Node := { own := fun _ n => [n], updates := () }

namespace Collector

@[simp] lemma nodes_own (r : Unit) (n : Node) : nodes.own r n = [n] := rfl

@[simp] lemma nodes_add (r : Unit) (n : Node) (parts : List Node) :
    nodes.add r n parts = n :: parts := rfl

@[simp] lemma nodes_inBlock (d : Unit) (ss : List Stmt) (inner : List Node) :
    nodes.inBlock d ss inner = inner := rfl

@[simp] lemma nodes_removal (a : Unit) : nodes.removal a = .nothing := rfl

end Collector

abbrev Expr.nodes (e : Expr) : List Node := e.collect .nodes ()

abbrev Expr.nodesList (es : List Expr) : List Node := Expr.collectList .nodes () es

abbrev Stmt.nodes (s : Stmt) : List Node := s.collect .nodes () () ()

abbrev Stmt.nodesList (ss : List Stmt) : List Node := Stmt.collectList .nodes () () ss

abbrev Chain.nodes (ch : Chain) : List Node := ch.collect .nodes () () ()

def Program.nodes (p : Program) : List Node := Stmt.nodesList p.stmts

@[simp] lemma Stmt.mem_nodesList {ss : List Stmt} {n : Node} :
    n ∈ nodesList ss ↔ ∃ s ∈ ss, n ∈ s.nodes := by
  rw [nodesList, collectList_eq_flatMap rfl, List.mem_flatMap]

/-- A node and all that is inside of it. -/
def Node.nodes : Node → List Node
  | .expr e => e.nodes
  | .stmt s => s.nodes
  | .chain ch => ch.nodes

section Induction

variable {P : List Node → Prop} (nil : P [])
  (append : ∀ {ns ms : List Node}, P ns → P ms → P (ns ++ ms))
  (node : ∀ {n : Node} {ns : List Node}, n.nodes = n :: ns → P ns → P (n :: ns))
include nil append node

/-- What holds of no nodes, of the nodes of two parts together, and of a node with what is inside of
it, holds of the nodes of every tree. -/
lemma Node.tree_of_lists : Tree.Inductive (fun e => P e.nodes) (fun s => P s.nodes)
    (fun ch => P ch.nodes) := by
  have expr {e : Expr} {ns : List Node} (hns : P ns) (h : e.nodes = .expr e :: ns) : P e.nodes :=
    h ▸ node (n := .expr e) h hns
  have stmt {s : Stmt} {ns : List Node} (hns : P ns) (h : s.nodes = .stmt s :: ns) : P s.nodes :=
    h ▸ node (n := .stmt s) h hns
  have chain {ch : Chain} {ns : List Node} (hns : P ns) (h : ch.nodes = .chain ch :: ns) :
      P ch.nodes := h ▸ node (n := .chain ch) h hns
  -- the lists of children, in the order in which they are collected
  have exprs {es : List Expr} (h : ∀ e ∈ es, P e.nodes) : P (Expr.nodesList es) := by
    induction es with
    | nil => exact nil
    | cons e es ih =>
      rw [List.forall_mem_cons] at h
      exact append h.1 (ih h.2)
  have entries {es : List (Expr × Expr)} (h : ∀ e ∈ es, P e.1.nodes ∧ P e.2.nodes) :
      P (Expr.collectEntries .nodes () es) := by
    induction es with
    | nil => exact nil
    | cons e es ih =>
      rw [List.forall_mem_cons] at h
      exact append (append h.1.1 h.1.2) (ih h.2)
  have option {o : Option Expr} (h : ∀ e ∈ o, P e.nodes) : P (Expr.collectOption .nodes () o) := by
    cases o with
    | none => exact nil
    | some e => exact h e rfl
  have init {o : Option (VarHead × Option Expr)} (h : ∀ i ∈ o, ∀ e ∈ i.2, P e.nodes) :
      P (Expr.collectInit .nodes () o) := by
    cases o with
    | none => exact nil
    | some i => exact option (h i rfl)
  have update {o : Option Stmt} (h : ∀ s ∈ o, P s.nodes) : P (Stmt.collectUpdate .nodes () o) := by
    cases o with
    | none => exact nil
    | some s => exact h s rfl
  have stmts {ss : List Stmt} (h : ∀ s ∈ ss, P s.nodes) : P (Stmt.nodesList ss) := by
    induction ss with
    | nil => exact nil
    | cons s ss ih =>
      rw [List.forall_mem_cons] at h
      exact append h.1 (ih h.2)
  exact {
    leaf e he := by
      cases e with
      | number | string | boolean | null | name | self => exact expr nil rfl
      | _ => cases he
    binary m op l r hl hr := expr (append hl hr) rfl
    unary m op e he := expr he rfl
    step m op e he := expr he rfl
    ternary m c y n hc hy hn := expr (append (append hc hy) hn) rfl
    call m f args target hf hargs := expr (append hf (exprs hargs)) rfl
    member m o n ho := expr ho rfl
    subscript m o i ho hi := expr (append ho hi) rfl
    array m es hes := expr (exprs hes) rfl
    dictionary m es hes := expr (entries hes) rfl
    blockLambda m head block body hbody := expr (stmts hbody) rfl
    exprLambda m head body hbody := expr hbody rfl
    var head i hi := stmt (option hi) rfl
    assign span t v ht hv := stmt (append ht hv) rfl
    func head body hbody := stmt (stmts hbody) rfl
    cls head ms hms := stmt (stmts hms) rfl
    ctor head body hbody := stmt (stmts hbody) rfl
    ifElse x c body rest hc hbody hrest := stmt (append (append hc (stmts hbody)) hrest) rfl
    whileLoop x c body hc hbody := stmt (append hc (stmts hbody)) rfl
    forLoop x i c u body hi hc hu hbody :=
      stmt (append (append (append (init hi) (option hc)) (update hu)) (stmts hbody)) rfl
    ret span v hv := stmt (option hv) rfl
    brk span := stmt nil rfl
    expr e he := stmt he rfl
    done := chain nil rfl
    elseIf x c body rest hc hbody hrest := chain (append (append hc (stmts hbody)) hrest) rfl
    otherwise block body hbody := chain (stmts hbody) rfl }

lemma Program.nodes_induction (p : Program) : P p.nodes := by
  obtain ⟨ss, span⟩ := p
  show P (Stmt.nodesList ss)
  induction ss with
  | nil => exact nil
  | cons s ss ih => exact append ((Node.tree_of_lists nil append node).stmt_holds s) ih

end Induction

/-- The nodes inside of a node of a program are nodes of the program. -/
lemma Program.nodes_subset {p : Program} {n : Node} (hn : n ∈ p.nodes) : n.nodes ⊆ p.nodes := by
  revert n
  refine p.nodes_induction (P := fun ns => ∀ {n : Node}, n ∈ ns → n.nodes ⊆ ns) ?_ ?_ ?_
  · intro n hn
    cases hn
  · intro ns ms hns hms n hn
    rcases List.mem_append.mp hn with hn | hn
    · exact List.subset_append_of_subset_left _ (hns hn)
    · exact List.subset_append_of_subset_right _ (hms hn)
  · intro m ns hm hns n hn
    rcases List.mem_cons.mp hn with rfl | hn
    · exact hm ▸ List.Subset.refl _
    · exact List.subset_cons_of_subset _ (hns hn)

end MiddleEnd
