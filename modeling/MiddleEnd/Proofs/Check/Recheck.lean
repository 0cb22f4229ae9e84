import Mathlib.Data.List.Forall2
import MiddleEnd.Check.Program
import MiddleEnd.Proofs.Tree.Collect

/-!
A second look at an annotated program. Each node is checked for itself, against what the analysis
has found out and the annotations of the nodes right below it.
-/

namespace MiddleEnd

/-- Arguments of these types may be given for the parameters. -/
def TypeTable.Accepts (t : TypeTable) (params : List TypeId) (args : List Expr) : Prop :=
  List.Forall₂ (fun param arg => t.assignable param arg.type = true) params args

lemma exists_of_forall₂ {α β : Type} {R : α → β → Prop} {l : List α} {l' : List β}
    (h : List.Forall₂ R l l') {a : α} (ha : a ∈ l) : ∃ b ∈ l', R a b := by
  induction h with
  | nil => cases ha
  | cons hab _ ih =>
    rcases List.mem_cons.mp ha with rfl | ha
    · exact ⟨_, List.mem_cons_self, hab⟩
    · obtain ⟨b, hb, hab⟩ := ih ha
      exact ⟨b, List.mem_cons_of_mem _ hb, hab⟩

def Expr.IsCondition (c : Expr) : Prop := c.type = .boolean ∨ c.type = .any

namespace Analysis

variable (a : Analysis)

/-- Some scope binds a name to this. -/
def Binds (name : String) (b : Binding) : Prop := ∃ scope, a.scopes.bindingAt? name scope = some b

/-- A function that takes the arguments and gives back the type. -/
def Takes (b : Binding) (args : List Expr) (t : TypeId) : Prop :=
  ∃ params, b.kind = .function ⟨params, t⟩ ∧ a.types.Accepts params args

/-- The target of a call fits what is called, takes the arguments and gives back the type. -/
def CallChecks (callee : Expr) (args : List Expr) (t : TypeId) : CallTarget → Prop
  | .instantiate c => ∃ e, a.types.class? c = some e ∧ t = e.type ∧
    ∃ params ∈ e.overloads, a.types.Accepts params args
  | .method c name => ∃ m o e b, callee = .member m o name ∧ a.types.classOf? o.type = some c ∧
    a.types.class? c = some e ∧ e.members.find? name = some b ∧ a.Takes b args t
  | .function name => ∃ m b, callee = .name m name ∧ a.Binds name b ∧ b.builtin = false ∧
    a.Takes b args t
  | .builtin name => ∃ m b, callee = .name m name ∧ a.Binds name b ∧ b.builtin = true ∧
    a.Takes b args t
  | .dynamic => t = .any

/-- The type of a member: for an instance of a class that of a variable among the members of the
class, and nothing is known of what is not a variable. -/
def MemberChecks (object : TypeId) (name : String) (t : TypeId) : Prop :=
  match a.types.form? object with
  | some (.object c _) => ∃ e b, a.types.class? c = some e ∧ e.members.find? name = some b ∧
    if b.kind = .variable then a.types.sameType t b.type = true else t = .any
  | some .any => t = .any
  | _ => a.types.builtinMember? object name = some t

def SubscriptChecks (object index t : TypeId) : Prop :=
  match a.types.form? object with
  | some (.array element) => a.types.assignable .number index = true ∧ t = element
  | some (.dictionary key value) => a.types.assignable key index = true ∧ t = value
  | some .any => t = .any
  | _ => False

/-- A variable has the type of its initial value, unless another one is written that takes it. -/
def VarChecks (head : VarHead) (init : Option Expr) : Prop :=
  ∃ t, head.type = some t ∧ (∀ e ∈ init, a.types.assignable t e.type = true) ∧
    (head.annotation = none → t = (init.map Expr.type).getD .any)

end Analysis

/-- The type of an expression follows from what it is made of. -/
def Expr.Checks (a : Analysis) : Expr → Prop
  | .number m _ => m.type = some .number
  | .string m _ => m.type = some .string
  | .boolean m _ => m.type = some .boolean
  | .null m => m.type = some .null
  | .name m n => ∃ b, a.Binds n b ∧ b.kind ≠ .type ∧
    m.type = some (if b.isValue then b.type else .any)
  | .self m => ∃ c e, a.types.class? c = some e ∧ m.type = some e.type
  | .binary m op l _ => m.type = some (if op.isArithmetic then l.type else .boolean)
  | .unary m op e => m.type = some e.type ∧
    (e.type = (if op = .not then .boolean else .number) ∨ e.type = .any)
  | .step m _ e => m.type = some e.type ∧ (e.type = .number ∨ e.type = .any)
  | .ternary m c y n => c.IsCondition ∧
    m.type = some (if a.types.sameType y.type n.type then y.type else .any)
  | .call m f args target => f.type = .any ∧
    ∃ t, m.type = some t ∧ ∃ g, target = some g ∧ a.CallChecks f args t g
  | .member m o n => ∃ t, m.type = some t ∧ a.MemberChecks o.type n t
  | .subscript m o i => ∃ t, m.type = some t ∧ a.SubscriptChecks o.type i.type t
  | .array m es => ∃ t, m.type = some t ∧
    a.types.form? t = some (.array (.common (es.map Expr.type)))
  | .dictionary m es => ∃ t, m.type = some t ∧ a.types.form? t =
    some (.dictionary (.common (es.map (·.1.type))) (.common (es.map (·.2.type))))
  | .blockLambda m .. | .exprLambda m .. => m.type = some .any

/-- The values in a statement fit their places. -/
def Stmt.Checks (a : Analysis) : Stmt → Prop
  | .var head init => a.VarChecks head init
  | .assign _ target value =>
    target.isTarget = true ∧ a.types.assignable target.type value.type = true
  | .ifElse _ c _ _ | .whileLoop _ c _ => c.IsCondition
  | .forLoop _ init c _ _ => (∀ i ∈ init, a.VarChecks i.1 i.2) ∧ ∀ e ∈ c, e.IsCondition
  | _ => True

def Chain.Checks : Chain → Prop
  | .elseIf _ c _ _ => c.IsCondition
  | _ => True

/-- A node passes the check of its own. -/
def Node.Checks (a : Analysis) : Node → Prop
  | .expr e => e.Checks a
  | .stmt s => s.Checks a
  | .chain ch => ch.Checks

end MiddleEnd
