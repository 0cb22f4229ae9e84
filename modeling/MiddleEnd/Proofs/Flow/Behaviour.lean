import Mathlib.Data.Set.Image
import MiddleEnd.Proofs.Passes.OneRound

/-!
Control flow. A statement list has a set of finite runs. A run is the sequence of the simple
statements that are executed and of the conditions that are evaluated, and it ends normally, with
a `break` or with a `return`. A literal condition has its value and is not seen; any other
condition may turn out either way.
-/

namespace MiddleEnd

/-- What is seen of a run. -/
inductive Event where
  | executed (s : Stmt)
  | evaluated (cond : Expr) (holds : Bool)

/-- How a run of statements ends. -/
inductive Outcome where
  | normal
  | broken
  | returned
  deriving DecidableEq

/-- Finite runs, each with what it gives in the end. -/
abbrev Runs (α : Type) := Set (List Event × α)

namespace Runs

variable {α β : Type}

def silent (a : α) : Runs α := {([], a)}

def event (e : Event) (a : α) : Runs α := {([e], a)}

/-- One event that may turn out either way. -/
def either (e : Bool → Event) : Runs Bool := {r | r.1 = [e r.2]}

/-- Runs that go on as the first part has turned out. -/
def bind (A : Runs α) (k : α → Runs β) : Runs β :=
  {r | ∃ t a u, (t, a) ∈ A ∧ (u, r.2) ∈ k a ∧ r.1 = t ++ u}

/-- The second part is entered only if the first one ends normally. -/
def seq (A B : Runs Outcome) : Runs Outcome :=
  A.bind fun o => if o = .normal then B else silent o

def branch (test : Runs Bool) (A B : Runs Outcome) : Runs Outcome :=
  test.bind fun holds => if holds then A else B

/-- The outcome of a loop that is left after its body has ended like this. -/
def left? : Outcome → Option Outcome
  | .normal => none
  | .broken => some .normal
  | .returned => some .returned

/-- One turn of a loop: how the loop is left, or nothing if it goes on. -/
def turn (test : Runs Bool) (body : Runs Outcome) : Runs (Option Outcome) :=
  test.bind fun holds =>
    if holds then body.bind fun o => silent (left? o) else silent (some .normal)

/-- Finitely many turns, of which the last one leaves the loop. -/
inductive Turns (A : Runs (Option Outcome)) : List Event → Outcome → Prop
  | leave {t o} : (t, some o) ∈ A → Turns A t o
  | again {t u o} : (t, none) ∈ A → Turns A u o → Turns A (t ++ u) o

def loop (test : Runs Bool) (body : Runs Outcome) : Runs Outcome :=
  {r | Turns (turn test body) r.1 r.2}

def map (φ : Event → Event) (A : Runs α) : Runs α := (fun r => (r.1.map φ, r.2)) '' A

/-! ### Laws -/

lemma mem_bind {A : Runs α} {k : α → Runs β} {t : List Event} {b : β} :
    (t, b) ∈ A.bind k ↔ ∃ u a v, (u, a) ∈ A ∧ (v, b) ∈ k a ∧ t = u ++ v := Iff.rfl

lemma mem_map {φ : Event → Event} {A : Runs α} {t : List Event} {a : α} :
    (t, a) ∈ A.map φ ↔ ∃ u, (u, a) ∈ A ∧ u.map φ = t := by
  constructor
  · rintro ⟨⟨u, a'⟩, hu, heq⟩
    cases heq
    exact ⟨u, hu, rfl⟩
  · rintro ⟨u, hu, rfl⟩
    exact ⟨(u, a), hu, rfl⟩

lemma mem_loop {test : Runs Bool} {body : Runs Outcome} {t : List Event} {o : Outcome} :
    (t, o) ∈ loop test body ↔ Turns (turn test body) t o := Iff.rfl

@[simp] lemma silent_bind (a : α) (k : α → Runs β) : (silent a).bind k = k a := by
  ext ⟨t, b⟩
  constructor
  · rintro ⟨u, a', v, hu, hv, rfl⟩
    cases hu
    exact hv
  · intro h
    exact ⟨[], a, t, rfl, h, rfl⟩

@[simp] lemma map_silent (φ : Event → Event) (a : α) : (silent a).map φ = silent a :=
  Set.image_singleton

@[simp] lemma map_event (φ : Event → Event) (e : Event) (a : α) :
    (event e a).map φ = event (φ e) a :=
  Set.image_singleton

lemma map_either (φ : Event → Event) (e : Bool → Event) :
    (either e).map φ = either fun holds => φ (e holds) := by
  ext ⟨t, b⟩
  rw [mem_map]
  constructor
  · rintro ⟨u, hu, rfl⟩
    exact congrArg (List.map φ) hu
  · intro h
    exact ⟨[e b], rfl, h.symm⟩

lemma map_bind (φ : Event → Event) (A : Runs α) (k : α → Runs β) :
    (A.bind k).map φ = (A.map φ).bind fun a => (k a).map φ := by
  ext ⟨t, b⟩
  simp only [mem_map, mem_bind]
  constructor
  · rintro ⟨w, ⟨u, a, v, hu, hv, rfl⟩, rfl⟩
    exact ⟨u.map φ, a, v.map φ, ⟨u, hu, rfl⟩, ⟨v, hv, rfl⟩, List.map_append⟩
  · rintro ⟨_, a, _, ⟨u, hu, rfl⟩, ⟨v, hv, rfl⟩, rfl⟩
    exact ⟨u ++ v, ⟨u, a, v, hu, hv, rfl⟩, List.map_append⟩

lemma map_seq (φ : Event → Event) (A B : Runs Outcome) :
    (A.seq B).map φ = (A.map φ).seq (B.map φ) := by
  rw [seq, seq, map_bind]
  congr 1
  funext o
  split
  · rfl
  · exact map_silent φ o

lemma map_branch (φ : Event → Event) (test : Runs Bool) (A B : Runs Outcome) :
    (test.branch A B).map φ = (test.map φ).branch (A.map φ) (B.map φ) := by
  rw [branch, branch, map_bind]
  congr 1
  funext holds
  cases holds <;> rfl

lemma map_turn (φ : Event → Event) (test : Runs Bool) (body : Runs Outcome) :
    (turn test body).map φ = turn (test.map φ) (body.map φ) := by
  rw [turn, turn, map_bind]
  congr 1
  funext holds
  cases holds with
  | true => simp only [if_true, map_bind, map_silent]
  | false => simp

lemma map_loop (φ : Event → Event) (test : Runs Bool) (body : Runs Outcome) :
    (loop test body).map φ = loop (test.map φ) (body.map φ) := by
  ext ⟨t, o⟩
  simp only [mem_map, mem_loop, ← map_turn]
  constructor
  · rintro ⟨u, hu, rfl⟩
    induction hu with
    | leave h => exact Turns.leave (mem_map.mpr ⟨_, h, rfl⟩)
    | again h _ ih =>
      rw [List.map_append]
      exact Turns.again (mem_map.mpr ⟨_, h, rfl⟩) ih
  · intro h
    induction h with
    | leave h =>
      obtain ⟨u, hu, rfl⟩ := mem_map.mp h
      exact ⟨u, Turns.leave hu, rfl⟩
    | again h _ ih =>
      obtain ⟨u, hu, rfl⟩ := mem_map.mp h
      obtain ⟨v, hv, rfl⟩ := ih
      exact ⟨u ++ v, Turns.again hu hv, List.map_append⟩

@[simp] lemma silent_branch (holds : Bool) (A B : Runs Outcome) :
    (silent holds).branch A B = if holds then A else B :=
  silent_bind holds _

@[simp] lemma silent_seq (A : Runs Outcome) : (silent .normal).seq A = A := by
  simp [seq]

/-- After an event that does not end normally nothing is executed. -/
lemma event_seq {o : Outcome} (ho : o ≠ .normal) (e : Event) (A : Runs Outcome) :
    (event e o).seq A = event e o := by
  have hk : (fun o' => if o' = Outcome.normal then A else silent o') o = silent o := if_neg ho
  ext ⟨t, b⟩
  constructor
  · rintro ⟨u, a, v, hu, hv, rfl⟩
    cases hu
    rw [hk] at hv
    cases hv
    rfl
  · rintro h
    cases h
    exact ⟨[e], o, [], rfl, by rw [hk]; rfl, rfl⟩

lemma loop_silent_false (body : Runs Outcome) : loop (silent false) body = silent .normal := by
  have hturn : turn (silent false) body = silent (some .normal) := by simp [turn]
  ext ⟨t, o⟩
  rw [mem_loop, hturn]
  constructor
  · rintro (h | ⟨h, _⟩)
    · cases h
      rfl
    · cases h
  · intro h
    cases h
    exact Turns.leave rfl

end Runs

/-! ### The runs of statements -/

def Expr.test (c : Expr) : Runs Bool :=
  match c.boolean? with
  | some b => Runs.silent b
  | none => Runs.either (.evaluated c)

/-- A loop without a condition goes on. -/
def Expr.testOption : Option Expr → Runs Bool
  | none => Runs.silent true
  | some c => c.test

/-- The variable of a loop is set up once. -/
def Stmt.runsInit : Option (VarHead × Option Expr) → Runs Outcome
  | none => Runs.silent .normal
  | some (head, e) => Runs.event (.executed (.var head e)) .normal

mutual
def Stmt.runs : Stmt → Runs Outcome
  | .ifElse _ c body rest => c.test.branch (Stmt.runsBlock body) rest.runs
  | .whileLoop _ c body => Runs.loop c.test (Stmt.runsBlock body)
  | .forLoop _ init c update body =>
    (Stmt.runsInit init).seq
      (Runs.loop (Expr.testOption c) ((Stmt.runsBlock body).seq (Stmt.runsUpdate update)))
  | .ret span v => Runs.event (.executed (.ret span v)) .returned
  | .brk span => Runs.event (.executed (.brk span)) .broken
  | .var head init => Runs.event (.executed (.var head init)) .normal
  | .assign span t v => Runs.event (.executed (.assign span t v)) .normal
  | .func head body => Runs.event (.executed (.func head body)) .normal
  | .cls head ms => Runs.event (.executed (.cls head ms)) .normal
  | .ctor head body => Runs.event (.executed (.ctor head body)) .normal
  | .expr e => Runs.event (.executed (.expr e)) .normal

def Stmt.runsUpdate : Option Stmt → Runs Outcome
  | none => Runs.silent .normal
  | some s => s.runs

def Stmt.runsBlock : List Stmt → Runs Outcome
  | [] => Runs.silent .normal
  | s :: ss => s.runs.seq (Stmt.runsBlock ss)

/-- The runs of the arms after the first one: the block of the first condition that holds, or
else the last block. -/
def Chain.runs : Chain → Runs Outcome
  | .done => Runs.silent .normal
  | .elseIf _ c body rest => c.test.branch (Stmt.runsBlock body) rest.runs
  | .otherwise _ body => Stmt.runsBlock body
end

end MiddleEnd
