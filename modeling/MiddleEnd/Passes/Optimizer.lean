import MiddleEnd.Log
import MiddleEnd.Passes.Fold
import MiddleEnd.Passes.Prune
import MiddleEnd.Passes.Cut

/-!
The optimizer: passes over a program, repeated until none of them changes it or the allowed
number of rounds is used up.
-/

namespace MiddleEnd

/-- A pass. The names that are called decide which functions of the program are kept. -/
inductive Pass where
  | foldConstants
  | pruneBranches
  | cutUnreachable
  | dropUncalled (called : List String)

def Stmt.isUncalled (called : List String) : Stmt → Bool
  | .func head _ => !called.contains head.name
  | _ => false

def Stmt.functionName? : Stmt → Option String
  | .func head _ => some head.name
  | _ => none

def dropUncalled (called : List String) : BlockEdit := fun ss =>
  ⟨ss.filter (!·.isUncalled called), ss.any (·.isUncalled called)⟩

namespace Pass

def name : Pass → String
  | .foldConstants => "ConstantFolding"
  | .pruneBranches => "BranchPruning"
  | .cutUnreachable => "DeadCodeElimination"
  | .dropUncalled _ => "UnusedFunctions"

def ofName? (called : List String) (name : String) : Option Pass :=
  [foldConstants, pruneBranches, cutUnreachable, dropUncalled called].find? (·.name = name)

def edit : Pass → BlockEdit
  | .foldConstants => BlockEdit.everywhere foldBlock
  | .pruneBranches => BlockEdit.everywhere pruneBlock
  | .cutUnreachable => BlockEdit.everywhere cutBlock
  | .dropUncalled called => MiddleEnd.dropUncalled called

def run (pass : Pass) (p : Program) : Edit Program :=
  (fun ss => { p with stmts := ss }) <$> pass.edit p.stmts

def log (pass : Pass) (p : Program) : List LogEvent :=
  match pass with
  | .dropUncalled called =>
    ((p.stmts.filter (·.isUncalled called)).filterMap Stmt.functionName?).map .functionRemoved
  | _ => []

end Pass

structure Switches where
  enabled : Bool := true
  maxIterations : Nat := 10
  constantFolding : Bool := true
  deadCode : Bool := true
  branchPruning : Bool := true
  unusedFunctions : Bool := true
  deriving DecidableEq

/-- The passes, in their order, and the most rounds that they are given. -/
structure Optimizer where
  passes : List Pass := []
  maxIterations : Nat := 10

structure OptimizerRun where
  program : Program
  changed : Bool
  log : List LogEvent

namespace Optimizer

def ofSwitches (s : Switches) (called : List String) : Optimizer where
  passes :=
    if s.enabled then
      [(s.constantFolding, Pass.foldConstants), (s.branchPruning, .pruneBranches),
        (s.deadCode, .cutUnreachable), (s.unusedFunctions, .dropUncalled called)].filterMap
          fun (on, pass) => if on then some pass else none
    else []
  maxIterations := s.maxIterations

def addPass (o : Optimizer) (pass : Pass) : Optimizer := { o with passes := o.passes ++ [pass] }

def withMaxIterations (o : Optimizer) (n : Nat) : Optimizer := { o with maxIterations := n }

/-- Runs every pass once, each on what the ones before it have left. -/
def once (o : Optimizer) (p : Program) : Edit Program :=
  o.passes.foldlM (fun p pass => pass.run p) p

def round (iteration : Nat) : List Pass → Program → OptimizerRun
  | [], p => { program := p, changed := false, log := [] }
  | pass :: passes, p =>
    let edit := pass.run p
    let rest := round iteration passes edit.value
    { program := rest.program
      changed := edit.changed || rest.changed
      log := pass.log p
        ++ (if edit.changed then [.passChanged pass.name iteration] else []) ++ rest.log }

/-- At most `left` rounds more, of which the first has number `iteration`. -/
def rounds (o : Optimizer) : (left iteration : Nat) → Program → OptimizerRun
  | 0, _, p => { program := p, changed := false, log := [.roundsUsedUp o.maxIterations] }
  | left + 1, iteration, p =>
    let first := round iteration o.passes p
    if first.changed then
      let rest := o.rounds left (iteration + 1) first.program
      { program := rest.program, changed := true, log := first.log ++ rest.log }
    else first

/-- Repeats the passes until nothing changes or the rounds are used up. -/
def optimize (o : Optimizer) (p : Program) : OptimizerRun :=
  let run := o.rounds o.maxIterations 1 p
  { run with log := .optimizing o.passes.length :: run.log }

end Optimizer
end MiddleEnd
