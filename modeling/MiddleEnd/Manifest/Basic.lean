import MiddleEnd.Passes.Optimizer
import MiddleEnd.Toml.Document
import MiddleEnd.Toml.Quoted

/-!
The manifest of a project: what the project is called, and the switches of the optimizer.
-/

namespace MiddleEnd

structure Package where
  name : String
  version : String
  edition : String := "2024"
  deriving DecidableEq

structure Manifest where
  package : Package
  optimizer : Switches := {}
  deriving DecidableEq

def Data.fieldOr {α : Type} (read : Data → Option α) (default : α) : Option Data → Option α
  | none => some default
  | some d => read d

namespace Package

def fieldNames : List String := ["name", "version", "edition"]

def ofData? (d : Data) : Option Package := do
  match ← d.fields? fieldNames with
  | [some name, some version, edition] =>
    return {
      name := ← name.text?
      version := ← version.text?
      edition := ← Data.fieldOr Data.text? "2024" edition }
  | _ => none

end Package

namespace Switches

def fieldNames : List String :=
  ["enabled", "max_iterations", "constant_folding", "dead_code", "branch_pruning",
    "unused_functions"]

def ofData? (d : Data) : Option Switches := do
  match ← d.fields? fieldNames with
  | [enabled, maxIterations, constantFolding, deadCode, branchPruning, unusedFunctions] =>
    return {
      enabled := ← Data.fieldOr Data.boolean? true enabled
      maxIterations := ← Data.fieldOr Data.natural? 10 maxIterations
      constantFolding := ← Data.fieldOr Data.boolean? true constantFolding
      deadCode := ← Data.fieldOr Data.boolean? true deadCode
      branchPruning := ← Data.fieldOr Data.boolean? true branchPruning
      unusedFunctions := ← Data.fieldOr Data.boolean? true unusedFunctions }
  | _ => none

end Switches

namespace Manifest

def ofName (name : String) : Manifest := { package := { name, version := "0.1.0" } }

/-- The package is required, the optimizer's section may be left out. Sections with other names
are of no concern here. -/
def ofData? (d : Data) : Option Manifest := do
  match ← d.fields? ["package", "optimizer"] with
  | [some package, optimizer] =>
    return {
      package := ← Package.ofData? package
      optimizer := ← Data.fieldOr Switches.ofData? {} optimizer }
  | _ => none

def parse? (text : String) : Option Manifest := do ofData? (← Toml.read? text)

def line (key value : String) : String := key ++ " = " ++ value ++ "\n"

def flag (b : Bool) : String := if b then "true" else "false"

/-- The written form. A number of rounds that is too large for the format cannot be written. -/
def render? (m : Manifest) : Option String :=
  let p := m.package
  let o := m.optimizer
  if o.maxIterations < 1 <<< 63 then
    some <| "".intercalate
      ["[package]\n",
        line "name" (Toml.quote p.name),
        line "version" (Toml.quote p.version),
        line "edition" (Toml.quote p.edition),
        "\n[optimizer]\n",
        line "enabled" (flag o.enabled),
        line "max_iterations" (toString o.maxIterations),
        line "constant_folding" (flag o.constantFolding),
        line "dead_code" (flag o.deadCode),
        line "branch_pruning" (flag o.branchPruning),
        line "unused_functions" (flag o.unusedFunctions)]
  else none

end Manifest
end MiddleEnd
