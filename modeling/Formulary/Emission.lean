import Formulary.Approximation
import Formulary.Branches
import Formulary.Equation
import Formulary.Node.Printer
import Formulary.Text.Quoted

/-!
# Emissions

Compiling yields a list of emissions, in order: the nodes it visits, the instructions for the
branches, the warnings, and the equation when it is done. Branches, warnings and the log are views
of that list.
-/

namespace Formulary

inductive Emission
  | visit (depth : Nat) (node : Node)
  | instruction (instruction : Instruction)
  | warning (warning : Warning)
  /-- An equation is complete. -/
  | frozen (equation : Equation Float)

namespace Emission

def instruction? : Emission → Option Instruction
  | instruction i => some i
  | _ => none

def warning? : Emission → Option Warning
  | warning w => some w
  | _ => none

def instructions (es : List Emission) : List Instruction := es.filterMap instruction?

def warnings (es : List Emission) : List Warning := es.filterMap warning?

@[simp] theorem instructions_append (es es' : List Emission) :
    instructions (es ++ es') = instructions es ++ instructions es' := List.filterMap_append

@[simp] theorem warnings_append (es es' : List Emission) :
    warnings (es ++ es') = warnings es ++ warnings es' := List.filterMap_append

/-- Visits are logged at the lowest level, indented by depth, with the branches there are at that
moment. -/
def visitText (depth : Nat) (node : Node) (branches : Nat) : String :=
  "TRACE " ++ "".pushn ' ' (2 * depth) ++ node.text ++ " (" ++ toString branches ++ " branches)"

def frozenText (e : Equation Float) : String :=
  "DEBUG compiled `" ++ e.name?.getD "<anonymous>" ++ "` (" ++
    (e.kind?.map Kind.text).getD "expression" ++ ") with arguments " ++
    Text.bracketed (e.arguments.map Text.quoted) ++ " into " ++ toString e.branchCount ++
    " branch(es)"

/-- The lines of the log. Every equation starts with a single branch. -/
def log (branches : BranchSet) : List Emission → List String
  | [] => []
  | visit depth node :: rest => visitText depth node branches.size :: log branches rest
  | instruction i :: rest => log ((branches.run i).getD branches) rest
  | warning _ :: rest => log branches rest
  | frozen e :: rest => frozenText e :: log {} rest

end Emission

end Formulary
