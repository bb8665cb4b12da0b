import Formulary.CompileError
import Formulary.Decimal.Fixed
import Formulary.Fragment
import Formulary.Node.Operand

/-!
# Limits

The limits of sums and integrals are numbers written as literals, with a minus sign perhaps, and
with groups around them perhaps. A limit of a sum may be a variable as well.
-/

namespace Formulary.Node

/-- The joined text of number pieces. -/
def piecesText? : List Node → Option String
  | [] => some ""
  | .literal text :: rest => if text = bar then none else (piecesText? rest).map (text ++ ·)
  | _ :: _ => none

/-- The text of a number; at least one piece. -/
def unsignedText? (nodes : List Node) : Option String :=
  if nodes.isEmpty then none else piecesText? nodes

/-- The text of a number that may have a minus sign. -/
def signedText? : List Node → Option String
  | [] => none
  | node :: rest =>
    if node.isMinus then (unsignedText? rest).map ("-" ++ ·) else unsignedText? (node :: rest)

/-- What stands inside the groups around a limit. -/
def ungrouped : List Node → List Node
  | [.group body] => ungrouped body
  | nodes => nodes

/-- What groups make no difference to is the same inside them. -/
theorem apply_ungrouped {β : Type} (f : List Node → β) (h : ∀ body, f [.group body] = f body)
    (nodes : List Node) : f (ungrouped nodes) = f nodes := by
  fun_induction ungrouped nodes with
  | case1 body ih => rw [ih, h]
  | case2 => rfl

/-- A number or a single variable. -/
def bound? (nodes : List Node) : Option (Bound Float) :=
  match ungrouped nodes with
  | [.var name] => some (.var name)
  | nodes => do return .number (← Decimal.float? (← signedText? nodes))

def fixed? (nodes : List Node) : Option Decimal.Fixed := do
  Decimal.Fixed.parse? (← signedText? (ungrouped nodes)).toList

end Formulary.Node

namespace Formulary

/-- The range of a sum: its index and both limits. -/
structure SumRange where
  index : String
  lower : Bound Float
  upper : Bound Float

/-- The lower limit is written `i = lower`. -/
def SumRange.ofLimits (lower upper : Option (List Node)) : Except Flaw SumRange :=
  match lower with
  | some (.var index :: equality :: first) =>
    if equality.isEquality then
      match Node.bound? first, upper.bind Node.bound? with
      | some lower, some upper => .ok ⟨index, lower, upper⟩
      | some _, none => .error .upperLimit
      | none, _ => .error .lowerLimit
    else .error .sumSubscript
  | _ => .error .sumSubscript

/-- The names of the limits that are variables. -/
def SumRange.names (r : SumRange) : List String :=
  [r.lower, r.upper].filterMap fun
    | .number _ => none
    | .var name => some name

/-- The partitions of an integral: where the first one starts and how wide each is. -/
structure Partition where
  start : Float
  width : Float

def Partition.ofLimits (partitions : Nat) (lower upper : Option (List Node)) :
    Except Flaw Partition :=
  match lower.bind Node.fixed?, upper.bind Node.fixed? with
  | some lower, some upper =>
    match Decimal.partition? lower upper partitions with
    | some (start, width) => .ok ⟨start, width⟩
    | none => .error .integralRange
  | _, _ => .error .integralLimits

end Formulary
