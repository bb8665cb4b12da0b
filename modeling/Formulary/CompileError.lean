import Formulary.Arithmetic
import Formulary.Diagnostic
import Formulary.Node.Printer

/-!
# Compile errors

The causes for which an equation is refused, and their wording.
-/

namespace Formulary

/-- What is wrong with a malformed expression. -/
inductive Flaw
  /-- Neither a name nor a name with parameters stands left of the equality. -/
  | leftSide
  | declaredTwice (parameter : String)
  | unclosedBar
  | emptyFraction
  | noOperand (function : Function)
  | powerPart
  | anglePart
  | primeBase
  | sumSubscript
  | lowerLimit
  | upperLimit
  | sumOperand
  | integralLimits
  | integralRange
  | integralOperand
  | unwantedLimits (name : OperatorName)
  | unapplied
  | argumentCount (expected found : Nat)
  | missingOperand
  | unexpected (fragment : String)
  | notNumber (text : String)
  | unbalanced
  | unterminated
  | arity (function : Function) (found : Nat)
deriving DecidableEq, Repr

namespace Flaw

def quoted (text : String) : String := "`" ++ text ++ "`"

def reason : Flaw → String
  | leftSide => "the left side must be `name` or `name(parameters)`"
  | declaredTwice parameter => quoted parameter ++ " is declared twice"
  | unclosedBar => "the absolute value is never closed by a matching `|`"
  | emptyFraction => "a fraction needs both a numerator and a denominator"
  | noOperand function => quoted function.name ++ " has no operand"
  | powerPart =>
      "the base and the exponent of a power must be a number, a variable or a group"
  | anglePart => "an angle must be a number, a variable or a group"
  | primeBase => "only a function name can be differentiated"
  | sumSubscript => "a summation needs a subscript `i = lower`"
  | lowerLimit => "the lower limit must be a number or a variable"
  | upperLimit => "the upper limit must be a number or a variable"
  | sumOperand => "the summation has no operand"
  | integralLimits => "the limits of an integral must be numbers"
  | integralRange => "the range can't be divided into partitions"
  | integralOperand => "the integral has no operand"
  | unwantedLimits name => quoted name.text ++ " takes no limits"
  | unapplied => "a function must be applied to a parenthesized argument list"
  | argumentCount expected found =>
      "expected " ++ toString expected ++ " argument(s) but " ++ toString found ++ " were given"
  | missingOperand => "expected an operand"
  | unexpected fragment => "unexpected " ++ quoted fragment
  | notNumber text => quoted text ++ " is not a number"
  | unbalanced => "unbalanced parenthesis"
  | unterminated => "unterminated argument list"
  | arity function found =>
      quoted function.name ++ " takes " ++ toString function.arity ++ " argument(s) but " ++
        toString found ++ " were given"

end Flaw

/-- Why an equation does not compile. -/
inductive CompileError
  | unsupportedOperator (symbol : String)
  | malformed (subject : String) (flaw : Flaw)
  /-- A prime on a name that no earlier equation binds as a function. -/
  | unresolvedReference (name : String)
  /-- An external is referred to before its branches are chosen. Compiling never ends this way. -/
  | unpaired
deriving DecidableEq, Repr

namespace CompileError

def message : CompileError → String
  | unsupportedOperator symbol => "operator not found: " ++ symbol
  | malformed subject flaw =>
      "malformed expression " ++ Flaw.quoted subject ++ ": " ++ flaw.reason
  | unresolvedReference name =>
      Flaw.quoted name ++ " is not bound to a function by any earlier equation"
  | unpaired => "a branch is not paired with an external equation"

def report (e : CompileError) : Diagnostic :=
  match e with
  | unsupportedOperator symbol =>
      { subject := some symbol
        message := e.message
        severity := .error
        help := some "supported operators are `+ - * \\times / \\div \\pm ( ) ,`" }
  | malformed subject flaw =>
      { subject := some subject
        message := "malformed expression: " ++ flaw.reason
        severity := .error
        help := none }
  | unresolvedReference name =>
      { subject := some (name ++ "'")
        message := e.message
        severity := .error
        help := some ("define it first, e.g. " ++ Flaw.quoted (name ++ "(x) = ...")) }
  | unpaired => { subject := none, message := e.message, severity := .error, help := none }

end CompileError

end Formulary
