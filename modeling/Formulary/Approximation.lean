import Formulary.Decimal.Layout
import Formulary.Diagnostic

/-!
# Approximations

Integrals and derivatives are approximated. Each one is reported, so that results are compared
with a tolerance.
-/

namespace Formulary

inductive Approximation
  | riemannSum (partitions : Nat)
  | forwardDifference (step : Float)

def Approximation.description : Approximation → String
  | riemannSum partitions => "a Riemann sum over " ++ toString partitions ++ " partitions"
  | forwardDifference step =>
      "a forward difference with step " ++ Decimal.Layout.scientific.write step

/-- The report of an approximated operator. -/
structure Warning where
  /-- The operator and its operand as they were written. -/
  subject : String
  approximation : Approximation

def Warning.report (w : Warning) : Diagnostic where
  subject := some w.subject
  message := "approximated by " ++ w.approximation.description
  severity := .warning
  help := some "compare the results against a tolerance"

end Formulary
