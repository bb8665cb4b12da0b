/-!
# Configuration

The tunables of the numeric approximations.
-/

namespace Formulary

/-- Where the integrand is sampled inside each partition of an integral. -/
inductive IntegralRule
  | leftEdge
  | midpoint
deriving DecidableEq, Repr

def IntegralRule.description : IntegralRule → String
  | leftEdge => "left edge"
  | midpoint => "midpoint"

structure Config where
  /-- The number of partitions an integral range is divided into. -/
  partitions : Nat := 100
  rule : IntegralRule := .leftEdge
  /-- The step of the forward difference that stands for a derivative. -/
  step : Float := 1e-10
  /-- The integration variable of an integral that names none. -/
  differential : String := "x"

instance : Inhabited Config := ⟨{}⟩

end Formulary
