import Formulary.Fragment

/-!
# Expressions

The tree that one branch stands for. An external equation is named by its place among the externals
of the equation the expression belongs to.
-/

namespace Formulary

inductive Expression (α : Type)
  | number (value : α)
  | var (name : String)
  | negate (operand : Expression α)
  | binary (operator : Operator) (left right : Expression α)
  | call (function : Function) (arguments : List (Expression α))
  /-- The sum of the body over the whole steps from `lower` up to `upper`. -/
  | sum (index : String) (lower upper : Bound α) (body : Expression α)
  /-- A Riemann sum of the body. -/
  | integral (name : String) (start width : α) (partitions : Nat) (rule : IntegralRule)
      (body : Expression α)
  | reference (external branch : Nat)
  | apply (external branch : Nat) (arguments : List (Expression α))
  /-- The forward difference of a function when all its arguments are moved by `step`. -/
  | derivative (external branch : Nat) (step : α) (arguments : List (Expression α))

end Formulary
