/-!
# Arithmetic

The operators and built-in functions of a formula, and the operations that evaluation needs of
the numbers it runs on. Evaluation is written once over `Quantity`, so it can be run on floats and
studied on exact numbers.
-/

namespace Formulary

/-- An operator between two operands, or before one as a sign. -/
inductive Operator
  | add
  | subtract
  | multiply
  | divide
deriving DecidableEq, Repr

namespace Operator

def symbol : Operator → String
  | add => "+"
  | subtract => "-"
  | multiply => "*"
  | divide => "/"

/-- Multiplicative operators bind tighter than additive ones. -/
def isMultiplicative : Operator → Bool
  | multiply | divide => true
  | add | subtract => false

def apply {α : Type} [Add α] [Sub α] [Mul α] [Div α] : Operator → α → α → α
  | add, x, y => x + y
  | subtract, x, y => x - y
  | multiply, x, y => x * y
  | divide, x, y => x / y

end Operator

/-- A built-in function. -/
inductive Function
  | power
  | squareRoot
  | absolute
  | sine
  | cosine
  | tangent
deriving DecidableEq, Repr

namespace Function

def name : Function → String
  | power => "pow"
  | squareRoot => "sqrt"
  | absolute => "abs"
  | sine => "sin"
  | cosine => "cos"
  | tangent => "tan"

def arity : Function → Nat
  | power => 2
  | squareRoot | absolute | sine | cosine | tangent => 1

theorem arity_pos (f : Function) : 0 < f.arity := by
  cases f <;> decide

end Function

/-- What evaluation needs of a number. -/
class Quantity (α : Type) extends Add α, Sub α, Mul α, Div α, Neg α where
  ofNat : Nat → α
  half : α
  floor : α → α
  /-- Strictly greater; false as soon as one side is not a number. -/
  exceeds : α → α → Bool
  /-- The whole part of a positive number. -/
  toNat : α → Nat
  /-- A built-in function at its arguments; at a wrong number of them, not a number. -/
  apply : Function → List α → α

namespace Function

/-- One degree in radians. -/
def degree : Float := 0.017453292519943295

/-- Trigonometric functions take degrees. -/
def applyFloat : Function → List Float → Float
  | power, [base, exponent] => base.pow exponent
  | squareRoot, [x] => x.sqrt
  | absolute, [x] => x.abs
  | sine, [x] => (x * degree).sin
  | cosine, [x] => (x * degree).cos
  | tangent, [x] => (x * degree).tan
  | _, _ => 0.0 / 0.0

end Function

instance : Quantity Float where
  ofNat := Float.ofNat
  half := 0.5
  floor := Float.floor
  exceeds x y := y < x
  toNat x := x.toUInt64.toNat
  apply := Function.applyFloat

end Formulary
