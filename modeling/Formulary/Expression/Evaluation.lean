import Formulary.Expression

/-!
# Evaluation

An expression is evaluated in a scope, a stack of bindings. Sums and integrals push their variable
for each value of their body and pop it again, whether the body has a value or not. What an
expression needs of an external equation is only how to call one of its branches, a `Callable`.
-/

namespace Formulary

inductive CallError
  | argumentCount (expected found : Nat)
  | unboundVariable (name : String)
  | missingExternal (external : Nat)
  | missingBranch (branch : Nat)
  | sumTooLong (index : String)
deriving DecidableEq, Repr

def CallError.message : CallError → String
  | argumentCount expected found =>
      "expected " ++ toString expected ++ " argument(s) but " ++ toString found ++ " were given"
  | unboundVariable name => "`" ++ name ++ "` has no value"
  | missingExternal external => "no external declaration at index " ++ toString external
  | missingBranch branch => "the external equation has no branch " ++ toString branch
  | sumTooLong index => "the summation over `" ++ index ++ "` has too many terms"

/-- Bindings, the innermost first. -/
abbrev Scope (α : Type) := List (String × α)

/-- The innermost value of a name. -/
def Scope.lookup {α : Type} (scope : Scope α) (name : String) : Except CallError α :=
  match List.lookup name scope with
  | some value => .ok value
  | none => .error (.unboundVariable name)

/-- A branch of an external equation at parameter values; the rest of its arguments is looked up
in the scope of the caller. -/
abbrev Callable (α : Type) := (branch : Nat) → List α → Scope α → Except CallError α

/-- A computation in a scope. The scope outlives an error. -/
abbrev Evaluation (α β : Type) := ExceptT CallError (StateM (Scope α)) β

namespace Evaluation

variable {α β : Type}

/-- A computation that only reads the scope. -/
def reading (f : Scope α → Except CallError β) : Evaluation α β := fun scope => (f scope, scope)

/-- Runs `body` with one more binding. -/
def binding (name : String) (value : α) (body : Evaluation α β) : Evaluation α β := fun scope =>
  let (result, scope) := ExceptT.run body ((name, value) :: scope)
  (result, scope.tail)

/-- Adds the terms `first`, `first + 1`, … to a total, `count` of them. -/
def addTerms [Add α] (term : Nat → Evaluation α α) : Nat → Nat → α → Evaluation α α
  | 0, _, total => pure total
  | count + 1, first, total => do
    let value ← term first
    addTerms term count (first + 1) (total + value)

/-- The sum of the terms `0`, …, `count - 1`, from left to right. -/
def total [Quantity α] (count : Nat) (term : Nat → Evaluation α α) : Evaluation α α :=
  addTerms term count 0 (Quantity.ofNat 0)

end Evaluation

namespace Expression

variable {α : Type}

/-- The largest number of terms that a sum may have. -/
def maxTerms : Nat := 16777216

def limit (scope : Scope α) : Bound α → Except CallError α
  | .number value => .ok value
  | .var name => scope.lookup name

def external (externals : List (Callable α)) (i : Nat) : Except CallError (Callable α) :=
  match externals[i]? with
  | some callable => .ok callable
  | none => .error (.missingExternal i)

/-- The position of the sample inside a partition, as a fraction of its width. -/
def sampleOffset [Quantity α] : IntegralRule → α
  | .leftEdge => Quantity.ofNat 0
  | .midpoint => Quantity.half

/-- How many whole steps lead from `lower` up to `upper`, both included. -/
def termCount [Quantity α] (index : String) (lower upper : α) : Except CallError Nat :=
  let count := Quantity.floor (upper + Quantity.ofNat 1 - lower)
  if Quantity.exceeds count (Quantity.ofNat maxTerms) then .error (.sumTooLong index)
  else if Quantity.exceeds count (Quantity.ofNat 0) then .ok (Quantity.toNat count)
  else .ok 0

mutual

def evaluate [Quantity α] (externals : List (Callable α)) : Expression α → Evaluation α α
  | number value => pure value
  | var name => Evaluation.reading (·.lookup name)
  | negate operand => do return -(← evaluate externals operand)
  | binary operator left right => do
    let x ← evaluate externals left
    let y ← evaluate externals right
    return operator.apply x y
  | call function arguments => do
    return Quantity.apply function (← evaluateAll externals arguments)
  | sum index lower upper body => do
    let lower ← Evaluation.reading (limit · lower)
    let upper ← Evaluation.reading (limit · upper)
    let count ← Evaluation.reading fun _ => termCount index lower upper
    Evaluation.total count fun i =>
      Evaluation.binding index (lower + Quantity.ofNat i) (evaluate externals body)
  | integral name start width partitions rule body =>
    Evaluation.total partitions fun i => do
      let sample := start + (Quantity.ofNat i + sampleOffset rule) * width
      return width * (← Evaluation.binding name sample (evaluate externals body))
  | reference i branch =>
    Evaluation.reading fun scope => do (← external externals i) branch [] scope
  | apply i branch arguments => do
    let values ← evaluateAll externals arguments
    Evaluation.reading fun scope => do (← external externals i) branch values scope
  | derivative i branch step arguments => do
    let callable ← Evaluation.reading fun _ => external externals i
    let values ← evaluateAll externals arguments
    Evaluation.reading fun scope => do
      let here ← callable branch values scope
      let next ← callable branch (values.map (· + step)) scope
      return (next - here) / step

def evaluateAll [Quantity α] (externals : List (Callable α)) :
    List (Expression α) → Evaluation α (List α)
  | [] => pure []
  | e :: rest => do
    let value ← evaluate externals e
    return value :: (← evaluateAll externals rest)

end

end Expression

end Formulary
