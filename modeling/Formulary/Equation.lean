import Formulary.Expression.Evaluation

/-!
# Equations

A compiled equation holds an expression for each of its branches and the earlier equations those
refer to. Calling it gives one value a branch; a result set holds each of these once, in order.
-/

namespace Formulary

inductive Kind
  | function
  | variable
deriving DecidableEq, Repr

def Kind.text : Kind → String
  | .function => "function"
  | .variable => "variable"

/-- What the left side of an equation binds. -/
structure Binding where
  name : String
  kind : Kind
  /-- Empty for a variable. -/
  parameters : List String
deriving DecidableEq, Repr

structure Equation (α : Type) where
  binding : Option Binding
  /-- The parameters first, then the other arguments in the order they were met. -/
  arguments : List String
  /-- The names bound inside the expression. -/
  bound : List String
  branches : List (Expression α)
  externals : List (Equation α)

namespace Equation

variable {α : Type}

def name? (e : Equation α) : Option String := e.binding.map (·.name)

def kind? (e : Equation α) : Option Kind := e.binding.map (·.kind)

def parameters (e : Equation α) : List String :=
  match e.binding with
  | some binding => binding.parameters
  | none => []

/-- The arguments that are not parameters. -/
def freeArguments (e : Equation α) : List String := e.arguments.drop e.parameters.length

def branchCount (e : Equation α) : Nat := e.branches.length

def isFunction (e : Equation α) : Bool := e.kind? == some .function

/-- Evaluates one branch with the parameters at the given values and the free arguments at their
values in the scope of the caller, through the callables of the externals. -/
def callBranch [Quantity α] (e : Equation α) (externals : List (Callable α)) : Callable α :=
  fun branch values outer =>
    if e.parameters.length ≠ values.length then
      .error (.argumentCount e.parameters.length values.length)
    else
      match e.branches[branch]? with
      | none => .error (.missingBranch branch)
      | some expression => do
        let free ← e.freeArguments.mapM fun name => return (name, ← outer.lookup name)
        let scope := (e.parameters.zip values ++ free).reverse
        (expression.evaluate externals scope).1

mutual

/-- The equation as its referrers see it. -/
def callable [Quantity α] : Equation α → Callable α
  | ⟨binding, arguments, bound, branches, externals⟩ =>
    callBranch ⟨binding, arguments, bound, branches, externals⟩ (callables externals)

def callables [Quantity α] : List (Equation α) → List (Callable α)
  | [] => []
  | e :: rest => callable e :: callables rest

end

theorem callables_eq_map [Quantity α] (es : List (Equation α)) :
    callables es = es.map callable := by
  induction es with
  | nil => rfl
  | cons e rest ih => simp [callables, ih]

theorem callable_eq [Quantity α] (e : Equation α) :
    e.callable = e.callBranch (e.externals.map callable) := by
  cases e
  rw [callable, callables_eq_map]

/-- The value of every branch, in branch order. -/
def branchValues [Quantity α] (e : Equation α) (values : List α) : Except CallError (List α) :=
  if e.arguments.length ≠ values.length then
    .error (.argumentCount e.arguments.length values.length)
  else
    let scope := (e.arguments.zip values).reverse
    let externals := e.externals.map callable
    e.branches.mapM fun expression => (expression.evaluate externals scope).1

end Equation

end Formulary
