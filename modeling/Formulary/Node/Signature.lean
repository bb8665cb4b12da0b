import Formulary.CompileError
import Formulary.Equation
import Formulary.Node.Operand

/-!
# Signatures

What may stand left of the equality: a name, or a name with its parameters in parentheses.
-/

namespace Formulary.Binding

/-- Names separated by separators; none of them may have been declared before. -/
def readParameters (declared : List String) : List Node → Except Flaw (List String)
  | .var parameter :: rest =>
    if declared.contains parameter then .error (.declaredTwice parameter)
    else
      match rest with
      | [] => .ok [parameter]
      | separator :: rest =>
        if separator.isSeparator then
          (readParameters (parameter :: declared) rest).map (parameter :: ·)
        else .error .leftSide
  | _ => .error .leftSide

/-- The names between the parentheses around a parameter list. -/
def readParameterList : List Node → Except Flaw (List String)
  | opening :: second :: rest =>
    let last := (second :: rest).getLast (by simp)
    if opening.isOpen && last.isClose then
      let inner := (second :: rest).dropLast
      if inner.isEmpty then .ok [] else readParameters [] inner
    else .error .leftSide
  | _ => .error .leftSide

def read : List Node → Except Flaw Binding
  | [.var name] => .ok ⟨name, .variable, []⟩
  | .var name :: rest => (readParameterList rest).map (⟨name, .function, ·⟩)
  | _ => .error .leftSide

/-- What the left side of an equation binds. -/
def ofNodes (nodes : List Node) : Except CompileError Binding :=
  (read nodes).mapError (.malformed (Node.textAll nodes))

end Formulary.Binding
