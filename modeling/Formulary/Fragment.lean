import Formulary.Arithmetic
import Formulary.Config

/-!
# Fragments

Compiling an equation appends fragments to the code of a branch. Code is a flat list in infix
order; a fragment that opens a part of it is matched by a later `close`.
-/

namespace Formulary

/-- A limit of a sum. -/
inductive Bound (α : Type)
  | number (value : α)
  | var (name : String)

inductive Fragment
  /-- The text of a number; neighbouring pieces are joined when they are appended. -/
  | number (text : String)
  | var (name : String)
  | operator (operator : Operator)
  | openParen
  /-- Closes whatever was opened last. -/
  | close
  | separator
  | call (function : Function)
  | sum (index : String) (lower upper : Bound Float)
  | integral (name : String) (start width : Float) (partitions : Nat) (rule : IntegralRule)
  /-- One branch of an earlier equation that binds a variable. -/
  | reference (external branch : Nat)
  /-- Opens the arguments of one branch of an earlier function. -/
  | apply (external branch : Nat)
  /-- Opens the arguments of the derivative of one branch of an earlier function. -/
  | derivative (external branch : Nat) (step : Float)

namespace Fragment

/-- Whether a `close` has to follow. -/
def opens : Fragment → Bool
  | openParen | call _ | sum .. | integral .. | apply .. | derivative .. => true
  | number _ | var _ | operator _ | close | separator | reference .. => false

end Fragment

end Formulary
