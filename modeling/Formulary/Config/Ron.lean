import Formulary.Config
import Formulary.Ron.Reader

/-!
# Configuration files

A configuration is a RON record; a field that is absent keeps its default.
-/

namespace Formulary

def IntegralRule.ofWord? : Ron → Option IntegralRule
  | .word "LeftEdge" => some leftEdge
  | .word "Midpoint" => some midpoint
  | _ => none

namespace Ron

/-- A natural number of 64 bits. -/
def nat64? : Ron → Option Nat
  | number text => (natOfText? text.toList).filter (· < Nat.pow 2 64)
  | _ => none

def float? : Ron → Option Float
  | number text => floatOfText? text
  | _ => none

/-- The value of a field, or the default when there is no such field. -/
def fieldOr {α : Type} (fields : List (String × Ron)) (key : String) (default : α)
    (read : Ron → Option α) : Option α :=
  match fields.lookup key with
  | some value => read value
  | none => some default

end Ron

namespace Config

/-- How deep a value in a configuration may be nested. -/
def ronDepth : Nat := 126

def ofRon? (r : Ron) : Option Config := do
  let default : Config := {}
  let fields ← r.fields? "Config"
    ["integral_partitions", "integral_rule", "derivative_step", "differential_variable"] ronDepth
  return {
    partitions := ← Ron.fieldOr fields "integral_partitions" default.partitions Ron.nat64?
    rule := ← Ron.fieldOr fields "integral_rule" default.rule IntegralRule.ofWord?
    step := ← Ron.fieldOr fields "derivative_step" default.step Ron.float?
    differential :=
      ← Ron.fieldOr fields "differential_variable" default.differential Ron.text? }

def parse? (text : String) : Option Config := do
  let (_, r) ← Ron.parse? text
  ofRon? r

end Config

end Formulary
