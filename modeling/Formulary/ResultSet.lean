import Formulary.Equation

/-!
# Result sets

The distinct values of an equation in ascending order. All values that are not a number count as
one, the largest, and the two zeros count as one.
-/

namespace Formulary

/-- The place of a float in the total order: the negative ones downwards from `-1`, the rest by
their bits. -/
def floatRank (x : Float) : Int :=
  let bits := x.toBits.toNat
  if bits < Nat.pow 2 63 then bits else (Nat.pow 2 63 : Int) - 1 - bits

/-- One form for all values that are written alike. -/
def canonical (x : Float) : Float := if x.isNaN then 0.0 / 0.0 else x + 0.0

namespace ResultSet

/-- Keeps the first of each run of neighbours with the same rank. -/
def dedup : List Float → List Float
  | [] => []
  | x :: rest =>
    match dedup rest with
    | [] => [x]
    | y :: ys => if floatRank x = floatRank y then x :: ys else x :: y :: ys

def ofValues (values : List Float) : List Float :=
  dedup ((values.map canonical).mergeSort fun x y => floatRank x ≤ floatRank y)

end ResultSet

namespace Equation

def call (e : Equation Float) (values : List Float) : Except CallError (List Float) :=
  return ResultSet.ofValues (← e.branchValues values)

end Equation

end Formulary
