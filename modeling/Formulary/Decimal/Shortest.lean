/-!
# Shortest decimals

A positive finite float is `m · 2^q`. The decimals that read back as that float fill an interval
around it; `shortest` picks one of them with the fewest digits, and of those the nearest, the
larger one on a tie. All comparisons are between integers over a common denominator.
-/

namespace Formulary.Decimal

/-- The number `digits · 10^exponent`. -/
structure Digits where
  digits : Nat
  exponent : Int
deriving DecidableEq, Repr

/-- The reals that round to a float, as integers over `denominator`. -/
structure Interval where
  low : Nat
  value : Nat
  high : Nat
  denominator : Nat
  /-- Whether the two ends round to the float as well. -/
  closed : Bool

namespace Interval

/-- Reaches half way to each neighbour. The neighbour below is only half as far where the binary
exponent changes. The ends round to even. -/
def around (m : Nat) (q : Int) : Interval :=
  let scale := Nat.pow 2 (q - 2).toNat
  let below := if m = Nat.pow 2 52 ∧ q ≠ -1074 then 1 else 2
  { low := (4 * m - below) * scale
    value := 4 * m * scale
    high := (4 * m + 2) * scale
    denominator := Nat.pow 2 (2 - q).toNat
    closed := m % 2 == 0 }

/-- All numbers of the interval in units of `10^k`. -/
def inUnitsOf (i : Interval) (k : Int) : Interval :=
  let up := Nat.pow 10 (-k).toNat
  { i with
    low := i.low * up, value := i.value * up, high := i.high * up
    denominator := i.denominator * Nat.pow 10 k.toNat }

def contains (i : Interval) (n : Nat) : Bool :=
  let x := n * i.denominator
  if i.closed then i.low ≤ x && x ≤ i.high else i.low < x && x < i.high

/-- The integer of the interval that is nearest to its value, if it holds one. -/
def nearest? (i : Interval) : Option Nat :=
  let floor := i.value / i.denominator
  match i.contains floor, i.contains (floor + 1) with
  | true, true =>
    if 2 * (i.value % i.denominator) < i.denominator then some floor else some (floor + 1)
  | true, false => some floor
  | false, true => some (floor + 1)
  | false, false => none

theorem contains_of_nearest? {i : Interval} {n : Nat} (h : i.nearest? = some n) :
    i.contains n = true := by
  unfold nearest? at h
  grind

end Interval

/-- An exponent with `m · 2^q < 10^(leading m q)`, and no more than two above the least one. -/
def leading (m : Nat) (q : Int) : Int :=
  ((m.log2 : Int) + 1 + q) * 30103 / 100000 + 1

/-- Tries the grids of tens, from the coarse to the fine. Seventeen digits always suffice; the
exact value stands behind them. -/
def shortest (m : Nat) (q : Int) : Digits :=
  let interval := Interval.around m q
  let attempt (i : Nat) : Option Digits :=
    let k := leading m q - i
    (interval.inUnitsOf k).nearest?.map (⟨·, k⟩)
  ((List.range 21).findSome? attempt).getD ⟨m * Nat.pow 2 q.toNat * Nat.pow 5 (-q).toNat, min q 0⟩

end Formulary.Decimal
