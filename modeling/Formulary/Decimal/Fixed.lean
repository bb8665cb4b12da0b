import Formulary.Decimal.Literal

/-!
# Fixed-point decimals

A fixed-point decimal has a mantissa below `2^96` and at most 28 digits after the point. The limits
of integrals are read as such numbers and subtracted and divided exactly where they fit, so that a
partition width is not blurred by binary fractions.
-/

namespace Formulary.Decimal

/-- The number `± mantissa / 10^scale`. -/
structure Fixed where
  negative : Bool
  mantissa : Nat
  scale : Nat
deriving DecidableEq, Repr

namespace Fixed

def capacity : Nat := Nat.pow 2 96

def maxScale : Nat := 28

/-- The quotient, rounded to nearest, a half going to the even neighbour. -/
def divHalfEven (n d : Nat) : Nat :=
  let q := n / d
  let twice := 2 * (n % d)
  if twice > d ∨ (twice = d ∧ q % 2 = 1) then q + 1 else q

/-- The quotient, rounded to nearest, a half going up. -/
def divHalfUp (n d : Nat) : Nat := (2 * n + d) / (2 * d)

/-! ## Reading -/

/-- The characters that may stand where digits do not count any more. -/
def isFiller (c : Char) : Bool := Literal.isDigit c || c == '_'

/-- A number with all the digits it has room for. The next digit only rounds it, and nothing but
digits may follow. -/
def rounded (negative : Bool) (mantissa scale digit : Nat) (rest : List Char) : Option Fixed :=
  if !rest.all isFiller then none
  else if digit < 5 then some ⟨negative, mantissa, scale⟩
  else if mantissa + 1 < capacity then some ⟨negative, mantissa + 1, scale⟩
  else if scale = 0 then none
  else some ⟨negative, (mantissa + 5) / 10, scale - 1⟩

/-- Digits after the point. An underscore between them is passed over, but behind the last place
it counts as a zero. -/
def readFraction (negative : Bool) (seen : Bool) (mantissa scale : Nat) :
    List Char → Option Fixed
  | [] => if seen then some ⟨negative, mantissa, scale⟩ else none
  | c :: cs =>
    if scale = maxScale then
      if Literal.isDigit c then rounded negative mantissa scale (Literal.digitValue c) cs
      else if c = '_' then rounded negative mantissa scale 0 cs
      else none
    else if Literal.isDigit c then
      let next := 10 * mantissa + Literal.digitValue c
      if next < capacity then readFraction negative true next (scale + 1) cs
      else rounded negative mantissa scale (Literal.digitValue c) cs
    else if c = '_' ∧ seen then readFraction negative seen mantissa scale cs
    else none

/-- Digits before the point. -/
def readWhole (negative : Bool) (seen : Bool) (mantissa : Nat) : List Char → Option Fixed
  | [] => if seen then some ⟨negative, mantissa, 0⟩ else none
  | c :: cs =>
    if Literal.isDigit c then
      let next := 10 * mantissa + Literal.digitValue c
      if next < capacity then readWhole negative true next cs else none
    else if c = '.' then readFraction negative seen mantissa 0 cs
    else if c = '_' ∧ seen then readWhole negative seen mantissa cs
    else none

/-- A number without exponent; underscores may stand after the first digit. -/
def readPlain (cs : List Char) : Option Fixed :=
  let (negative, cs) := Literal.splitSign cs
  readWhole negative false 0 cs

/-- Multiplies by `10^k`. -/
def shiftUp (x : Fixed) (k : Nat) : Option Fixed :=
  if k ≤ x.scale then some { x with scale := x.scale - k }
  else if k > maxScale then none
  else
    let mantissa := x.mantissa * Nat.pow 10 (k - x.scale)
    if mantissa < capacity then some ⟨x.negative, mantissa, 0⟩ else none

/-- Divides by `10^k`, rounding to the places there are. -/
def shiftDown (x : Fixed) (k : Nat) : Option Fixed :=
  if k > maxScale then none
  else if x.scale + k ≤ maxScale then some { x with scale := x.scale + k }
  else
    let dropped := x.scale + k - maxScale
    some ⟨x.negative, divHalfUp x.mantissa (Nat.pow 10 dropped), maxScale⟩

/-- The number of an exponent: digits after an optional plus sign. -/
def readExponent (cs : List Char) : Option Nat :=
  let digits := match cs with
    | '+' :: cs => cs
    | cs => cs
  if Literal.allDigits digits then some (Literal.natOfDigits digits) else none

/-- A number with an exponent, split at the first `e`. -/
def readScientific (cs : List Char) : Option Fixed := do
  let isMark (c : Char) : Bool := c == 'e' || c == 'E'
  let base := cs.takeWhile (!isMark ·)
  match cs.dropWhile (!isMark ·) with
  | [] => none
  | _ :: exponent =>
    let x ← readPlain base
    match exponent with
    | '-' :: exponent => x.shiftDown (← readExponent exponent)
    | exponent => x.shiftUp (← readExponent exponent)

def parse? (cs : List Char) : Option Fixed := readPlain cs <|> readScientific cs

/-! ## Arithmetic -/

/-- Cuts a mantissa to size by dropping digits, as few as possible and no more than there are after
the point. -/
def fit (negative : Bool) (mantissa scale : Nat) : Option Fixed :=
  (List.range (scale + 1)).findSome? fun dropped =>
    let cut := divHalfEven mantissa (Nat.pow 10 dropped)
    if cut < capacity then some ⟨negative, cut, scale - dropped⟩ else none

/-- The signed mantissa at a scale that is no smaller. -/
def signedAt (x : Fixed) (scale : Nat) : Int :=
  let mantissa := x.mantissa * Nat.pow 10 (scale - x.scale)
  if x.negative then -mantissa else mantissa

def sub (x y : Fixed) : Option Fixed :=
  if y.mantissa = 0 then some x
  else if x.mantissa = 0 then some { y with negative := !y.negative }
  else
    let scale := max x.scale y.scale
    let difference := x.signedAt scale - y.signedAt scale
    fit (difference < 0) difference.natAbs scale

/-- How many digits a quotient is extended by at once: up to nine, as far as there are places for
them and room in the mantissa. -/
def stride (quotient scale : Nat) : Nat :=
  let fits (k : Nat) : Bool := quotient * Nat.pow 10 k < capacity
  ((List.range (min 9 (maxScale - scale) + 1)).reverse.find? fits).getD 0

/-- A quotient with its remainder, extended stride by stride until it is exact or no digit more
can be had. The last stride may turn out one digit too long; that digit rounds the others. -/
def extend (divisor : Nat) : (strides quotient remainder scale : Nat) → Nat × Nat
  | 0, quotient, _, scale => (quotient, scale)
  | strides + 1, quotient, remainder, scale =>
    if remainder = 0 then (quotient, scale)
    else
      let k := stride quotient scale
      if k = 0 then
        let nearest := divHalfEven (quotient * divisor + remainder) divisor
        if nearest < capacity then (nearest, scale) else (divHalfEven nearest 10, scale - 1)
      else
        let dividend := (quotient * divisor + remainder) * Nat.pow 10 k
        if dividend / divisor < capacity then
          extend divisor strides (dividend / divisor) (dividend % divisor) (scale + k)
        else (divHalfEven dividend (10 * divisor), scale + k - 1)

/-- Removes `count` zeros from the end of the places after the point, if there are so many. -/
def dropZeros (count mantissa scale : Nat) : Option (Nat × Nat) :=
  if count ≤ scale ∧ mantissa % Nat.pow 10 count = 0 then
    some (mantissa / Nat.pow 10 count, scale - count)
  else none

/-- Removes zeros by the eight, while the mantissa is a multiple of `2^32`. -/
def stripEights : (times mantissa scale : Nat) → Nat × Nat
  | 0, mantissa, scale => (mantissa, scale)
  | times + 1, mantissa, scale =>
    match if mantissa % Nat.pow 2 32 = 0 then dropZeros 8 mantissa scale else none with
    | some (mantissa, scale) => stripEights times mantissa scale
    | none => (mantissa, scale)

/-- Removes zeros from the end of the places, but not always all of them: once a block of eight is
left standing, four, two and one of them are removed. -/
def strip (mantissa scale : Nat) : Nat × Nat :=
  [4, 2, 1].foldl (fun (mantissa, scale) count =>
    (dropZeros count mantissa scale).getD (mantissa, scale)) (stripEights scale mantissa scale)

def divNat (x : Fixed) (n : Nat) : Option Fixed :=
  if n = 0 then none
  else if x.mantissa = 0 then some ⟨false, 0, 0⟩
  else if x.mantissa % n = 0 then some { x with mantissa := x.mantissa / n }
  else
    let (quotient, scale) := extend n (maxScale + 1) (x.mantissa / n) (x.mantissa % n) x.scale
    let (mantissa, scale) := strip quotient scale
    some ⟨x.negative, mantissa, scale⟩

/-! ## Conversion -/

/-- A power by repeated squaring, in floats. -/
def floatPower (x : Float) (n : Nat) : Float :=
  go x 1.0 n
where
  go (x r : Float) (n : Nat) : Float :=
    let r := if n % 2 = 1 then r * x else r
    if n / 2 = 0 then r else go (x * x) r (n / 2)
  termination_by n

def nearestFloat (n : Nat) : Float := Float.ofScientific n false 0

/-- The whole part and the fraction are converted apart, and their sum is rounded to the places of
the decimal. -/
def toFloat (x : Fixed) : Float :=
  let unit := Nat.pow 10 x.scale
  let magnitude :=
    if x.scale = 0 then nearestFloat x.mantissa
    else
      let fraction := nearestFloat (x.mantissa % unit) / nearestFloat unit
      let whole := nearestFloat (x.mantissa / unit)
      if x.mantissa % unit = 0 then whole
      else
        let t := floatPower 10.0 x.scale
        ((whole + fraction) * t).round / t
  if x.negative && x.mantissa != 0 then -magnitude else magnitude

end Fixed

/-- The start of an integral range and the width of one of its partitions. -/
def partition? (lower upper : Fixed) (partitions : Nat) : Option (Float × Float) := do
  let range ← upper.sub lower
  let width ← range.divNat partitions
  return (lower.toFloat, width.toFloat)

end Formulary.Decimal
