/-!
# Decimal literals

Reads a float: an optional sign, then `inf`, `infinity` or `nan` in any case, or digits with at
most one point and an optional exponent. The value is the nearest float.
-/

namespace Formulary.Decimal

/-- What a literal says: a number `mantissa · 10^exponent` with a sign, or a special value. -/
inductive Literal
  | nan
  | infinite (negative : Bool)
  | finite (negative : Bool) (mantissa : Nat) (exponent : Int)
deriving DecidableEq, Repr

namespace Literal

def isDigit (c : Char) : Bool := '0' ≤ c && c ≤ '9'

def digitValue (c : Char) : Nat := c.toNat - '0'.toNat

def natOfDigits (digits : List Char) : Nat :=
  digits.foldl (fun n c => 10 * n + digitValue c) 0

/-- Nonempty, and digits only. -/
def allDigits (cs : List Char) : Bool := !cs.isEmpty && cs.all isDigit

/-- Takes an optional sign off; true is a minus. -/
def splitSign : List Char → Bool × List Char
  | '-' :: cs => (true, cs)
  | '+' :: cs => (false, cs)
  | cs => (false, cs)

def exponent? (cs : List Char) : Option Int :=
  let (negative, digits) := splitSign cs
  if allDigits digits then
    let n : Int := natOfDigits digits
    some (if negative then -n else n)
  else none

/-- The part after the digits: nothing, or an exponent. -/
def tail? : List Char → Option Int
  | [] => some 0
  | c :: cs => if c = 'e' ∨ c = 'E' then exponent? cs else none

def number? (negative : Bool) (cs : List Char) : Option Literal :=
  let whole := cs.takeWhile isDigit
  let rest := cs.dropWhile isDigit
  let (fraction, rest) := match rest with
    | '.' :: rest => (rest.takeWhile isDigit, rest.dropWhile isDigit)
    | rest => ([], rest)
  if whole.isEmpty && fraction.isEmpty then none
  else (tail? rest).map fun e =>
    finite negative (natOfDigits (whole ++ fraction)) (e - fraction.length)

def parse? (cs : List Char) : Option Literal :=
  let (negative, cs) := splitSign cs
  match String.ofList (cs.map Char.toLower) with
  | "inf" | "infinity" => some (infinite negative)
  | "nan" => some nan
  | _ => number? negative cs

/-- A number far outside the range of floats becomes infinity or zero before its power of ten is
formed. -/
def magnitude (mantissa : Nat) (exponent : Int) : Float :=
  let top := mantissa.log2 * 3 / 10 + exponent
  if mantissa = 0 ∨ top < -1000 then 0.0
  else if top > 400 then 1.0 / 0.0
  else Float.ofScientific mantissa (exponent < 0) exponent.natAbs

def toFloat : Literal → Float
  | nan => 0.0 / 0.0
  | infinite negative => if negative then -1.0 / 0.0 else 1.0 / 0.0
  | finite negative mantissa exponent =>
    let x := magnitude mantissa exponent
    if negative then -x else x

end Literal

/-- The float a text stands for, if it is a literal. -/
def float? (text : String) : Option Float := (Literal.parse? text.toList).map Literal.toFloat

end Formulary.Decimal
