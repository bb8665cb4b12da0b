import Formulary.Decimal.Shortest

/-!
# Written numbers

A float is written with its shortest digits. A `Layout` says when the point is placed among them
and when an exponent is written.
-/

namespace Formulary.Decimal

/-- A float apart into what is written of it. -/
inductive Written
  | nan
  | infinite (negative : Bool)
  | zero (negative : Bool)
  | finite (negative : Bool) (digits : Digits)

namespace Written

def ofBits (bits : Nat) : Written :=
  let negative := bits.testBit 63
  let exponent : Nat := bits / Nat.pow 2 52 % Nat.pow 2 11
  let fraction : Nat := bits % Nat.pow 2 52
  if exponent = 2047 then
    if fraction = 0 then infinite negative else nan
  else if exponent = 0 then
    if fraction = 0 then zero negative else finite negative (shortest fraction (-1074))
  else
    finite negative (shortest (Nat.pow 2 52 + fraction) ((exponent : Int) - 1075))

def ofFloat (x : Float) : Written := ofBits x.toBits.toNat

end Written

/-- How the digits of a number are set. -/
structure Layout where
  /-- Whether a number whose first digit counts `10^e` is written without exponent. -/
  positional : Int → Bool
  /-- Whether a whole number without exponent ends in `.0`. -/
  fraction : Bool

namespace Layout

/-- Never an exponent and no needless point: `3`, `0.0000001`. -/
def plain : Layout := ⟨fun _ => true, false⟩

/-- A point in every number without exponent, an exponent below `10^-4` and from `10^16` on:
`3.0`, `1e-7`. -/
def value : Layout := ⟨fun e => -4 ≤ e && e < 16, true⟩

/-- Always an exponent: `3e0`, `1e-7`. -/
def scientific : Layout := ⟨fun _ => false, false⟩

/-- The point stands after the first `before` digits, with zeros filled in where it lies outside
of them. -/
def pointed (fraction : Bool) (digits : List Char) (before : Int) : List Char :=
  if before ≤ 0 then '0' :: '.' :: List.replicate (-before).toNat '0' ++ digits
  else if before.toNat < digits.length then
    digits.take before.toNat ++ '.' :: digits.drop before.toNat
  else
    digits ++ List.replicate (before.toNat - digits.length) '0' ++
      if fraction then ['.', '0'] else []

/-- One digit before the point, then the exponent. -/
def exponential (digits : List Char) (e : Int) : List Char :=
  let mantissa := match digits with
    | first :: next :: rest => first :: '.' :: next :: rest
    | digits => digits
  let exponent := if e < 0 then '-' :: Nat.toDigits 10 e.natAbs else Nat.toDigits 10 e.natAbs
  mantissa ++ 'e' :: exponent

def setDigits (layout : Layout) (digits : List Char) (e : Int) : List Char :=
  if layout.positional e then pointed layout.fraction digits (e + 1) else exponential digits e

def sign (negative : Bool) : List Char := if negative then ['-'] else []

def set (layout : Layout) : Written → List Char
  | .nan => ['N', 'a', 'N']
  | .infinite negative => sign negative ++ ['i', 'n', 'f']
  | .zero negative => sign negative ++ layout.setDigits ['0'] 0
  | .finite negative d =>
    let digits := Nat.toDigits 10 d.digits
    sign negative ++ layout.setDigits digits (d.exponent + digits.length - 1)

def write (layout : Layout) (x : Float) : String := String.ofList (layout.set (.ofFloat x))

end Layout

end Formulary.Decimal
