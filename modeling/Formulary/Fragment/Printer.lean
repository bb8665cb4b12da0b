import Formulary.Decimal.Layout
import Formulary.Fragment

/-!
# Written fragments

How code is quoted in messages. A fragment that opens a part ends in its parenthesis.
-/

namespace Formulary

def Bound.text : Bound Float → String
  | .number value => Decimal.Layout.plain.write value
  | .var name => name

namespace Fragment

/-- The place of one branch of an external equation. -/
def placeText (external branch : Nat) : String :=
  "external[" ++ toString external ++ "][" ++ toString branch ++ "]"

/-- The range of a sum. -/
def rangeText (index : String) (lower upper : Bound Float) : String :=
  index ++ " = " ++ lower.text ++ "..=" ++ upper.text

/-- The partitions of an integral. -/
def partitionText (name : String) (start width : Float) (partitions : Nat) : String :=
  name ++ " = " ++ Decimal.Layout.plain.write start ++ " + " ++ toString partitions ++ " * " ++
    Decimal.Layout.plain.write width

def text : Fragment → String
  | number text => text
  | var name => name
  | operator o => o.symbol
  | openParen => "("
  | close => ")"
  | separator => ","
  | call f => f.name ++ "("
  | sum index lower upper => "sum(" ++ rangeText index lower upper ++ ", "
  | integral name start width partitions _ =>
      "integral(" ++ partitionText name start width partitions ++ ", "
  | reference external branch => placeText external branch
  | apply external branch => placeText external branch ++ "("
  | derivative external branch _ => placeText external branch ++ "'("

def textAll (code : List Fragment) : String := " ".intercalate (code.map text)

end Fragment

end Formulary
