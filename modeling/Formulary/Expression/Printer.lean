import Formulary.Expression
import Formulary.Fragment.Printer

/-!
# Written expressions

Every operation is written in full, with the operators in parentheses.
-/

namespace Formulary.Expression

mutual

def text : Expression Float → String
  | number value => Decimal.Layout.plain.write value
  | var name => name
  | negate operand => "-" ++ operand.text
  | binary operator left right =>
      "(" ++ left.text ++ " " ++ operator.symbol ++ " " ++ right.text ++ ")"
  | call function arguments => function.name ++ "(" ++ textAll arguments ++ ")"
  | sum index lower upper body =>
      "sum(" ++ Fragment.rangeText index lower upper ++ ", " ++ body.text ++ ")"
  | integral name start width partitions rule body =>
      "integral(" ++ Fragment.partitionText name start width partitions ++ ", " ++
        rule.description ++ ", " ++ body.text ++ ")"
  | reference external branch => Fragment.placeText external branch
  | apply external branch arguments =>
      Fragment.placeText external branch ++ "(" ++ textAll arguments ++ ")"
  | derivative external branch _ arguments =>
      Fragment.placeText external branch ++ "'(" ++ textAll arguments ++ ")"

/-- Arguments are separated by a comma and a space. -/
def textAll : List (Expression Float) → String
  | [] => ""
  | [e] => e.text
  | e :: next :: rest => e.text ++ ", " ++ textAll (next :: rest)

end

end Formulary.Expression
