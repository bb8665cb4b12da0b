import Formulary.Fragment
import Formulary.Node

/-!
# Operator table

What an atom appends to the code. The two-valued sign stands for a choice.
-/

namespace Formulary

inductive Entry
  | single (fragment : Fragment)
  | alternatives (fragments : List Fragment)

namespace Entry

/-- Every mark has an entry but the equality. -/
def ofMark? : Mark → Option Entry
  | .opening => some (single .openParen)
  | .closing => some (single .close)
  | .separator => some (single .separator)
  | .equality => none
  | .plus => some (single (.operator .add))
  | .minus => some (single (.operator .subtract))
  | .plusMinus => some (alternatives [.operator .add, .operator .subtract])
  | .times => some (single (.operator .multiply))
  | .division => some (single (.operator .divide))

def ofSymbol? (symbol : String) : Option Entry := (Mark.ofSymbol? symbol).bind ofMark?

end Entry

end Formulary
