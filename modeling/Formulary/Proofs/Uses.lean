import Formulary.Proofs.Grammar

/-!
# Names in an expression

The variables of an expression and its references to earlier equations, from left to right. They are
those of the code the expression is read from.
-/

namespace Formulary

/-- A name where it stands in an expression: a variable, or one branch of an external. -/
inductive Use
  | var (name : String)
  | reference (external branch : Nat)
deriving DecidableEq, Repr

def Fragment.use? : Fragment → Option Use
  | .var name => some (.var name)
  | .reference external branch => some (.reference external branch)
  | _ => none

namespace Expression

mutual

def uses {α : Type} : Expression α → List Use
  | number _ => []
  | var name => [.var name]
  | negate operand => operand.uses
  | binary _ left right => left.uses ++ right.uses
  | call _ arguments => usesAll arguments
  | sum _ _ _ body => body.uses
  | integral _ _ _ _ _ body => body.uses
  | reference external branch => [.reference external branch]
  | apply _ _ arguments => usesAll arguments
  | derivative _ _ _ arguments => usesAll arguments

def usesAll {α : Type} : List (Expression α) → List Use
  | [] => []
  | e :: es => e.uses ++ usesAll es

end

/-- The opening fragment of a body uses nothing itself, nor does its `close`. -/
private theorem filterMap_use_enclosed {opening : Fragment} (hopening : opening.use? = none)
    (code : List Fragment) :
    (opening :: (code ++ [Fragment.close])).filterMap Fragment.use? =
      code.filterMap Fragment.use? := by
  rw [List.filterMap_cons_none hopening, List.filterMap_append]
  exact List.append_nil _

mutual

/-- An expression uses what its code does. -/
theorem IsSum.uses {code : List Fragment} {e : Expression Float} :
    IsSum code e → e.uses = code.filterMap Fragment.use?
  | .product h => h.uses
  | .more hl _ hr => by
    rw [Expression.uses, hl.uses, hr.uses, List.filterMap_append]
    rfl

theorem IsProduct.uses {code : List Fragment} {e : Expression Float} :
    IsProduct code e → e.uses = code.filterMap Fragment.use?
  | .signed h => h.uses
  | .more hl _ hr => by
    rw [Expression.uses, hl.uses, hr.uses, List.filterMap_append]
    rfl

theorem IsSigned.uses {code : List Fragment} {e : Expression Float} :
    IsSigned code e → e.uses = code.filterMap Fragment.use?
  | .operand h => h.uses
  | .plus h => h.uses
  | .minus h => h.uses

theorem IsOperand.uses {code : List Fragment} {e : Expression Float} :
    IsOperand code e → e.uses = code.filterMap Fragment.use?
  | .number _ => rfl
  | .var _ => rfl
  | .parens h => by
    rw [filterMap_use_enclosed rfl, h.uses]
  | .call _ h _ => h.uses
  | .sum _ _ _ h => by
    rw [filterMap_use_enclosed rfl, Expression.uses, h.uses]
  | .integral _ _ _ _ _ h => by
    rw [filterMap_use_enclosed rfl, Expression.uses, h.uses]
  | .reference _ _ => rfl
  | .apply _ _ h => h.uses
  | .derivative _ _ _ h => h.uses

theorem IsArguments.uses {code : List Fragment} {es : List (Expression Float)} :
    IsArguments code es → usesAll es = code.filterMap Fragment.use?
  | .none => rfl
  | .some h => h.uses

theorem IsListed.uses {code : List Fragment} {es : List (Expression Float)} :
    IsListed code es → usesAll es = code.filterMap Fragment.use?
  | .last h => by
    rw [usesAll, usesAll, h.uses, List.filterMap_append]
    rfl
  | .more h hrest => by
    rw [usesAll, h.uses, hrest.uses, List.filterMap_append]
    rfl

end

end Expression

end Formulary
