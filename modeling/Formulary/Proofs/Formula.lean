import Formulary.Proofs.Readings

/-!
# Formulas

Expression trees as they are written down: how each is spelled as nodes, with parentheses around
operands that bind less than their place asks for, and which expression each stands for once its
two-valued signs are chosen.
-/

namespace Formulary

/-! ## Parts of formulas -/

/-- One symbol for each mark. -/
structure Spelling where
  symbol : Mark → String
  reads : ∀ mark, Mark.ofSymbol? (symbol mark) = some mark

namespace Spelling

variable (S : Spelling)

def atom (mark : Mark) : Node := .atom (S.symbol mark)

@[simp] theorem mark?_atom (mark : Mark) : (S.atom mark).mark? = some mark := S.reads mark

def enclosed (nodes : List Node) : List Node := S.atom .opening :: (nodes ++ [S.atom .closing])

/-- Parentheses where they are needed. -/
def fenced (needed : Bool) (nodes : List Node) : List Node :=
  if needed then S.enclosed nodes else nodes

/-- The symbols of a keyboard, and a plus-minus sign. -/
def standard : Spelling where
  symbol
    | .opening => "("
    | .closing => ")"
    | .separator => ","
    | .equality => "="
    | .plus => "+"
    | .minus => "-"
    | .plusMinus => "±"
    | .times => "*"
    | .division => "/"
  reads := by
    intro mark
    cases mark <;> rfl

end Spelling

/-- A number in pieces. -/
structure Numeral where
  pieces : List String
  value : Float
  pieces_ne_nil : pieces ≠ []
  bar_not_mem : Node.bar ∉ pieces
  reads : Decimal.float? (String.join pieces) = some value

def Numeral.ofLiteral (pieces : List String) (literal : Decimal.Literal)
    (pieces_ne_nil : pieces ≠ []) (bar_not_mem : Node.bar ∉ pieces)
    (h : Decimal.Literal.parse? (String.join pieces).toList = some literal) : Numeral where
  pieces
  value := literal.toFloat
  pieces_ne_nil
  bar_not_mem
  reads := by rw [Decimal.float?, h, Option.map_some]

/-- The limits of a sum with the range they stand for. -/
structure Limits where
  lower : Option (List Node)
  upper : Option (List Node)
  range : SumRange
  reads : SumRange.ofLimits lower upper = .ok range

/-- A trigonometric function under its name. -/
structure Turn where
  name : OperatorName
  function : Function
  reads : name.turning? = some function

inductive Sign
  | plus
  | minus
  | plusMinus

namespace Sign

def mark : Sign → Mark
  | plus => .plus
  | minus => .minus
  | plusMinus => .plusMinus

/-- How many choices the sign leaves. -/
def count : Sign → Nat
  | plus | minus => 0
  | plusMinus => 1

/-- The operator once it is chosen whether a two-valued sign is a minus. -/
def operator (negative : Bool) : Sign → Operator
  | plus => .add
  | minus => .subtract
  | plusMinus => if negative then .subtract else .add

/-- A sign before an operand; a plus leaves nothing. -/
def applied (negative : Bool) (sign : Sign) (e : Expression Float) : Expression Float :=
  if sign.operator negative = .subtract then .negate e else e

def instruction : Sign → Instruction
  | plus => .append (.operator .add)
  | minus => .append (.operator .subtract)
  | plusMinus => .choose [.operator .add, .operator .subtract]

end Sign

/-- How two factors are put together. -/
inductive Join
  | times
  | division
  | juxtaposition
deriving DecidableEq

namespace Join

def nodes (S : Spelling) : Join → List Node
  | times => [S.atom .times]
  | division => [S.atom .division]
  | juxtaposition => []

def operator : Join → Operator
  | times | juxtaposition => .multiply
  | division => .divide

/-- A factor that follows without a sign has no sign of its own. -/
def level : Join → Nat
  | times | division => 2
  | juxtaposition => 3

end Join

inductive Formula
  | number (numeral : Numeral)
  | var (name : String)
  | parens (body : Formula)
  | fraction (numerator denominator : Formula)
  | root (body : Formula)
  /-- The base and the exponent stand in groups where that is asked for or has to be. -/
  | power (groupedBase groupedExponent : Bool) (base exponent : Formula)
  | absolute (body : Formula)
  | sum (limits : Limits) (body : Formula)
  | turned (turn : Turn) (body : Formula)
  | signed (sign : Sign) (body : Formula)
  | joined (join : Join) (left right : Formula)
  | added (sign : Sign) (left right : Formula)

namespace Formula

/-- How tightly a formula binds: sums, products, signed operands and all else. -/
def level : Formula → Nat
  | added .. => 0
  | joined .. => 1
  | signed .. => 2
  | _ => 3

/-- A base or an exponent: a literal or a variable may stand for itself. -/
def part (grouped : Bool) (nodes : List Node) : Node :=
  match grouped, nodes with
  | false, [.literal text] => .literal text
  | false, [.var name] => .var name
  | _, nodes => .group nodes

/-- The formula as it is written. -/
def nodes (S : Spelling) : Formula → List Node
  | number numeral => numeral.pieces.map .literal
  | var name => [.var name]
  | parens body => S.enclosed (body.nodes S)
  | fraction numerator denominator => [.fraction (numerator.nodes S) (denominator.nodes S)]
  | root body => [.root (body.nodes S)]
  | power groupedBase groupedExponent base exponent =>
    [.power (part groupedBase (base.nodes S)) (part groupedExponent (exponent.nodes S))]
  | absolute body => .literal Node.bar :: (body.nodes S ++ [.literal Node.bar])
  | sum limits body => .named .sum limits.lower limits.upper :: S.enclosed (body.nodes S)
  | turned turn body => .named turn.name none none :: S.enclosed (body.nodes S)
  | signed sign body => S.atom sign.mark :: S.fenced (body.level < 2) (body.nodes S)
  | joined join left right =>
    S.fenced (left.level < 1) (left.nodes S) ++
      (join.nodes S ++ S.fenced (right.level < join.level) (right.nodes S))
  | added sign left right =>
    left.nodes S ++ S.atom sign.mark :: S.fenced (right.level < 1) (right.nodes S)

/-- The formula where an operand that binds as tightly as `place` is asked for. -/
def nodesAt (S : Spelling) (place : Nat) (e : Formula) : List Node :=
  S.fenced (e.level < place) (e.nodes S)

/-- Bars hold no bar among their nodes, and no two numbers stand side by side. -/
def Proper (S : Spelling) : Formula → Prop
  | number _ | var _ => True
  | parens body | root body | sum _ body | turned _ body | signed _ body => body.Proper S
  | fraction left right | power _ _ left right | added _ left right =>
    left.Proper S ∧ right.Proper S
  | absolute body => body.Proper S ∧ ∀ n ∈ body.nodes S, n.isBar = false
  | joined join left right =>
    left.Proper S ∧ right.Proper S ∧ (join = .juxtaposition →
      ¬((left.nodesAt S 1).getLast?.any Node.isNumeric = true ∧
        (right.nodesAt S 3).head?.any Node.isNumeric = true))

/-- The two-valued signs. -/
def signs : Formula → Nat
  | number _ | var _ => 0
  | parens body | root body | absolute body | sum _ body | turned _ body => body.signs
  | fraction left right | power _ _ left right | joined _ left right => left.signs + right.signs
  | signed sign body => sign.count + body.signs
  | added sign left right => left.signs + sign.count + right.signs

/-- The expression when two-valued sign `j + i`, counted from the left, is a minus if `σ (j + i)`
says so. -/
def tree (σ : Nat → Bool) (j : Nat) : Formula → Expression Float
  | number numeral => .number numeral.value
  | var name => .var name
  | parens body => body.tree σ j
  | fraction numerator denominator =>
    .binary .divide (numerator.tree σ j) (denominator.tree σ (j + numerator.signs))
  | root body => .call .squareRoot [body.tree σ j]
  | power _ _ base exponent =>
    .call .power [base.tree σ j, exponent.tree σ (j + base.signs)]
  | absolute body => .call .absolute [body.tree σ j]
  | sum limits body =>
    .sum limits.range.index limits.range.lower limits.range.upper (body.tree σ j)
  | turned turn body => .call turn.function [body.tree σ j]
  | signed sign body => sign.applied (σ j) (body.tree σ (j + sign.count))
  | joined join left right =>
    .binary join.operator (left.tree σ j) (right.tree σ (j + left.signs))
  | added sign left right =>
    .binary (sign.operator (σ (j + left.signs))) (left.tree σ j)
      (right.tree σ (j + left.signs + sign.count))

end Formula

/-! ## Instructions of formulas -/

def Instruction.enclosing (opening : Fragment) (body : List Instruction) : List Instruction :=
  .append opening :: (body ++ [.append .close])

def Instruction.fenced (needed : Bool) (body : List Instruction) : List Instruction :=
  if needed then enclosing .openParen body else body

open Instruction in
/-- What the walk over a formula appends and chooses. -/
def Formula.instructions : Formula → List Instruction
  | number numeral => numeral.pieces.map fun text => .append (.number text)
  | var name => [.append (.var name)]
  | parens body => enclosing .openParen body.instructions
  | fraction numerator denominator =>
    enclosing .openParen (enclosing .openParen numerator.instructions ++
      .append (.operator .divide) :: enclosing .openParen denominator.instructions)
  | root body => enclosing (.call .squareRoot) body.instructions
  | power _ _ base exponent =>
    enclosing (.call .power) (base.instructions ++ .append .separator :: exponent.instructions)
  | absolute body => enclosing (.call .absolute) body.instructions
  | sum limits body =>
    enclosing (.sum limits.range.index limits.range.lower limits.range.upper)
      (enclosing .openParen body.instructions)
  | turned turn body =>
    enclosing (.call turn.function) (enclosing .openParen body.instructions)
  | signed sign body => sign.instruction :: fenced (body.level < 2) body.instructions
  | joined join left right =>
    fenced (left.level < 1) left.instructions ++
      .append (.operator join.operator) :: fenced (right.level < join.level) right.instructions
  | added sign left right =>
    left.instructions ++ sign.instruction :: fenced (right.level < 1) right.instructions

end Formulary
