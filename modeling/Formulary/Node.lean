/-!
# Notation trees

An equation is a flat list of nodes: `a + b` is the three siblings `a`, `+` and `b`. Only powers,
fractions, roots, groups and named operators have children. What an atom means is its `Mark`;
every predicate on nodes below is read off the mark or the shape.
-/

namespace Formulary

/-- The operators that are written by name. -/
inductive OperatorName
  | sum
  | integral
  | sin
  | cos
  | tan
deriving DecidableEq, Repr

inductive Node
  /-- A piece of a number, or the bar that opens and closes an absolute value. -/
  | literal (text : String)
  | var (name : String)
  | atom (symbol : String)
  | power (base exponent : Node)
  /-- A base raised to a degree sign. -/
  | angle (base : Node)
  /-- A base followed by a prime, the mark of a derivative. -/
  | prime (base : Node)
  | fraction (numerator denominator : List Node)
  | root (body : List Node)
  /-- Nodes that stand together without parentheses. -/
  | group (body : List Node)
  | named (name : OperatorName) (lower upper : Option (List Node))

/-- What an atom means; the symbols of one mark are interchangeable. -/
inductive Mark
  | opening
  | closing
  | separator
  | equality
  | plus
  | minus
  | plusMinus
  | times
  | division
deriving DecidableEq, Repr

namespace Mark

def ofSymbol? (symbol : String) : Option Mark :=
  match symbol with
  | "(" | "\\left" => some opening
  | ")" | "\\right" => some closing
  | "," => some separator
  | "=" => some equality
  | "+" => some plus
  | "-" => some minus
  | "±" | "\\pm" | "\\plusmn" => some plusMinus
  | "*" | "\\times" | "×" => some times
  | "/" | "\\div" | "÷" => some division
  | _ => none

def isAdditive : Mark → Bool
  | plus | minus | plusMinus => true
  | _ => false

def isArithmetic : Mark → Bool
  | plus | minus | plusMinus | times | division => true
  | _ => false

theorem isArithmetic_of_isAdditive {m : Mark} (h : m.isAdditive = true) :
    m.isArithmetic = true := by
  cases m <;> simp_all [isAdditive, isArithmetic]

end Mark

namespace Node

/-- The bar `|`. -/
def bar : String := "|"

def mark? : Node → Option Mark
  | atom symbol => Mark.ofSymbol? symbol
  | _ => none

def isOpen (n : Node) : Bool := n.mark? == some .opening

def isClose (n : Node) : Bool := n.mark? == some .closing

def isSeparator (n : Node) : Bool := n.mark? == some .separator

def isEquality (n : Node) : Bool := n.mark? == some .equality

def isMinus (n : Node) : Bool := n.mark? == some .minus

def isAdditive (n : Node) : Bool := n.mark?.any Mark.isAdditive

def isArithmetic (n : Node) : Bool := n.mark?.any Mark.isArithmetic

/-- A piece of a number. -/
def isNumeric : Node → Bool
  | literal text => text != bar
  | _ => false

def isBar : Node → Bool
  | literal text => text == bar
  | _ => false

def isSum : Node → Bool
  | named .sum _ _ => true
  | _ => false

/-- Two neighbours are multiplied unless they are pieces of one number, the first heads a sum, the
first opens or the second closes a parenthesis, or one of them is an arithmetic operator or a
separator. -/
def juxtaposed (previous current : Node) : Bool :=
  !(previous.isNumeric && current.isNumeric)
    && !previous.isSum
    && !previous.isOpen
    && !current.isClose
    && !previous.isArithmetic
    && !current.isArithmetic
    && !previous.isSeparator
    && !current.isSeparator

end Node

end Formulary
