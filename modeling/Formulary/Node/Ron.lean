import Formulary.Node
import Formulary.Ron

/-!
# Nodes as RON

A choice is written `Name(content)`, its content a record, and a limit `None` or `Some(nodes)`. How
deep values may be nested is counted in steps of the reader: a list costs two, a choice with its
record and a field four.
-/

namespace Formulary

namespace OperatorName

def ofWord? : String → Option OperatorName
  | "Sum" => some sum
  | "Integral" => some integral
  | "Sin" => some sin
  | "Cos" => some cos
  | "Tan" => some tan
  | _ => none

end OperatorName

namespace Node

/-- The steps that a document may be nested. -/
def ronDepth : Nat := 128

/-- The fields of the record in a choice, whose values are nested no deeper than `depth`. -/
def contentFields? (extensions : Ron.Extensions) (depth : Nat) (choice : String)
    (names : List String) (content : Ron) : Option (List (String × Ron)) :=
  if extensions.unwrapVariants then content.fields? choice names depth
  else
    match content with
    | .tuple _ [inner] => inner.fields? choice names depth
    | _ => none

/-- The name in front of the parentheses of a choice. -/
def choiceName? : Ron → Option String
  | .record (some name) _ => some name
  | .tuple (some name) _ => some name
  | _ => none

mutual

/-- A node that is nested no deeper than `depth`. -/
def ofRon? (extensions : Ron.Extensions) : (depth : Nat) → Ron → Option Node
  | depth + 4, r => do
    let choice ← choiceName? r
    let fields? (names : List String) := contentFields? extensions depth choice names r
    match choice with
    | "Literal" =>
      let fields ← fields? ["text"]
      return literal (← (← fields.lookup "text").text?)
    | "Variable" =>
      let fields ← fields? ["name"]
      return var (← (← fields.lookup "name").text?)
    | "Atom" =>
      let fields ← fields? ["symbol"]
      return atom (← (← fields.lookup "symbol").text?)
    | "Power" =>
      let fields ← fields? ["base", "superscript"]
      let base ← ofRon? extensions depth (← fields.lookup "base")
      ofRonSuperscript? extensions depth base (← fields.lookup "superscript")
    | "Fraction" =>
      let fields ← fields? ["numerator", "denominator"]
      let numerator ← ofRonItems? extensions depth (← fields.lookup "numerator")
      let denominator ← ofRonItems? extensions depth (← fields.lookup "denominator")
      return fraction numerator denominator
    | "Root" =>
      let fields ← fields? ["body"]
      return root (← ofRonItems? extensions depth (← fields.lookup "body"))
    | "Group" =>
      let fields ← fields? ["body"]
      return group (← ofRonItems? extensions depth (← fields.lookup "body"))
    | "NamedOperator" =>
      let fields ← fields? ["name", "subscript", "superscript"]
      let name ←
        match ← fields.lookup "name" with
        | .word name => OperatorName.ofWord? name
        | _ => none
      let lower ← ofRonLimit? extensions depth (fields.lookup "subscript")
      let upper ← ofRonLimit? extensions depth (fields.lookup "superscript")
      return named name lower upper
    | _ => none
  | _, _ => none

/-- A base with what stands above it. -/
def ofRonSuperscript? (extensions : Ron.Extensions) : (depth : Nat) → Node → Ron → Option Node
  | depth + 2, base, .tuple (some "Exponent") [exponent] =>
    (ofRon? extensions depth exponent).map (power base)
  | _ + 2, base, .word "Angle" => some (angle base)
  | _ + 2, base, .word "Prime" => some (prime base)
  | _, _, _ => none

def ofRonItems? (extensions : Ron.Extensions) : (depth : Nat) → Ron → Option (List Node)
  | depth + 2, .list items => items.mapM fun item => ofRon? extensions depth item
  | 1, .list [] => some []
  | _, _ => none

/-- A limit; one that is left out is none. -/
def ofRonLimit? (extensions : Ron.Extensions) :
    (depth : Nat) → Option Ron → Option (Option (List Node))
  | _, none => some none
  | _, some .absent => some none
  | depth + 1, some (.present items) => (ofRonItems? extensions depth items).map some
  | depth + 1, some items =>
    if extensions.implicitSome then (ofRonItems? extensions depth items).map some else none
  | _, _ => none

end

def equationsOfRon? (extensions : Ron.Extensions) : Ron → Option (List (List Node))
  | .list equations => equations.mapM (ofRonItems? extensions (ronDepth - 2))
  | _ => none

end Node

end Formulary
