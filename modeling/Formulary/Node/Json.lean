import Formulary.Json
import Formulary.Node

/-!
# Nodes as JSON

A choice is an object with one key, a record an object of its fields, a missing limit null. A
reader takes records as arrays of their fields too, and choices without content as plain strings.
It enters only so many arrays and objects, one inside the other.
-/

namespace Formulary

namespace Json

/-- A value of a choice, with its content. -/
def choice (name : String) (content : Json) : Json := obj [(name, content)]

/-- How many arrays and objects may be nested. -/
def maxDepth : Nat := 127

/-- The fields of a record by name; other fields are passed over, repeated ones refused. -/
def collect (names : List String) :
    List (Option String × Json) → Option (List (String × Json))
  | [] => some []
  | (none, _) :: _ => none
  | (some key, value) :: rest => do
    let fields ← collect names rest
    if names.contains key then
      if (fields.lookup key).isSome then none else return (key, value) :: fields
    else return fields

/-- The fields of a record, in either form. -/
def fields? (names : List String) : Json → Option (List (String × Json))
  | object members => collect names members
  | array items => if items.length = names.length then some (names.zip items) else none
  | _ => none

/-- The name of a choice without content. -/
def bare? (depth : Nat) : Json → Option String
  | string text => text
  | object [(key, null)] => if depth = 0 then none else key
  | _ => none

end Json

namespace OperatorName

def key : OperatorName → String
  | sum => "Sum"
  | integral => "Integral"
  | sin => "Sin"
  | cos => "Cos"
  | tan => "Tan"

def ofKey? : String → Option OperatorName
  | "Sum" => some sum
  | "Integral" => some integral
  | "Sin" => some sin
  | "Cos" => some cos
  | "Tan" => some tan
  | _ => none

theorem ofKey?_key (name : OperatorName) : ofKey? name.key = some name := by
  cases name <;> rfl

end OperatorName

namespace Node

mutual

def toJson : Node → Json
  | literal text => .choice "Literal" (.obj [("text", .str text)])
  | var name => .choice "Variable" (.obj [("name", .str name)])
  | atom symbol => .choice "Atom" (.obj [("symbol", .str symbol)])
  | power base exponent =>
      .choice "Power"
        (.obj [("base", base.toJson), ("superscript", .choice "Exponent" exponent.toJson)])
  | angle base =>
      .choice "Power" (.obj [("base", base.toJson), ("superscript", .str "Angle")])
  | prime base =>
      .choice "Power" (.obj [("base", base.toJson), ("superscript", .str "Prime")])
  | fraction numerator denominator =>
      .choice "Fraction"
        (.obj [("numerator", .array (toJsonAll numerator)),
          ("denominator", .array (toJsonAll denominator))])
  | root body => .choice "Root" (.obj [("body", .array (toJsonAll body))])
  | group body => .choice "Group" (.obj [("body", .array (toJsonAll body))])
  | named name lower upper =>
      .choice "NamedOperator"
        (.obj [("name", .str name.key), ("subscript", limitToJson lower),
          ("superscript", limitToJson upper)])

def toJsonAll : List Node → List Json
  | [] => []
  | node :: rest => node.toJson :: toJsonAll rest

def limitToJson : Option (List Node) → Json
  | none => .null
  | some nodes => .array (toJsonAll nodes)

end

mutual

/-- A node that is nested no deeper than `depth` arrays and objects. -/
def ofJson? : (depth : Nat) → Json → Option Node
  | depth + 2, .object [(some choice, content)] =>
    match choice with
    | "Literal" => do
      let fields ← content.fields? ["text"]
      return literal (← (← fields.lookup "text").text?)
    | "Variable" => do
      let fields ← content.fields? ["name"]
      return var (← (← fields.lookup "name").text?)
    | "Atom" => do
      let fields ← content.fields? ["symbol"]
      return atom (← (← fields.lookup "symbol").text?)
    | "Power" => do
      let fields ← content.fields? ["base", "superscript"]
      let base ← ofJson? depth (← fields.lookup "base")
      ofSuperscript? depth base (← fields.lookup "superscript")
    | "Fraction" => do
      let fields ← content.fields? ["numerator", "denominator"]
      let numerator ← ofItems? depth (← fields.lookup "numerator")
      let denominator ← ofItems? depth (← fields.lookup "denominator")
      return fraction numerator denominator
    | "Root" => do
      let fields ← content.fields? ["body"]
      return root (← ofItems? depth (← fields.lookup "body"))
    | "Group" => do
      let fields ← content.fields? ["body"]
      return group (← ofItems? depth (← fields.lookup "body"))
    | "NamedOperator" => do
      let fields ← content.fields? ["name", "subscript", "superscript"]
      let key ← (← fields.lookup "name").bare? depth
      let name ← OperatorName.ofKey? key
      let lower ← ofLimit? depth (fields.lookup "subscript")
      let upper ← ofLimit? depth (fields.lookup "superscript")
      return named name lower upper
    | _ => none
  | _, _ => none

/-- A base with what stands above it. -/
def ofSuperscript? : (depth : Nat) → Node → Json → Option Node
  | depth + 1, base, .object [(some "Exponent", exponent)] =>
    (ofJson? depth exponent).map (power base)
  | depth, base, superscript =>
    match superscript.bare? depth with
    | some "Angle" => some (angle base)
    | some "Prime" => some (prime base)
    | _ => none

def ofItems? : (depth : Nat) → Json → Option (List Node)
  | depth + 1, .array items => items.mapM fun item => ofJson? depth item
  | _, _ => none

/-- A limit that may be absent or null. -/
def ofLimit? : (depth : Nat) → Option Json → Option (Option (List Node))
  | _, none => some none
  | _, some .null => some none
  | depth + 1, some (.array items) => (items.mapM fun item => ofJson? depth item).map some
  | _, some _ => none

end

/-- A list of equations. -/
def equationsToJson (equations : List (List Node)) : Json :=
  .array (equations.map fun nodes => .array (toJsonAll nodes))

def equationsOfJson? : Json → Option (List (List Node))
  | .array equations => equations.mapM (ofItems? (Json.maxDepth - 1))
  | _ => none

end Node

end Formulary
