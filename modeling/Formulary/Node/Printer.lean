import Formulary.Node

/-!
# Written notation

A node list is written with one space between siblings; children stand in braces.
-/

namespace Formulary

def OperatorName.text : OperatorName → String
  | sum => "\\sum"
  | integral => "\\int"
  | sin => "\\sin"
  | cos => "\\cos"
  | tan => "\\tan"

namespace Node

def braced (text : String) : String := "\x7b" ++ text ++ "\x7d"

mutual

def text : Node → String
  | literal text => text
  | var name => name
  | atom symbol => symbol
  | power base exponent => base.text ++ "^" ++ braced exponent.text
  | angle base => base.text ++ "^\\circ"
  | prime base => base.text ++ "'"
  | fraction numerator denominator =>
      "\\frac" ++ braced (textAll numerator) ++ braced (textAll denominator)
  | root body => "\\sqrt" ++ braced (textAll body)
  | group body => braced (textAll body)
  | named name lower upper => name.text ++ textLimit "_" lower ++ textLimit "^" upper

def textAll : List Node → String
  | [] => ""
  | [node] => node.text
  | node :: next :: rest => node.text ++ " " ++ textAll (next :: rest)

def textLimit (sign : String) : Option (List Node) → String
  | none => ""
  | some nodes => sign ++ braced (textAll nodes)

end

end Node

end Formulary
