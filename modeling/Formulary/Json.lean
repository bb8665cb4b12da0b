/-!
# JSON values

A value keeps what its text says: numbers as they were written, the members of an object in order
and with repetitions.
-/

namespace Formulary

inductive Json
  | null
  | bool (value : Bool)
  | number (text : String)
  /-- No text stands for a string with half a surrogate pair in it. -/
  | string (text : Option String)
  | array (items : List Json)
  | object (members : List (Option String × Json))

namespace Json

def str (text : String) : Json := string (some text)

def nat (n : Nat) : Json := number (toString n)

def obj (members : List (String × Json)) : Json :=
  object (members.map fun (key, value) => (some key, value))

def strings (items : List String) : Json := array (items.map str)

/-- A text, or null. -/
def optional (text : Option String) : Json := text.elim null str

/-- The last member with the key. -/
def field? (key : String) : Json → Option Json
  | object members => members.reverse.lookup (some key)
  | _ => none

/-- A member that is there and not null. -/
def present? (key : String) (j : Json) : Option Json :=
  match j.field? key with
  | some null => none
  | field => field

def text? : Json → Option String
  | string text => text
  | _ => none

def items? : Json → Option (List Json)
  | array items => some items
  | _ => none

def bool? : Json → Option Bool
  | bool value => some value
  | _ => none

/-! ## Printing -/

def escaped (c : Char) : List Char :=
  if c = '"' ∨ c = '\\' then ['\\', c]
  else if c.toNat < 0x20 then
    let hex := Nat.toDigits 16 c.toNat
    '\\' :: 'u' :: List.replicate (4 - hex.length) '0' ++ hex
  else [c]

def quoted (text : String) : String :=
  String.ofList ('"' :: text.toList.flatMap escaped ++ ['"'])

mutual

/-- The text of a value, without blanks. -/
def compact : Json → String
  | null => "null"
  | bool true => "true"
  | bool false => "false"
  | number text => text
  | string text => quoted (text.getD "")
  | array items => "[" ++ compactItems items ++ "]"
  | object members => "\x7b" ++ compactMembers members ++ "\x7d"

def compactItems : List Json → String
  | [] => ""
  | [item] => item.compact
  | item :: next :: rest => item.compact ++ "," ++ compactItems (next :: rest)

def compactMembers : List (Option String × Json) → String
  | [] => ""
  | [(key, value)] => quoted (key.getD "") ++ ":" ++ value.compact
  | (key, value) :: next :: rest =>
      quoted (key.getD "") ++ ":" ++ value.compact ++ "," ++ compactMembers (next :: rest)

end

end Json

end Formulary
