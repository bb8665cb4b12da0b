/-!
# RON values

The object notation of equation files, as far as it can be read without knowing what a value is
for: a record is a list of fields in parentheses, a tuple a list of values in parentheses, and both
may have a name in front. `None` and `Some` are no names but say whether there is a value.
-/

namespace Formulary

inductive Ron
  /-- A name that stands alone. -/
  | word (name : String)
  | number (text : String)
  | string (text : String)
  | char (c : Char)
  | absent
  | present (value : Ron)
  | list (items : List Ron)
  | map (entries : List (Ron × Ron))
  | record (name : Option String) (fields : List (String × Ron))
  | tuple (name : Option String) (items : List Ron)

namespace Ron

/-- The liberties that a document may take, switched on at its head. -/
structure Extensions where
  /-- A value may stand for `Some` of it. -/
  implicitSome : Bool := false
  /-- The record in a choice may share the parentheses of the choice. -/
  unwrapVariants : Bool := false
deriving DecidableEq, Repr

mutual

/-- How deep a value is nested: a collection is one step and each thing in it one more. -/
def nesting : Ron → Nat
  | present value => value.nesting + 1
  | list items => nestingOfItems items + 1
  | map entries => nestingOfEntries entries + 1
  | record _ fields => nestingOfFields fields + 1
  | tuple none [] => 0
  | tuple _ items => nestingOfItems items + 1
  | _ => 0

def nestingOfItems : List Ron → Nat
  | [] => 0
  | item :: items => max (item.nesting + 1) (nestingOfItems items)

def nestingOfEntries : List (Ron × Ron) → Nat
  | [] => 0
  | (key, value) :: entries =>
    max (max key.nesting value.nesting + 1) (nestingOfEntries entries)

def nestingOfFields : List (String × Ron) → Nat
  | [] => 0
  | (_, value) :: fields => max (value.nesting + 1) (nestingOfFields fields)

end

/-- Fields of a record by name; a repeated one is refused, and so is one with another name whose
value is nested deeper than `depth`. -/
def collect (names : List String) (depth : Nat) :
    List (String × Ron) → Option (List (String × Ron))
  | [] => some []
  | (key, value) :: rest => do
    let fields ← collect names depth rest
    if names.contains key then
      if (fields.lookup key).isSome then none else return (key, value) :: fields
    else if value.nesting ≤ depth then return fields
    else none

/-- The fields among `names` of a record that has no name or the given one. -/
def fields? (name : String) (names : List String) (depth : Nat) :
    Ron → Option (List (String × Ron))
  | record own fields => if own.all (· == name) then collect names depth fields else none
  | tuple own [] => if own.all (· == name) then some [] else none
  | _ => none

def text? : Ron → Option String
  | string text => text
  | _ => none

end Ron

end Formulary
