import Formulary.Json.Reader
import Formulary.Node.Json
import Formulary.Node.Ron
import Formulary.Ron.Reader

/-!
# Sources

A source holds a list of equations, each a list of nodes, in one of two formats. The format of a
file follows from its extension.
-/

namespace Formulary

inductive Format
  | ron
  | json
deriving DecidableEq, Repr

inductive LoadError
  | unreadable
  | ron
  | json
deriving DecidableEq, Repr

def LoadError.message : LoadError → String
  | unreadable => "the file cannot be read"
  | ron => "this is not the RON form of what is expected"
  | json => "this is not the JSON form of what is expected"

namespace Format

/-- The last part of a path; separators and dots that name the same place are passed over. -/
def lastPart (path : List Char) : List Char :=
  let parts := path.splitOn '/'
  ((parts.filter fun part => part ≠ [] ∧ part ≠ ['.']).getLast?).getD []

/-- What follows the last point, unless the point is the first character. -/
def extension? (name : List Char) : Option (List Char) :=
  let reversed := name.reverse
  match reversed.dropWhile (· ≠ '.') with
  | [] => none
  | [_] => none
  | _ :: _ => some (reversed.takeWhile (· ≠ '.')).reverse

/-- The extension `json`, in any case, means JSON. -/
def ofPath (path : String) : Format :=
  match extension? (lastPart path.toList) with
  | some extension => if extension.map Char.toLower = "json".toList then json else ron
  | none => ron

end Format

/-- The equations of a source. -/
def load (source : String) : Format → Except LoadError (List (List Node))
  | .json =>
    match (Json.parse? source).bind Node.equationsOfJson? with
    | some equations => .ok equations
    | none => .error .json
  | .ron =>
    match (Ron.parse? source).bind fun (extensions, r) => Node.equationsOfRon? extensions r with
    | some equations => .ok equations
    | none => .error .ron

end Formulary
