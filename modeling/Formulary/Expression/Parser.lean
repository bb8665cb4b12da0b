import Formulary.CompileError
import Formulary.Decimal.Literal
import Formulary.Expression
import Formulary.Fragment.Printer

/-!
# Reading the code of a branch

A sum of products of signed operands, by recursive descent. Both operator levels associate to the
left. What is left of the code is returned with a proof that it is shorter, which is why the
descent ends.
-/

namespace Formulary.Expression

/-- A result and the code behind it, which is shorter than `code`. -/
abbrev Parsed (β : Type) (code : List Fragment) :=
  Except Flaw (β × { rest : List Fragment // rest.length < code.length })

/-- A result and the code behind it, which is no longer than `code`. -/
abbrev Continued (β : Type) (code : List Fragment) :=
  Except Flaw (β × { rest : List Fragment // rest.length ≤ code.length })

mutual

def readSum (code : List Fragment) : Parsed (Expression Float) code := do
  let (left, ⟨rest, h⟩) ← readProduct code
  let (e, ⟨rest', h'⟩) ← readTerms left rest
  return (e, ⟨rest', by omega⟩)
termination_by 8 * code.length + 3

/-- Further terms of a sum. -/
def readTerms (left : Expression Float) (code : List Fragment) :
    Continued (Expression Float) code :=
  match code with
  | .operator o :: rest =>
    if o.isMultiplicative then return (left, ⟨.operator o :: rest, by simp⟩)
    else do
      let (right, ⟨rest', h⟩) ← readProduct rest
      let (e, ⟨rest'', h'⟩) ← readTerms (.binary o left right) rest'
      return (e, ⟨rest'', by simp; omega⟩)
  | code => return (left, ⟨code, by simp⟩)
termination_by 8 * code.length
decreasing_by all_goals simp; omega

def readProduct (code : List Fragment) : Parsed (Expression Float) code := do
  let (left, ⟨rest, h⟩) ← readSigned code
  let (e, ⟨rest', h'⟩) ← readFactors left rest
  return (e, ⟨rest', by omega⟩)
termination_by 8 * code.length + 2

/-- Further factors of a product. -/
def readFactors (left : Expression Float) (code : List Fragment) :
    Continued (Expression Float) code :=
  match code with
  | .operator o :: rest =>
    if o.isMultiplicative then do
      let (right, ⟨rest', h⟩) ← readSigned rest
      let (e, ⟨rest'', h'⟩) ← readFactors (.binary o left right) rest'
      return (e, ⟨rest'', by simp; omega⟩)
    else return (left, ⟨.operator o :: rest, by simp⟩)
  | code => return (left, ⟨code, by simp⟩)
termination_by 8 * code.length
decreasing_by all_goals simp; omega

/-- An operand after any number of signs. -/
def readSigned (code : List Fragment) : Parsed (Expression Float) code :=
  match code with
  | .operator .add :: rest => do
    let (e, ⟨rest', h⟩) ← readSigned rest
    return (e, ⟨rest', by simp; omega⟩)
  | .operator .subtract :: rest => do
    let (e, ⟨rest', h⟩) ← readSigned rest
    return (.negate e, ⟨rest', by simp; omega⟩)
  | code => readOperand code
termination_by 8 * code.length + 1
decreasing_by all_goals simp; try omega

def readOperand (code : List Fragment) : Parsed (Expression Float) code :=
  match code with
  | [] => throw .missingOperand
  | .number text :: rest =>
    match Decimal.float? text with
    | some value => return (.number value, ⟨rest, by simp⟩)
    | none => throw (.notNumber text)
  | .var name :: rest => return (.var name, ⟨rest, by simp⟩)
  | .openParen :: rest => do
    let (e, ⟨rest', h⟩) ← readBody rest
    return (e, ⟨rest', by simp; omega⟩)
  | .call function :: rest => do
    let (arguments, ⟨rest', h⟩) ← readArguments rest
    if arguments.length = function.arity then
      return (.call function arguments, ⟨rest', by simp; omega⟩)
    else throw (.arity function arguments.length)
  | .sum index lower upper :: rest => do
    let (body, ⟨rest', h⟩) ← readBody rest
    return (.sum index lower upper body, ⟨rest', by simp; omega⟩)
  | .integral name start width partitions rule :: rest => do
    let (body, ⟨rest', h⟩) ← readBody rest
    return (.integral name start width partitions rule body, ⟨rest', by simp; omega⟩)
  | .reference external branch :: rest => return (.reference external branch, ⟨rest, by simp⟩)
  | .apply external branch :: rest => do
    let (arguments, ⟨rest', h⟩) ← readArguments rest
    return (.apply external branch arguments, ⟨rest', by simp; omega⟩)
  | .derivative external branch step :: rest => do
    let (arguments, ⟨rest', h⟩) ← readArguments rest
    return (.derivative external branch step arguments, ⟨rest', by simp; omega⟩)
  | .operator o :: _ => throw (.unexpected (Fragment.operator o).text)
  | .close :: _ => throw (.unexpected Fragment.close.text)
  | .separator :: _ => throw (.unexpected Fragment.separator.text)
termination_by 8 * code.length
decreasing_by all_goals simp; omega

/-- A sum and the `close` behind it. -/
def readBody (code : List Fragment) : Parsed (Expression Float) code := do
  let (e, ⟨rest, h⟩) ← readSum code
  match rest, h with
  | .close :: rest', h => return (e, ⟨rest', by simp at h; omega⟩)
  | _, _ => throw .unbalanced
termination_by 8 * code.length + 4

/-- The arguments up to their `close`. -/
def readArguments (code : List Fragment) : Parsed (List (Expression Float)) code :=
  match code with
  | .close :: rest => return ([], ⟨rest, by simp⟩)
  | code => readList code
termination_by 8 * code.length + 5

/-- One argument at least, up to their `close`. -/
def readList (code : List Fragment) : Parsed (List (Expression Float)) code := do
  let (e, ⟨rest, h⟩) ← readSum code
  match rest, h with
  | .close :: rest', h => return ([e], ⟨rest', by simp at h; omega⟩)
  | .separator :: rest', h =>
    let (more, ⟨rest'', h'⟩) ← readList rest'
    return (e :: more, ⟨rest'', by simp at h; omega⟩)
  | _, _ => throw .unterminated
termination_by 8 * code.length + 4
decreasing_by all_goals simp_all; try omega

end

/-- The expression that the whole code stands for. -/
def ofCode (code : List Fragment) : Except Flaw (Expression Float) := do
  let (e, ⟨rest, _⟩) ← readSum code
  if rest.isEmpty then return e else throw .unbalanced

/-- As `ofCode`, with the code itself as the subject of the complaint. -/
def parse (code : List Fragment) : Except CompileError (Expression Float) :=
  (ofCode code).mapError (.malformed (Fragment.textAll code))

end Formulary.Expression
