import Formulary.Emission
import Formulary.Node.Limit
import Formulary.Node.Signature
import Formulary.OperatorTable
import Formulary.Session
import Formulary.Symbols

/-!
# Walking an equation

A walk visits the nodes of an equation from left to right. It declares the names it meets and the
earlier equations it refers to, and emits code. An error ends the walk; what was emitted before it
stays.
-/

namespace Formulary

/-- What an equation has declared so far. -/
structure Declared where
  symbols : Symbols := {}
  externals : List (Equation Float) := []

/-- A part of a walk. -/
def Walk (β : Type) : Type := Declared → List Emission × Except CompileError (β × Declared)

namespace Walk

variable {β γ : Type}

def done (b : β) : Walk β := fun d => ([], .ok (b, d))

def andThen (w : Walk β) (next : β → Walk γ) : Walk γ := fun d =>
  match w d with
  | (es, .error e) => (es, .error e)
  | (es, .ok (b, d)) =>
    let (es', result) := next b d
    (es ++ es', result)

instance : Monad Walk where
  pure := done
  bind := andThen

theorem pure_apply (b : β) (d : Declared) : (pure b : Walk β) d = ([], .ok (b, d)) := rfl

theorem bind_apply (w : Walk β) (next : β → Walk γ) (d : Declared) :
    (w >>= next) d =
      match w d with
      | (es, .error e) => (es, .error e)
      | (es, .ok (b, d)) => (es ++ (next b d).1, (next b d).2) := rfl

instance : LawfulMonad Walk := by
  refine LawfulMonad.mk' Walk ?_ ?_ ?_
  · intro β w
    funext d
    change (w >>= fun b => pure b) d = w d
    rw [bind_apply]
    split <;> simp_all [pure_apply]
  · intro β γ b next
    funext d
    simp [bind_apply, pure_apply]
  · intro β γ δ w next last
    funext d
    simp only [bind_apply]
    rcases w d with ⟨es, e | ⟨b, d⟩⟩
    · rfl
    · simp only
      rcases next b d with ⟨es', e | ⟨c, d⟩⟩
      · rfl
      · simp [List.append_assoc]

def fail (e : CompileError) : Walk β := fun _ => ([], .error e)

def emit (e : Emission) : Walk Unit := fun d => ([e], .ok ((), d))

def instruct (i : Instruction) : Walk Unit := emit (.instruction i)

def append (fragment : Fragment) : Walk Unit := instruct (.append fragment)

def warn (subject : List Node) (approximation : Approximation) : Walk Unit :=
  emit (.warning ⟨Node.textAll subject, approximation⟩)

def malformed (subject : List Node) (flaw : Flaw) : Walk β :=
  fail (.malformed (Node.textAll subject) flaw)

/-- The outcome of a reading, with `subject` to be complained about. -/
def reading (subject : List Node) : Except Flaw β → Walk β
  | .ok b => done b
  | .error flaw => malformed subject flaw

def symbols : Walk Symbols := fun d => ([], .ok (d.symbols, d))

def changeSymbols (f : Symbols → Symbols) : Walk Unit := fun d =>
  ([], .ok ((), { d with symbols := f d.symbols }))

/-- The place of an equation among the externals, where it is entered if it is new. Equations that
are referred to differ in their names. -/
def declare (equation : Equation Float) : Walk Nat := fun d =>
  match d.externals.findIdx? (·.name? == equation.name?) with
  | some i => ([], .ok (i, d))
  | none => ([], .ok (d.externals.length, { d with externals := d.externals ++ [equation] }))

/-- Code with an opening fragment before it and a `close` behind it. -/
def enclosed (opening : Fragment) (body : Walk Unit) : Walk Unit := do
  append opening
  body
  append .close

/-- A built-in function of one operand. -/
def called (function : Function) (subject : Node) (operand : List Node) (body : Walk Unit) :
    Walk Unit :=
  if operand.isEmpty then malformed [subject] (.noOperand function)
  else enclosed (.call function) body

/-- The code of an operator symbol. -/
def operated (symbol : String) : Walk Unit :=
  match Entry.ofSymbol? symbol with
  | some (.single fragment) => append fragment
  | some (.alternatives fragments) => instruct (.choose fragments)
  | none => fail (.unsupportedOperator symbol)

/-- Pairs every branch with a branch of `equation`, and appends what `make` makes of its place
among the externals and the branch. -/
def paired (equation : Equation Float) (make : (external branch : Nat) → Fragment) :
    Walk Unit := do
  let external ← declare equation
  instruct (.pair external equation.branchCount)
  instruct (.appendPaired external (make external))

/-- The value of an earlier variable. Its arguments become arguments here. -/
def referred (equation : Equation Float) : Walk Unit := do
  paired equation .reference
  changeSymbols (·.addArguments equation.arguments)

/-- An earlier function with its arguments, the operand of the node at the head of `anchored`. The
arguments of the function beyond its parameters become arguments here. -/
def applied (equation : Equation Float) (make : (external branch : Nat) → Fragment)
    (anchored : List Node) (operand : Operand) (body : Walk Unit) : Walk Unit :=
  let found := Operand.argumentCount operand.inner
  let expected := equation.parameters.length
  if !operand.isParenthesized then malformed (anchored.take 1) .unapplied
  else if found ≠ expected then
    malformed (anchored.take (operand.consumed + 1)) (.argumentCount expected found)
  else do
    paired equation make
    body
    append .close
    changeSymbols (·.addArguments equation.freeArguments)

/-- A name: local names come first, then those of earlier equations; any other is a new argument.
Returns how many of the following nodes are its own. -/
def named (session : Session) (name : String) (anchored : List Node) (operand : Operand)
    (body : Walk Unit) : Walk Nat := do
  match if (← symbols).isLocal name then none else session.resolve name with
  | some equation =>
    if equation.isFunction then
      applied equation .apply anchored operand body
      return operand.consumed
    else
      referred equation
      return 0
  | none =>
    changeSymbols (·.addArgument name)
    append (.var name)
    return 0

/-- The derivative of an earlier function. -/
def primed (session : Session) (name : String) (anchored : List Node) (operand : Operand)
    (body : Walk Unit) : Walk Nat :=
  match session.resolveFunction name with
  | none => fail (.unresolvedReference name)
  | some equation => do
    let step := session.config.step
    applied equation (.derivative · · step) anchored operand body
    warn (anchored.take (operand.consumed + 1)) (.forwardDifference step)
    return operand.consumed

/-- A sum over its operand. -/
def summed (subject : Node) (lower upper : Option (List Node)) (operand : Operand)
    (body : Walk Unit) : Walk Nat := do
  let range ← reading [subject] (SumRange.ofLimits lower upper)
  changeSymbols (·.addArguments range.names)
  changeSymbols (·.addBound range.index)
  if operand.nodes.isEmpty then malformed [subject] .sumOperand
  else
    enclosed (.sum range.index range.lower range.upper) body
    return operand.consumed

/-- An integral of its operand. -/
def integrated (config : Config) (lower upper : Option (List Node)) (anchored : List Node)
    (operand : Operand) (body : Walk Unit) : Walk Nat := do
  let subject := anchored.take 1
  let partition ← reading subject (Partition.ofLimits config.partitions lower upper)
  if operand.nodes.isEmpty then malformed subject .integralOperand
  else
    let name := operand.differential.getD config.differential
    changeSymbols (·.addBound name)
    warn (anchored.take (operand.consumed + 1)) (.riemannSum config.partitions)
    enclosed (.integral name partition.start partition.width config.partitions config.rule) body
    return operand.consumed

/-- A trigonometric function of its operand. -/
def turned (name : OperatorName) (function : Function) (subject : Node)
    (lower upper : Option (List Node)) (operand : Operand) (body : Walk Unit) : Walk Nat :=
  if lower.isSome || upper.isSome then malformed [subject] (.unwantedLimits name)
  else do
    called function subject operand.nodes body
    return operand.consumed

/-- The nodes that a base or an exponent stands for: a number piece, a variable or what is in a
group. There are none where no base or exponent may stand. -/
def simple : Node → List Node
  | .literal text => if text = Node.bar then [] else [.literal text]
  | .var name => [.var name]
  | .group body => body
  | _ => []

theorem sizeOf_simple (node : Node) : sizeOf (simple node) ≤ sizeOf node + 2 := by
  unfold simple
  split
  · split <;> simp +arith
  · simp +arith
  · simp +arith
  · simp +arith

end Walk

end Formulary
