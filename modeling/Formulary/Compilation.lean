import Formulary.Expression.Parser
import Formulary.Walk.Nodes

/-!
# Compilation

An equation is compiled by walking its right side, growing its branches from the code emitted and
reading an expression off each of them. A compiled equation enters the session; an equation that
fails leaves the session as it was.
-/

namespace Formulary

/-- The result of compiling. -/
structure Compilation (β : Type) where
  emissions : List Emission
  outcome : Except CompileError β
  /-- The session afterwards. -/
  session : Session

namespace Compilation

variable {β : Type}

def warnings (c : Compilation β) : List Warning := Emission.warnings c.emissions

def log (c : Compilation β) : List String := Emission.log {} c.emissions

end Compilation

namespace Session

/-- The signature left of the first equality, if there is one, and the nodes right of it. -/
def splitSides (nodes : List Node) : Except CompileError (Option Binding × List Node) :=
  match nodes.findIdx? Node.isEquality with
  | some i => (Binding.ofNodes (nodes.take i)).map (some ·, nodes.drop (i + 1))
  | none => .ok (none, nodes)

/-- Declares the parameters and walks the right side. -/
def walk (s : Session) (binding : Option Binding) (right : List Node) : Walk Unit := do
  Walk.changeSymbols (·.addArguments (binding.elim [] (·.parameters)))
  Walk.visitAll s 0 none right

/-- The expression of every branch that the instructions grow. -/
def readBranches (instructions : List Instruction) : Except CompileError (List (Expression Float)) :=
  match BranchSet.runAll {} instructions with
  | none => .error .unpaired
  | some set => set.branches.mapM fun branch => Expression.parse branch.fragments

/-- The equation that a walk has led to. -/
def freeze (binding : Option Binding) (declared : Declared) (es : List Emission) :
    Except CompileError (Equation Float) :=
  (readBranches (Emission.instructions es)).map fun branches =>
    { binding
      arguments := declared.symbols.arguments
      bound := declared.symbols.bound
      branches
      externals := declared.externals }

/-- The emissions and the outcome of compiling an equation in a session. -/
def assemble (s : Session) (nodes : List Node) :
    List Emission × Except CompileError (Equation Float) :=
  match splitSides nodes with
  | .error e => ([], .error e)
  | .ok (binding, right) =>
    match s.walk binding right {} with
    | (es, .error e) => (es, .error e)
    | (es, .ok ((), declared)) => (es, freeze binding declared es)

def compile (s : Session) (nodes : List Node) : Compilation (Equation Float) :=
  match s.assemble nodes with
  | (es, .error e) => ⟨es, .error e, s⟩
  | (es, .ok equation) => ⟨es ++ [.frozen equation], .ok equation, s.register equation⟩

/-- Compiles equations in order, up to the first that fails. -/
def compileAll (s : Session) : List (List Node) → Compilation (List (Equation Float))
  | [] => ⟨[], .ok [], s⟩
  | nodes :: rest =>
    let first := s.compile nodes
    match first.outcome with
    | .error e => ⟨first.emissions, .error e, first.session⟩
    | .ok equation =>
      let others := first.session.compileAll rest
      ⟨first.emissions ++ others.emissions, others.outcome.map (equation :: ·), others.session⟩

end Session

end Formulary
