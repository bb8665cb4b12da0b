import Formulary.CommandLine.Arguments
import Formulary.Compilation
import Formulary.ResultSet

/-!
# Running

A run compiles all equations of a file in one session and calls the last one. Files are read
through a function that is handed in, and what is printed is returned.
-/

namespace Formulary

/-- What an equation binds and what its arguments are, such as `f(x) [function]: x, k`. -/
def Equation.description {α : Type} (e : Equation α) : String :=
  let head := match e.binding with
    | none => "_ [expression]"
    | some b =>
      let parameters :=
        if b.parameters.isEmpty then "" else "(" ++ ", ".intercalate b.parameters ++ ")"
      b.name ++ parameters ++ " [" ++ b.kind.text ++ "]"
  head ++ ": " ++ ", ".intercalate e.arguments

namespace CommandLine

/-- Reads a file. -/
abbrev Files := String → Option String

def readFile (files : Files) (path : String) : Except LoadError String :=
  match files path with
  | some text => .ok text
  | none => .error .unreadable

/-- The configuration file, overridden by the flags. -/
def configure (a : Arguments) (files : Files) : Except LoadError Config := do
  let base ←
    match a.config with
    | none => pure {}
    | some path =>
      match Config.parse? (← readFile files path) with
      | some config => pure config
      | none => .error .ron
  return {
    partitions := a.partitions.getD base.partitions
    rule := a.rule.getD base.rule
    step := a.step.getD base.step
    differential := a.differential.getD base.differential }

/-- Something said on the error stream. -/
inductive Notice
  | diagnostic (d : Diagnostic)
  | configuration (e : LoadError)
  | input (file : String) (e : LoadError)
  | call (e : CallError)

/-- A diagnostic is set off by an empty line. -/
def Notice.text (color : Bool) : Notice → String
  | diagnostic d => d.text color ++ "\n\n"
  | configuration e =>
      Severity.error.announce color ("invalid configuration: " ++ e.message) ++ "\n"
  | input file e => Severity.error.announce color (file ++ ": " ++ e.message) ++ "\n"
  | call e => Severity.error.announce color e.message ++ "\n"

/-- What a run leaves behind. -/
structure Transcript where
  success : Bool
  output : List String := []
  notices : List Notice := []
  log : List String := []

/-- Compiles the equations in order, up to the first that fails, and calls the last one when
values are given or when it takes none. -/
def runEquations (values : List Float) (session : Session) (last : Option (Equation Float)) :
    List (List Node) → Transcript
  | [] =>
    match last with
    | none => { success := true }
    | some e =>
      if values.isEmpty && !e.arguments.isEmpty then { success := true }
      else
        match e.call values with
        | .ok results =>
          { success := true
            output := [Text.bracketed (results.map Decimal.Layout.value.write)] }
        | .error e => { success := false, notices := [.call e] }
  | nodes :: rest =>
    let c := session.compile nodes
    let warnings := c.warnings.map fun w => .diagnostic w.report
    match c.outcome with
    | .error e =>
      { success := false, notices := warnings ++ [.diagnostic e.report], log := c.log }
    | .ok e =>
      let t := runEquations values c.session (some e) rest
      { success := t.success
        output := e.description :: t.output
        notices := warnings ++ t.notices
        log := c.log ++ t.log }

def loadFile (a : Arguments) (files : Files) : Except LoadError (List (List Node)) := do
  load (← readFile files a.file) (a.format.getD (Format.ofPath a.file))

def run (a : Arguments) (files : Files) : Transcript :=
  match configure a files with
  | .error e => { success := false, notices := [.configuration e] }
  | .ok config =>
    match loadFile a files with
    | .error e => { success := false, notices := [.input a.file e] }
    | .ok equations =>
      let t := runEquations a.arguments { config } none equations
      { t with
        log := ("INFO compiling " ++ toString equations.length ++ " equation(s)") :: t.log }

end CommandLine

end Formulary
