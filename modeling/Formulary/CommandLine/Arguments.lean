import Formulary.Config.Ron
import Formulary.Source

/-!
# Command line arguments

One file and some flags. Each flag takes one value, except that `--arguments` takes all values up
to the next flag and may be repeated. A value is attached to its flag or follows it; `--` ends the
flags.
-/

namespace Formulary.CommandLine

structure Arguments where
  file : String
  /-- The values of the arguments of the last equation. -/
  arguments : List Float := []
  /-- If absent, the extension of the file decides. -/
  format : Option Format := none
  /-- A configuration file; the flags below override it. -/
  config : Option String := none
  partitions : Option Nat := none
  rule : Option IntegralRule := none
  step : Option Float := none
  differential : Option String := none

/-- Why there are no arguments to go on with. -/
inductive Refusal
  | help
  | usage
deriving DecidableEq, Repr

def Refusal.exitCode : Refusal → Nat
  | help => 0
  | usage => 2

inductive Flag
  | arguments
  | format
  | config
  | partitions
  | rule
  | step
  | differential
deriving DecidableEq, Repr

/-- What a flag name stands for. -/
inductive Named
  | flag (flag : Flag)
  | help

namespace Flag

def ofLong? : String → Option Named
  | "arguments" => some (.flag arguments)
  | "format" => some (.flag format)
  | "config" => some (.flag config)
  | "partitions" => some (.flag partitions)
  | "rule" => some (.flag rule)
  | "step" => some (.flag step)
  | "differential" => some (.flag differential)
  | "help" => some .help
  | _ => none

def ofShort? : Char → Option Named
  | 'a' => some (.flag arguments)
  | 'f' => some (.flag format)
  | 'c' => some (.flag config)
  | 'h' => some .help
  | _ => none

end Flag

/-- What has been read; the file may still be missing. -/
structure Given where
  file : Option String := none
  arguments : List Float := []
  format : Option Format := none
  config : Option String := none
  partitions : Option Nat := none
  rule : Option IntegralRule := none
  step : Option Float := none
  differential : Option String := none

def formatOfName? : String → Option Format
  | "ron" => some .ron
  | "json" => some .json
  | _ => none

def ruleOfName? : String → Option IntegralRule
  | "left" => some .leftEdge
  | "midpoint" => some .midpoint
  | _ => none

/-- A natural number of 64 bits, perhaps with a plus sign. -/
def nat64? (text : String) : Option Nat :=
  let digits := match text.toList with
    | '+' :: cs => cs
    | cs => cs
  if Decimal.Literal.allDigits digits then
    some (Decimal.Literal.natOfDigits digits) |>.filter (· < Nat.pow 2 64)
  else none

/-- Paths are not empty. -/
def path? (text : String) : Option String := if text.isEmpty then none else some text

namespace Given

/-- Sets what may be set only once. -/
def once {α : Type} (old new : Option α) : Option (Option α) :=
  match old, new with
  | none, some value => some (some value)
  | _, _ => none

def setSingle (g : Given) (value : String) : Flag → Option Given
  | .arguments => none
  | .format => (once g.format (formatOfName? value)).map fun x => { g with format := x }
  | .config => (once g.config (path? value)).map fun x => { g with config := x }
  | .partitions => (once g.partitions (nat64? value)).map fun x => { g with partitions := x }
  | .rule => (once g.rule (ruleOfName? value)).map fun x => { g with rule := x }
  | .step => (once g.step (Decimal.float? value)).map fun x => { g with step := x }
  | .differential => (once g.differential (some value)).map fun x => { g with differential := x }

/-- Enters a flag with its values, of which there has to be one at least. -/
def set (g : Given) (flag : Flag) (values : List String) : Except Refusal Given :=
  let result :=
    match flag, values with
    | .arguments, _ :: _ =>
      (values.mapM Decimal.float?).map fun xs => { g with arguments := g.arguments ++ xs }
    | flag, [value] => g.setSingle value flag
    | _, _ => none
  match result with
  | some g => .ok g
  | none => .error .usage

def setFile (g : Given) (file : String) : Except Refusal Given :=
  match once g.file (path? file) with
  | some file => .ok { g with file }
  | none => .error .usage

def complete (g : Given) : Except Refusal Arguments :=
  match g.file with
  | some file => .ok { g with file }
  | none => .error .usage

end Given

/-- Digits with at most one point and an exponent without sign, both after the first digit. -/
def looksNumeric (cs : List Char) : Bool :=
  cs.head?.any Char.isDigit && go false cs
where
  go (dotted : Bool) : List Char → Bool
    | [] => true
    | c :: cs =>
      if c.isDigit then go dotted cs
      else if c = '.' then !dotted && go true cs
      else c = 'e' && !cs.isEmpty && cs.all Char.isDigit

/-- What one argument is. -/
inductive Token
  | escape
  /-- A flag, perhaps with an attached value. -/
  | named (named : Named) (attached : Option String)
  | unknown
  | value (text : String)

/-- Negative numbers are values while `--arguments` takes values. -/
def Token.ofText (takesNumbers : Bool) (text : String) : Token :=
  match text.toList with
  | ['-', '-'] => escape
  | '-' :: '-' :: long =>
    let name := String.ofList (long.takeWhile (· ≠ '='))
    match Flag.ofLong? name, long.dropWhile (· ≠ '=') with
    | some flag, [] => named flag none
    | some flag, _ :: attached => named flag (some (String.ofList attached))
    | none, _ => unknown
  | '-' :: short :: rest =>
    if takesNumbers && looksNumeric (short :: rest) then value text
    else
      match Flag.ofShort? short, rest with
      | some flag, [] => named flag none
      | some .help, _ => named .help none
      | some flag, '=' :: attached => named flag (some (String.ofList attached))
      | some flag, attached => named flag (some (String.ofList attached))
      | none, _ => unknown
  | _ => value text

/-- A flag that is still taking values, with those it has taken. -/
abbrev Pending := Option (Flag × List String)

def settle (g : Given) : Pending → Except Refusal Given
  | some (flag, values) => g.set flag values
  | none => .ok g

/-- Reads the arguments from left to right. -/
def read (g : Given) (pending : Pending) : List String → Except Refusal Given
  | [] => settle g pending
  | text :: rest => do
    match Token.ofText (pending.any (·.1 = .arguments)) text with
    | .escape => rest.foldlM Given.setFile (← settle g pending)
    | .unknown => .error .usage
    | .named .help none =>
      let _ ← settle g pending
      .error .help
    | .named .help (some _) => .error .usage
    | .named (.flag flag) none => read (← settle g pending) (some (flag, [])) rest
    | .named (.flag flag) (some value) =>
      read (← (← settle g pending).set flag [value]) none rest
    | .value text =>
      match pending with
      | some (.arguments, values) => read g (some (.arguments, values ++ [text])) rest
      | some (flag, values) => read (← g.set flag (values ++ [text])) none rest
      | none => read (← g.setFile text) none rest

def parse (texts : List String) : Except Refusal Arguments := do
  (← read {} none texts).complete

end Formulary.CommandLine
