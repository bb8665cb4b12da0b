/-!
# Diagnostics

The form in which errors and warnings are shown: a headline, what it is about and a hint. Headers
may be colored for a terminal.
-/

namespace Formulary

inductive Severity
  | error
  | warning
  | info
deriving DecidableEq, Repr

structure Diagnostic where
  /-- The notation the diagnostic points at. -/
  subject : Option String
  message : String
  severity : Severity
  help : Option String
deriving DecidableEq, Repr

namespace Diagnostic

/-- Ends every terminal style. -/
def reset : String := "\x1b[0m"

/-- Sets a text in a terminal style, given by its codes. The style starts anew behind a reset that
the text holds itself. -/
def styled (color : Bool) (codes text : String) : String :=
  if color then
    let start := "\x1b[" ++ codes ++ "m"
    start ++ text.replace reset (reset ++ start) ++ reset
  else text

def bold : String := "1"

def brightCyan : String := "1;96"

end Diagnostic

namespace Severity

def header : Severity → String
  | error => "[error]:"
  | warning => "[warning]:"
  | info => "[info]:"

/-- The terminal style of a header: bright red, yellow or bright green, all bold. -/
def style : Severity → String
  | error => "1;91"
  | warning => "1;33"
  | info => "1;92"

/-- A message after its header. -/
def announce (severity : Severity) (color : Bool) (message : String) : String :=
  Diagnostic.styled color severity.style severity.header ++ " " ++
    Diagnostic.styled color Diagnostic.bold message

end Severity

namespace Diagnostic

def text (d : Diagnostic) (color : Bool) : String :=
  d.severity.announce color d.message ++
    (match d.subject with
      | some subject => "\n " ++ styled color brightCyan "-->" ++ " " ++ subject
      | none => "") ++
    (match d.help with
      | some help => "\n  " ++ styled color bold "= help:" ++ " " ++ help
      | none => "")

end Diagnostic

end Formulary
