import Formulary.Config
import Formulary.Equation
import Formulary.Registry

/-!
# Sessions

The equations compiled so far, and which of them each bound name stands for: the first that bound
it. Equations are only ever added.
-/

namespace Formulary

structure Session where
  config : Config := {}
  equations : Registry (Equation Float) := {}
  names : List (String × Key (Equation Float)) := []

namespace Session

def keyOf? (s : Session) (name : String) : Option (Key (Equation Float)) := s.names.lookup name

/-- The equation that first bound the name. -/
def resolve (s : Session) (name : String) : Option (Equation Float) :=
  (s.keyOf? name).bind s.equations.get?

/-- The function that a name stands for. -/
def resolveFunction (s : Session) (name : String) : Option (Equation Float) :=
  (s.resolve name).filter Equation.isFunction

/-- The key under which an external of some equation is found; only the first equation of a name
is ever referred to. -/
def keyOfExternal? (s : Session) (external : Equation Float) : Option (Key (Equation Float)) :=
  external.name?.bind s.keyOf?

/-- Adds an equation. A name that is taken already keeps its equation. -/
def register (s : Session) (e : Equation Float) : Session where
  config := s.config
  equations := s.equations.insert e
  names :=
    match e.name? with
    | some name =>
      if (s.keyOf? name).isSome then s.names else (name, s.equations.nextKey) :: s.names
    | none => s.names

@[simp] theorem register_config (s : Session) (e : Equation Float) :
    (s.register e).config = s.config := rfl

@[simp] theorem toList_register (s : Session) (e : Equation Float) :
    (s.register e).equations.toList = s.equations.toList ++ [e] :=
  Registry.toList_insert ..

end Session

end Formulary
