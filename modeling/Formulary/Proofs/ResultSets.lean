import Formulary.Proofs.Calls
import Formulary.Proofs.Floats
import Mathlib.Data.List.Sort

/-!
# Result sets

A result set stands for the set of the values of the branches, read in their canonical form: sorting
and dropping neighbours of the same rank leaves each of them once, in ascending order, however often
and in which order the branches give them.
-/

namespace Formulary

namespace ResultSet

end ResultSet

namespace Equation

variable {e : Equation Float} {values : List Float}

end Equation

end Formulary
