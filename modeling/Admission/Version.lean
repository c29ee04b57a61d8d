/-!
# The version of the library
-/

namespace Admission

/-- The version of the library. -/
def version : String := "0.1.0"

end Admission
