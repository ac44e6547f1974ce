import Switchyard.Log.Session

/-!
# Log levels described
-/

namespace Switchyard.LogLevel

/-- What a text says, as a level. -/
def reportText (s : String) : Datum := .optional datum (parse? s)

def report (a b : LogLevel) : Datum :=
  .list [a.datum, .bool (a.number < b.number), .bool (a == b)]

end Switchyard.LogLevel
