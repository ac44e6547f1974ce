import Switchyard.Config.Session

/-!
# Errors and failures described

An error becomes the failure that stands for it, and a failure becomes an error by propagation.
-/

namespace Switchyard

/-- `e`, the failure it leaves behind, and the error which that failure becomes. -/
def SwitchError.report (e other : SwitchError) : Datum :=
  let f := Failure.ofError e
  let back := propagated f
  .record [
    ("kind", .text e.kindName),
    ("text", .text e.message),
    ("failure", f.detail),
    ("same", .bool (Failure.ofError e == f)),
    ("raise_same", .bool (e == e)),
    ("pending", f.detail),
    ("back", .texts [back.kindName, back.message]),
    ("back_eq", .bool (back == e)),
    ("eq_other", .bool (e == other))]

def Failure.report (f : Failure) : Datum :=
  let e := SwitchError.propagated f
  .list [f.detail, .text e.kindName, .text e.message, .bool (Failure.ofError e == f)]

end Switchyard
