import Switchyard.Datum
import Switchyard.Greenlet.Id
import Switchyard.Greenlet.RunState

/-!
# States and identifiers described

Each description also compares its subject with a second value.
-/

namespace Switchyard

def RunState.report (a b : RunState) : Datum :=
  .list [.text a.text, .text a.debug, .nat a.number, .bool a.isSwitchable, .bool a.isActive,
    .bool a.isDead, .bool (a.canBecome b), .bool (a == b)]

def GreenletId.report (a b : GreenletId) : Datum :=
  .list [.text a.text, .text a.debug, .nat a.word.toNat, .nat a.word.toNat, .bool a.isNone,
    .bool !a.isNone, .bool a.toOption.isSome, .bool (a == b), .bool (a.lt b),
    .bool (a == GreenletId.none)]

end Switchyard
