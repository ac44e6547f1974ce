import Switchyard.Datum
import Switchyard.Lock.Reentrant

/-!
# Lock sessions

Guards of the reentrant lock taken and dropped by one thread while another looks on, and a list
behind a lock that is not reentrant.
-/

namespace Switchyard

namespace Lock

inductive Command where
  | ensure
  | dropGuard
  | lookAcross
  /-- What another thread sees of the lock while it holds it twice. -/
  | ensureAcross
  | other
  deriving Inhabited

namespace Command

def here : ThreadId := 1
def across : ThreadId := 2

def view (l : Lock) (t : ThreadId) : Datum := .list [.bool (l.isHeldBy t), .nat (l.depthFor t)]

def run (l : Lock) : Command → Datum × Lock
  | ensure => (.null, (l.ensure? here).getD l)
  | dropGuard => if l.isHeldBy here then (.bool true, l.release) else (.bool false, l)
  | lookAcross => (view l across, l)
  | ensureAcross => (.optional (view · across) ((l.ensure? across).bind (·.ensure? across)), l)
  | other => (.null, l)

def runAll (l : Lock) : List Command → List Datum
  | [] => [.list [.bool false, .nat 0]]
  | c :: cs =>
    let (d, l) := c.run l
    .list [d, .bool (l.isHeldBy here), .nat (l.depthFor here)] :: runAll l cs

end Command

def transcript (cs : List Command) : Datum := .list (Command.runAll {} cs)

end Lock

/-- A list that is reached through a lock. -/
structure Guarded where
  items : List Int := []
  locked : Bool := false
  deriving DecidableEq, Repr, Inhabited

namespace Guarded

inductive Command where
  | hold
  | release
  | pushHeld (n : Int)
  | attempt
  | locked
  | push (n : Int)
  | read
  | intoInner
  | panicInside
  | threads (count each : Nat)
  | other
  deriving Inhabited

def append (g : Guarded) (ns : List Int) : Datum × Guarded :=
  let g := { g with items := g.items ++ ns }
  (.nat g.items.length, g)

def itemsDatum (g : Guarded) : Datum := .list (g.items.map .int)

def runFree (g : Guarded) : Command → Datum × Guarded
  | .push n => g.append [n]
  | .read => (g.itemsDatum, g)
  | .intoInner => (g.itemsDatum, {})
  | .panicInside => (.list [.bool true, .bool false], g)
  | .threads count each => g.append (List.replicate (count * each) 0)
  | _ => (.null, g)

def run (g : Guarded) : Command → Datum × Guarded
  | .hold => (.bool (!g.locked), { g with locked := true })
  | .release => if g.locked then (.ok, { g with locked := false }) else (.text "not now", g)
  | .pushHeld n => if g.locked then g.append [n] else (.text "not now", g)
  | .attempt => (if g.locked then .null else .nat g.items.length, g)
  | .locked => (.bool g.locked, g)
  | .other => (.null, g)
  | c => if g.locked then (.text "not now", g) else g.runFree c

def runAll (g : Guarded) : List Command → List Datum
  | [] => []
  | c :: cs =>
    let (d, g) := g.run c
    d :: runAll g cs

def transcript (cs : List Command) : Datum := .list (runAll {} cs)

end Guarded

end Switchyard
