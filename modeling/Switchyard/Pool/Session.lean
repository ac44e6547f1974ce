import Switchyard.Datum
import Switchyard.Pool.Storage

/-!
# Pool sessions

Commands on labelled blocks of a pool, and on labelled storage and objects of the process's pool.
-/

namespace Switchyard

def PoolStats.datum (s : PoolStats) : Datum :=
  .list [.nat s.smallAllocs, .nat s.reused, .nat s.bulkAllocs, .nat s.releases]

def PoolStats.since (s before : PoolStats) : PoolStats where
  smallAllocs := s.smallAllocs - before.smallAllocs
  reused := s.reused - before.reused
  bulkAllocs := s.bulkAllocs - before.bulkAllocs
  releases := s.releases - before.releases

namespace Pool

structure Session (α : Type) where
  pool : Pool := {}
  live : List (String × α) := []
  freed : List (Block × String) := []

namespace Session

variable {α : Type}

def erase (label : String) (live : List (String × α)) : List (String × α) :=
  live.filter fun e => e.1 != label

def markFreed (s : Session α) (label : String) (b : Option Block) : Session α :=
  match b with
  | none => s
  | some b => { s with freed := (b, label) :: s.freed }

def lastLabel (s : Session α) (b : Block) : Datum := .text ((s.freed.lookup b).getD "")

def labels (label : String) (count : Nat) : List String :=
  if count ≤ 1 then [label] else (List.range count).map fun i => label ++ toString i

end Session

inductive Command where
  | alloc (label : String) (l : Layout) (count : Nat)
  | free (label : String) (count : Nat)
  | other
  deriving Inhabited

namespace Command

abbrev Held := Layout × Served

def allocOne (s : Session Held) (l : Layout) (label : String) : Datum × Session Held :=
  match s.live.lookup label with
  | some _ => (.text "label in use", s)
  | none =>
    let (served, pool) := s.pool.alloc l
    let d := match served with
      | .empty => .list [.text "empty", .bool true]
      | .reused b => .list [.text "reused", s.lastLabel b, .bool true]
      | .fresh .. => .list [.text "fresh", .bool true]
    (d, { s with pool, live := (label, l, served) :: s.live })

def freeOne (s : Session Held) (label : String) : Datum × Session Held :=
  match s.live.lookup label with
  | none => (.text "no such label", s)
  | some (l, served) =>
    let pool := match served.block? with
      | some b => (s.pool.free b l).2
      | none => s.pool
    (.ok, { s with pool, live := Session.erase label s.live }.markFreed label served.block?)

def each (f : Session Held → String → Datum × Session Held) (s : Session Held)
    (labels : List String) : Datum × Session Held :=
  labels.foldl (fun r label => f r.2 label) (.null, s)

def run (s : Session Held) : Command → Datum × Session Held
  | alloc label l count =>
    if l.isValid then each (fun s => allocOne s l) s (Session.labels label count)
    else (.text "bad layout", s)
  | free label count => each freeOne s (Session.labels label count)
  | other => (.null, s)

def runAll (s : Session Held) : List Command → List Datum
  | [] => []
  | c :: cs =>
    let (d, s) := c.run s
    .list [d, s.pool.stats.datum, .nat s.pool.keptBlocks] :: runAll s cs

end Command

def transcript (cs : List Command) : Datum := .list (Command.runAll {} cs)

end Pool

namespace Storage

inductive Command where
  | alloc (label : String) (element : Layout) (count : Nat)
  | free (label : String)
  /-- A new object in storage of the given layout. -/
  | object (label : String) (l : Layout)
  | release (label : String)
  | other
  deriving Inhabited

structure Session where
  arrays : Pool.Session Storage := {}
  objects : List (String × Storage) := []

namespace Session

def withPool (s : Session) (p : Pool) : Session := { s with arrays.pool := p }

def run (s : Session) : Command → Datum × Session
  | .alloc label element count =>
    match s.arrays.live.lookup label with
    | some _ => (.null, s)
    | none =>
      match allocate s.arrays.pool element count with
      | none => (.record [("panic", .text (overflowMessage element count))], s)
      | some (origin, storage, pool) =>
        let d := match origin with
          | .fresh => .text "fresh"
          | .reused b => .list [.text "reused", s.arrays.lastLabel b]
        (d, { s with arrays := { s.arrays with
          pool, live := (label, storage) :: s.arrays.live } })
  | .free label =>
    match s.arrays.live.lookup label with
    | none => (.text "no such label", s)
    | some storage =>
      (.ok, { s with arrays := { s.arrays with
        pool := storage.release s.arrays.pool
        live := Pool.Session.erase label s.arrays.live }.markFreed label storage.block })
  | .object label l =>
    match allocate s.arrays.pool l 1 with
    | none => (.null, s)
    | some (_, storage, pool) =>
      let old := s.objects.lookup label
      let pool := match old with
        | some o => o.release pool
        | none => pool
      (.bool old.isSome,
        { (s.withPool pool) with
          objects := (label, storage) :: Pool.Session.erase label s.objects })
  | .release label =>
    match s.objects.lookup label with
    | none => (.bool false, s)
    | some o =>
      (.bool true,
        { (s.withPool (o.release s.arrays.pool)) with
          objects := Pool.Session.erase label s.objects })
  | .other => (.null, s)

def runAll (s : Session) : List Command → List Datum
  | [] => []
  | c :: cs =>
    let before := s.arrays.pool.stats
    let (d, s) := s.run c
    .list [d, (s.arrays.pool.stats.since before).datum, .nat s.arrays.pool.keptBlocks] ::
      runAll s cs

end Session

def transcript (cs : List Command) : Datum :=
  .record [("out", .list (Session.runAll {} cs))]

end Storage

end Switchyard
