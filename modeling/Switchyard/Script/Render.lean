import Switchyard.World.Heap

/-!
# Values in events
-/

namespace Switchyard

/-- A value with the name of its kind; the two kinds of text have different names here. -/
def Value.datum : Value → Datum
  | .unit => .list [.text "none"]
  | .bool b => .list [.text "bool", .bool b]
  | .i32 n => .list [.text "i32", .int n.toInt]
  | .u32 n => .list [.text "u32", .nat n.toNat]
  | .i64 n => .list [.text "i64", .wide n.toInt]
  | .u64 n => .list [.text "u64", .wide n.toNat]
  | .f64 bits => .list [.text "f64", .text (Text.hex 16 bits.toNat)]
  | .str s => .list [.text "str", .text s]
  | .literal s => .list [.text "sstr", .text s]
  | .failure f => .list [.text "failure", f.datum]
  | .canary c => .list [.text "canary", .text c.name]
  | .phoenix name _ => .list [.text "phoenix", .text name]
  | .greenlet g =>
    .list [.text (if g.isMain then "main greenlet" else "greenlet"), .nat g.id.word.toNat]

/-- A copy of a value that can be copied, if it is of the kind asked for. -/
def Value.copy (k : Kind) (v : Value) : Datum :=
  if v.kind != k then .null
  else
    match v with
    | .unit => .bool true
    | .bool b => .bool b
    | .i32 n => .wide n.toInt
    | .u32 n => .wide n.toNat
    | .i64 n => .wide n.toInt
    | .u64 n => .wide n.toNat
    | .f64 bits => .text (Text.hex 16 bits.toNat)
    | .str s | .literal s => .text s
    | .failure f => f.datum
    | _ => .null

def Stats.datum (s : Stats) : Datum :=
  .list (.nat <$> [s.switches, s.started, s.finished, s.released, s.deferred, s.drained,
    s.abandoned])

def Stats.debug (s : Stats) : String :=
  "ThreadStats \x7b switches: " ++ toString s.switches ++ ", started: " ++ toString s.started ++
    ", finished: " ++ toString s.finished ++ ", released: " ++ toString s.released ++
    ", deferred: " ++ toString s.deferred ++ ", drained: " ++ toString s.drained ++
    ", abandoned: " ++ toString s.abandoned ++ " \x7d"

def threadDebug (t : ThreadId) : String := "ThreadIdent(" ++ toString t ++ ")"

def Greenlet.handleDebug (g : Greenlet) : String :=
  "Greenlet \x7b id: " ++ g.id.debug ++ ", state: " ++ g.state.debug ++
    ", main: " ++ toString g.isMain ++ " \x7d"

def Greenlet.nodeDebug (g : Greenlet) : String :=
  "GreenletNode \x7b id: " ++ g.id.debug ++ ", thread: " ++ threadDebug g.thread ++
    ", main: " ++ toString g.isMain ++ ", state: " ++ g.state.debug ++ " \x7d"

def Hub.debug (h : Hub) : String :=
  "ThreadState \x7b thread: " ++ threadDebug h.thread ++ ", closed: " ++ toString h.closed ++
    ", stats: " ++ h.stats.debug ++ " \x7d"

namespace World

def objDatum (w : World) : Obj → Datum
  | none => .list [.text "null"]
  | some r => (w.valueD r).datum

def argsDatum (w : World) (a : Args Obj) : Datum :=
  let keywords := a.keywords.map fun (k, o) => Datum.list [.text k, w.objDatum o]
  .record ([("pos", .list (a.positional.map w.objDatum))] ++
    if keywords.isEmpty then [] else [("kw", .list keywords)])

/-- The name of the kind of an object, in errors. -/
def kindName (w : World) : Obj → String
  | none => "null"
  | some r => (w.valueD r).kind.name

end World

end Switchyard
