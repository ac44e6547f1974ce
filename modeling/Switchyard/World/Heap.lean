import Switchyard.World.Basic

/-!
# Heap, threads and hubs of a world

Look-ups and updates. Allocation gives an object one reference; `retain` adds one.
-/

namespace Switchyard.World

/-- A process that has run nothing. -/
def fresh (env : Environment) : World := { env, log := ({} : Log).settle env }

def object? (w : World) (r : Ref) : Option Object := w.heap[r]?.join

def modifyObject (r : Ref) (f : Object → Object) (w : World) : World :=
  { w with heap := w.heap.modify r (Option.map f) }

def alloc (v : Value) (w : World) : Ref × World :=
  (w.heap.size, { w with heap := w.heap.push (some ⟨1, v⟩) })

def erase (r : Ref) (w : World) : World := { w with heap := w.heap.modify r fun _ => none }

def retain (r : Ref) (w : World) : World :=
  w.modifyObject r fun o => { o with count := o.count + 1 }

def retainObj (o : Obj) (w : World) : World :=
  match o with
  | some r => w.retain r
  | none => w

def retainAll (os : List Obj) (w : World) : World := os.foldl (fun w o => w.retainObj o) w

def count (w : World) (r : Ref) : Nat := ((w.object? r).map Object.count).getD 0

def valueD (w : World) (r : Ref) : Value := ((w.object? r).map Object.value).getD .unit

def greenlet (w : World) (r : Ref) : Greenlet :=
  match w.valueD r with
  | .greenlet g => g
  | _ => .absent

def modifyGreenlet (r : Ref) (f : Greenlet → Greenlet) (w : World) : World :=
  w.modifyObject r fun o =>
    match o.value with
    | .greenlet g => { o with value := .greenlet (f g) }
    | _ => o

/-- Ask for a run state; the dead stay dead. -/
def setState (r : Ref) (s : RunState) (w : World) : World :=
  w.modifyGreenlet r fun g => { g with state := g.state.moveTo s }

def nextId (w : World) : GreenletId × World :=
  let (i, ids) := w.ids.next
  (i, { w with ids })

def thread (w : World) : Thread := w.threads[w.active - 1]?.getD {}

def modifyThread (f : Thread → Thread) (w : World) : World :=
  { w with threads := w.threads.modify (w.active - 1) f }

def control (w : World) : Control Task := ⟨w.thread.stack, w.fibers, w.lost⟩

def setControl (c : Control Task) (w : World) : World :=
  { w.modifyThread fun t => { t with stack := c.stack } with fibers := c.fibers, lost := c.lost }

def setStack (s : List (Item Task)) (w : World) : World :=
  w.modifyThread fun t => { t with stack := s }

def push (ts : List Task) (w : World) : World :=
  w.modifyThread fun t => { t with stack := ts.map .task ++ t.stack }

def modifyFiber (f : FiberId) (g : Fiber Task → Fiber Task) (w : World) : World :=
  { w with fibers := w.fibers.modify f g }

def fiberD (w : World) (f : FiberId) : Fiber Task := w.control.fiberD f

/-- Start to unwind the active thread's control stack. -/
def fail (p : Panic) (w : World) : World :=
  (w.push [.fail p]).modifyThread fun t => { t with panics := t.panics + 1 }

def calm (w : World) : World := w.modifyThread fun t => { t with panics := t.panics - 1 }

def isPanicking (w : World) : Bool := 0 < w.thread.panics

def touch (s : SlotName) (w : World) : World :=
  if w.thread.touched.contains s then w
  else w.modifyThread fun t => { t with touched := s :: t.touched }

def touchPending (w : World) : World :=
  if w.thread.pending.isGone then w else w.touch .pending

def touchHome (w : World) : World :=
  if w.thread.home.isGone then w else w.touch .home

def hub (w : World) (h : HubId) : Hub := w.hubs[h]?.getD ⟨0, 0, 0, false, false, false, none, [],
  [], [], {}, true, true, 0⟩

def modifyHub (h : HubId) (f : Hub → Hub) (w : World) : World :=
  { w with hubs := w.hubs.modify h f }

def modifyStats (h : HubId) (f : Stats → Stats) (w : World) : World :=
  w.modifyHub h fun s => { s with stats := f s.stats }

def hubLives (w : World) (h : HubId) : Bool := 0 < (w.hub h).holders

def holdHub (h : HubId) (w : World) : World :=
  w.modifyHub h fun s => { s with holders := s.holders + 1 }

def write (level : LogLevel) (message : String) (w : World) : World :=
  { w with log := w.log.write ⟨level, w.active, message⟩ }

def debug (message : String) (w : World) : World := w.write .debug message
def trace (message : String) (w : World) : World := w.write .trace message
def warn (message : String) (w : World) : World := w.write .warn message

/-- The bound on parent chains. -/
def depthLimit (w : World) : Nat := (Config.fallback w.env).maxNestingDepth

/-- A hub for the active thread, with one owner and a main greenlet that runs. -/
def createHub (w : World) : HubId × World :=
  let h := w.hubs.size
  let (id, w) := w.nextId
  let (main, w) := w.alloc (.greenlet
    ⟨id, w.active, true, h, .running, none, none, none, none⟩)
  let w := w.retain main
  let w := { w with hubs := w.hubs.push { thread := w.active, main, current := main } }
  (h, w.debug ("thread state created for " ++ threadName w.active ++
    ", main greenlet " ++ id.text))

/-- The greenlet that runs on the active thread, as its hub has it. -/
def currentId (w : World) : Option GreenletId :=
  w.thread.home.get?.map fun h => (w.greenlet (w.hub h).current).id

def event (name : String) (result : List Datum) (w : World) : World :=
  let w := w.touchHome
  let d := Datum.list ([.nat w.active, .optional (fun i => .nat i.word.toNat) w.currentId,
    .text name] ++ result)
  { w with events := d :: w.events }

/-- The states of all handles, in name order. -/
def summary (w : World) : String :=
  " ".intercalate (w.handles.entries.map fun (n, r) => n ++ "=" ++ (w.greenlet r).state.text)

end Switchyard.World
