import Switchyard.Script.Render
import Switchyard.World.Drop

/-!
# Names and values of scripts

Look-ups of handles and hubs, and the evaluation of what a script writes for a value. A handle that
is looked up counts as a reference for as long as the step runs.
-/

namespace Switchyard.World

def frameOf : List (Item Task) → Option Frame
  | [] => none
  | .task (.frame f) :: _ => some f
  | _ :: rest => frameOf rest

def frame (w : World) : Frame := (frameOf w.thread.stack).getD {}

def modifyFrameOf (g : Frame → Frame) : List (Item Task) → List (Item Task)
  | [] => []
  | .task (.frame f) :: rest => .task (.frame (g f)) :: rest
  | i :: rest => i :: modifyFrameOf g rest

def modifyFrame (g : Frame → Frame) (w : World) : World :=
  w.modifyThread fun t => { t with stack := modifyFrameOf g t.stack }

def pushLocal (l : Local) (w : World) : World :=
  w.modifyFrame fun f => { f with locals := l :: f.locals }

/-- Replace what the frame received last. The caller gets the old value. -/
def swapLast (a : Args Obj) (w : World) : Args Obj × World :=
  (w.frame.last, w.modifyFrame fun f => { f with last := a })

def note (name : String) (result : List Datum) (w : World) : World :=
  w.event name (result ++ if w.frame.summarised then [.text w.summary] else [])

/-- The event of a step that is still to end, once `ts` are done. -/
def after (ts : List Task) (name : String) (d : Datum) (w : World) : World :=
  w.push (ts ++ [.note name [d]])

def noName : Datum := .text "no such name"

/-- The greenlet that a handle name stands for. -/
def peek (name : String) (w : World) : Option Ref × World :=
  if name = "@main" || name = "@cur" || name = "@parent" then
    match w.homeHub with
    | (.error _, w) => (none, w)
    | (.ok h, w) =>
      let s := w.hub h
      if name = "@main" then (some s.main, w)
      else if name = "@cur" then (some s.current, w)
      else ((w.greenlet s.current).parent, w)
  else (w.handles.find? name, w)

/-- The same as a new reference. -/
def handle (name : String) (w : World) : Option Ref × World :=
  match w.peek name with
  | (some r, w) => (some r, w.retain r)
  | (none, w) => (none, w)

/-- The handle of a name that may be left out. -/
def handleIfNamed (name : Option String) (w : World) : Option Ref × World :=
  match name with
  | none => (none, w)
  | some name => w.handle name

/-- Bind `name` to a reference. What it was bound to is to be dropped. -/
def bindHandle (name : String) (r : Ref) (w : World) : List Task × World :=
  let old := w.handles.find? name
  ((old.map Task.drop).toList, { w with handles := w.handles.insert name r })

/-- Move a handle out of the table. -/
def takeHandle (name : String) (w : World) : Option Ref × World :=
  (w.handles.find? name, { w with handles := w.handles.erase name })

def takeHandles : List String → World → List Ref × World
  | [], w => ([], w)
  | n :: ns, w =>
    let (r, w) := w.takeHandle n
    let (rs, w) := w.takeHandles ns
    (r.toList ++ rs, w)

def takeObject (name : String) (w : World) : Option Obj × World :=
  (w.objects.find? name, { w with objects := w.objects.erase name })

def bindOut (name : String) (o : Obj) (w : World) : List Task × World :=
  let old := (w.outs.find? name).join
  ((old.map Task.drop).toList, { w with outs := w.outs.insert name o })

def hubFor (name : Option String) (w : World) : Except SwitchError HubId × World :=
  match name.bind (w.named.find? ·) with
  | some h => (.ok h, w)
  | none => w.homeHub

def select (a : Args Obj) : Selector → Option Obj
  | .index i => a.get? i
  | .keyword k => a.keyword? k

/-- A value as a new reference. `received` is what the values of the script refer to. What cannot
be resolved is the unit value. -/
def eval (received : Args Obj) (v : Script.ValueSpec) (w : World) : Obj × World :=
  let fresh (v : Value) (w : World) : Obj × World :=
    let (r, w) := w.alloc v
    (some r, w)
  let shared (o : Option Obj) (w : World) : Obj × World :=
    match o with
    | some o => (o, w.retainObj o)
    | none => fresh .unit w
  match v with
  | .unit => fresh .unit w
  | .bool b => fresh (.bool b) w
  | .i32 n => fresh (.i32 n) w
  | .u32 n => fresh (.u32 n) w
  | .i64 n => fresh (.i64 n) w
  | .u64 n => fresh (.u64 n) w
  | .f64 bits => fresh (.f64 bits) w
  | .str s => fresh (.str s) w
  | .literal s => fresh (.literal s) w
  | .failure f => fresh (.failure f) w
  | .canary c => fresh (.canary c) w
  | .phoenix name lives => fresh (.phoenix name lives) w
  | .null => (none, w)
  | .greenlet name =>
    let (r, w) := w.peek name
    shared (r.map some) w
  | .object name => shared (w.objects.find? name) w
  | .received at_ => shared (select received at_) w
  | .increment i n =>
    let old : Int64 := match (received.get? i).join.map w.valueD with
      | some (.i64 m) => m
      | _ => 0
    fresh (.i64 (old + n)) w

end Switchyard.World
