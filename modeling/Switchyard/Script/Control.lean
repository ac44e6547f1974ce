import Switchyard.Script.OnPayloads

/-!
# Control steps

Nested frames, loops, early ends, panics and threads.
-/

namespace Switchyard.World

/-- Run steps in a frame of their own, which takes what the caller received last. -/
def nestStep (how : Nesting) (steps : List Script.Step) (w : World) : World :=
  let (last, w) := w.swapLast .empty
  w.push [.steps steps, .frame { last, propagates := w.frame.propagates }, .nestEnd how]

def deepStep (n : Nat) (steps : List Script.Step) : World → World :=
  match n with
  | 0 => nestStep .deep steps
  | n + 1 => nestStep .deep [.deep n steps]

def ifDeadStep (h : String) (yes no : List Script.Step) (w : World) : World :=
  let (r, w) := w.peek h
  let dead := (r.map fun r => (w.greenlet r).state.isDead).getD true
  w.push [.steps (if dead then yes else no)]

def raiseErrorStep (e : SwitchError) (register : Bool) (w : World) : World :=
  ((if register then w.raise e else w).note "raise_err" [e.datum]).push [.leave (.error e)]

def panicStep (message : String) (mode : PanicMode) (w : World) : World :=
  (w.event "panic" []).fail
    (match mode with
    | .text => .text message
    | .opaqueValue => .opaqueValue)

/-- Run steps on a new thread, to its end. -/
def spawnStep (steps : List Script.Step) (w : World) : World :=
  let t := w.threads.size + 1
  let w := w.push [.join t]
  let stack := [.steps steps, .frame {}, .rootEnd, .exitThread].map Item.task
  { w with threads := w.threads.push { stack, parent := w.active }, active := t }

/-- What a caught panic leaves in an event. -/
def panicDatum (p : Panic) : Datum := .record [("panic", .text p.message)]

def joinThread (t : ThreadId) (w : World) : World :=
  w.note "spawn" [((w.threads[t - 1]?.bind (·.panicked)).map panicDatum).getD .ok]

/-- A nested frame has ended and hands back what it received last. What the caller held then is
dropped. -/
def nestEnd (how : Nesting) (last : Args Obj) (flow : Flow) (w : World) : World :=
  let (old, w) := w.swapLast last
  let event (d : Datum) (w : World) : World :=
    if how = .deep then w else w.note (Script.nestingName how) [d]
  let drops := Task.dropArgs old
  let leave := Task.leave flow
  match flow, how with
  | .through, _ => (event .ok w).push drops
  | .ret _, _ => (event .ok w).push (drops ++ [leave])
  | .error e, .call => (event e.datum w).push (drops ++ [leave])
  | .error e, .attempt => (event e.datum w).push drops
  | .error _, _ => w.push (drops ++ [leave])

end Switchyard.World
