import Switchyard.World.Pending

/-!
# Releasing stacks

A greenlet that nothing refers to may still have a stack. Its own thread unwinds the stack at a
safe point: on the original stack, with no fiber running and no other release under way. Releases
asked for elsewhere wait in the hub. A closed hub gives stacks up without running them.
-/

namespace Switchyard

namespace Task

def dropArgs (a : Args Obj) : List Task := a.values.filterMap (·.map drop)

def dropPayload : Payload → List Task
  | .ok a => dropArgs a
  | .error _ => []

def dropOutgoing : Option Outgoing → List Task
  | none => []
  | some (.switch target p) => drop target :: dropPayload p
  | some (.result p) => dropPayload p

/-- Captures end in the reverse of the order they were taken in. -/
def dropRun (run : RunFn) : List Task :=
  run.held.reverse.map drop ++ run.canaries.reverse.map dropCanary

def dropLocal : Local → Option Task
  | .handle r => some (drop r)
  | .object o => o.map drop
  | .canary c => some (dropCanary c)

def dropFlow : Flow → List Task
  | .ret a => dropArgs a
  | _ => []

end Task

namespace World

/-- Take over a control stack; a stack that has come back is unwound from there. -/
def takeControl (r : Control Task × Bool) (w : World) : World :=
  let w := w.setControl r.1
  if r.2 then w.fail .cancel else w

def unshare (f : FiberId) (w : World) : World :=
  w.takeControl (w.control.unshare f w.isPanicking)

/-- Unwind the stack of `f` now. A running fiber is not unwound, but it counts as cancelled. -/
def unwind (f : FiberId) (w : World) : World :=
  let running := (w.fiberD f).isActive
  let w := w.modifyFiber f fun s => { s with cancelling := true }
  if running then w.warn "fiber unwind requested while it is running; ignored"
  else
    let w := w.push [.settle f]
    w.takeControl (w.control.destroy f w.isPanicking)

/-- Mark a greenlet dead and give its stack up. The flag tells whether it had one. -/
def abandonStack (r : Ref) (w : World) : Bool × World :=
  let fiber := (w.greenlet r).fiber
  let w := w.modifyGreenlet r fun g => { g with state := .dead, fiber := none }
  match fiber with
  | none => (false, w)
  | some p =>
    match p.get? w.active with
    | none => (true, w)
    | some f => (true, w.setControl (((w.control.abandon f).unshare f w.isPanicking).1))

/-- Strike a greenlet off its hub. -/
def forget (h : HubId) (r : Ref) (w : World) : World :=
  w.modifyHub h fun s => { s with nodes := s.nodes.erase r }

def canRelease (w : World) (h : HubId) : Bool :=
  let s := w.hub h
  s.thread == w.active && !s.closed && !s.runningFiber && !s.releasing

/-- Put `r` on the list of its hub. The list owns the reference. -/
def defer (h : HubId) (r : Ref) (w : World) : World :=
  let w := w.debug ("greenlet " ++ (w.greenlet r).id.text ++ ": release deferred")
  let w := w.modifyHub h fun s => { s with deferred := s.deferred ++ [r] }
  w.modifyStats h fun s => { s with deferred := s.deferred + 1 }

/-- The last reference to the greenlet `r` is gone. With no stack it is destroyed. A stack keeps
it for another reference, unless the hub is closed or gone. -/
def releaseHook (r : Ref) (w : World) : World :=
  let g := w.greenlet r
  let h := g.hub
  let s := w.hub h
  let name := "greenlet " ++ g.id.text
  let kept := w.modifyObject r fun o => { o with count := 1 }
  if !g.hasStack then
    (if w.hubLives h then w.forget h r else w).push [.destroy r]
  else if !w.hubLives h then
    let (_, w) := (w.debug (name ++ ": owner thread gone, abandoning stack")).abandonStack r
    w.push [.destroy r]
  else if s.closed then
    let w := (w.debug (name ++ ": owner thread closed, abandoning stack")).forget h r
    let (_, w) := w.abandonStack r
    (w.modifyStats h fun s => { s with abandoned := s.abandoned + 1 }).push [.destroy r]
  else if g.thread != w.active then
    let kept := kept.debug (name ++ ": released on foreign " ++ threadName w.active)
    kept.modifyHub h fun s => { s with foreign := s.foreign ++ [r] }
  else if w.canRelease h then
    (kept.holdHub h).push [.release h r, .drain h, .leaveHub h]
  else kept.defer h r

/-- Unwind the stack of `r`, if it has one, and drop the reference. -/
def release (h : HubId) (r : Ref) (w : World) : World :=
  let g := w.greenlet r
  let w := w.modifyGreenlet r fun g => { g with state := .dead, fiber := none }
  match g.fiber with
  | none => w.push [.drop r]
  | some p =>
    let w := w.modifyHub h fun s => { s with releasing := true }
    match p.get? w.active with
    | none => w.push [.released h r]
    | some f =>
      let w := w.debug ("greenlet " ++ g.id.text ++ ": unwinding stack")
      (w.push [.unshare f, .released h r]).unwind f

def released (h : HubId) (r : Ref) (w : World) : World :=
  let out := (w.hub h).outgoing
  let w := w.modifyHub h fun s => { s with releasing := false, outgoing := none }
  let w := w.modifyStats h fun s => { s with released := s.released + 1 }
  w.push (Task.dropOutgoing out ++ [.drop r])

/-- Release all that waits, and what begins to wait meanwhile, if this is a safe point. -/
def drain (h : HubId) (w : World) : World :=
  let s := w.hub h
  if s.thread != w.active || s.runningFiber || s.releasing then w
  else
    let batch := s.deferred ++ s.foreign
    let w := w.modifyHub h fun s => { s with deferred := [], foreign := [] }
    let w := w.modifyStats h fun t => { t with
      deferred := t.deferred + s.foreign.length
      drained := t.drained + batch.length }
    if batch.isEmpty then w else w.push (batch.map (.release h) ++ [.drain h])

/-- Give up the stack of `r` and take what it has not used. -/
def shutGreenlet (r : Ref) (w : World) : Bool × List Task × World :=
  let (had, w) := w.abandonStack r
  let g := w.greenlet r
  let w := w.modifyGreenlet r fun g => { g with run := none, inbox := none }
  (had, (g.run.map Task.dropRun).getD [] ++ (g.inbox.map Task.dropPayload).getD [], w)

/-- Shut one more greenlet: count its stack and collect what it leaves. -/
def shutNext (x : Nat × List Task × World) (r : Ref) : Nat × List Task × World :=
  let (n, drops, w) := x
  let (had, more, w) := w.shutGreenlet r
  (if had then n + 1 else n, drops ++ more, w)

/-- Shut the hub; a second time nothing happens. -/
def teardown (h : HubId) (w : World) : World :=
  let s := w.hub h
  if s.closed then w
  else
    let w := w.modifyHub h fun s => { s with closed := true, nodes := [] }
    let (n, drops, w) := s.nodes.foldl shutNext (0, [], w)
    let w := w.modifyStats h fun s => { s with abandoned := s.abandoned + n }
    w.push (drops ++ [.teardownQueues h n])

def teardownQueues (h : HubId) (n : Nat) (w : World) : World :=
  let s := w.hub h
  let w := w.modifyHub h fun s => { s with
    deferred := [], foreign := [], outgoing := none, releasing := false, runningFiber := false }
  w.push ((s.deferred ++ s.foreign).map .drop ++ Task.dropOutgoing s.outgoing ++
    [.teardownCurrent h n])

def teardownCurrent (h : HubId) (n : Nat) (w : World) : World :=
  let s := w.hub h
  let w := ((w.retain s.main).retain s.main).modifyHub h fun s => { s with current := s.main }
  w.push [.drop s.current, .teardownEnd h s.main n]

def teardownEnd (h : HubId) (main : Ref) (n : Nat) (w : World) : World :=
  let s := w.hub h
  let w := (w.setState main .dead).debug ("thread state for " ++ threadName s.thread ++
    " torn down, " ++ toString n ++ " stacks abandoned")
  w.push [.drop main]

/-- One owner less; the last one shuts the hub and disposes of it. -/
def leaveHub (h : HubId) (w : World) : World :=
  let w := w.modifyHub h fun s => { s with holders := s.holders - 1 }
  if w.hubLives h then w else w.push [.teardown h, .dropHubFields h]

/-- The list of deferred releases is a buffer, which drops its last entry first. -/
def dropHubFields (h : HubId) (w : World) : World :=
  let s := w.hub h
  let w := w.modifyHub h fun s => { s with
    outgoing := none, deferred := [], foreign := [], disposed := true }
  w.push ([.drop s.main, .drop s.current] ++ Task.dropOutgoing s.outgoing ++
    (s.deferred.reverse ++ s.foreign).map .drop)

end World

end Switchyard
