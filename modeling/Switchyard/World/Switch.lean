import Switchyard.World.Tree

/-!
# Switching

Fibers give control back only to whoever resumed them. A switch between greenlets is therefore
driven from the original stack: a fiber posts its request on the hub and suspends, and the driver
resumes the next target until the target is a main greenlet.
-/

namespace Switchyard.World

/-- Make `target` the current greenlet. The one before is handed to the caller. -/
def registerSwitch (h : HubId) (target : Ref) (w : World) : Except SwitchError Ref × World :=
  let s := w.hub h
  let g := w.greenlet target
  if g.thread != s.thread then
    let e := .crossThreadSwitch g.id
    (.error e, w.raise e)
  else
    let w := (w.retain target).modifyHub h fun s => { s with current := target }
    let prev := s.current
    let w := if (w.greenlet prev).state == .running then w.setState prev .suspended else w
    let w := w.setState target .running
    let w := w.modifyStats h fun s => { s with switches := s.switches + 1 }
    (.ok prev, w.trace ("switch " ++ (w.greenlet prev).id.text ++ " -> " ++ g.id.text))

/-- Why hub `h` may not switch to `target`. -/
def switchError? (w : World) (h : HubId) (target : Ref) : Option SwitchError :=
  let s := w.hub h
  let g := w.greenlet target
  if s.closed then some .threadExited
  else if s.isBusy then some .switchDuringRelease
  else if g.thread != s.thread then some (.crossThreadSwitch g.id)
  else if g.state.isDead then some (.deadTarget g.id)
  else none

/-- Register an error and hand it to the task below. -/
def refuse (e : SwitchError) (w : World) : World := (w.raise e).push [.answer (.error e)]

/-- What the receiving side of a switch sees. A value means that earlier failures were handled. -/
def deliver (p : Payload) (w : World) : World :=
  match p with
  | .ok a =>
    let (old, w) := w.takePending
    w.push ((old.map Task.drop).toList ++ [.answer (.ok a)])
  | .error f => w.refuse (.propagated f)

/-- From inside a fiber: post the request and suspend. Owns `target`. -/
def switchFromFiber (h : HubId) (target : Ref) (p : Payload) (w : World) : World :=
  let s := w.hub h
  match (w.greenlet s.current).fiber.bind (·.get? w.active) with
  | none =>
    (w.raise .threadExited).push
      (Task.dropPayload p ++ [.drop target, .answer (.error .threadExited)])
  | some f =>
    let w := w.modifyHub h fun s => { s with outgoing := some (.switch target p) }
    w.push (Task.dropOutgoing s.outgoing ++ [.suspend h f])

def suspend (h : HubId) (f : FiberId) (w : World) : World :=
  if (w.fiberD f).armed then
    match (w.push [.resumed h]).control.suspend with
    | some c => w.setControl c
    | none => w.fail (.text "yield from none generator context")
  else
    let out := (w.hub h).outgoing
    let w := w.modifyHub h fun s => { s with outgoing := none }
    w.push (Task.dropOutgoing out ++ [.refuse .threadExited])

/-- Back in the fiber of the current greenlet: read what was left for it. -/
def resumed (h : HubId) (w : World) : World :=
  let me := (w.hub h).current
  let p := (w.greenlet me).inbox.getD (.ok .empty)
  (w.modifyGreenlet me fun g => { g with inbox := none }).deliver p

/-- Transfer control to `target`, which is borrowed. -/
def switch (h : HubId) (target : Ref) (p : Payload) (w : World) : World :=
  match w.switchError? h target with
  | some e => (w.raise e).push (Task.dropPayload p ++ [.answer (.error e)])
  | none =>
    let s := w.hub h
    if target = s.current then
      (w.trace ("greenlet " ++ (w.greenlet target).id.text ++ ": switch to self")).deliver p
    else
      let w := w.retain target
      if s.runningFiber then w.switchFromFiber h target p else w.push [.drive h target p]

-- Its tasks own `target` and the payload, and clear the driving flag when they end.
/-- The exit marker ends a greenlet with an empty result. -/
def exitToEmpty : Payload → Payload
  | .error f => if f.isExit then .ok .empty else .error f
  | p => p

def drive (h : HubId) (target : Ref) (p : Payload) (w : World) : World :=
  let s := w.hub h
  if s.driving && !s.runningFiber then
    let e := .switchDuringRelease
    (w.raise e).push (Task.dropPayload p ++ [.drop target, .answer (.error e)])
  else
    (w.modifyHub h fun s => { s with driving := true }).push
      [.drain h, .driveTarget h target p]

/-- Go on with `next` in place of `target`. -/
def retarget (h : HubId) (target next : Ref) (p : Payload) (w : World) : World :=
  w.push [.drop target, .drain h, .driveTarget h next p]

/-- Give `target` its payload. One that never ran is killed by a failure, or gets a fiber. -/
def driveTarget (h : HubId) (target : Ref) (p : Payload) (w : World) : World :=
  let g := w.greenlet target
  if g.isMain then
    match w.registerSwitch h target with
    | (.ok prev, w) => w.push [.drop prev, .driveMain h target p]
    | (.error e, w) =>
      w.push ([.endDriving h] ++ Task.dropPayload p ++ [.drop target, .answer (.error e)])
  else
    match g.state, p with
    | .unstarted, .error _ =>
      let w := w.debug ("greenlet " ++ g.id.text ++ ": killed before start")
      let w := w.modifyGreenlet target fun g => { g with state := .dead, run := none }
      w.push ((g.run.map Task.dropRun).getD [] ++ [.driveKilled h target p])
    | _, _ =>
      match g.fiber.bind (·.get? w.active), g.run, p with
      | some f, _, p =>
        let w := w.setControl (w.control.share f)
        let w := w.modifyGreenlet target fun g => { g with inbox := some p }
        w.push ((g.inbox.map Task.dropPayload).getD [] ++ [.driveRegister h target f])
      | none, some run, .ok args =>
        let f := w.fibers.size
        let (_, c) := w.control.create [.runBody run args, .entry h f]
          (Task.dropRun run ++ Task.dropArgs args)
        let w := w.setControl (c.share f)
        let w := w.modifyGreenlet target fun g =>
          { g with run := none, fiber := some ⟨w.active, f⟩ }
        let w := w.modifyStats h fun s => { s with started := s.started + 1 }
        w.push [.driveRegister h target f]
      | none, run, p =>
        let w := w.modifyGreenlet target fun g => { g with run := none }
        w.push ((run.map Task.dropRun).getD [] ++ Task.dropPayload p ++
          [.driveRefused h target (.deadTarget g.id)])

def driveMain (h : HubId) (target : Ref) (p : Payload) (w : World) : World :=
  w.push [.endDriving h, .drop target, .deliver p]

/-- A failure that killed `target` goes on to its parent. -/
def driveKilled (h : HubId) (target : Ref) (p : Payload) (w : World) : World :=
  let (next, w) := w.nextLive h target
  w.retarget h target next (exitToEmpty p)

/-- A target that cannot run sends the main greenlet a failure. -/
def driveRefused (h : HubId) (target : Ref) (e : SwitchError) (w : World) : World :=
  let w := w.debug ("greenlet " ++ (w.greenlet target).id.text ++ ": cannot resume: " ++ e.message)
  let main := (w.hub h).main
  (w.retain main).retarget h target main (.error (.ofError e))

def driveRegister (h : HubId) (target : Ref) (f : FiberId) (w : World) : World :=
  match w.registerSwitch h target with
  | (.ok prev, w) => w.push [.drop prev, .driveResume h target f]
  | (.error e, w) => w.push [.unshare f, .endDriving h, .drop target, .answer (.error e)]

def driveResume (h : HubId) (target : Ref) (f : FiberId) (w : World) : World :=
  let w := (w.modifyHub h fun s => { s with runningFiber := true }).push [.driveBack h target f]
  match w.control.resume f with
  | some c => w.setControl c
  | none => w.fail (.text "already borrowed: BorrowMutError")

/-- The fiber has given control back. -/
def driveBack (h : HubId) (target : Ref) (f : FiberId) (w : World) : World :=
  let out := (w.hub h).outgoing
  let w := w.modifyHub h fun s => { s with runningFiber := false, outgoing := none }
  if (w.fiberD f).finished then
    let fiber := (w.greenlet target).fiber
    let w := w.modifyGreenlet target fun g => { g with state := .dead, fiber := none }
    let w := w.modifyStats h fun s => { s with finished := s.finished + 1 }
    w.push ((fiber.map Task.dropPinned).toList ++ [.unshare f, .driveFinished h target out])
  else w.push [.unshare f, .driveSuspended h target out]

def driveFinished (h : HubId) (target : Ref) (out : Option Outgoing) (w : World) : World :=
  let w := w.trace ("greenlet " ++ (w.greenlet target).id.text ++ " finished")
  let (next, w) := w.nextLive h target
  match out with
  | some (.result p) => w.retarget h target next (exitToEmpty p)
  | out =>
    let p := .error ⟨.panic, "greenlet finished without a result"⟩
    w.push ([.drop target] ++ Task.dropOutgoing out ++ [.drain h, .driveTarget h next p])

def driveSuspended (h : HubId) (target : Ref) (out : Option Outgoing) (w : World) : World :=
  match out with
  | some (.switch next p) => w.retarget h target next p
  | some (.result p) =>
    let (next, w) := w.nextLive h target
    w.retarget h target next (exitToEmpty p)
  | none =>
    let (next, w) := w.nextLive h target
    w.retarget h target next (.ok .empty)

def endDriving (h : HubId) (w : World) : World :=
  w.modifyHub h fun s => { s with driving := false }

/-- Leave the result of the fiber `f` for its driver. A cancelled fiber leaves none. -/
def postResult (h : HubId) (f : FiberId) (p : Payload) (w : World) : World :=
  if (w.fiberD f).cancelling || !w.hubLives h then w.push (Task.dropPayload p)
  else
    let stale := (w.hub h).outgoing
    let w := w.modifyHub h fun s => { s with outgoing := some (.result p) }
    w.push (Task.dropOutgoing stale)

end Switchyard.World
