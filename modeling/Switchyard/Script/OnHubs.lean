import Switchyard.Script.Value
import Switchyard.World.Switch

/-!
# Steps on thread states, the pending failure and the lock
-/

namespace Switchyard.World

def hubStep (name : String) (hub : Option String) (run : HubId → World → World)
    (w : World) : World :=
  match w.hubFor hub with
  | (.error e, w) => w.note name [e.datum]
  | (.ok h, w) => run h w

def countsDatum (s : Hub) : Datum :=
  .list [.nat s.waiting, .nat s.nodes.length, .bool s.runningFiber, .bool s.closed]

def collectStep (hub : Option String) : World → World :=
  hubStep "collect" hub fun h w => (w.holdHub h).after [.drain h, .leaveHub h] "collect" .ok

/-- Nodes are shut in no defined order, so the events of it are put into the order of their
texts. -/
def teardownStep (hub : Option String) : World → World :=
  hubStep "teardown" hub fun h w =>
    (w.holdHub h).after [.teardown h, .leaveHub h, .sortFrom w.events.length] "teardown" .ok

def newHubStep (as_ : String) (w : World) : World :=
  let (h, w) := w.createHub
  let old := w.named.find? as_
  { w with named := w.named.insert as_ h }.after (old.map Task.leaveHub).toList "ts_new"
    (.nat (w.greenlet (w.hub h).main).id.word.toNat)

def dropHubStep (hub : String) (w : World) : World :=
  match w.named.find? hub with
  | none => w.note "ts_drop" [.bool false]
  | some h =>
    { w with named := w.named.erase hub }.after [.leaveHub h, .sortFrom w.events.length]
      "ts_drop" (.bool true)

/-- Bind a greenlet of a hub to a name. -/
def hubGreenletStep (name as_ : String) (hub : Option String) (pick : Hub → Ref) :
    World → World :=
  hubStep name hub fun h w =>
    let r := pick (w.hub h)
    let id := (w.greenlet r).id
    let (old, w) := (w.retain r).bindHandle as_ r
    w.after old name (.nat id.word.toNat)

def registerSwitchStep (h : String) (hub : Option String) : World → World :=
  hubStep "reg_switch" hub fun s w =>
    match w.handle h with
    | (none, w) => w.note "reg_switch" [noName]
    | (some r, w) =>
      match w.registerSwitch s r with
      | (.error e, w) => w.after [.drop r] "reg_switch" e.datum
      | (.ok prev, w) =>
        w.after [.drop prev, .drop r] "reg_switch"
          (.record [("prev", .nat (w.greenlet prev).id.word.toNat)])

def deferStep (h : String) (hub : Option String) : World → World :=
  hubStep "defer" hub fun s w =>
    match w.handle h with
    | (none, w) => w.note "defer" [noName]
    | (some r, w) => ((w.retain r).defer s r).after [.drop r] "defer" .ok

def hasHubStep (w : World) : World :=
  let w := w.touchHome
  let home := w.thread.home.get?
  w.note "has_ts" [.list [.bool home.isSome,
    .optional (fun i => .nat i.word.toNat) w.currentId,
    .bool ((home.map fun h => (w.hub h).runningFiber).getD false)]]

def lockStep (w : World) : World :=
  w.note "gil" [.list [.bool (w.lock.isHeldBy w.active), .nat (w.lock.depthFor w.active)]]

def failureOf (w : World) (r : Ref) : Option Failure :=
  match w.valueD r with
  | .failure f => some f
  | _ => none

def pendingTakeStep (w : World) : World :=
  match w.takePending with
  | (none, w) => w.note "pend_take" [.null]
  | (some r, w) => w.after [.drop r] "pend_take" (.optional Failure.datum (w.failureOf r))

def pendingClearStep (w : World) : World :=
  let (r, w) := w.takePending
  w.after (r.map Task.drop).toList "pend_clear" .ok

/-- Move the pending failure into an out-parameter. -/
def pendingFetchStep (out : String) (w : World) : World :=
  let held := (w.outs.find? out).join
  match w.takePending with
  | (none, w) =>
    let w := { w with outs := w.outs.insert out held }
    w.note "pend_fetch" [.list [.bool false, .bool held.isSome]]
  | (some r, w) =>
    let (old, w) := w.bindOut out (some r)
    w.after old "pend_fetch" (.list [.bool true, .bool true])

end Switchyard.World
