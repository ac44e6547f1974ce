import Switchyard.Script.Value

/-!
# The end of a script

What the tables still hold is dropped in name order; then the thread exits. The slots of a thread
end in the reverse of the order in which they were first used.
-/

namespace Switchyard.World

/-- Data in the order of their compact texts. -/
def sortByText (ds : List Datum) : List Datum :=
  let keyed := ds.map fun d => (d.compact, d)
  (keyed.mergeSort fun a b => decide (a.1 ≤ b.1)).map Prod.snd

/-- Put the events after the first `n` into the order of their texts. -/
def sortFrom (n : Nat) (w : World) : World :=
  let k := w.events.length - n
  { w with events := (sortByText (w.events.take k)).reverse ++ w.events.drop k }

def endHandles (w : World) : World := w.push (w.handles.names.map .endHandle)

/-- A handle that went away meanwhile has no state. -/
def endHandle (name : String) (w : World) : World :=
  let (r, w) := w.takeHandle name
  (w.event "end" [.text name, .optional (fun r => .text (w.greenlet r).state.text) r]).push
    (r.map Task.drop).toList

def endObjects (w : World) : World :=
  match w.objects.pop? with
  | none => w
  | some ((name, o), objects) =>
    let n := (o.map w.count).getD 0
    ({ w with objects }.event "end_obj" [.text name, .nat n]).push
      ((o.map Task.drop).toList ++ [Task.endObjects])

def endOuts (w : World) : World :=
  match w.outs.pop? with
  | none => w
  | some ((_, o), outs) => { w with outs }.push ((o.map Task.drop).toList ++ [Task.endOuts])

def endStats (w : World) : World :=
  match w.thread.home.get? with
  | none => w
  | some h =>
    let s := w.hub h
    w.event "end_stats" [s.stats.datum, .list [.nat s.waiting, .nat s.nodes.length,
      .bool w.pendingFull, .nat (w.lock.depthFor w.active)]]

def endHubs (w : World) : World :=
  match w.named.pop? with
  | none => w
  | some ((name, h), named) =>
    let w := { w with named }.event "end_ts" [.text name]
    w.push [.leaveHub h, .sortFrom w.events.length, .endHubs]

def exitThread (w : World) : World :=
  let n := w.events.length
  let w := if w.active = 1 then { w with exitFrom := some n } else w
  w.push [.exitSlots, .sortFrom n]

/-- End the slot that was first used last. -/
def exitSlots (w : World) : World :=
  let t := w.thread
  match t.touched with
  | [] => w
  | .pending :: touched =>
    let w := w.modifyThread fun t => { t with touched, pending := .gone }
    w.push ((t.pending.get?.map Task.drop).toList ++ [.exitSlots])
  | .home :: touched =>
    let w := w.modifyThread fun t => { t with touched, home := .gone }
    w.push (((t.home.get?.map fun h => [Task.teardown h, .leaveHub h]).getD []) ++ [.exitSlots])

end Switchyard.World
