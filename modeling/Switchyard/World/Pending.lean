import Switchyard.World.Heap

/-!
# The pending failure

Each thread has a slot for the first failure that nobody has handled yet, kept as an object.
-/

namespace Switchyard.World

def pendingFull (w : World) : Bool := w.thread.pending.isFull

/-- Keep `f` unless the slot is full or gone. -/
def registerFailure (f : Failure) (w : World) : World :=
  let w := w.touchPending
  match w.thread.pending with
  | .vacant =>
    let (r, w) := w.alloc (.failure f)
    w.modifyThread fun t => { t with pending := .full r }
  | _ => w

/-- Register the failure that stands for an error. -/
def raise (e : SwitchError) (w : World) : World := w.registerFailure (.ofError e)

/-- Empty the slot. The reference passes to the caller. -/
def takePending (w : World) : Option Ref × World :=
  let w := w.touchPending
  match w.thread.pending with
  | .full r => (some r, w.modifyThread fun t => { t with pending := .vacant })
  | _ => (none, w)

/-- The hub of the active thread, made at first use. Past the end of the slot there is none. -/
def homeHub (w : World) : Except SwitchError HubId × World :=
  let w := w.touchHome
  match w.thread.home with
  | .full h => (.ok h, w)
  | .vacant =>
    let (h, w) := w.createHub
    (.ok h, w.modifyThread fun t => { t with home := .full h })
  | .gone => (.error .threadExited, w.raise .threadExited)

end Switchyard.World
