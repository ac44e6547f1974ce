import Switchyard.World.Release

/-!
# Dropping references

The last reference to an object destroys its value under the lock, so destructors that it runs
see the lock held.
-/

namespace Switchyard.World

/-- Bind `name` to an object. What it was bound to is to be dropped. -/
def bindObject (name : String) (o : Obj) (w : World) : List Task × World :=
  let old := (w.objects.find? name).join
  ((old.map Task.drop).toList, { w with objects := w.objects.insert name o })

/-- A phoenix that has lives left comes back under its name. -/
def lastDropped (r : Ref) (v : Value) (w : World) : World :=
  match v with
  | .greenlet g => if g.isMain then w.push [.destroy r] else w.releaseHook r
  | .phoenix name (lives + 1) =>
    let w := w.modifyObject r fun _ => ⟨1, .phoenix name lives⟩
    let (old, w) := (w.event "revive" [.text name, .nat lives]).bindObject name (some r)
    w.push old
  | _ => w.push [.destroy r]

def drop (r : Ref) (w : World) : World :=
  match w.object? r with
  | none => w
  | some o =>
    let w := w.modifyObject r fun o => { o with count := o.count - 1 }
    if o.count ≤ 1 then w.lastDropped r o.value else w

def dropPinned (p : Pinned FiberId) (w : World) : World :=
  match p.get? w.active with
  | some f => w.unshare f
  | none => w

def dropCanary (c : Script.Canary) (w : World) : World :=
  let w := w.event "drop" [.text c.name]
  if c.onDrop.isEmpty then w
  else w.push [.steps c.onDrop, .dropEnd c.name, .frame {}, .rootEnd]

/-- The parts of a greenlet in the order they are destroyed in. -/
def greenletParts (g : Greenlet) : List Task :=
  (g.parent.map Task.drop).toList ++ (g.run.map Task.dropRun).getD [] ++
    (g.fiber.map Task.dropPinned).toList ++ (g.inbox.map Task.dropPayload).getD []

/-- The destroying thread can take the lock. -/
def canLock (w : World) : Bool := (w.lock.ensure? w.active).isSome

def destroy (r : Ref) (w : World) : World :=
  let w := { w with lock := (w.lock.ensure? w.active).getD w.lock }
  match w.valueD r with
  | .canary c => w.push [.dropCanary c, .reclaim r]
  | .phoenix name _ => (w.event "drop" [.text name]).push [.reclaim r]
  | .greenlet g =>
    let w := w.modifyGreenlet r fun g =>
      { g with parent := none, run := none, fiber := none, inbox := none }
    w.push (greenletParts g ++ [.reclaim r])
  | _ => w.push [.reclaim r]

def unlock (w : World) : World := { w with lock := w.lock.release }

def reclaim (r : Ref) (w : World) : World := (w.erase r).unlock

end Switchyard.World
