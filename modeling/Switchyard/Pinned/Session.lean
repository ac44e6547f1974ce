import Switchyard.Datum
import Switchyard.Pinned.Basic

/-!
# Sessions with a pinned value

One slot for a pinned name, used by its own thread and by others.
-/

namespace Switchyard.Pinned.Session

inductive Command where
  | create (x : String)
  /-- Create on another thread. -/
  | createAcross (x : String)
  | get
  | getAcross
  | isHere
  | take
  | takeAcross
  | drop
  | dropAcross
  | other
  deriving Inhabited

def here : ThreadId := 1
def maker : ThreadId := 2
def user : ThreadId := 3

abbrev Slot := Option (Pinned String)

/-- What is destroyed when thread `t` drops the content of the slot. -/
def dropped (slot : Slot) (t : ThreadId) : List String :=
  (slot.bind (·.dropOn t)).toList

def takeBy (slot : Slot) (t : ThreadId) : Datum × List String × Slot :=
  match slot with
  | none => (.null, [], none)
  | some p =>
    match p.get? t with
    | some x => (.record [("ok", .text x)], [x], none)
    | none => (.text "refused", [], some p)

def run (slot : Slot) : Command → Datum × List String × Slot
  | .create x => (.null, dropped slot here, some ⟨here, x⟩)
  | .createAcross x => (.null, dropped slot here, some ⟨maker, x⟩)
  | .get => (.optional .text (slot.bind (·.get? here)), [], slot)
  | .getAcross => (.optional .text (slot.bind (·.get? user)), [], slot)
  | .isHere => (.optional (fun p => .bool (p.owner == here)) slot, [], slot)
  | .take => takeBy slot here
  | .takeAcross => takeBy slot user
  | .drop => (.bool slot.isSome, dropped slot here, none)
  | .dropAcross => (.bool slot.isSome, dropped slot user, none)
  | .other => (.null, [], slot)

def runAll (slot : Slot) : List Command → List Datum × Slot
  | [] => ([], slot)
  | c :: cs =>
    let (d, gone, slot) := run slot c
    let (ds, slot) := runAll slot cs
    (.list [d, .texts gone] :: ds, slot)

def transcript (cs : List Command) : Datum :=
  let (out, slot) := runAll none cs
  .record [("out", .list out), ("dropped", .texts (dropped slot here))]

end Switchyard.Pinned.Session
