import Switchyard.Script.OnGreenlets

/-!
# Steps on payloads

Arguments are built one value at a time, so that whatever a replaced value runs when it is dropped
comes between.
-/

namespace Switchyard.World

def built (a : Args Obj) (purpose : Purpose) (w : World) : World :=
  let d := w.argsDatum a
  match purpose with
  | .switch target hub catches => w.callSwitch "switch" target hub catches (.ok a)
  | .replaceLast =>
    let (old, w) := w.swapLast a
    w.after (Task.dropArgs old) "args" d
  | .extendLast =>
    let (old, w) := w.swapLast a
    w.after (Task.dropArgs old) "args_add" d
  | .ret => (w.note "ret" [d]).push [.leave (.ret a)]

/-- What the values of arguments under way refer to. Values that extend what was received see the
values before them. -/
def receivedFor (acc : Args Obj) (purpose : Purpose) (w : World) : Args Obj :=
  match purpose with
  | .extendLast => acc
  | _ => w.frame.last

def build (acc : Args Obj) (positional : List Script.ValueSpec)
    (keywords : List (String × Script.ValueSpec)) (purpose : Purpose) (w : World) : World :=
  let received := w.receivedFor acc purpose
  match positional, keywords with
  | v :: rest, _ =>
    let (o, w) := w.eval received v
    w.push [.build (acc.push o) rest keywords purpose]
  | [], (name, v) :: rest =>
    let (o, w) := w.eval received v
    let old := (acc.keyword? name).join
    w.push ((old.map Task.drop).toList ++ [.build (acc.setKeyword name o) [] rest purpose])
  | [], [] => w.built acc purpose

def buildArgs (a : Script.ArgsSpec) (purpose : Purpose) (w : World) : World :=
  match a with
  | .received =>
    let last := w.frame.last
    (w.retainAll last.values).built last purpose
  | .built positional keywords => w.push [.build .empty positional keywords purpose]

def switchStep (h : String) (args : Script.ArgsSpec) (hub : Option String)
    (catches : Option Bool) (w : World) : World :=
  match w.handle h with
  | (none, w) => w.note "switch" [noName]
  | (some r, w) => w.buildArgs args (.switch r hub catches)

def argsAddStep (positional : List Script.ValueSpec)
    (keywords : List (String × Script.ValueSpec)) (w : World) : World :=
  let (last, w) := w.swapLast .empty
  w.push [.build last positional keywords .extendLast]

def argsInfoStep (w : World) : World :=
  let a := w.frame.last
  w.note "args_info" [.list [.nat a.size, .bool a.isEmpty, .nat a.positional.length,
    .nat a.keywords.length]]

def argsGetStep (at_ : Selector) (kind : Option Kind) (w : World) : World :=
  let o := select w.frame.last at_
  let copy := do
    let r ← o.join
    let k ← kind
    return (w.valueD r).copy k
  w.note "args_get" [.list [.optional w.objDatum o, copy.getD .null]]

/-- Drop the keywords. -/
def argsSplitStep (w : World) : World :=
  let a := w.frame.last
  let positional : Args Obj := ⟨a.positional, []⟩
  let (_, w) := w.swapLast positional
  w.after (Task.dropArgs ⟨[], a.keywords⟩) "args_split"
    (.list [.nat a.keywords.length, w.argsDatum positional])

end Switchyard.World
