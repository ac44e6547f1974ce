import Switchyard.Script.Value

/-!
# Steps on objects and out-parameters
-/

namespace Switchyard.World

def objectStep (as_ : String) (v : Script.ValueSpec) (w : World) : World :=
  let (o, w) := w.eval w.frame.last v
  let d := w.objDatum o
  let (old, w) := w.bindObject as_ o
  w.after old "obj" d

/-- Another reference to an object under a second name. -/
def objectCopyStep (name o as_ : String) (w : World) : World :=
  match w.objects.find? o with
  | none => w.note name [noName]
  | some x =>
    let (old, w) := (w.retainObj x).bindObject as_ x
    w.after old name .ok

def objectDropStep (o : String) (w : World) : World :=
  match w.takeObject o with
  | (none, w) => w.note "obj_drop" [.bool false]
  | (some x, w) => w.after (x.map Task.drop).toList "obj_drop" (.bool true)

def objectHoldStep (o : String) (w : World) : World :=
  match w.takeObject o with
  | (none, w) => w.note "obj_hold" [.bool false]
  | (some x, w) => (w.pushLocal (.object x)).note "obj_hold" [.bool true]

/-- A reference described without its address. -/
def referenceDebug (w : World) (wrapper : String) : Obj → String
  | none => wrapper ++ "(null)"
  | some r => wrapper ++ "<" ++ w.kindName (some r) ++ ">"

def objCount (w : World) (o : Obj) : Nat := (o.map w.count).getD 0

def objectInfoStep (o : String) (w : World) : World :=
  match w.objects.find? o with
  | none => w.note "obj_info" [noName]
  | some x =>
    w.note "obj_info" [.list [.bool x.isSome, .nat (w.objCount x), .text (w.kindName x),
      w.objDatum x, .text (w.referenceDebug "Owned" x), .text (w.referenceDebug "Borrowed" x),
      .bool x.isSome, .bool x.isNone, .bool x.isSome]]

def objectEqStep (o b : String) (w : World) : World :=
  match w.objects.find? o, w.objects.find? b with
  | some x, some y => w.note "obj_eq" [.list (List.replicate 2 (.bool (x == y)))]
  | _, _ => w.note "obj_eq" [noName]

def isKind (w : World) (o : Obj) (k : Kind) : Bool :=
  (o.map fun r => (w.valueD r).kind == k).getD false

/-- The object may be viewed as a `k`: its family is `k`. -/
def inFamily (w : World) (o : Obj) (k : Kind) : Bool :=
  (o.map fun r => (w.valueD r).kind.family == k).getD false

def mismatch (w : World) (o : Obj) (k : Kind) : SwitchError := .typeMismatch k.name (w.kindName o)

/-- An object viewed as a `k`. A refused view is registered as a failure. -/
def viewObject (o : Obj) (k : Kind) (fits : Bool) (w : World) : Datum × World :=
  if fits then (.record [("ok", w.objDatum o)], w)
  else
    let e := w.mismatch o k
    (e.datum, w.raise e)

def objectGetStep (o : String) (kind : Option Kind) (view : View) (w : World) : World :=
  match w.objects.find? o, kind with
  | none, _ => w.note "obj_get" [noName]
  | some _, none => w.note "obj_get" [.null]
  | some x, some k =>
    match view with
    | .exact =>
      let (d, w) := w.viewObject x k (w.isKind x k)
      w.note "obj_get" [d]
    | .family =>
      let (d, w) := w.viewObject x k (w.inFamily x k)
      w.note "obj_get" [d]
    | .attempt =>
      w.note "obj_get" [if w.isKind x k then .list [w.objDatum x, .bool true] else .null]
    | .header =>
      w.note "obj_get" [if x.isSome then
        .list [.bool (w.isKind x k), .bool (w.inFamily x k), .text (w.kindName x),
          .nat (w.objCount x)]
        else .null]
    | .test => w.note "obj_get" [.list (List.replicate 2 (.bool (w.isKind x k)))]

/-- View the named reference for good. A reference that does not fit is dropped. -/
def objectIntoStep (o : String) (kind : Option Kind) (family : Bool) (w : World) : World :=
  match w.objects.find? o, kind with
  | none, _ => w.note "obj_into" [noName]
  | some _, none => w.note "obj_into" [.null]
  | some x, some k =>
    if if family then w.inFamily x k else w.isKind x k then
      w.note "obj_into" [.record [("ok", w.objDatum x), ("refs", .nat (w.objCount x))]]
    else
      let e := w.mismatch x k
      let w := { w with objects := w.objects.erase o }.raise e
      w.after (x.map Task.drop).toList "obj_into" e.datum

def outPutStep (o out : String) (w : World) : World :=
  match w.takeObject o with
  | (none, w) => w.note "out_put" [noName]
  | (some x, w) =>
    let (old, w) := w.bindOut out x
    w.after old "out_put" (.bool x.isSome)

def outTakeStep (out as_ : String) (w : World) : World :=
  match (w.outs.find? out).join with
  | none => w.note "out_take" [.null]
  | some r =>
    let w := { w with outs := w.outs.insert out none }
    let d := w.objDatum (some r)
    let (old, w) := w.bindObject as_ (some r)
    w.after old "out_take" d

def outInfoStep (out : String) (w : World) : World :=
  w.note "out_info" [.optional (fun x => .bool x.isSome) (w.outs.find? out)]

def outDropStep (out : String) (w : World) : World :=
  match w.outs.find? out with
  | none => w.note "out_drop" [.bool false]
  | some x =>
    { w with outs := w.outs.erase out }.after (x.map Task.drop).toList "out_drop"
      (.bool true)

end Switchyard.World
