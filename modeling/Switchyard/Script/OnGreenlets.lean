import Switchyard.Script.Value
import Switchyard.World.Switch

/-!
# Steps on greenlets

Creating greenlets, switching to them, and what is done with their handles.
-/

namespace Switchyard.World

/-- Switch with a payload on a hub that is held meanwhile. Owns `target`. -/
def callSwitch (name : String) (target : Ref) (hub : Option String) (catches : Option Bool)
    (p : Payload) (w : World) : World :=
  match w.hubFor hub with
  | (.ok h, w) =>
    (w.holdHub h).push [.switch h target p, .leaveHub h, .switched name target catches]
  | (.error e, w) =>
    w.push (Task.dropPayload p ++ [.answer (.error e), .switched name target catches])

/-- A switch of a script is through. A value becomes what the frame received last. -/
def switched (name : String) (target : Ref) (catches : Option Bool)
    (outcome : Except SwitchError (Args Obj)) (w : World) : World :=
  match outcome with
  | .ok a =>
    let d := w.argsDatum a
    let (old, w) := w.swapLast a
    w.after (Task.dropArgs old ++ [.drop target]) name (.record [("ok", d)])
  | .error e =>
    let leaves := (catches.map not).getD w.frame.propagates
    w.push ([.drop target, .note name [e.datum]] ++ if leaves then [.leave (.error e)] else [])

def throwStep (h : String) (f : Failure) (hub : Option String) (catches : Option Bool)
    (w : World) : World :=
  match w.handle h with
  | (none, w) => w.note "throw" [noName]
  | (some r, w) => w.callSwitch "throw" r hub catches (.error f)

def createStep (as_ body : String) (caps : List Script.Canary) (holds : List String)
    (parent hub : Option String) (w : World) : World :=
  let (held, w) := w.takeHandles holds
  let run : RunFn := .script body caps held
  let (p, w) := w.handleIfNamed parent
  let dropParent := (p.map Task.drop).toList
  let refused (e : SwitchError) (w : World) : World :=
    w.after (Task.dropRun run ++ dropParent) "new" e.datum
  match w.hubFor hub with
  | (.error e, w) => refused e w
  | (.ok h, w) =>
    match w.createGreenlet h run p with
    | (.error e, w) => refused e w
    | (.ok r, w) =>
      let id := (w.greenlet r).id
      let (old, w) := w.bindHandle as_ r
      w.after (old ++ dropParent) "new" (.nat id.word.toNat)

def dropStep (h : String) (w : World) : World :=
  match w.takeHandle h with
  | (none, w) => w.note "drop" [noName]
  | (some r, w) => w.after [.drop r] "drop" .ok

def cloneStep (h as_ : String) (w : World) : World :=
  match w.handle h with
  | (none, w) => w.note "clone" [noName]
  | (some r, w) =>
    let (old, w) := w.bindHandle as_ r
    w.after old "clone" .ok

def holdStep (h : String) (w : World) : World :=
  match w.takeHandle h with
  | (none, w) => w.note "hold" [noName]
  | (some r, w) => (w.pushLocal (.handle r)).note "hold" [.ok]

def keepStep (h : String) (w : World) : World :=
  match w.handle h with
  | (none, w) => w.note "keep" [noName]
  | (some r, w) => (w.pushLocal (.handle r)).note "keep" [.ok]

def popStep (w : World) : World :=
  match w.frame.locals with
  | [] => w.note "pop" [.bool false]
  | l :: rest =>
    (w.modifyFrame fun f => { f with locals := rest }).after
      (Task.dropLocal l).toList "pop" (.bool true)

def setParentStep (h p : String) (w : World) : World :=
  match w.handle h with
  | (none, w) => w.note "set_parent" [noName]
  | (some r, w) =>
    match w.handle p with
    | (none, w) => w.after [.drop r] "set_parent" noName
    | (some q, w) =>
      match w.setParent r q with
      | (.ok old, w) =>
        w.after ((old.map Task.drop).toList ++ [.drop q, .drop r]) "set_parent" .ok
      | (.error e, w) => w.after [.drop q, .drop r] "set_parent" e.datum

def greenletDatum (r : Ref) (w : World) : Datum :=
  let g := w.greenlet r
  .record [
    ("id", .nat g.id.word.toNat),
    ("state", .text g.state.text),
    ("dead", .bool g.state.isDead),
    ("started", .bool (g.state != .unstarted)),
    ("active", .bool g.isActive),
    ("main", .bool g.isMain),
    ("stack", .bool g.hasStack),
    ("thread", .nat g.thread),
    ("here", .bool (g.thread == w.active)),
    ("parent", .optional (fun p => .nat (w.greenlet p).id.word.toNat) g.parent),
    ("as_main", if g.isMain then .bool (w.hubLives g.hub) else .null)]

def lookStep (name h : String) (look : Ref → World → Datum) (w : World) : World :=
  match w.peek h with
  | (none, w) => w.note name [noName]
  | (some r, w) => w.note name [look r w]

def eqStep (h b : String) (w : World) : World :=
  match w.peek h with
  | (none, w) => w.note "eq" [noName]
  | (some r, w) =>
    w.lookStep "eq" b fun q _ => .list (List.replicate 3 (.bool (r == q)))

def ownerStep (h : String) (w : World) : World :=
  match w.peek h with
  | (none, w) => w.note "owner" [noName]
  | (some r, w) =>
    match w.ownerOf r with
    | (.error e, w) => w.note "owner" [e.datum]
    | (.ok h, w) =>
      let w := w.touchHome
      w.note "owner" [.list [.nat (w.hub h).thread, .bool (w.thread.home.get? == some h)]]

def debugStep (h : String) (hub : Option String) (w : World) : World :=
  match w.peek h with
  | (none, w) => w.note "debug" [noName]
  | (some r, w) =>
    let w := w.touchHome
    let s := ((hub.bind (w.named.find? ·)).orElse fun _ => w.thread.home.get?).map w.hub
    let g := w.greenlet r
    w.note "debug" [.list [.text g.handleDebug, .text g.nodeDebug,
      .optional (fun s => .text s.debug) s]]

def currentStep (w : World) : World :=
  match w.homeHub with
  | (.error e, w) => w.note "cur" [e.datum]
  | (.ok h, w) =>
    let s := w.hub h
    let g := w.greenlet s.current
    w.note "cur" [.list [.nat g.id.word.toNat, .bool s.runningFiber, .bool g.isMain]]

/-- Take a received object for a greenlet. -/
def bindStep (at_ : Selector) (as_ : String) (catches : Option Bool) (w : World) : World :=
  match select w.frame.last at_ with
  | none => w.note "bind" [noName]
  | some o =>
    match o with
    | some r =>
      if (w.valueD r).kind.family = .greenlet then
        let (old, w) := (w.retain r).bindHandle as_ r
        w.after old "bind" .ok
      else refused o w
    | none => refused o w
where
  refused (o : Obj) (w : World) : World :=
    let e := .typeMismatch Kind.greenlet.name (w.kindName o)
    let leaves := (catches.map not).getD w.frame.propagates
    ((w.raise e).note "bind" [e.datum]).push (if leaves then [.leave (.error e)] else [])

end Switchyard.World
