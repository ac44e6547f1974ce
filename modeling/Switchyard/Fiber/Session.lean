import Switchyard.Datum
import Switchyard.Failure
import Switchyard.Fiber.Basic
import Switchyard.Table

/-!
# Fiber sessions

A small language whose bodies run on fibers: nested frames that own marks, suspensions, panics
and catches. The outer steps run on the original stack. Everything that happens goes into a log.
-/

namespace Switchyard.Fiber.Session

inductive Step where
  | create (f body : String) (mark : Option String)
  | resume (f : String)
  | status (f : String)
  | info (f : String)
  | unwind (f : String)
  | abandon (f : String)
  | share (f other : String)
  | drop (f : String)
  | suspendOutside (f : String)
  | suspend
  | cancelling
  | mark (m : String)
  | pop
  | panic (x : String)
  | leave
  | call (steps : List Step)
  | guard (pass : Bool) (steps : List Step)
  | other (name : String)
  deriving Inhabited

def Step.name : Step → String
  | create .. => "new"
  | resume _ => "resume"
  | status _ => "status"
  | info _ => "info"
  | unwind _ => "unwind"
  | abandon _ => "abandon"
  | share .. => "clone"
  | drop _ => "drop"
  | suspendOutside _ => "suspend_out"
  | suspend => "suspend"
  | cancelling => "cancelling"
  | mark _ => "mark"
  | pop => "pop"
  | panic _ => "panic"
  | leave => "return"
  | call _ => "call"
  | guard pass _ => if pass then "catch_pass" else "catch"
  | other name => name

inductive Task where
  | steps (rest : List Step)
  | outer (rest : List Step)
  /-- The end of a frame of a body on fiber `f`, with its marks, the last one first. -/
  | frame (f : FiberId) (marks : List String)
  | note (inside : Bool) (name : String) (result : Datum)
  | status (inside : Bool) (name : String) (f : FiberId)
  | guardEnd (pass : Bool)
  | outerEnd (name : String)
  | dropMark (f : FiberId) (m : String)
  | dropHandle (f : FiberId)
  | settle (f : FiberId)
  | dropAll
  | leave
  | fail (p : Panic)
  deriving Inhabited

end Session

structure Session where
  control : Control Session.Task
  bodies : List (String × List Session.Step)
  table : Table FiberId
  /-- Panics under way on the thread. -/
  panics : Nat
  log : List Datum

namespace Session

def push (ts : List Task) (s : Session) : Session := { s with control := s.control.push ts }

def write (s : Session) (d : Datum) : Session := { s with log := d :: s.log }

def entry (inside : Bool) (name : String) (result : Datum) : Datum :=
  .list [.text (if inside then "in" else "out"), .text name, result]

/-- The text of a scripted panic, which starts with `P:`; any other panic is nameless. -/
def panicText (p : Panic) : String :=
  match p with
  | .text s => if s.startsWith "P:" then s else "other"
  | _ => "other"

/-- Bind `name`; the fiber it named before loses a handle. -/
def bind (name : String) (f : FiberId) (s : Session) : Session × List Task :=
  ({ s with table := s.table.insert name f },
    ((s.table.find? name).map Task.dropHandle).toList)

def frame? : List (Item Task) → Option (FiberId × List String)
  | [] => none
  | .task (.frame f marks) :: _ => some (f, marks)
  | _ :: rest => frame? rest

def setMarks (marks : List String) : List (Item Task) → List (Item Task)
  | [] => []
  | .task (.frame f _) :: rest => .task (.frame f marks) :: rest
  | i :: rest => i :: setMarks marks rest

def withMarks (marks : List String) (s : Session) : Session :=
  { s with control := { s.control with stack := setMarks marks s.control.stack } }

def statusText (f : Fiber Task) : String := if f.finished then "finished" else "suspended"

def infoDatum (f : Fiber Task) : Datum :=
  .list [.bool f.started, .bool f.finished, .bool f.isLive, .text f.debug]

/-- Put a stack that has to be unwound under way. -/
def startUnwind (r : Control Task × Bool) (s : Session) : Session :=
  let s := { s with control := r.1 }
  if r.2 then { s.push [.fail .cancel] with panics := s.panics + 1 } else s

def fail (p : Panic) (s : Session) : Session :=
  { s.push [.fail p] with panics := s.panics + 1 }

def runNamed (inside : Bool) (st : Step) (name : String) (s : Session) : Session :=
  let note (d : Datum) : Task := .note inside st.name d
  match s.table.find? name with
  | none => s.push [note (.text "no such fiber")]
  | some f =>
    let c := s.control
    match st with
    | .resume _ =>
      let c := (c.share f).push [.dropHandle f, .status inside st.name f]
      let s := { s with control := c }
      match s.control.resume f with
      | some c => { s with control := c }
      | none => s.fail (.text "already resumed")
    | .status _ => s.push [note (.text (statusText (c.fiberD f)))]
    | .info _ => s.push [note (infoDatum (c.fiberD f))]
    | .unwind _ =>
      let after := if (c.fiberD f).isActive then [] else [Task.settle f]
      let c := (c.share f).modify f fun s => { s with cancelling := true }
      let c := c.push (after ++ [.dropHandle f, note .ok])
      startUnwind (c.destroy f (s.panics > 0)) s
    | .abandon _ => { s with control := (c.abandon f).push [note .ok] }
    | .share _ other =>
      let (s, old) := bind other f { s with control := c.share f }
      s.push (old ++ [note .ok])
    | .suspendOutside _ =>
      s.push [note (if (c.fiberD f).isLive then .null else .bool false)]
    | _ => s.push [note .null]

def runShared (inside : Bool) (st : Step) (s : Session) : Session :=
  match st with
  | .create name body mark =>
    let marks := mark.toList
    let steps := (s.bodies.lookup body).getD []
    let f := s.control.fibers.size
    let (_, c) := s.control.create
      ([.steps steps, .frame f []] ++ marks.map (.dropMark f)) (marks.map (.dropMark f))
    let (s, old) := bind name f { s with control := c }
    s.push (old ++ [.note inside st.name .null])
  | .drop name =>
    match s.table.find? name with
    | none => s.push [.note inside st.name (.bool false)]
    | some f =>
      { s with table := s.table.erase name }.push
        [.dropHandle f, .note inside st.name (.bool true)]
  | .resume n | .status n | .info n | .unwind n | .abandon n | .share n _ | .suspendOutside n =>
    runNamed inside st n s
  | _ => s.push [.note inside st.name .null]

/-- One step of a body. -/
def runInside (st : Step) (s : Session) : Session :=
  let (f, marks) := (frame? s.control.stack).getD (0, [])
  match st with
  | .suspend =>
    if (s.control.fiberD f).armed then
      let waiting := s.push [.note true st.name (.bool true)]
      match waiting.control.suspend with
      | some c => { s with control := c }
      | none => s.fail .opaqueValue
    else s.push [.note true st.name (.bool false)]
  | .cancelling => s.push [.note true st.name (.bool (s.control.fiberD f).cancelling)]
  | .mark m => (s.withMarks (m :: marks)).push [.note true st.name .null]
  | .pop =>
    match marks with
    | [] => s.push [.note true st.name .null]
    | m :: rest => (s.withMarks rest).push [.dropMark f m, .note true st.name .null]
  | .panic x => s.fail (.text ("P:" ++ x))
  | .leave => s.push [.leave]
  | .call steps => s.push [.steps steps, .frame f [], .note true st.name .null]
  | .guard pass steps =>
    s.push [.steps steps, .frame f [], .guardEnd pass]
  | _ => runShared true st s

def caught (p : Panic) (cancelling : Bool) : Datum :=
  .list [.text (panicText p), .bool cancelling]

def guardName (pass : Bool) : String := if pass then "catch_pass" else "catch"

/-- A panic meets the task on top of the stack. -/
def unwindTask (p : Panic) (t : Task) (s : Session) : Session :=
  match t with
  | .frame f marks => s.push (marks.map (.dropMark f) ++ [.fail p])
  | .dropMark f m => s.push [.dropMark f m, .fail p]
  | .dropHandle f => s.push [.dropHandle f, .fail p]
  | .guardEnd pass =>
    let f := ((frame? s.control.stack).getD (0, [])).1
    let cancelling := (s.control.fiberD f).cancelling
    if pass && cancelling then
      (s.write (.list [.text "passing", caught p cancelling])).push [.fail p]
    else
      { s.push [.note true (guardName pass) (caught p cancelling)] with panics := s.panics - 1 }
  | .outerEnd name =>
    { s.write (entry false name (.record [("panic", .text (panicText p))])) with
      panics := s.panics - 1 }
  | _ => s.push [.fail p]

def runTask (t : Task) (s : Session) : Session :=
  match t with
  | .steps [] => s
  | .steps (st :: rest) => runInside st (s.push [.steps rest])
  | .outer [] => s
  | .outer (st :: rest) => runShared false st (s.push [.outerEnd st.name, .outer rest])
  | .frame f marks => s.push (marks.map (.dropMark f))
  | .note inside name result => s.write (entry inside name result)
  | .status inside name f =>
    s.write (entry inside name (.text (statusText (s.control.fiberD f))))
  | .guardEnd pass => s.write (entry true (guardName pass) (.text "no panic"))
  | .outerEnd _ => s
  | .dropMark _ m => s.write (.list [.text "drop", .text m])
  | .dropHandle f => startUnwind (s.control.unshare f (s.panics > 0)) s
  | .settle f => { s with control := s.control.modify f Fiber.settle }
  | .dropAll =>
    match s.table.pop? with
    | none => s
    | some ((name, f), rest) =>
      ({ s with table := rest }.write (.list [.text "end", .text name])).push
        [.dropHandle f, .dropAll]
  | .leave =>
    match s.control.stack with
    | .task (.steps _) :: below => { s with control := { s.control with stack := below } }
    | _ => s
  | .fail p =>
    match s.control.stack with
    | [] => s
    | .task t :: below => unwindTask p t { s with control := { s.control with stack := below } }
    | .base f forced :: below =>
      let s := { s with control := { s.control with stack := below }.land f forced }
      match p with
      | .cancel => { s with panics := s.panics - 1 }
      | p => s.push [.fail p]

/-- One step of the machine; nothing is left to do on an empty stack. -/
def step (s : Session) : Option Session :=
  match s.control.stack with
  | [] => none
  | .task t :: below => some (runTask t { s with control := { s.control with stack := below } })
  | .base f forced :: below =>
    some { s with control := { s.control with stack := below }.land f forced }

def run : Nat → Session → Session
  | 0, s => s
  | fuel + 1, s =>
    match s.step with
    | none => s
    | some s => run fuel s

def start (bodies : List (String × List Step)) (steps : List Step) : Session where
  control := Control.empty.push [.outer steps, .dropAll]
  bodies := bodies
  table := .empty
  panics := 0
  log := []

def transcript (bodies : List (String × List Step)) (steps : List Step) : List Datum :=
  (run Control.patience (start bodies steps)).log.reverse

end Session

end Switchyard.Fiber
