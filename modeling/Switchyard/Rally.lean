import Switchyard.World.Switch

/-!
# The rally program

Two greenlets play ball by way of the original stack: ping serves to pong, pong hands the ball to
the original stack, and that hands it back to ping.
-/

namespace Switchyard

namespace World

def print (line : String) (w : World) : World := { w with printed := line :: w.printed }

/-- The number that was received first. -/
def number? (w : World) (a : Args Obj) : Option Int64 :=
  match (a.get? 0).join.map w.valueD with
  | some (.i64 n) => some n
  | _ => none

def keywordNumber? (w : World) (name : String) (a : Args Obj) : Option Int64 :=
  match (a.keyword? name).join.map w.valueD with
  | some (.i64 n) => some n
  | _ => none

/-- Arguments of one number. -/
def numberArgs (n : Int64) (w : World) : Args Obj × World :=
  let (r, w) := w.alloc (.i64 n)
  (⟨[some r], []⟩, w)

end World

namespace Rally

open World

def shown : Option Int64 → String
  | some n => "Some(" ++ toString n.toInt ++ ")"
  | none => "None"

/-- Switch on the thread's hub and go on with `next`. -/
def call (target : Ref) (p : Payload) (next : Rally) (w : World) : World :=
  match w.homeHub with
  | (.ok h, w) => (w.holdHub h).push [.switch h target p, .leaveHub h, .rally next]
  | (.error e, w) => w.push (Task.dropPayload p ++ [.answer (.error e), .rally next])

def drops : Rally → List Task
  | start _ => []
  | relayed main pong ping => [.drop ping, .drop pong, .drop main]
  | stopped main pong ping reply =>
    Task.dropArgs reply ++ [.drop ping, .drop pong, .drop main]
  | hit main args | hitBack main args => Task.dropArgs args ++ [.drop main]
  | serve pong args .. | served pong args .. => Task.dropArgs args ++ [.drop pong]

def begin (rounds : Int64) (w : World) : World :=
  let w := (w.print "=== Greenlet Ping-Pong ===").print ""
  match w.homeHub with
  | (.error _, w) => w
  | (.ok h, w) =>
    let main := (w.hub h).current
    let w := (w.retain main).retain main
    match w.createGreenlet h (.pong main) none with
    | (.error _, w) => w.push [.drop main, .drop main]
    | (.ok pong, w) =>
      let w := w.retain pong
      match w.createGreenlet h (.ping pong) none with
      | (.error _, w) => w.push [.drop pong, .drop pong, .drop main]
      | (.ok ping, w) =>
        let (a, w) := w.numberArgs rounds
        call ping (.ok a) (relayed main pong ping) w

/-- The original stack has the ball, or the final count. -/
def relay (main pong ping : Ref) (a : Args Obj) (w : World) : World :=
  let ball := shown (w.number? a)
  if (w.greenlet ping).state.isDead then
    let rounds := shown (w.keywordNumber? "rounds" a)
    let w := (w.print "").print ("final ball: " ++ ball ++ " after " ++ rounds ++ " rounds")
    call pong (.error .exit) (stopped main pong ping a) w
  else
    call ping (.ok a) (relayed main pong ping) (w.print ("main relays " ++ ball))

def finish (pong : Ref) (w : World) : World :=
  let w := w.print ("pong dead: " ++ toString (w.greenlet pong).state.isDead)
  match w.homeHub with
  | (.error _, w) => w
  | (.ok h, w) =>
    let s := (w.hub h).stats
    let counts := "switches=" ++ toString s.switches ++ " started=" ++ toString s.started ++
      " finished=" ++ toString s.finished
    ((w.print counts).print "").print "=== Example Complete ==="

/-- Go on without an answer. -/
def run (r : Rally) (w : World) : World :=
  match r with
  | start rounds => begin rounds w
  | hit main args =>
    let n := (w.number? args).getD 0
    let w := w.write .info ("pong got " ++ toString n.toInt)
    let (a, w) := w.numberArgs (n + 1)
    call main (.ok a) (hitBack main args) w
  | serve pong args rounds left ball =>
    if left ≤ 0 then
      let (a, w) := w.numberArgs ball
      let (r, w) := w.alloc (.i64 rounds)
      let p : Payload := .ok (a.setKeyword "rounds" (some r))
      w.push (Task.dropArgs args ++ [.drop pong, .result p])
    else
      let (a, w) := w.numberArgs ball
      call pong (.ok a) (served pong args rounds (left - 1) ball) w
  | r => w.push r.drops

/-- Go on with the outcome of a switch. -/
def answered (r : Rally) (outcome : Except SwitchError (Args Obj)) (w : World) : World :=
  match r, outcome with
  | relayed main pong ping, .ok a => relay main pong ping a w
  | stopped main pong ping reply, .ok a =>
    (finish pong w).push (Task.dropArgs a ++ (stopped main pong ping reply).drops)
  | hitBack main args, .ok a => w.push (Task.dropArgs args ++ [.rally (hit main a)])
  | served pong args rounds left ball, .ok a =>
    let ball := (w.number? a).getD ball
    w.push (Task.dropArgs a ++ [.rally (serve pong args rounds left ball)])
  | hitBack .., .error e | served .., .error e =>
    w.push (r.drops ++ [.result (.error (.ofError e))])
  | r, .ok a => w.push (Task.dropArgs a ++ r.drops)
  | r, .error _ => w.push r.drops

end Rally

end Switchyard
