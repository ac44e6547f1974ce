import Switchyard.Rally
import Switchyard.Script.Ending
import Switchyard.Script.Step

/-!
# The machine

One step takes the task on top of the active thread's control stack and runs it. Five tasks are
signals for the task below them: the outcome of a switch, the early end of a frame, what an ended
frame received last, the result of a run function, and a panic. A task that a signal does not
concern is cleaned up, and the signal goes on.
-/

namespace Switchyard

/-- What is left to do for a task that will not run. -/
def Task.cleanup : Task → List Task
  | drop r => [drop r]
  | dropCanary c => [dropCanary c]
  | dropPinned p => [dropPinned p]
  | destroy r => [destroy r]
  | reclaim _ | unlock => [unlock]
  | unshare f => [unshare f]
  | leaveHub h => [leaveHub h]
  | dropHubFields h => [dropHubFields h]
  | teardownEnd _ main _ => [drop main]
  | release _ r | released _ r => [drop r]
  | switch _ _ p | deliver p | result p => dropPayload p
  | answer (.ok a) => dropArgs a
  | drive _ target p => dropPayload p ++ [drop target]
  | driveTarget h target p | driveKilled h target p | driveMain h target p =>
    endDriving h :: dropPayload p ++ [drop target]
  | driveRefused h target _ => [endDriving h, drop target]
  | driveRegister h target f | driveResume h target f | driveBack h target f =>
    [unshare f, endDriving h, drop target]
  | driveFinished h target out | driveSuspended h target out =>
    dropOutgoing out ++ [endDriving h, drop target]
  | endDriving h => [endDriving h]
  | runBody run args => dropRun run ++ dropArgs args
  | bodyEnd run => dropRun run
  | frame f => f.locals.filterMap dropLocal ++ dropArgs f.last
  | leave flow => dropFlow flow
  | hand last flow => dropArgs last ++ dropFlow flow
  | build acc _ _ purpose =>
    dropArgs acc ++ match purpose with
      | .switch target _ _ => [drop target]
      | _ => []
  | switched _ target _ => [drop target]
  | rally r => r.drops
  | _ => []

namespace World

/-- The result of a body that ended with `flow`. -/
def bodyResult : Flow → Payload
  | .through => .ok .empty
  | .ret a => .ok a
  | .error e => .error (.ofError e)

def runBody (run : RunFn) (args : Args Obj) (w : World) : World :=
  match run with
  | .script body _ _ =>
    let w := w.event "start" [.text body, w.argsDatum args]
    w.push [.steps ((w.bodies.lookup body).getD []),
      .frame { last := args, propagates := true }, .bodyEnd run]
  | .pong main => w.push [.rally (.hit main args)]
  | .ping pong =>
    let rounds := (w.number? args).getD 0
    w.push [.rally (.serve pong args rounds rounds 0)]

/-- The locals of a frame are dropped, the latest first. -/
def endFrame (f : Frame) (flow : Flow) (w : World) : World :=
  w.push (f.locals.filterMap Task.dropLocal ++ [.hand f.last flow])

def uncaught (d : Datum) (w : World) : World := w.event "uncaught" [d]

-- Each takes the task that lies below the signal, which is no longer on the stack.
def pass (t signal : Task) (w : World) : World := w.push (t.cleanup ++ [signal])

def answer (outcome : Except SwitchError (Args Obj)) (t : Task) (w : World) : World :=
  match t with
  | .switched name target catches => w.switched name target catches outcome
  | .rally r => r.answered outcome w
  | t => w.pass t (.answer outcome)

/-- The error that ends a thread is written before the frame goes. -/
def leave (flow : Flow) (t : Task) (w : World) : World :=
  match t, flow with
  | .frame f, flow =>
    match flow, w.thread.stack with
    | .error e, .task .rootEnd :: _ => (w.uncaught e.datum).endFrame f flow
    | _, _ => w.endFrame f flow
  | .mainGuard, .error e => w.uncaught e.datum
  | .dropEnd name, flow => w.push (Task.dropFlow flow ++ [.dropEnd name])
  | t, flow => w.pass t (.leave flow)

def hand (last : Args Obj) (flow : Flow) (t : Task) (w : World) : World :=
  match t with
  | .nestEnd how => w.nestEnd how last flow
  | .bodyEnd run =>
    w.push (Task.dropArgs last ++ Task.dropRun run ++ [.result (bodyResult flow)])
  | .rootEnd => w.push (Task.dropArgs last ++ Task.dropFlow flow)
  | t => w.pass t (.hand last flow)

def result (p : Payload) (t : Task) (w : World) : World :=
  match t with
  | .entry h f => w.postResult h f p
  | t => w.pass t (.result p)

/-- A panic meets a task. A fiber that is not being unwound turns it into its result. -/
def failTask (p : Panic) (t : Task) (w : World) : World :=
  match t with
  | .nestEnd (.attemptPanic again) =>
    let w := w.calm.note (Script.nestingName (.attemptPanic again)) [panicDatum p]
    if again then w.fail p else w
  | .mainGuard => w.calm.uncaught (panicDatum p)
  | .entry h f =>
    if (w.fiberD f).cancelling then w.push [.fail p]
    else w.calm.postResult h f (.error (.ofPanic p))
  | .exitThread => (w.calm.modifyThread fun t => { t with panicked := some p }).exitThread
  | t => w.pass t (.fail p)

/-- A panic meets the bottom of a fiber. The order to unwind ends there. -/
def failBase (p : Panic) (f : FiberId) (forced : Bool) (w : World) : World :=
  let w := w.setControl (w.control.land f forced)
  if p = .cancel then w.calm else w.push [.fail p]

/-- Give the item below a signal to `run`. -/
def signal (run : Task → World → World) (w : World) : World :=
  match w.thread.stack with
  | .task t :: below => run t (w.setStack below)
  | _ => w

def fault (p : Panic) (w : World) : World :=
  match w.thread.stack with
  | [] => w
  | .task t :: below => failTask p t (w.setStack below)
  | .base f forced :: below => failBase p f forced (w.setStack below)

def runTask (t : Task) (w : World) : World :=
  match t with
  | .drop r => w.drop r
  | .dropCanary c => w.dropCanary c
  | .dropPinned p => w.dropPinned p
  | .destroy r => w.destroy r
  | .reclaim r => w.reclaim r
  | .unlock => w.unlock
  | .unshare f => w.unshare f
  | .settle f => w.modifyFiber f Fiber.settle
  | .leaveHub h => w.leaveHub h
  | .dropHubFields h => w.dropHubFields h
  | .release h r => w.release h r
  | .released h r => w.released h r
  | .drain h => w.drain h
  | .teardown h => w.teardown h
  | .teardownQueues h n => w.teardownQueues h n
  | .teardownCurrent h n => w.teardownCurrent h n
  | .teardownEnd h main n => w.teardownEnd h main n
  | .switch h target p => w.switch h target p
  | .deliver p => w.deliver p
  | .suspend h f => w.suspend h f
  | .resumed h => w.resumed h
  | .refuse e => w.refuse e
  | .answer outcome => w.signal (answer outcome)
  | .drive h target p => w.drive h target p
  | .driveTarget h target p => w.driveTarget h target p
  | .driveKilled h target p => w.driveKilled h target p
  | .driveRefused h target e => w.driveRefused h target e
  | .driveRegister h target f => w.driveRegister h target f
  | .driveResume h target f => w.driveResume h target f
  | .driveBack h target f => w.driveBack h target f
  | .driveFinished h target out => w.driveFinished h target out
  | .driveSuspended h target out => w.driveSuspended h target out
  | .driveMain h target p => w.driveMain h target p
  | .endDriving h => w.endDriving h
  | .runBody run args => w.runBody run args
  | .bodyEnd run => w.push (Task.dropRun run)
  | .result p => w.signal (result p)
  | .entry _ _ => w
  | .steps rest => w.runSteps rest
  | .mainSteps rest => w.runMainSteps rest
  | .mainGuard => w
  | .loop n steps => w.runLoop n steps
  | .frame f => w.endFrame f .through
  | .leave flow => w.signal (leave flow)
  | .hand last flow => w.signal (hand last flow)
  | .nestEnd _ => w
  | .dropEnd name => w.event "drop_end" [.text name]
  | .rootEnd => w
  | .note name result => w.note name result
  | .build acc positional keywords purpose => w.build acc positional keywords purpose
  | .switched _ target _ => w.push [.drop target]
  | .sortFrom n => w.sortFrom n
  | .join t => w.joinThread t
  | .endHandles => w.endHandles
  | .endHandle name => w.endHandle name
  | .endObjects => w.endObjects
  | .endOuts => w.endOuts
  | .endStats => w.endStats
  | .endHubs => w.endHubs
  | .exitThread => w.exitThread
  | .exitSlots => w.exitSlots
  | .rally r => r.run w
  | .fail p => w.fault p

/-- The machine stops when the first thread has nothing left to do, and where a thread would wait
for the lock of another that cannot go on. -/
def isHalted (w : World) : Bool :=
  match w.thread.stack with
  | [] => w.active ≤ 1
  | .task (.destroy _) :: _ => !w.canLock
  | _ => false

/-- The world after the item on top of the active thread's stack. A thread with nothing left to do
hands over to the thread that waits for it. -/
def next (w : World) : World :=
  match w.thread.stack with
  | [] => { w with active := w.thread.parent }
  | .base f forced :: below =>
    let w := w.setStack below
    w.setControl (w.control.land f forced)
  | .task t :: below => (w.setStack below).runTask t

def step (w : World) : Option World := if w.isHalted then none else some w.next

def run : Nat → World → World
  | 0, w => w
  | fuel + 1, w => if w.isHalted then w else run fuel w.next

def runToEnd (w : World) : World := w.run Control.patience

theorem step_eq_none_iff {w : World} : w.step = none ↔ w.isHalted = true := by
  simp [step]

theorem run_of_isHalted {w : World} (h : w.isHalted = true) (fuel : Nat) : w.run fuel = w := by
  cases fuel <;> simp [run, h]

theorem run_succ_of_step {w v : World} (h : w.step = some v) (fuel : Nat) :
    w.run (fuel + 1) = v.run fuel := by
  by_cases hw : w.isHalted = true
  · simp [step, hw] at h
  · simp only [step, hw, Bool.false_eq_true, if_false, Option.some.injEq] at h
    simp [run, hw, h]

end World

end Switchyard
