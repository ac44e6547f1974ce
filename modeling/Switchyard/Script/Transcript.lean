import Switchyard.Log.Session
import Switchyard.Machine

/-!
# Transcripts of scripts

A script from a fresh process to the exit of its first thread, as the list of its events.
-/

namespace Switchyard.Script

def start (env : Environment) (bodies : List (String × List Step)) (main : List Step)
    (fuel : Nat) : World :=
  { World.fresh env with bodies, fuel }.push
    [.mainSteps main, .frame { summarised := true }, .rootEnd, .endHandles, .endObjects,
      .endOuts, .endStats, .endHubs, .exitThread]

/-- The events, those of the exit of the first thread apart, and the log if it is asked for. -/
def transcript (env : Environment) (bodies : List (String × List Step)) (main : List Step)
    (fuel : Nat) (logged : Bool) : Datum :=
  let w := (start env bodies main fuel).runToEnd
  let events := w.events.reverse
  let n := w.exitFrom.getD events.length
  .record ([("events", .list (events.take n)), ("exit", .list (events.drop n))] ++
    if logged then [("stderr", .texts w.log.output)] else [])

end Switchyard.Script
