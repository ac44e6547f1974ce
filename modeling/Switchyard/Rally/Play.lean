import Switchyard.Log.Session
import Switchyard.Machine

/-!
# Playing a rally

The number of rounds comes from the environment.
-/

namespace Switchyard.Rally

def roundsVariable : String := "PINGPONG_ROUNDS"

def rounds (env : Environment) : Int64 :=
  Int64.ofInt ((env.get roundsVariable).readD (Text.integer (.signed 64)) 5)

def play (env : Environment) : World :=
  ((World.fresh env).push [.rally (.start (rounds env)), .exitThread]).runToEnd

def lines (w : World) : List String := w.printed.reverse

def transcript (env : Environment) : Datum :=
  let w := play env
  .record [("code", .int 0), ("stdout", .texts (lines w)), ("stderr", .texts w.log.output)]

end Switchyard.Rally
