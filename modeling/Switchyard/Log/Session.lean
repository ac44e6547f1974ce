import Switchyard.Datum
import Switchyard.Log
import Switchyard.Text.Lines

/-!
# Log sessions

Commands on the log of one process, each by one of its threads. A thread gets its number at its
first written line.
-/

namespace Switchyard

namespace Log

/-- The lines of the error stream, in the order they were written. -/
def output (log : Log) : List String :=
  Text.lines (String.join (log.lines.reverse.map fun l => l.text ++ "\n"))

end Log

def LogLevel.datum (l : LogLevel) : Datum := .list [.text l.name, .nat l.number, .text l.tag]

namespace Log.Session

inductive Command where
  | init
  | setLevel (l : LogLevel)
  | setFlush (b : Bool)
  | level
  | flush
  | enabled (l : LogLevel)
  | emit (l : LogLevel) (message : String)
  | setVariable (name : String) (s : Setting)
  /-- An error from a thread that ends with it. -/
  | onThread (message : String)
  | other
  deriving Inhabited

structure Call where
  thread : Nat
  command : Command

end Log.Session

structure Log.Session where
  env : Environment
  log : Log := {}
  /-- The numbers of the threads that have written. -/
  numbers : List (Nat × Nat) := []
  nextThread : Nat := 1

namespace Log.Session

def settle (s : Session) : Session := { s with log := s.log.settle s.env }

def write (s : Session) (thread : Option Nat) (level : LogLevel) (message : String) : Session :=
  let s := s.settle
  if s.log.enabled level then
    let number := (thread.bind fun t => s.numbers.lookup t).getD s.nextThread
    { s with
      log := s.log.write ⟨level, number, message⟩
      numbers := match thread with
        | some t => (t, number) :: s.numbers
        | none => s.numbers
      nextThread := max s.nextThread (number + 1) }
  else s

def step (s : Session) (c : Call) : Datum × Session :=
  match c.command with
  | .init => (.null, s.settle)
  | .setLevel l => (.null, { s with log := s.log.setLevel l })
  | .setFlush b => (.null, { s with log := s.log.setFlush b })
  | .level => let s := s.settle; (s.log.level.datum, s)
  | .flush => let s := s.settle; (.bool s.log.flush, s)
  | .enabled l => let s := s.settle; (.bool (s.log.enabled l), s)
  | .emit l message => (.null, s.write (some c.thread) l message)
  | .setVariable name v => (.null, { s with env := s.env.set name v })
  | .onThread message => (.null, s.write none .error message)
  | .other => (.null, s)

def runAll (s : Session) : List Call → List Datum × Session
  | [] => ([], s)
  | c :: cs =>
    let (d, s) := s.step c
    let (ds, s) := runAll s cs
    (d :: ds, s)

def transcript (env : Environment) (cs : List Command) : Datum :=
  let (out, s) := runAll { env } (cs.map (⟨0, ·⟩))
  .record [("out", .list out), ("stderr", .texts s.log.output)]

end Log.Session

end Switchyard
