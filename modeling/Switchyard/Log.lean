import Switchyard.Setting

/-!
# Levelled log lines

The level and the flush flag are read from the environment at the first use, unless a level was
chosen before. A line is kept when its level is at most the level of the log.
-/

namespace Switchyard

inductive LogLevel where
  | off | error | warn | info | debug | trace
  deriving DecidableEq, Repr, Inhabited

namespace LogLevel

def number : LogLevel → Nat
  | off => 0 | error => 1 | warn => 2 | info => 3 | debug => 4 | trace => 5

/-- Numbers past the last level count as it. -/
def ofNumber : Nat → LogLevel
  | 0 => off | 1 => error | 2 => warn | 3 => info | 4 => debug | _ => trace

def name : LogLevel → String
  | off => "Off" | error => "Error" | warn => "Warn"
  | info => "Info" | debug => "Debug" | trace => "Trace"

def tag : LogLevel → String
  | off => ""
  | error => "[ERROR]"
  | warn => "[WARN] "
  | info => "[INFO] "
  | debug => "[DEBUG]"
  | trace => "[TRACE]"

/-- A level is written as its name in any case or as its number. -/
def parse? (s : String) : Option LogLevel :=
  match Text.lower (Text.trim s) with
  | "off" | "0" => some off
  | "error" | "1" => some error
  | "warn" | "2" => some warn
  | "info" | "3" => some info
  | "debug" | "4" => some debug
  | "trace" | "5" => some trace
  | _ => none

theorem ofNumber_number (l : LogLevel) : ofNumber l.number = l := by cases l <;> rfl

end LogLevel

def threadName (number : Nat) : String := "thread#" ++ toString number

structure LogLine where
  level : LogLevel
  thread : Nat
  message : String
  deriving DecidableEq, Repr

def LogLine.text (l : LogLine) : String :=
  l.level.tag ++ " " ++ threadName l.thread ++ " " ++ l.message

structure Log where
  /-- Once set, the environment is not looked at again. -/
  settled : Bool := false
  level : LogLevel := .warn
  flush : Bool := false
  lines : List LogLine := []
  deriving Inhabited

namespace Log

def flushVariable : String := "GREENLET_FLUSH_EPRINT"
def levelVariable : String := "GREENLET_LOG_LEVEL"

/-- Take the settings from the environment, unless that is done or was forestalled. -/
def settle (env : Environment) (log : Log) : Log :=
  if log.settled then log
  else { log with
    settled := true
    flush := (env.get flushVariable).flag false
    level := (env.get levelVariable).readD LogLevel.parse? log.level }

def setLevel (log : Log) (l : LogLevel) : Log := { log with settled := true, level := l }
def setFlush (log : Log) (b : Bool) : Log := { log with flush := b }

def enabled (log : Log) (l : LogLevel) : Bool := l.number ≤ log.level.number

/-- Write a line of a log whose settings are in place. -/
def write (log : Log) (line : LogLine) : Log :=
  if log.enabled line.level then { log with lines := line :: log.lines } else log

end Log

end Switchyard
