/-!
# Run states

A greenlet starts out unstarted, alternates between running and suspended, and ends dead.
-/

namespace Switchyard

inductive RunState where
  | unstarted | running | suspended | dead
  deriving DecidableEq, Repr, Inhabited

namespace RunState

def number : RunState → Nat
  | unstarted => 0 | running => 1 | suspended => 2 | dead => 3

/-- Numbers past the last state count as it. -/
def ofNumber : Nat → RunState
  | 0 => unstarted | 1 => running | 2 => suspended | _ => dead

def text : RunState → String
  | unstarted => "unstarted" | running => "running" | suspended => "suspended" | dead => "dead"

def debug : RunState → String
  | unstarted => "Unstarted" | running => "Running" | suspended => "Suspended" | dead => "Dead"

def isSwitchable : RunState → Bool
  | unstarted | suspended => true
  | _ => false

/-- The greenlet has a stack that was entered and has not ended. -/
def isActive : RunState → Bool
  | running | suspended => true
  | _ => false

def isDead : RunState → Bool
  | dead => true
  | _ => false

def canBecome : RunState → RunState → Bool
  | unstarted, running | unstarted, dead
  | running, suspended | running, dead
  | suspended, running | suspended, dead => true
  | _, _ => false

/-- What a request to become `next` leaves: the dead stay dead. -/
def moveTo (s next : RunState) : RunState := if s.isDead then s else next

theorem canBecome_irrefl (s : RunState) : s.canBecome s = false := by cases s <;> rfl

theorem dead_canBecome (s : RunState) : dead.canBecome s = false := by cases s <;> rfl

@[simp] theorem moveTo_dead (s : RunState) : s.moveTo dead = dead := by cases s <;> rfl

theorem eq_unstarted_of_moveTo {s next : RunState} (h : s.moveTo next = unstarted) :
    next = unstarted := by
  cases s <;> first | exact h | cases h

theorem ofNumber_number (s : RunState) : ofNumber s.number = s := by cases s <;> rfl

end RunState

end Switchyard
