/-!
# The reentrant lock

One lock for all threads. The thread that holds it may take it again; it is free once every
guard was dropped.
-/

namespace Switchyard

/-- Threads are numbered from one; the owner zero is nobody. -/
abbrev ThreadId := Nat

structure Lock where
  owner : ThreadId := 0
  depth : Nat := 0
  deriving DecidableEq, Repr, Inhabited

namespace Lock

def isHeldBy (l : Lock) (t : ThreadId) : Bool := l.owner == t

/-- The depth as thread `t` sees it. -/
def depthFor (l : Lock) (t : ThreadId) : Nat := if l.isHeldBy t then l.depth else 0

/-- A thread that finds the lock taken by another has to wait. -/
def ensure? (l : Lock) (t : ThreadId) : Option Lock :=
  if l.isHeldBy t then some { l with depth := l.depth + 1 }
  else if l.owner = 0 then some ⟨t, 1⟩
  else none

def release (l : Lock) : Lock :=
  if l.depth = 1 then ⟨0, 0⟩ else { l with depth := l.depth - 1 }

end Lock

end Switchyard
