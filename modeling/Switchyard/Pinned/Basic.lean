import Switchyard.Lock.Reentrant

/-!
# Pinned values

A value that only the thread that made it may use. Dropped elsewhere, it is leaked.
-/

namespace Switchyard

structure Pinned (α : Type) where
  owner : ThreadId
  value : α
  deriving DecidableEq, Repr, Inhabited

namespace Pinned

variable {α : Type}

def get? (p : Pinned α) (t : ThreadId) : Option α := if p.owner = t then some p.value else none

/-- What thread `t` destroys when it drops the value. -/
def dropOn (p : Pinned α) (t : ThreadId) : Option α := p.get? t

theorem get?_eq_some_iff {p : Pinned α} {t : ThreadId} {x : α} :
    p.get? t = some x ↔ p.owner = t ∧ p.value = x := by
  simp [get?]

end Pinned

end Switchyard
