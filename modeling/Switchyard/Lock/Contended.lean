import Switchyard.Lock.Reentrant

/-!
# The lock under contention

The owner and the depth of the lock are two words of memory. Taking the lock, dropping a guard and
asking about the lock read and write them one at a time, and between two accesses of one thread the
others may go on.
-/

namespace Switchyard.Lock

/-- The access that a thread makes next. -/
inductive Stage where
  | idle
  /-- Taking the lock: read the owner. -/
  | checking
  /-- The lock was another's: exchange the owner nobody for oneself. -/
  | claiming
  /-- The lock has become one's own: write the depth. -/
  | claimed
  /-- The lock was one's own before: add one to the depth. -/
  | deepening
  /-- A guard goes: take one from the depth. -/
  | leaving
  /-- It was the last one: write the owner nobody. -/
  | freeing
  /-- Asking whether the lock is one's own: read the owner. -/
  | asking
  /-- Asking for the depth: read the owner. -/
  | measuring
  /-- The lock is one's own: read the depth. -/
  | reading
  | heldAnswer (b : Bool)
  | depthAnswer (n : Nat)
  deriving DecidableEq, Repr, Inhabited

/-- The stage is one of an operation that changes the lock. -/
def Stage.isBusy : Stage → Bool
  | checking | claiming | claimed | deepening | leaving | freeing => true
  | _ => false

/-- A thread that uses the lock. Guards carry nothing, so which of them is dropped first makes no
difference. -/
structure Rival where
  stage : Stage := .idle
  guards : Nat := 0
  deriving DecidableEq, Repr, Inhabited

/-- The lock and all threads that use it. -/
structure Contest where
  lock : Lock := {}
  rivals : ThreadId → Rival := fun _ => {}

inductive Call where
  | ensure
  | dropGuard
  | isHeld
  | depth
  deriving DecidableEq, Repr, Inhabited

namespace Contest

def put (t : ThreadId) (r : Rival) (c : Contest) : Contest :=
  { c with rivals := fun u => if u = t then r else c.rivals u }

def turn (t : ThreadId) (s : Stage) (c : Contest) : Contest :=
  c.put t { c.rivals t with stage := s }

/-- Begin an operation. Only a guard that one has can be dropped. -/
def call (t : ThreadId) (k : Call) (c : Contest) : Option Contest :=
  match k, (c.rivals t).guards with
  | .ensure, _ => some (c.turn t .checking)
  | .dropGuard, 0 => none
  | .dropGuard, n + 1 => some (c.put t ⟨.leaving, n⟩)
  | .isHeld, _ => some (c.turn t .asking)
  | .depth, _ => some (c.turn t .measuring)

def proceed (t : ThreadId) (c : Contest) : Contest :=
  let n := (c.rivals t).guards
  match (c.rivals t).stage with
  | .idle => c
  | .checking => c.turn t (if c.lock.isHeldBy t then .deepening else .claiming)
  | .claiming => if c.lock.owner = 0 then { c with lock.owner := t }.turn t .claimed else c
  | .claimed => { c with lock.depth := 1 }.put t ⟨.idle, n + 1⟩
  | .deepening => { c with lock.depth := c.lock.depth + 1 }.put t ⟨.idle, n + 1⟩
  | .leaving =>
    { c with lock.depth := c.lock.depth - 1 }.turn t
      (if c.lock.depth = 1 then .freeing else .idle)
  | .freeing => { c with lock.owner := 0 }.turn t .idle
  | .asking => c.turn t (.heldAnswer (c.lock.isHeldBy t))
  | .measuring => c.turn t (if c.lock.isHeldBy t then .reading else .depthAnswer 0)
  | .reading => c.turn t (.depthAnswer c.lock.depth)
  | .heldAnswer _ | .depthAnswer _ => c.turn t .idle

/-- What the threads come to, each at its own pace. An exchange of the owner may fail for no reason
and is tried again. -/
inductive Reached : Contest → Prop where
  | start : Reached {}
  | call {c c' : Contest} {t : ThreadId} {k : Call} (h : Reached c) (ht : t ≠ 0)
      (hi : (c.rivals t).stage = .idle) (hc : c.call t k = some c') : Reached c'
  | proceed {c : Contest} {t : ThreadId} (h : Reached c) (ht : t ≠ 0)
      (hi : (c.rivals t).stage ≠ .idle) : Reached (c.proceed t)
  | misfire {c : Contest} {t : ThreadId} (h : Reached c)
      (hi : (c.rivals t).stage = .claiming) : Reached c

end Contest

end Switchyard.Lock
