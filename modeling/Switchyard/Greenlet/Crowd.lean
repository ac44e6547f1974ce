import Mathlib.Logic.Function.Basic
import Switchyard.Greenlet.Id
import Switchyard.Lock.Reentrant

/-!
# Identifiers drawn by several threads

A call for a fresh identifier advances the source once, and once more when it has drawn the reserved
word. The other threads may advance the source in between.
-/

namespace Switchyard.IdSource

/-- The source and the threads that draw from it. -/
structure Crowd where
  source : IdSource := .start
  /-- The threads that have drawn the reserved word and are to draw again. -/
  redrawing : ThreadId → Bool := fun _ => false
  /-- What was handed out, the latest first. An identifier is handed out with the last advance of
  its call. -/
  handed : List GreenletId := []

namespace Crowd

/-- The next advance of a thread, in the call that it is in or else in a new one. -/
def draw (c : Crowd) (t : ThreadId) : Crowd :=
  let (w, s) := c.source.advance
  let again := w == 0xFFFFFFFF && !c.redrawing t
  { source := s
    redrawing := Function.update c.redrawing t again
    handed := if again then c.handed else ⟨w⟩ :: c.handed }

/-- What the threads come to that advance the source in this order. -/
def after (ts : List ThreadId) : Crowd := ts.foldl draw {}

def ids (ts : List ThreadId) : List GreenletId := (after ts).handed.reverse

end Crowd

end Switchyard.IdSource
