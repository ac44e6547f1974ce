/-!
# Fibers

A fiber is one saved control stack. A control stack is a list of items, the work to do next first;
`Item.base` marks where a fiber's own stack ends and that of its resumer goes on. Suspending cuts
the stack at the topmost base, resuming puts the cut part back.
-/

namespace Switchyard

abbrev FiberId := Nat

inductive Item (τ : Type) where
  | task (t : τ)
  /-- The bottom of a fiber's stack; `forced` when the fiber is being unwound. -/
  | base (f : FiberId) (forced : Bool)
  deriving Inhabited

namespace Fiber

/-- Where the stack of a fiber is. -/
inductive Phase (τ : Type) where
  /-- Not entered: what an entry runs, and what drops the entry unrun. -/
  | fresh (entry discard : List τ)
  /-- On the control stack of its resumer. -/
  | active
  | parked (stack : List (Item τ))
  | ended
  /-- Taken away to be unwound, or given up. -/
  | taken
  deriving Inhabited

end Fiber

structure Fiber (τ : Type) where
  phase : Fiber.Phase τ
  /-- A suspension from inside is possible. -/
  armed : Bool := false
  cancelling : Bool := false
  started : Bool := false
  finished : Bool := false
  handles : Nat := 1
  deriving Inhabited

namespace Fiber

variable {τ : Type}

/-- A stack exists that somebody has to release. -/
def isLive (f : Fiber τ) : Bool := f.started && !f.finished

def isActive (f : Fiber τ) : Bool :=
  match f.phase with
  | .active => true
  | _ => false

/-- No stack can be suspended or resumed any more. -/
def settle (f : Fiber τ) : Fiber τ := { f with armed := false, finished := true }

def debug (f : Fiber τ) : String :=
  "Fiber \x7b started: " ++ toString f.started ++ ", finished: " ++ toString f.finished ++ " \x7d"

end Fiber

/-- The control stack of one thread beside the fibers, and the stacks that were given up. -/
structure Control (τ : Type) where
  stack : List (Item τ)
  fibers : Array (Fiber τ)
  lost : List (List (Item τ))
  deriving Inhabited

namespace Control

variable {τ : Type}

def empty : Control τ := ⟨[], #[], []⟩

/-- A bound on machine steps, far beyond any run that can be waited for. -/
def patience : Nat := 1000000000000000000000000000000

def push (ts : List τ) (c : Control τ) : Control τ :=
  { c with stack := ts.map .task ++ c.stack }

def modify (f : FiberId) (g : Fiber τ → Fiber τ) (c : Control τ) : Control τ :=
  { c with fibers := c.fibers.modify f g }

def fiberD (c : Control τ) (f : FiberId) : Fiber τ := c.fibers[f]?.getD { phase := .taken }

theorem fiberD_of_some {c : Control τ} {f : FiberId} {s : Fiber τ} (h : c.fibers[f]? = some s) :
    c.fiberD f = s := by
  simp [fiberD, h]

theorem getElem?_fibers {c : Control τ} {f : FiberId} (h : f < c.fibers.size) :
    c.fibers[f]? = some (c.fiberD f) := by
  simp [fiberD, Array.getElem?_eq_getElem h]

@[simp] theorem size_modify {c : Control τ} (f : FiberId) (u : Fiber τ → Fiber τ) :
    (c.modify f u).fibers.size = c.fibers.size := by
  simp [modify]

theorem fiberD_modify {c : Control τ} (f g : FiberId) (u : Fiber τ → Fiber τ) :
    (c.modify f u).fiberD g =
      if f = g ∧ g < c.fibers.size then u (c.fiberD g) else c.fiberD g := by
  unfold fiberD modify
  simp only [Array.getElem?_modify]
  by_cases h : f = g
  · by_cases hg : g < c.fibers.size
    · simp [h, hg]
    · simp [h, hg]
  · simp [h]

/-- A fiber with one handle. Nothing runs before the first resume. -/
def create (entry discard : List τ) (c : Control τ) : FiberId × Control τ :=
  (c.fibers.size, { c with fibers := c.fibers.push { phase := .fresh entry discard } })

/-- Enter or continue a fiber. A fiber that is on a control stack already is refused; one that
has no stack left is left alone. -/
def resume (f : FiberId) (c : Control τ) : Option (Control τ) :=
  match (c.fiberD f).phase with
  | .active => none
  | .fresh entry _ =>
    some { (c.modify f fun s => { s with phase := .active, armed := true, started := true }) with
      stack := entry.map .task ++ .base f false :: c.stack }
  | .parked stack =>
    some { (c.modify f fun s => { s with phase := .active }) with
      stack := stack ++ .base f false :: c.stack }
  | .ended | .taken => some c

/-- The items above the topmost base, that base, and the items below it. -/
def split : List (Item τ) → Option (List (Item τ) × FiberId × Bool × List (Item τ))
  | [] => none
  | .base f forced :: below => some ([], f, forced, below)
  | .task t :: rest =>
    (split rest).map fun (above, f, forced, below) => (.task t :: above, f, forced, below)

/-- Leave the topmost fiber, keeping its stack for a later resume. The stack of a fiber that is
being unwound is lost. -/
def suspend (c : Control τ) : Option (Control τ) :=
  (split c.stack).map fun (above, f, forced, below) =>
    if forced then { c with stack := below, lost := above :: c.lost }
    else { (c.modify f fun s => { s with phase := .parked above }) with stack := below }

/-- The base of `f` has come to the top: its entry is through. -/
def land (f : FiberId) (forced : Bool) (c : Control τ) : Control τ :=
  c.modify f fun s =>
    if forced then s.settle else { s.settle with phase := .ended }

/-- Drop the stack of `f`. An entry that never ran is discarded; a parked stack comes back on top
of the control stack, to be unwound from there, unless the thread is panicking: then it is lost.
The flag tells whether there is a stack to unwind. -/
def destroy (f : FiberId) (panicking : Bool) (c : Control τ) : Control τ × Bool :=
  let taken := c.modify f fun s => { s with phase := .taken }
  match (c.fiberD f).phase with
  | .fresh _ discard => (taken.push discard, false)
  | .parked stack =>
    if panicking then ({ taken with lost := stack :: c.lost }, false)
    else ({ taken with stack := stack ++ .base f true :: c.stack }, true)
  | .active => (c, false)
  | .ended | .taken => (taken, false)

/-- Give the stack of `f` up without running anything on it. -/
def abandon (f : FiberId) (c : Control τ) : Control τ :=
  let settled := c.modify f Fiber.settle
  match (c.fiberD f).phase with
  | .fresh _ discard =>
    { (settled.modify f fun s => { s with phase := .taken }) with
      lost := discard.map .task :: c.lost }
  | .parked stack =>
    { (settled.modify f fun s => { s with phase := .taken }) with lost := stack :: c.lost }
  | .active => settled
  | .ended | .taken => settled.modify f fun s => { s with phase := .taken }

def share (f : FiberId) (c : Control τ) : Control τ :=
  c.modify f fun s => { s with handles := s.handles + 1 }

/-- One handle less. Whoever drops the last one drops the stack. -/
def unshare (f : FiberId) (panicking : Bool) (c : Control τ) : Control τ × Bool :=
  let c := c.modify f fun s => { s with handles := s.handles - 1 }
  if (c.fiberD f).handles = 0 then
    (c.modify f fun s => { s with cancelling := true }).destroy f panicking
  else (c, false)

end Control

end Switchyard
