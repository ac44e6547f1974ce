import Switchyard.Args
import Switchyard.Fiber.Basic
import Switchyard.Greenlet.RunState
import Switchyard.Lock.Reentrant
import Switchyard.Log
import Switchyard.Pinned.Basic
import Switchyard.Script.Syntax
import Switchyard.Table

/-!
# The world

Host objects with counted references, greenlets among them; one hub for each thread state; the
threads with their control stacks; and what scripts share. A control stack is a list of tasks, so
whatever is left to do, destructors and unwinding included, is part of the world.
-/

namespace Switchyard

/-- The place of an object in the heap. -/
abbrev Ref := Nat

/-- A reference that may be null. -/
abbrev Obj := Option Ref

abbrev HubId := Nat

/-- What a switch hands over. -/
abbrev Payload := Except Failure (Args Obj)

/-- A run function with what it captured. Those of the rally program know whom they play to. -/
inductive RunFn where
  | script (body : String) (canaries : List Script.Canary) (held : List Ref)
  | pong (main : Ref)
  | ping (pong : Ref)
  deriving Inhabited

namespace RunFn

/-- The references that it owns, in the order they were taken in. -/
def held : RunFn → List Ref
  | script _ _ held => held
  | pong r | ping r => [r]

def canaries : RunFn → List Script.Canary
  | script _ canaries _ => canaries
  | pong _ | ping _ => []

end RunFn

structure Greenlet where
  id : GreenletId
  thread : ThreadId
  isMain : Bool
  /-- The hub it was made on. -/
  hub : HubId
  state : RunState
  parent : Option Ref
  run : Option RunFn
  fiber : Option (Pinned FiberId)
  inbox : Option Payload

namespace Greenlet

/-- Stands in where a reference names no greenlet. -/
def absent : Greenlet := ⟨.none, 0, false, 0, .dead, none, none, none, none⟩

instance : Inhabited Greenlet := ⟨absent⟩

def hasStack (g : Greenlet) : Bool := g.fiber.isSome

def isActive (g : Greenlet) : Bool := g.hasStack || (g.isMain && !g.state.isDead)

end Greenlet

inductive Value where
  | unit
  | bool (b : Bool)
  | i32 (n : Int32)
  | u32 (n : UInt32)
  | i64 (n : Int64)
  | u64 (n : UInt64)
  | f64 (bits : UInt64)
  | str (s : String)
  | literal (s : String)
  | failure (f : Failure)
  | canary (c : Script.Canary)
  | phoenix (name : String) (lives : Nat)
  | greenlet (g : Greenlet)
  deriving Inhabited

def Value.kind : Value → Kind
  | unit => .unit | bool _ => .bool | i32 _ => .i32 | u32 _ => .u32 | i64 _ => .i64
  | u64 _ => .u64 | f64 _ => .f64 | str _ => .str | literal _ => .literal
  | failure _ => .failure | canary _ => .canary | phoenix .. => .phoenix
  | greenlet g => if g.isMain then .mainGreenlet else .greenlet

structure Object where
  count : Nat
  value : Value
  deriving Inhabited

/-- What a fiber leaves for its driver when it gives control back. -/
inductive Outgoing where
  | switch (target : Ref) (p : Payload)
  | result (p : Payload)
  deriving Inhabited

structure Stats where
  switches : Nat := 0
  started : Nat := 0
  finished : Nat := 0
  released : Nat := 0
  deferred : Nat := 0
  drained : Nat := 0
  abandoned : Nat := 0
  deriving DecidableEq, Repr, Inhabited

/-- The bookkeeping of one thread's greenlets. -/
structure Hub where
  thread : ThreadId
  main : Ref
  current : Ref
  runningFiber : Bool := false
  releasing : Bool := false
  driving : Bool := false
  outgoing : Option Outgoing := none
  /-- Greenlets to release at the next safe point. -/
  deferred : List Ref := []
  /-- Greenlets dropped by other threads. -/
  foreign : List Ref := []
  /-- Greenlets made here and not freed; not counted references. -/
  nodes : List Ref := []
  stats : Stats := {}
  closed : Bool := false
  /-- The references of the hub, `main` and `current` among them, were given up. -/
  disposed : Bool := false
  /-- Owners of the hub. The last one to leave disposes of it. -/
  holders : Nat := 1
  deriving Inhabited

namespace Hub

/-- Code of the original stack is running that must not start a switch. -/
def isBusy (h : Hub) : Bool := h.releasing || (h.driving && !h.runningFiber)

def waiting (h : Hub) : Nat := h.deferred.length + h.foreign.length

end Hub

inductive Local where
  | handle (r : Ref)
  | object (o : Obj)
  | canary (c : Script.Canary)
  deriving Inhabited

/-- An activation of a list of steps. -/
structure Frame where
  /-- Owned values, the latest first. -/
  locals : List Local := []
  /-- What was received last. -/
  last : Args Obj := .empty
  /-- Errors of switches leave the frame. -/
  propagates : Bool := false
  /-- Events show the states of all handles. -/
  summarised : Bool := false
  deriving Inhabited

/-- How a list of steps ends early. -/
inductive Flow where
  | through
  | ret (a : Args Obj)
  | error (e : SwitchError)
  deriving Inhabited

/-- What arguments are built for. -/
inductive Purpose where
  | switch (target : Ref) (hub : Option String) (catches : Option Bool)
  | replaceLast
  | extendLast
  | ret
  deriving Inhabited

/-- Where the rally program stands; it owns the references it mentions. -/
inductive Rally where
  | start (rounds : Int64)
  /-- The original stack waits for the ball. -/
  | relayed (main pong ping : Ref)
  /-- The original stack waits for the end of pong. -/
  | stopped (main pong ping : Ref) (reply : Args Obj)
  | hit (main : Ref) (args : Args Obj)
  | hitBack (main : Ref) (args : Args Obj)
  | serve (pong : Ref) (args : Args Obj) (rounds left ball : Int64)
  | served (pong : Ref) (args : Args Obj) (rounds left ball : Int64)
  deriving Inhabited

/-- One piece of work on a control stack. A task owns the references that it mentions, except
where it says that it borrows them. -/
inductive Task where
  -- dropping
  | drop (r : Ref)
  | dropCanary (c : Script.Canary)
  | dropPinned (p : Pinned FiberId)
  /-- Lock, and destroy the value of an object that nothing refers to. -/
  | destroy (r : Ref)
  /-- The value of a freed object is gone: unlock and take its storage away. -/
  | reclaim (r : Ref)
  | unlock
  | unshare (f : FiberId)
  | settle (f : FiberId)
  | leaveHub (h : HubId)
  | dropHubFields (h : HubId)
  -- releasing stacks
  | release (h : HubId) (r : Ref)
  | released (h : HubId) (r : Ref)
  | drain (h : HubId)
  | teardown (h : HubId)
  | teardownQueues (h : HubId) (abandoned : Nat)
  | teardownCurrent (h : HubId) (abandoned : Nat)
  | teardownEnd (h : HubId) (main : Ref) (abandoned : Nat)
  -- switching
  /-- Borrows `target`. -/
  | switch (h : HubId) (target : Ref) (p : Payload)
  | deliver (p : Payload)
  | suspend (h : HubId) (f : FiberId)
  | resumed (h : HubId)
  | refuse (e : SwitchError)
  /-- Hand the outcome of a switch to the task below. -/
  | answer (outcome : Except SwitchError (Args Obj))
  | drive (h : HubId) (target : Ref) (p : Payload)
  | driveTarget (h : HubId) (target : Ref) (p : Payload)
  | driveKilled (h : HubId) (target : Ref) (p : Payload)
  | driveRefused (h : HubId) (target : Ref) (e : SwitchError)
  | driveRegister (h : HubId) (target : Ref) (f : FiberId)
  | driveResume (h : HubId) (target : Ref) (f : FiberId)
  | driveBack (h : HubId) (target : Ref) (f : FiberId)
  | driveFinished (h : HubId) (target : Ref) (out : Option Outgoing)
  | driveSuspended (h : HubId) (target : Ref) (out : Option Outgoing)
  | driveMain (h : HubId) (target : Ref) (p : Payload)
  | endDriving (h : HubId)
  -- run functions
  | runBody (run : RunFn) (args : Args Obj)
  /-- The steps of a body are through; what its run function owns is dropped next. -/
  | bodyEnd (run : RunFn)
  | result (p : Payload)
  | entry (h : HubId) (f : FiberId)
  -- scripts
  | steps (rest : List Script.Step)
  | mainSteps (rest : List Script.Step)
  | mainGuard
  | loop (n : Nat) (steps : List Script.Step)
  | frame (f : Frame)
  | leave (flow : Flow)
  /-- A frame is gone but for what it received last. -/
  | hand (last : Args Obj) (flow : Flow)
  | nestEnd (how : Nesting)
  | dropEnd (name : String)
  /-- The end of a thread's outermost frame. -/
  | rootEnd
  | note (name : String) (result : List Datum)
  | build (acc : Args Obj) (positional : List Script.ValueSpec)
      (keywords : List (String × Script.ValueSpec)) (purpose : Purpose)
  | switched (name : String) (target : Ref) (catches : Option Bool)
  | sortFrom (n : Nat)
  | join (t : ThreadId)
  -- endings
  | endHandles
  | endHandle (name : String)
  | endObjects
  | endOuts
  | endStats
  | endHubs
  | exitThread
  | exitSlots
  -- the rally program
  | rally (r : Rally)
  -- unwinding
  | fail (p : Panic)
  deriving Inhabited

inductive Slot (α : Type) where
  | vacant
  | full (a : α)
  /-- Past its end at thread exit. -/
  | gone
  deriving Inhabited, Repr

namespace Slot

variable {α : Type}

def get? : Slot α → Option α
  | full a => some a
  | _ => none

def isFull (s : Slot α) : Bool := s.get?.isSome

def isGone : Slot α → Bool
  | gone => true
  | _ => false

end Slot

inductive SlotName where
  | pending | home
  deriving DecidableEq, Repr, Inhabited

structure Thread where
  stack : List (Item Task) := []
  pending : Slot Ref := .vacant
  home : Slot HubId := .vacant
  /-- Slots in use, the one that was used first at the end. They end in this order. -/
  touched : List SlotName := []
  /-- Panics under way. -/
  panics : Nat := 0
  /-- The panic that ended the thread. -/
  panicked : Option Panic := none
  parent : ThreadId := 0
  deriving Inhabited

structure World where
  env : Environment
  log : Log
  ids : IdSource := .start
  lock : Lock := {}
  heap : Array (Option Object) := #[]
  hubs : Array Hub := #[]
  fibers : Array (Fiber Task) := #[]
  lost : List (List (Item Task)) := []
  threads : Array Thread := #[{}]
  active : ThreadId := 1
  bodies : List (String × List Script.Step) := []
  /-- Named handles, objects, out-parameters and hubs. -/
  handles : Table Ref := .empty
  objects : Table Obj := .empty
  outs : Table Obj := .empty
  named : Table HubId := .empty
  fuel : Nat := 500
  /-- Events, latest first. -/
  events : List Datum := []
  /-- Where the events of the first thread's exit start. -/
  exitFrom : Option Nat := none
  /-- Lines printed by the rally program, latest first. -/
  printed : List String := []
  deriving Inhabited

end Switchyard
