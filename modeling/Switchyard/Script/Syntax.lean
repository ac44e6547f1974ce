import Switchyard.Failure

/-!
# Scripts

A script is what greenlets, threads and destructors run: short lists of steps on named handles,
objects and thread states. Every step leaves one event that is named after it.
-/

namespace Switchyard

/-- The kinds of host objects. -/
inductive Kind where
  | unit | bool | i32 | u32 | i64 | u64 | f64 | str
  /-- Text that is part of the program; its kind has the name of `str` but is another one. -/
  | literal
  | failure | canary | phoenix | greenlet | mainGreenlet
  deriving DecidableEq, Repr, Inhabited

namespace Kind

def name : Kind → String
  | unit => "none" | bool => "bool" | i32 => "i32" | u32 => "u32" | i64 => "i64" | u64 => "u64"
  | f64 => "f64" | str | literal => "str" | failure => "failure" | canary => "canary"
  | phoenix => "phoenix" | greenlet => "greenlet" | mainGreenlet => "main greenlet"

/-- The kind that an object of this kind may be viewed as. -/
def family : Kind → Kind
  | mainGreenlet => greenlet
  | k => k

end Kind

/-- How an object is asked for its kind. -/
inductive View where
  | exact | family | attempt | header | test
  deriving DecidableEq, Repr, Inhabited

/-- A positional index or a keyword. -/
inductive Selector where
  | index (i : Nat)
  | keyword (name : String)
  deriving DecidableEq, Repr, Inhabited

/-- What a scripted panic carries. -/
inductive PanicMode where
  | text | opaqueValue
  deriving DecidableEq, Repr, Inhabited

/-- What a nested frame stops, and whether it leaves an event. -/
inductive Nesting where
  | call
  /-- Errors stop here. -/
  | attempt
  /-- Panics stop here; `again` sends them on after the event. -/
  | attemptPanic (again : Bool)
  /-- A plain nested frame without an event. -/
  | deep
  deriving DecidableEq, Repr, Inhabited

namespace Script

mutual

/-- A named value that leaves an event when it is destroyed and may then run steps. -/
inductive Canary where
  | mk (name : String) (onDrop : List Step)

inductive ValueSpec where
  | unit
  | bool (b : Bool)
  | i32 (n : Int32)
  | u32 (n : UInt32)
  | i64 (n : Int64)
  | u64 (n : UInt64)
  | f64 (bits : UInt64)
  | str (s : String)
  | literal (s : String)
  | failure (f : Failure)
  | canary (c : Canary)
  | phoenix (name : String) (lives : Nat)
  | null
  | greenlet (handle : String)
  | object (name : String)
  /-- A new reference to a received value. -/
  | received (at_ : Selector)
  /-- A received number plus `n`. -/
  | increment (i : Nat) (n : Int64)

inductive ArgsSpec where
  /-- What was received last. -/
  | received
  | built (positional : List ValueSpec) (keywords : List (String × ValueSpec))

inductive Step where
  | create (as_ body : String) (caps : List Canary) (holds : List String)
      (parent hub : Option String)
  | switch (h : String) (args : ArgsSpec) (hub : Option String) (catches : Option Bool)
  | throw (h : String) (f : Failure) (hub : Option String) (catches : Option Bool)
  | drop (h : String)
  | clone (h as_ : String)
  | hold (h : String)
  | keep (h : String)
  | canary (c : Canary)
  | pop
  | setParent (h p : String)
  | info (h : String)
  | refs (h : String)
  | eq (h b : String)
  | owner (h : String)
  | debug (h : String) (hub : Option String)
  | current
  | bind (at_ : Selector) (as_ : String) (catches : Option Bool)
  | stats (hub : Option String)
  | counts (hub : Option String)
  | collect (hub : Option String)
  | teardown (hub : Option String)
  | newHub (as_ : String)
  | dropHub (hub : String)
  | hubMain (as_ : String) (hub : Option String)
  | hubCurrent (as_ : String) (hub : Option String)
  | registerSwitch (h : String) (hub : Option String)
  | defer (h : String) (hub : Option String)
  | hasHub
  | lock
  | pending
  | pendingTake
  | pendingClear
  | pendingSet (f : Failure)
  | pendingSetError (e : SwitchError)
  | pendingFetch (out : String)
  | object (as_ : String) (v : ValueSpec)
  | objectClone (o as_ : String)
  | objectReborrow (o as_ : String)
  | objectDrop (o : String)
  | objectHold (o : String)
  | objectInfo (o : String)
  | objectEq (o b : String)
  | objectGet (o : String) (kind : Option Kind) (view : View)
  | objectInto (o : String) (kind : Option Kind) (family : Bool)
  | derefNull
  | outPut (o out : String)
  | outTake (out as_ : String)
  | outInfo (out : String)
  | outDrop (out : String)
  | args (a : ArgsSpec)
  | argsAdd (positional : List ValueSpec) (keywords : List (String × ValueSpec))
  | argsInfo
  | argsGet (at_ : Selector) (kind : Option Kind)
  | argsSplit
  | ret (a : ArgsSpec)
  | raise (f : Failure)
  | raiseError (e : SwitchError) (register : Bool)
  | panic (message : String) (mode : PanicMode)
  | nest (how : Nesting) (steps : List Step)
  | deep (n : Nat) (steps : List Step)
  | loop (n : Nat) (steps : List Step)
  | ifDead (h : String) (yes no : List Step)
  | note (d : Datum)
  | spawn (steps : List Step)
  | unknown (name : String)

end

instance : Inhabited Step := ⟨.pop⟩
instance : Inhabited Canary := ⟨.mk "" []⟩
instance : Inhabited ValueSpec := ⟨.unit⟩
instance : Inhabited ArgsSpec := ⟨.received⟩

def Canary.name : Canary → String
  | mk name _ => name

def Canary.onDrop : Canary → List Step
  | mk _ steps => steps

def nestingName : Nesting → String
  | .call => "call" | .attempt => "try" | .attemptPanic _ => "try_panic" | .deep => "deep"

def Step.name : Step → String
  | create .. => "new" | switch .. => "switch" | throw .. => "throw" | drop .. => "drop"
  | clone .. => "clone" | hold .. => "hold" | keep .. => "keep" | canary .. => "canary"
  | pop => "pop" | setParent .. => "set_parent" | info .. => "info" | refs .. => "refs"
  | eq .. => "eq" | owner .. => "owner" | debug .. => "debug" | current => "cur"
  | bind .. => "bind" | stats .. => "stats" | counts .. => "counts" | collect .. => "collect"
  | teardown .. => "teardown" | newHub .. => "ts_new" | dropHub .. => "ts_drop"
  | hubMain .. => "ts_main" | hubCurrent .. => "ts_cur" | registerSwitch .. => "reg_switch"
  | defer .. => "defer" | hasHub => "has_ts" | lock => "gil" | pending => "pend"
  | pendingTake => "pend_take" | pendingClear => "pend_clear" | pendingSet .. => "pend_set"
  | pendingSetError .. => "pend_set_err" | pendingFetch .. => "pend_fetch"
  | object .. => "obj" | objectClone .. => "obj_clone" | objectReborrow .. => "obj_reborrow"
  | objectDrop .. => "obj_drop" | objectHold .. => "obj_hold" | objectInfo .. => "obj_info"
  | objectEq .. => "obj_eq" | objectGet .. => "obj_get" | objectInto .. => "obj_into"
  | derefNull => "obj_deref_null" | outPut .. => "out_put" | outTake .. => "out_take"
  | outInfo .. => "out_info" | outDrop .. => "out_drop" | args .. => "args"
  | argsAdd .. => "args_add" | argsInfo => "args_info" | argsGet .. => "args_get"
  | argsSplit => "args_split" | ret .. => "ret" | raise .. => "raise"
  | raiseError .. => "raise_err" | panic .. => "panic" | nest how _ => nestingName how
  | deep .. => "deep" | loop .. => "loop" | ifDead .. => "if_dead" | note .. => "note"
  | spawn .. => "spawn" | unknown name => name

end Script

end Switchyard
