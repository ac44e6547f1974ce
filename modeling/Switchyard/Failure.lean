import Switchyard.Config
import Switchyard.Datum
import Switchyard.Greenlet.Id

/-!
# Failures and switch errors

A `Failure` travels across switches. A `SwitchError` is the cause for which an operation was
refused, or a failure that arrived. The wording of either is given once, here.
-/

namespace Switchyard

inductive FailureKind where
  | raised | panic | exit | error
  deriving DecidableEq, Repr, Inhabited

def FailureKind.name : FailureKind → String
  | raised => "raised" | panic => "panic" | exit => "exit" | error => "error"

structure Failure where
  kind : FailureKind
  message : String
  deriving DecidableEq, Repr, Inhabited

namespace Failure

def exit : Failure := ⟨.exit, "greenlet exit"⟩

/-- The marker that ends a greenlet quietly. -/
def isExit (f : Failure) : Bool := f.kind == .exit

def text (f : Failure) : String :=
  match f.kind with
  | .raised => f.message
  | .panic => "panic: " ++ f.message
  | .exit => "GreenletExit"
  | .error => "error: " ++ f.message

def datum (f : Failure) : Datum := .texts [f.kind.name, f.message]

end Failure

/-- What a panic carries: a text, a value that is no text, or the order to unwind a stack. -/
inductive Panic where
  | text (s : String)
  | opaqueValue
  | cancel
  deriving DecidableEq, Repr, Inhabited

/-- A panic with no text of its own has a fixed one. -/
def Panic.message : Panic → String
  | text s => s
  | opaqueValue | cancel => "greenlet panicked"

def Failure.ofPanic (p : Panic) : Failure := ⟨.panic, p.message⟩

inductive SwitchError where
  | typeMismatch (expected found : String)
  | crossThreadSwitch (target : GreenletId)
  | deadTarget (target : GreenletId)
  | propagated (f : Failure)
  | crossThreadParent (parent : GreenletId)
  | parentCycle (node : GreenletId)
  | invalidParent (why : String)
  | nestingTooDeep (limit : Nat)
  | threadExited
  | switchDuringRelease
  | alreadyInitialized
  | invalidConfig (why : String)
  deriving DecidableEq, Repr, Inhabited

namespace SwitchError

def kindName : SwitchError → String
  | typeMismatch .. => "TypeMismatch"
  | crossThreadSwitch _ => "CrossThreadSwitch"
  | deadTarget _ => "DeadTargetSwitch"
  | propagated _ => "PropagatedFailure"
  | crossThreadParent _ => "CrossThreadParent"
  | parentCycle _ => "ParentCycle"
  | invalidParent _ => "InvalidParent"
  | nestingTooDeep _ => "NestingTooDeep"
  | threadExited => "ThreadExited"
  | switchDuringRelease => "SwitchDuringRelease"
  | alreadyInitialized => "AlreadyInitialized"
  | invalidConfig _ => "InvalidConfig"

def message : SwitchError → String
  | typeMismatch expected found => "expected a " ++ expected ++ ", got " ++ found
  | crossThreadSwitch t => "cannot switch to greenlet " ++ t.text ++ " on a different thread"
  | deadTarget t => "cannot switch to dead greenlet " ++ t.text
  | propagated f => f.text
  | crossThreadParent p => "parent greenlet " ++ p.text ++ " is on a different thread"
  | parentCycle n => "setting parent of greenlet " ++ n.text ++ " would create a cycle"
  | invalidParent why => "invalid parent: " ++ why
  | nestingTooDeep limit => "greenlet parent chain exceeds " ++ toString limit ++ " links"
  | threadExited => "owning thread has exited"
  | switchDuringRelease => "cannot switch while a greenlet stack is being released"
  | alreadyInitialized => "runtime already initialized"
  | invalidConfig why => "invalid configuration: " ++ why

def mainParent : SwitchError := invalidParent "cannot reparent a main greenlet"

def ofRefusal : ConfigCell.Refusal → SwitchError
  | .invalid f => invalidConfig f.reason
  | .alreadyFixed => alreadyInitialized

/-- An error written out; a propagated failure is shown as well. -/
def datum (e : SwitchError) : Datum :=
  let fields := [("error", .text e.kindName), ("message", .text e.message)]
  match e with
  | propagated f => .record (fields ++ [("failure", f.datum)])
  | _ => .record fields

end SwitchError

/-- The failure that stands for an error: a propagated failure is itself. -/
def Failure.ofError : SwitchError → Failure
  | .propagated f => f
  | e => ⟨.error, e.kindName ++ ": " ++ e.message⟩

theorem Failure.ofError_propagated (f : Failure) : ofError (.propagated f) = f := rfl

theorem Failure.kind_ofError {e : SwitchError} (h : ∀ f, e ≠ .propagated f) :
    (ofError e).kind = .error := by
  cases e <;> first | rfl | exact absurd rfl (h _)

end Switchyard
